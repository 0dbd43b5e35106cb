import MathMarkup.Text.Bytes

/-!
# Texts and their bytes

The bytes of a text determine it, and a search among them finds what a search among the characters
finds.

* `utf8_prefix_iff` — the bytes of a text start with those of another exactly where the texts do.
* `utf8_prefix_drop_iff` — the bytes of a mark stand only where the mark stands: no character starts
  within another one.
* `mem_utf8EncodeChar_iff` — the byte of an ASCII character stands in no other character.
* `lossyText_utf8` — nothing is lost of a text.
-/

namespace MathMarkup.Text

variable {c d : Char} {text mark before after : List Char} {n : Nat}

/-! ## One character -/

/-- No character's bytes are the start of another's. -/
theorem utf8EncodeChar_append_inj {x y : List UInt8}
    (h : String.utf8EncodeChar c ++ x = String.utf8EncodeChar d ++ y) : c = d ∧ x = y := by
  have hc := ByteArray.utf8DecodeChar?_utf8EncodeChar_append (b := x.toByteArray) (c := c)
  have hd := ByteArray.utf8DecodeChar?_utf8EncodeChar_append (b := y.toByteArray) (c := d)
  rw [← List.toByteArray_append] at hc hd
  rw [h, hd] at hc
  obtain rfl := Option.some.inj hc
  exact ⟨rfl, List.append_cancel_left h⟩

/-- A character of several bytes has no ASCII byte. -/
theorem le_of_mem_utf8EncodeChar (hc : c.utf8Size ≠ 1) {b : UInt8}
    (hb : b ∈ String.utf8EncodeChar c) : 0x80 ≤ b := by
  have hor : ∀ x y : UInt8, 0x80 ≤ y → 0x80 ≤ x ||| y := by
    intro x y hy
    rw [UInt8.le_iff_toNat_le] at hy ⊢
    rw [UInt8.toNat_or]
    exact Nat.le_trans hy Nat.right_le_or
  have hpos := c.utf8Size_pos
  have hfour := c.utf8Size_le_four
  have hsize : c.utf8Size = 2 ∨ c.utf8Size = 3 ∨ c.utf8Size = 4 := by omega
  rcases hsize with h | h | h
  · rw [String.utf8EncodeChar_eq_cons_cons h] at hb
    simp only [List.mem_cons, List.not_mem_nil, or_false] at hb
    rcases hb with rfl | rfl <;> exact hor _ _ (by decide)
  · rw [String.utf8EncodeChar_eq_cons_cons_cons h] at hb
    simp only [List.mem_cons, List.not_mem_nil, or_false] at hb
    rcases hb with rfl | rfl | rfl <;> exact hor _ _ (by decide)
  · rw [String.utf8EncodeChar_eq_cons_cons_cons_cons h] at hb
    simp only [List.mem_cons, List.not_mem_nil, or_false] at hb
    rcases hb with rfl | rfl | rfl | rfl <;> exact hor _ _ (by decide)

/-- The byte of an ASCII character stands in no other character. -/
theorem mem_utf8EncodeChar_iff {b : UInt8} (hd : String.utf8EncodeChar d = [b]) (hb : b < 0x80) :
    b ∈ String.utf8EncodeChar c ↔ c = d := by
  constructor
  · intro hmem
    by_cases hc : c.utf8Size = 1
    · rw [String.utf8EncodeChar_eq_singleton hc, List.mem_singleton] at hmem
      have heq : String.utf8EncodeChar c ++ [] = String.utf8EncodeChar d ++ [] := by
        rw [String.utf8EncodeChar_eq_singleton hc, hd, hmem]
      exact (utf8EncodeChar_append_inj heq).1
    · exact absurd (le_of_mem_utf8EncodeChar hc hmem) (UInt8.not_le.2 hb)
  · rintro rfl
    rw [hd]
    exact List.mem_singleton_self b

/-! ## Texts -/

/-- The bytes of a text start with those of another exactly where the texts do. -/
theorem utf8_prefix_iff : utf8 mark <+: utf8 text ↔ mark <+: text := by
  constructor
  · intro h
    induction mark generalizing text with
    | nil => exact List.nil_prefix
    | cons c mark ih =>
      obtain ⟨rest, hrest⟩ := h
      rw [utf8_cons, List.append_assoc] at hrest
      cases text with
      | nil =>
        have hlength := congrArg List.length hrest
        simp only [utf8_nil, List.length_append, String.length_utf8EncodeChar,
          List.length_nil] at hlength
        have := c.utf8Size_pos
        omega
      | cons d text =>
        obtain ⟨rfl, heq⟩ := utf8EncodeChar_append_inj hrest
        exact (List.cons_prefix_cons).2 ⟨rfl, ih ⟨rest, heq⟩⟩
  · rintro ⟨rest, rfl⟩
    exact ⟨utf8 rest, (utf8_append mark rest).symm⟩

theorem drop_utf8_append (before after : List Char) :
    (utf8 (before ++ after)).drop (byteLength before) = utf8 after := by
  rw [utf8_append, ← length_utf8, List.drop_left]

theorem take_utf8_append (before after : List Char) :
    (utf8 (before ++ after)).take (byteLength before) = utf8 before := by
  rw [utf8_append, ← length_utf8, List.take_left]

/-- A byte that starts a character stands behind whole characters. -/
theorem isBoundary_of_firstByte {b : UInt8} (h : (utf8 text)[n]? = some b)
    (hb : b.IsUTF8FirstByte) : IsBoundary text n := by
  induction text generalizing n with
  | nil => cases h
  | cons c text ih =>
    rw [utf8_cons] at h
    by_cases hn : n < (String.utf8EncodeChar c).length
    · rw [List.getElem?_append_left hn, List.getElem?_eq_getElem hn, Option.some.injEq] at h
      rw [← h, UInt8.isUTF8FirstByte_getElem_utf8EncodeChar] at hb
      subst hb
      exact isBoundary_zero _
    · rw [Nat.not_lt] at hn
      rw [List.getElem?_append_right hn] at h
      have hinside := (ih h).inside [c] []
      rw [List.singleton_append, List.append_nil] at hinside
      rw [String.length_utf8EncodeChar] at hn hinside
      rwa [show byteLength [c] + (n - c.utf8Size) = n by simp only [byteLength]; omega] at hinside

/-- **The bytes of a mark stand only where the mark stands**, between two characters. -/
theorem utf8_prefix_drop_iff (hmark : mark ≠ []) :
    utf8 mark <+: (utf8 text).drop n ↔
      ∃ before after, text = before ++ mark ++ after ∧ byteLength before = n := by
  constructor
  · intro h
    obtain ⟨c, rest, rfl⟩ := List.exists_cons_of_ne_nil hmark
    have hpos : 0 < (String.utf8EncodeChar c).length := by
      rw [String.length_utf8EncodeChar]
      exact c.utf8Size_pos
    have hfirst : (utf8 text)[n]? = some (String.utf8EncodeChar c)[0] := by
      obtain ⟨behind, hbehind⟩ := h
      have hget : ((utf8 text).drop n)[0]? = some (String.utf8EncodeChar c)[0] := by
        rw [← hbehind, utf8_cons, List.append_assoc, List.getElem?_append_left hpos,
          List.getElem?_eq_getElem hpos]
      rwa [List.getElem?_drop, Nat.add_zero] at hget
    obtain ⟨before, behind, rfl, rfl⟩ := isBoundary_of_firstByte hfirst
      (UInt8.isUTF8FirstByte_getElem_utf8EncodeChar.2 rfl)
    rw [drop_utf8_append, utf8_prefix_iff] at h
    obtain ⟨after, rfl⟩ := h
    exact ⟨before, after, (List.append_assoc _ _ _).symm, rfl⟩
  · rintro ⟨before, after, rfl, rfl⟩
    rw [List.append_assoc, drop_utf8_append, utf8_prefix_iff]
    exact List.prefix_append mark after

/-- The last byte of a text is that of an ASCII character where this character is the last one. -/
theorem getLast?_utf8_eq_some_iff {b : UInt8} (hd : String.utf8EncodeChar d = [b]) (hb : b < 0x80) :
    (utf8 text).getLast? = some b ↔ text.getLast? = some d := by
  rcases List.eq_nil_or_concat text with rfl | ⟨front, c, rfl⟩
  · simp
  · rw [List.concat_eq_append, List.getLast?_concat, utf8_append, utf8_cons, utf8_nil,
      List.append_nil, List.getLast?_append,
      Option.or_of_isSome (List.getLast?_isSome.2 String.utf8EncodeChar_ne_nil), Option.some.injEq]
    constructor
    · intro hlast
      exact (mem_utf8EncodeChar_iff hd hb).1 (List.mem_of_getLast? hlast)
    · rintro rfl
      rw [hd, List.getLast?_singleton]

/-- The byte of an ASCII character is counted as often as the character. -/
theorem count_utf8 {b : UInt8} (hd : String.utf8EncodeChar d = [b]) (hb : b < 0x80)
    (text : List Char) : (utf8 text).count b = text.count d := by
  induction text with
  | nil => rfl
  | cons c text ih =>
    rw [utf8_cons, List.count_append, ih, List.count_cons, Nat.add_comm]
    congr 1
    by_cases hc : c = d
    · subst hc
      rw [hd]
      simp
    · rw [List.count_eq_zero.2 fun hmem => hc ((mem_utf8EncodeChar_iff hd hb).1 hmem)]
      simp [hc]

/-- Nothing is lost of a text. -/
theorem lossyText_utf8 (text : List Char) : lossyText (utf8 text) = text := by
  induction text with
  | nil => rw [utf8_nil, lossyText]
  | cons c text ih =>
    have hlength := String.length_utf8EncodeChar c
    obtain ⟨b, rest, hb⟩ := List.exists_cons_of_ne_nil (String.utf8EncodeChar_ne_nil (c := c))
    have hdecode := ByteArray.utf8DecodeChar?_utf8EncodeChar_append (b := (utf8 text).toByteArray)
      (c := c)
    rw [← List.toByteArray_append, hb, List.cons_append] at hdecode
    rw [utf8_cons, hb, List.cons_append, lossyText, hdecode]
    rw [hb, List.length_cons] at hlength
    dsimp only
    rw [← hlength, Nat.add_sub_cancel, List.drop_left, ih]

end MathMarkup.Text
