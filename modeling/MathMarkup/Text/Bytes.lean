import MathMarkup.Text.Location

/-!
# Texts as bytes

Offsets count the bytes of a text in UTF-8, and not every offset lies between two characters.

* `utf8` — the bytes of a text.
* `IsBoundary` — an offset between two characters, or at an end of the text.
* `splitAtByte?`, `slice?` — parts of a text, cut at byte offsets. No character is cut in two.
* `lossyText` — the text of any bytes, with a replacement character where they spell none.
* `Location.ofBytes` — the place of an offset, counted in the bytes.
-/

namespace MathMarkup.Text

/-- The bytes of a text in UTF-8. -/
def utf8 (text : List Char) : List UInt8 := text.flatMap String.utf8EncodeChar

@[simp] theorem utf8_nil : utf8 [] = [] := rfl

theorem utf8_cons (c : Char) (text : List Char) :
    utf8 (c :: text) = String.utf8EncodeChar c ++ utf8 text := rfl

@[simp] theorem utf8_append (a b : List Char) : utf8 (a ++ b) = utf8 a ++ utf8 b :=
  List.flatMap_append

@[simp] theorem length_utf8 (text : List Char) : (utf8 text).length = byteLength text := by
  induction text with
  | nil => rfl
  | cons c text ih => rw [utf8_cons, List.length_append, ih, String.length_utf8EncodeChar, byteLength]

/-- Between two characters of the text, or at one of its ends. -/
def IsBoundary (text : List Char) (offset : Nat) : Prop :=
  ∃ before after, text = before ++ after ∧ byteLength before = offset

theorem isBoundary_zero (text : List Char) : IsBoundary text 0 := ⟨[], text, rfl, rfl⟩

theorem isBoundary_byteLength (before after : List Char) :
    IsBoundary (before ++ after) (byteLength before) :=
  ⟨before, after, rfl, rfl⟩

theorem isBoundary_end (text : List Char) : IsBoundary text (byteLength text) :=
  ⟨text, [], (List.append_nil text).symm, rfl⟩

theorem IsBoundary.le {text : List Char} {offset : Nat} (h : IsBoundary text offset) :
    offset ≤ byteLength text := by
  obtain ⟨before, after, rfl, rfl⟩ := h
  rw [byteLength_append]
  omega

/-- An offset between two characters of a part lies between two characters of the whole. -/
theorem IsBoundary.inside {part : List Char} {offset : Nat} (h : IsBoundary part offset)
    (before after : List Char) : IsBoundary (before ++ part ++ after) (byteLength before + offset) := by
  obtain ⟨front, back, rfl, rfl⟩ := h
  exact ⟨before ++ front, back ++ after, by simp, byteLength_append before front⟩

/-- The text before a byte offset and the text behind it, unless the offset lies within a character or
past the end. -/
def splitAtByte? : Nat → List Char → Option (List Char × List Char)
  | 0, text => some ([], text)
  | _ + 1, [] => none
  | n + 1, c :: text =>
    if c.utf8Size ≤ n + 1 then
      (splitAtByte? (n + 1 - c.utf8Size) text).map fun (before, after) => (c :: before, after)
    else none

theorem splitAtByte?_eq_some_iff {n : Nat} {text before after : List Char} :
    splitAtByte? n text = some (before, after) ↔
      text = before ++ after ∧ byteLength before = n := by
  induction text generalizing n before with
  | nil =>
    cases n with
    | zero =>
      cases before <;> simp [splitAtByte?, byteLength, eq_comm]
    | succ n =>
      cases before <;> simp [splitAtByte?, byteLength]
  | cons c text ih =>
    have hsize := c.utf8Size_pos
    cases n with
    | zero =>
      cases before with
      | nil => simp [splitAtByte?, byteLength, eq_comm]
      | cons d before =>
        have := d.utf8Size_pos
        simp only [splitAtByte?, byteLength, Option.some.injEq, Prod.mk.injEq]
        constructor
        · rintro ⟨h, -⟩
          cases h
        · rintro ⟨-, h⟩
          omega
    | succ n =>
      cases before with
      | nil => simp [splitAtByte?, byteLength]
      | cons d before =>
        simp only [splitAtByte?, byteLength, List.cons_append, List.cons.injEq]
        by_cases hc : c.utf8Size ≤ n + 1
        · simp only [hc, if_true, Option.map_eq_some_iff, Prod.exists, Prod.mk.injEq,
            List.cons.injEq]
          constructor
          · rintro ⟨front, back, hsplit, ⟨rfl, rfl⟩, rfl⟩
            obtain ⟨rfl, hlength⟩ := ih.1 hsplit
            exact ⟨⟨rfl, rfl⟩, by omega⟩
          · rintro ⟨⟨rfl, rfl⟩, hlength⟩
            exact ⟨before, after, ih.2 ⟨rfl, by omega⟩, ⟨rfl, rfl⟩, rfl⟩
        · simp only [hc, if_false, reduceCtorEq, false_iff]
          rintro ⟨⟨rfl, -⟩, hlength⟩
          omega

/-- A text is split at the offsets between its characters. -/
theorem isSome_splitAtByte?_iff {n : Nat} {text : List Char} :
    (splitAtByte? n text).isSome ↔ IsBoundary text n := by
  simp only [Option.isSome_iff_exists, Prod.exists, splitAtByte?_eq_some_iff, IsBoundary]

instance (text : List Char) (n : Nat) : Decidable (IsBoundary text n) :=
  decidable_of_iff _ isSome_splitAtByte?_iff

theorem splitAtByte?_byteLength (before after : List Char) :
    splitAtByte? (byteLength before) (before ++ after) = some (before, after) :=
  splitAtByte?_eq_some_iff.2 ⟨rfl, rfl⟩

/-- Two texts that start alike are parted alike by their bytes. -/
theorem append_inj_of_byteLength_eq {a b x y : List Char} (h : a ++ x = b ++ y)
    (hlength : byteLength a = byteLength b) : a = b ∧ x = y := by
  have hsplit := splitAtByte?_byteLength a x
  rw [h, hlength, splitAtByte?_byteLength] at hsplit
  obtain ⟨rfl, rfl⟩ := Prod.mk.inj (Option.some.inj hsplit)
  exact ⟨rfl, rfl⟩

/-- The text between two byte offsets, unless one of them lies within a character or past the end, or
they are out of order. -/
def slice? (start stop : Nat) (text : List Char) : Option (List Char) :=
  if start ≤ stop then do
    let (_, behind) ← splitAtByte? start text
    let (between, _) ← splitAtByte? (stop - start) behind
    pure between
  else none

theorem slice?_eq_some_iff {start stop : Nat} {text between : List Char} :
    slice? start stop text = some between ↔
      ∃ before after, text = before ++ between ++ after ∧ byteLength before = start ∧
        start + byteLength between = stop := by
  unfold slice?
  by_cases hle : start ≤ stop
  · simp only [hle, if_true, Option.bind_eq_bind, Option.pure_def, Option.bind_eq_some_iff,
      Prod.exists, splitAtByte?_eq_some_iff, Option.some.injEq]
    constructor
    · rintro ⟨before, behind, ⟨rfl, hbefore⟩, _, after, ⟨rfl, hbetween⟩, rfl⟩
      exact ⟨before, after, (List.append_assoc _ _ _).symm, hbefore, by omega⟩
    · rintro ⟨before, after, rfl, hbefore, hbetween⟩
      exact ⟨before, between ++ after, ⟨List.append_assoc _ _ _, hbefore⟩, between, after,
        ⟨rfl, by omega⟩, rfl⟩
  · simp only [hle, if_false, reduceCtorEq, false_iff]
    rintro ⟨before, after, -, -, hstop⟩
    omega

/-- The text between two of its parts. -/
theorem slice?_append (before between after : List Char) :
    slice? (byteLength before) (byteLength before + byteLength between)
      (before ++ between ++ after) = some between :=
  slice?_eq_some_iff.2 ⟨before, after, rfl, rfl, rfl⟩

/-! ## Decoding any bytes -/

/-- A byte that goes on with a character. -/
def isContinuation (b : UInt8) : Bool := 0x80 ≤ b && b ≤ 0xBF

/-- The second byte can stand behind the first one in a character of three or four bytes. -/
def goesOn (first second : UInt8) : Bool :=
  if first = 0xE0 then 0xA0 ≤ second && second ≤ 0xBF
  else if first = 0xED then 0x80 ≤ second && second ≤ 0x9F
  else if first = 0xF0 then 0x90 ≤ second && second ≤ 0xBF
  else if first = 0xF4 then 0x80 ≤ second && second ≤ 0x8F
  else 0xE1 ≤ first && first ≤ 0xF3 && isContinuation second

/-- How many bytes one replacement character stands for: as many as a character could start with, but
one at least. -/
def brokenLength : List UInt8 → Nat
  | first :: second :: rest =>
    if goesOn first second then
      if 0xF0 ≤ first && rest.head?.any isContinuation then 3 else 2
    else 1
  | _ => 1

/-- The text that the bytes spell. Where they spell no character, a replacement character stands. -/
def lossyText (bytes : List UInt8) : List Char :=
  match bytes with
  | [] => []
  | b :: rest =>
    match (b :: rest).toByteArray.utf8DecodeChar? 0 with
    | some c => c :: lossyText (rest.drop (c.utf8Size - 1))
    | none => '\uFFFD' :: lossyText (rest.drop (brokenLength (b :: rest) - 1))
termination_by bytes.length
decreasing_by all_goals (simp only [List.length_drop, List.length_cons]; omega)

/-! ## Places -/

/-- The byte that ends a line. -/
def newlineByte : UInt8 := 0x0A

/-- The start of the last line of some bytes: behind their last newline. -/
def lastLineStart (bytes : List UInt8) : Nat :=
  match bytes.reverse.findIdx? (· = newlineByte) with
  | none => 0
  | some behind => bytes.length - behind

/-- The place of an offset, counted in the bytes: newlines give the line, and the characters behind the
last of them the column. An offset past the end counts as the end. -/
def Location.ofBytes (source : List UInt8) (offset : Nat) : Location :=
  let before := source.take (min offset source.length)
  ⟨before.count newlineByte + 1, (lossyText (before.drop (lastLineStart before))).length + 1⟩

end MathMarkup.Text
