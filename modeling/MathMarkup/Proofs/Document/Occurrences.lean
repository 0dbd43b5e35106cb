import MathMarkup.Document.Delimiters

/-!
# Accepted occurrences of a mark

* `Accepted` — the places of a mark in a text that count, told by a scan from left to right in
  which an occurrence after a backslash is skipped as a whole.
* `find_isFirst` — the search finds the leftmost accepted occurrence, and finds nothing only where
  there is none.
* `FirstMark` — the leftmost accepted delimiter of the two displays, and `findFirst_eq_some_iff`,
  `findFirst_eq_none_iff` for the search for it.

A text is one segment of a document. A backslash before the segment does not count: the scan knows
no character in front of its text.
-/

namespace MathMarkup.Document

open MathMarkup.Markup

/-- The mark stands after `n` characters of the text. -/
def Occurs (mark text : List Char) (n : Nat) : Prop :=
  n ≤ text.length ∧ mark <+: text.drop n

/-- The character before the place is a backslash of the text. -/
def AfterBackslash (text : List Char) (n : Nat) : Prop :=
  0 < n ∧ text[n - 1]? = some '\\'

/-- An occurrence that is plain text. -/
def Skipped (skipEscaped : Bool) (mark text : List Char) (n : Nat) : Prop :=
  Occurs mark text n ∧ skipEscaped = true ∧ AfterBackslash text n

/-- A scan from `start` on comes to an occurrence at `n` that it does not skip. Where an occurrence
is skipped, the scan goes on behind all of it; everywhere else it goes on at the next character. -/
inductive AcceptedFrom (skipEscaped : Bool) (mark text : List Char) : Nat → Nat → Prop
  | here {n : Nat} : Occurs mark text n → ¬Skipped skipEscaped mark text n →
      AcceptedFrom skipEscaped mark text n n
  | behind {start n : Nat} : Skipped skipEscaped mark text start →
      AcceptedFrom skipEscaped mark text (start + mark.length) n →
      AcceptedFrom skipEscaped mark text start n
  | next {start n : Nat} : ¬Skipped skipEscaped mark text start →
      AcceptedFrom skipEscaped mark text (start + 1) n →
      AcceptedFrom skipEscaped mark text start n

/-- An occurrence that a scan of the whole text does not skip. -/
def Accepted (skipEscaped : Bool) (mark text : List Char) (n : Nat) : Prop :=
  AcceptedFrom skipEscaped mark text 0 n

/-- A search for the least number with a property. -/
def IsFirst (p : Nat → Prop) : Option Nat → Prop
  | some n => p n ∧ ∀ m, p m → n ≤ m
  | none => ∀ m, ¬p m

variable {skipEscaped : Bool} {mark text : List Char} {start n m : Nat}

theorem IsFirst.congr {p q : Nat → Prop} (hpq : ∀ n, p n ↔ q n) {result : Option Nat}
    (h : IsFirst p result) : IsFirst q result := by
  have hpq' : p = q := funext fun n => propext (hpq n)
  exact hpq' ▸ h

/-! ## The scan -/

theorem AcceptedFrom.occurs (h : AcceptedFrom skipEscaped mark text start n) :
    Occurs mark text n := by
  induction h with
  | here hoccurs _ => exact hoccurs
  | behind _ _ ih => exact ih
  | next _ _ ih => exact ih

theorem AcceptedFrom.le (h : AcceptedFrom skipEscaped mark text start n) : start ≤ n := by
  induction h with
  | here _ _ => exact Nat.le_refl _
  | behind _ _ ih => omega
  | next _ _ ih => omega

/-- The scan goes on behind an occurrence that is skipped. -/
theorem acceptedFrom_of_skipped (hskipped : Skipped skipEscaped mark text start) :
    AcceptedFrom skipEscaped mark text start n ↔
      AcceptedFrom skipEscaped mark text (start + mark.length) n := by
  constructor
  · intro h
    cases h with
    | here _ hnot => exact absurd hskipped hnot
    | behind _ h => exact h
    | next hnot _ => exact absurd hskipped hnot
  · exact .behind hskipped

/-- The scan goes on at the next character where the mark does not stand. -/
theorem acceptedFrom_of_not_occurs (hnot : ¬Occurs mark text start) :
    AcceptedFrom skipEscaped mark text start n ↔
      AcceptedFrom skipEscaped mark text (start + 1) n := by
  constructor
  · intro h
    cases h with
    | here hoccurs _ => exact absurd hoccurs hnot
    | behind hskipped _ => exact absurd hskipped.1 hnot
    | next _ h => exact h
  · exact .next fun hskipped => hnot hskipped.1

/-- No mark with a character in it is left at the end of the text. -/
theorem not_acceptedFrom_length (hmark : mark ≠ []) (hstart : text.length ≤ start) :
    ¬AcceptedFrom skipEscaped mark text start n := by
  intro h
  have hoccurs := h.occurs.2
  rw [List.drop_eq_nil_of_le (Nat.le_trans hstart h.le), List.prefix_nil] at hoccurs
  exact hmark hoccurs

theorem AcceptedFrom.not_skipped (h : AcceptedFrom skipEscaped mark text start n) :
    ¬Skipped skipEscaped mark text n := by
  induction h with
  | here _ hnot => exact hnot
  | behind _ _ ih => exact ih
  | next _ _ ih => exact ih

/-- A scan comes to every occurrence that does not overlap one that was skipped before. -/
theorem AcceptedFrom.reaches (h : AcceptedFrom skipEscaped mark text start n)
    (hclear : ∀ a, Skipped skipEscaped mark text a → a < m → a + mark.length ≤ m)
    (hstart : start ≤ m) (hm : m ≤ n) : AcceptedFrom skipEscaped mark text m n := by
  induction h with
  | here hoccurs hnot =>
    obtain rfl := Nat.le_antisymm hstart hm
    exact .here hoccurs hnot
  | behind hskipped hrest ih =>
    rcases Nat.eq_or_lt_of_le hstart with rfl | hlt
    · exact .behind hskipped hrest
    · exact ih (hclear _ hskipped hlt) hm
  | next hnot hrest ih =>
    rcases Nat.eq_or_lt_of_le hstart with rfl | hlt
    · exact .next hnot hrest
    · exact ih hlt hm

/-- An occurrence that is not skipped is accepted, if it overlaps none that is skipped before it. -/
theorem acceptedFrom_of_clear (hmark : mark ≠ []) (hoccurs : Occurs mark text n)
    (hnot : ¬Skipped skipEscaped mark text n)
    (hclear : ∀ a < n, Skipped skipEscaped mark text a → a + mark.length ≤ n) (hstart : start ≤ n) :
    AcceptedFrom skipEscaped mark text start n := by
  induction hdistance : n - start using Nat.strongRecOn generalizing start with
  | ind distance ih =>
    rcases Nat.eq_or_lt_of_le hstart with rfl | hlt
    · exact .here hoccurs hnot
    · have hlength := List.length_pos_iff.2 hmark
      by_cases hskipped : Skipped skipEscaped mark text start
      · have hbehind := hclear start hlt hskipped
        exact .behind hskipped (ih (n - (start + mark.length)) (by omega) hbehind rfl)
      · exact .next hskipped (ih (n - (start + 1)) (by omega) hlt rfl)

/-! ## The search -/

theorem occurs_length (seen : List Char) :
    Occurs mark (seen ++ text) seen.length ↔ mark <+: text := by
  simp [Occurs]

theorem afterBackslash_length_succ {seen : List Char} {c : Char} :
    AfterBackslash (seen ++ c :: text) (seen.length + 1) ↔ c = '\\' := by
  simp [AfterBackslash]

/-- The induction is on the characters ahead. The scan has come to the end of `seen`, except for
the `pass` characters of an occurrence that is skipped: it goes on behind those. -/
theorem findFrom_isFirst (hmark : mark ≠ []) {escaped : Bool} {pass : Nat} (seen : List Char)
    (hescaped : escaped = true ↔ AfterBackslash (seen ++ text) seen.length) :
    IsFirst (AcceptedFrom skipEscaped mark (seen ++ text) (seen.length + pass))
      (findFrom skipEscaped mark escaped pass seen.length text) := by
  induction text generalizing escaped pass seen with
  | nil =>
    have hempty : mark.isEmpty = false := by simpa using hmark
    simp only [findFrom, hempty, Bool.false_eq_true, if_false]
    intro m
    exact not_acceptedFrom_length hmark (by simp)
  | cons c text ih =>
    have ih' (pass : Nat) := @ih (decide (c = '\\')) pass (seen ++ [c])
      (by simp [afterBackslash_length_succ])
    simp only [List.append_assoc, List.singleton_append, List.length_append,
      List.length_singleton] at ih'
    rw [findFrom]
    by_cases hpass : pass = 0
    · subst hpass
      by_cases hprefix : mark <+: c :: text
      · have hoccurs := (occurs_length seen).2 hprefix
        have hlength := List.length_pos_iff.2 hmark
        have hstands := List.isPrefixOf_iff_prefix.2 hprefix
        simp only [hstands, decide_true, Bool.and_true, if_true]
        by_cases hskip : skipEscaped = true ∧ escaped = true
        · have hskipped : Skipped skipEscaped mark (seen ++ c :: text) seen.length :=
            ⟨hoccurs, hskip.1, hescaped.1 hskip.2⟩
          rw [if_pos (by simp [hskip])]
          refine (ih' (mark.length - 1)).congr fun n => ?_
          rw [show seen.length + 1 + (mark.length - 1) = seen.length + mark.length by omega]
          exact (acceptedFrom_of_skipped hskipped).symm
        · have hnot : ¬Skipped skipEscaped mark (seen ++ c :: text) seen.length :=
            fun h => hskip ⟨h.2.1, hescaped.2 h.2.2⟩
          rw [if_neg (by simpa using hskip)]
          exact ⟨.here hoccurs hnot, fun m hm => hm.le⟩
      · have hstands : mark.isPrefixOf (c :: text) = false :=
          Bool.eq_false_iff.2 fun h => hprefix (List.isPrefixOf_iff_prefix.1 h)
        simp only [hstands, Bool.and_false, Bool.false_eq_true, if_false]
        refine (ih' 0).congr fun n => ?_
        exact (acceptedFrom_of_not_occurs fun h => hprefix ((occurs_length seen).1 h)).symm
    · simp only [hpass, decide_false, Bool.false_and, Bool.false_eq_true, if_false]
      refine (ih' (pass - 1)).congr fun n => ?_
      rw [show seen.length + 1 + (pass - 1) = seen.length + pass by omega]

/-- The search finds the leftmost accepted occurrence. -/
theorem find_isFirst (skipEscaped : Bool) (mark text : List Char) :
    IsFirst (Accepted skipEscaped mark text) (find skipEscaped mark text) := by
  by_cases hmark : mark = []
  · subst hmark
    rw [find_nil]
    refine ⟨.here ⟨Nat.zero_le _, List.nil_prefix⟩ ?_, fun m _ => Nat.zero_le m⟩
    intro hskipped
    exact absurd hskipped.2.2.1 (Nat.lt_irrefl 0)
  · exact findFrom_isFirst hmark [] (by simp [AfterBackslash])

/-! ## The first delimiter -/

/-- The leftmost accepted delimiter of a text, after `n` characters. Where the delimiters of both
displays stand there, the one of a block counts. -/
structure FirstMark (rules : Rules) (edge : Edge) (text : List Char) (display : Display)
    (n : Nat) : Prop where
  accepted : Accepted rules.skipEscaped (rules.mark edge display) text n
  leftmost : ∀ other m, Accepted rules.skipEscaped (rules.mark edge other) text m → n ≤ m
  tie : Accepted rules.skipEscaped (rules.mark edge .block) text n → display = .block

/-- No delimiter is accepted in a text. -/
def Unmarked (rules : Rules) (edge : Edge) (text : List Char) : Prop :=
  ∀ display n, ¬Accepted rules.skipEscaped (rules.mark edge display) text n

variable {rules : Rules} {edge : Edge}

/-- A text has one first delimiter. -/
theorem FirstMark.unique {display other : Display} (h : FirstMark rules edge text display n)
    (h' : FirstMark rules edge text other m) : display = other ∧ n = m := by
  have hn : n = m :=
    Nat.le_antisymm (h.leftmost other m h'.accepted) (h'.leftmost display n h.accepted)
  subst hn
  refine ⟨?_, rfl⟩
  cases display with
  | block => exact (h'.tie h.accepted).symm
  | inline =>
    cases other with
    | inline => rfl
    | block => exact h.tie h'.accepted

/-- What the search for a delimiter returns. -/
theorem findFirst_spec (rules : Rules) (edge : Edge) (text : List Char) :
    match rules.findFirst edge text with
    | some found => ∃ n, FirstMark rules edge text found.display n ∧
        found = .place found.display (rules.mark edge found.display) text n
    | none => Unmarked rules edge text := by
  have hinline := find_isFirst rules.skipEscaped (rules.mark edge .inline) text
  have hblock := find_isFirst rules.skipEscaped (rules.mark edge .block) text
  unfold Rules.findFirst
  cases hi : find rules.skipEscaped (rules.mark edge .inline) text with
  | none =>
    rw [hi] at hinline
    cases hb : find rules.skipEscaped (rules.mark edge .block) text with
    | none =>
      simp only [hi, hb]
      rw [hb] at hblock
      rintro (_ | _)
      · exact hinline
      · exact hblock
    | some b =>
      simp only [hi, hb]
      rw [hb] at hblock
      refine ⟨b, ⟨hblock.1, ?_, fun _ => rfl⟩, rfl⟩
      rintro (_ | _) m hm
      · exact absurd hm (hinline m)
      · exact hblock.2 m hm
  | some i =>
    rw [hi] at hinline
    cases hb : find rules.skipEscaped (rules.mark edge .block) text with
    | none =>
      simp only [hi, hb]
      rw [hb] at hblock
      refine ⟨i, ⟨hinline.1, ?_, fun htie => absurd htie (hblock i)⟩, rfl⟩
      rintro (_ | _) m hm
      · exact hinline.2 m hm
      · exact absurd hm (hblock m)
    | some b =>
      rw [hb] at hblock
      by_cases hlt : i < b
      · simp only [hi, hb, hlt, if_true]
        refine ⟨i, ⟨hinline.1, ?_, ?_⟩, rfl⟩
        · rintro (_ | _) m hm
          · exact hinline.2 m hm
          · exact Nat.le_trans (Nat.le_of_lt hlt) (hblock.2 m hm)
        · intro htie
          exact absurd (hblock.2 i htie) (Nat.not_le.2 hlt)
      · simp only [hi, hb, hlt, if_false]
        refine ⟨b, ⟨hblock.1, ?_, fun _ => rfl⟩, rfl⟩
        rintro (_ | _) m hm
        · exact Nat.le_trans (Nat.not_lt.1 hlt) (hinline.2 m hm)
        · exact hblock.2 m hm

theorem findFirst_eq_none_iff : rules.findFirst edge text = none ↔ Unmarked rules edge text := by
  have hspec := findFirst_spec rules edge text
  constructor
  · intro h
    rwa [h] at hspec
  · intro h
    cases hfound : rules.findFirst edge text with
    | none => rfl
    | some found =>
      rw [hfound] at hspec
      obtain ⟨n, hfirst, -⟩ := hspec
      exact absurd hfirst.accepted (h _ _)

/-- A delimiter is found exactly where the first one stands. -/
theorem findFirst_eq_some_iff {found : Found} :
    rules.findFirst edge text = some found ↔
      text = found.before ++ rules.mark edge found.display ++ found.after ∧
        FirstMark rules edge text found.display found.before.length := by
  have hspec := findFirst_spec rules edge text
  constructor
  · intro h
    rw [h] at hspec
    obtain ⟨n, hfirst, hplace⟩ := hspec
    have hlength : found.before.length = n := by
      rw [hplace]
      exact List.length_take_of_le hfirst.accepted.occurs.1
    exact ⟨findFirst_eq_some h, hlength ▸ hfirst⟩
  · rintro ⟨hsplit, hfirst⟩
    cases hfound : rules.findFirst edge text with
    | none => exact absurd hfirst.accepted (findFirst_eq_none_iff.1 hfound _ _)
    | some other =>
      rw [hfound] at hspec
      obtain ⟨n, hother, hplace⟩ := hspec
      obtain ⟨hdisplay, hn⟩ := hother.unique hfirst
      rw [hplace, hdisplay, hn]
      obtain ⟨display, before, after⟩ := found
      dsimp only at hsplit
      simp only [Found.place, Option.some.injEq, Found.mk.injEq, true_and]
      constructor
      · rw [hsplit, List.append_assoc, List.take_left]
      · rw [hsplit, ← List.length_append, List.drop_left]

end MathMarkup.Document
