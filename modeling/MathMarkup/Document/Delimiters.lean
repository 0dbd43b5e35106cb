import MathMarkup.Markup.Element
import MathMarkup.Text.Location

/-!
# Delimiters of formulas in a document

* `Rules` — how formulas are marked in a document.
* `find` — the first place where a mark stands in a text.
* `Rules.findFirst` — the first opening or closing delimiter of either display.

Principal lemmas: `find_eq_some` (a place that is found splits the text) and `find_nil` (an empty
mark stands at the start of every text).
-/

namespace MathMarkup.Document

open MathMarkup.Markup

/-- The marks before and after a formula. -/
structure Delimiters where
  opening : List Char
  closing : List Char
  deriving DecidableEq, Repr

/-- One mark on both sides. -/
def Delimiters.both (mark : List Char) : Delimiters := ⟨mark, mark⟩

/-- Which of the two marks. -/
inductive Edge where
  | opening
  | closing
  deriving DecidableEq, Repr

/-- How formulas are marked in a document, and what becomes of marks after a backslash and of
formulas that fail. -/
structure Rules where
  inline : Delimiters
  block : Delimiters
  /-- A mark after a backslash is plain text. -/
  skipEscaped : Bool
  /-- A formula that fails stays as it is. -/
  keepFailed : Bool
  deriving DecidableEq, Repr

/-- The delimiters for a display. -/
def Rules.delimiters (rules : Rules) : Display → Delimiters
  | .inline => rules.inline
  | .block => rules.block

/-- The mark of a display on one edge. -/
def Rules.mark (rules : Rules) (edge : Edge) (display : Display) : List Char :=
  match edge with
  | .opening => (rules.delimiters display).opening
  | .closing => (rules.delimiters display).closing

/-- Inline formulas and blocks end alike. -/
def Rules.sharesClosing (rules : Rules) : Bool := rules.inline.closing = rules.block.closing

/-! ## The first place of a mark -/

/-- Looks for a mark and counts the characters before it from `count` on. The character before the
text is a backslash if `escaped`; `pass` characters belong to a mark that was passed over. -/
def findFrom (skipEscaped : Bool) (mark : List Char) (escaped : Bool) (pass count : Nat) :
    List Char → Option Nat
  | [] => if mark.isEmpty then some count else none
  | c :: text =>
    if pass = 0 && mark.isPrefixOf (c :: text) then
      if skipEscaped && escaped then
        findFrom skipEscaped mark (c = '\\') (mark.length - 1) (count + 1) text
      else some count
    else findFrom skipEscaped mark (c = '\\') (pass - 1) (count + 1) text

/-- The number of characters before the first place where the mark stands. A place right after a
backslash of the text is passed over with all characters of the mark, if escapes are skipped. -/
def find (skipEscaped : Bool) (mark text : List Char) : Option Nat :=
  findFrom skipEscaped mark false 0 0 text

/-- A place that is found, counted from the start of the text. -/
theorem findFrom_eq_some {skipEscaped escaped : Bool} {mark text : List Char}
    {pass count n : Nat} (h : findFrom skipEscaped mark escaped pass count text = some n) :
    ∃ k, n = count + k ∧ mark <+: text.drop k ∧ k ≤ text.length := by
  induction text generalizing escaped pass count with
  | nil =>
    refine ⟨0, ?_⟩
    simp only [findFrom] at h
    split at h
    · next hm => simp_all
    · simp at h
  | cons c text ih =>
    simp only [findFrom] at h
    split at h
    · next hp =>
      split at h
      · obtain ⟨k, hk, hm, hl⟩ := ih h
        exact ⟨k + 1, by omega, by simpa using hm, by simpa using hl⟩
      · simp only [Option.some.injEq] at h
        simp only [Bool.and_eq_true, List.isPrefixOf_iff_prefix] at hp
        exact ⟨0, by omega, by simpa using hp.2, by simp⟩
    · obtain ⟨k, hk, hm, hl⟩ := ih h
      exact ⟨k + 1, by omega, by simpa using hm, by simpa using hl⟩

/-- A place that is found has the mark, and splits the text there. -/
theorem find_eq_some {skipEscaped : Bool} {mark text : List Char} {n : Nat}
    (h : find skipEscaped mark text = some n) :
    text = text.take n ++ mark ++ text.drop (n + mark.length) := by
  obtain ⟨k, hk, ⟨rest, hrest⟩, -⟩ := findFrom_eq_some h
  obtain rfl : n = k := by omega
  have hsplit : text = text.take n ++ (mark ++ rest) := by
    rw [hrest, List.take_append_drop]
  have hdrop : text.drop (n + mark.length) = rest := by
    rw [← List.drop_drop, ← hrest, List.drop_left]
  rw [hdrop, List.append_assoc]
  exact hsplit

/-- An empty mark stands at the start of every text. -/
theorem find_nil (skipEscaped : Bool) (text : List Char) : find skipEscaped [] text = some 0 := by
  cases text <;> simp [find, findFrom]

/-! ## The first delimiter -/

/-- A delimiter in a text: its display and the text on both sides. -/
structure Found where
  display : Display
  before : List Char
  after : List Char
  deriving DecidableEq, Repr

/-- A mark of a display after `n` characters of a text. -/
def Found.place (display : Display) (mark text : List Char) (n : Nat) : Found :=
  ⟨display, text.take n, text.drop (n + mark.length)⟩

/-- The first delimiter on an edge. Where both start at one place the block delimiter counts, so
that it may extend the inline one. -/
def Rules.findFirst (rules : Rules) (edge : Edge) (text : List Char) : Option Found :=
  let inline := rules.mark edge .inline
  let block := rules.mark edge .block
  match find rules.skipEscaped inline text, find rules.skipEscaped block text with
  | some i, some b =>
    if i < b then some (.place .inline inline text i) else some (.place .block block text b)
  | some i, none => some (.place .inline inline text i)
  | none, some b => some (.place .block block text b)
  | none, none => none

/-- A delimiter that is found splits the text. -/
theorem findFirst_eq_some {rules : Rules} {edge : Edge} {text : List Char} {found : Found}
    (h : rules.findFirst edge text = some found) :
    text = found.before ++ rules.mark edge found.display ++ found.after := by
  unfold Rules.findFirst at h
  dsimp only at h
  split at h
  · next hi hb =>
    split at h <;> (simp only [Option.some.injEq] at h; subst h)
    · exact find_eq_some hi
    · exact find_eq_some hb
  · next hi _ =>
    simp only [Option.some.injEq] at h
    subst h
    exact find_eq_some hi
  · next _ hb =>
    simp only [Option.some.injEq] at h
    subst h
    exact find_eq_some hb
  · simp at h

/-- Where no delimiter is found, none is empty. -/
theorem mark_ne_nil_of_findFirst_eq_none {rules : Rules} {edge : Edge} {text : List Char}
    (h : rules.findFirst edge text = none) (display : Display) : rules.mark edge display ≠ [] := by
  intro hnil
  have hfound : find rules.skipEscaped (rules.mark edge display) text = some 0 := by
    rw [hnil, find_nil]
  unfold Rules.findFirst at h
  cases display <;> dsimp only at h <;> split at h <;> (try split at h) <;> simp_all

end MathMarkup.Document
