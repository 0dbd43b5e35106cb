import MathMarkup.Document.Delimiters
import MathMarkup.Formula.Fault
import MathMarkup.Text.Reference

/-!
# Replacing the formulas of a document

* `Failure` — why a document cannot be converted, with `Failure.message`, its wording.
* `Replacer.replace` — a document with what a callback writes in place of its formulas. The
  replacer serves one document after the other and keeps a buffer between them.
* `replaceFormulas` — the same for a converter, by a new replacer.

A document is read from left to right: text, opening delimiter, formula, closing delimiter, and so
on. Every round takes a delimiter, and an empty one ends the reading with a failure, because it is
found again in the formula.
-/

namespace MathMarkup.Document

open MathMarkup.Formula MathMarkup.Markup MathMarkup.Text

/-- What can be wrong with a document. -/
inductive Failure.Cause where
  /-- No closing delimiter comes after an opening one. -/
  | unclosed
  /-- An opening delimiter in a formula. -/
  | nested
  /-- The closing delimiter of the other display, at the given offset. -/
  | mismatched (closing : Nat)
  /-- A formula, as the converter saw it, that cannot be converted. -/
  | formula (fault : Fault) (source : String)
  deriving DecidableEq, Repr

/-- What is wrong with a document, and the offset where it shows. -/
structure Failure where
  offset : Nat
  cause : Failure.Cause
  deriving DecidableEq, Repr

namespace Failure

/-- The place of an offset in words. -/
def placeIn (document : List Char) (offset : Nat) : String :=
  let place := Location.atOffset document offset
  "line " ++ toString place.line ++ ", column " ++ toString place.column

/-- What a reader is told about a failure in a document. -/
def message (failure : Failure) (document : List Char) : String :=
  let place := placeIn document failure.offset
  match failure.cause with
  | .unclosed => "Unclosed delimiter on " ++ place ++ "."
  | .nested => "Formulas cannot contain an opening delimiter (" ++ place ++ ")."
  | .mismatched closing =>
    "Formula opened on " ++ place ++ " is closed by the other kind of delimiter on " ++
      placeIn document closing ++ "."
  | .formula fault source =>
    "Formula '" ++ source ++ "' on " ++ place ++ " failed to convert:\n" ++ fault.message

end Failure

/-- A formula in a document with its delimiters. -/
structure Passage where
  display : Display
  opening : List Char
  content : List Char
  closing : List Char
  deriving DecidableEq, Repr

/-- The formula as it stands in the document. -/
def Passage.source (passage : Passage) : List Char :=
  passage.opening ++ passage.content ++ passage.closing

/-- The formula after an opening delimiter that starts at `openingAt`, and the text after it. -/
def readPassage (rules : Rules) (display : Display) (openingAt : Nat) (text : List Char) :
    Except Failure (Passage × List Char) :=
  let opening := rules.mark .opening display
  let contentAt := openingAt + byteLength opening
  match rules.findFirst .closing text with
  | none => .error ⟨openingAt, .unclosed⟩
  | some closed =>
    if !rules.sharesClosing && closed.display ≠ display then
      .error ⟨openingAt, .mismatched (contentAt + byteLength closed.before)⟩
    else
      match rules.findFirst .opening closed.before with
      | some inner => .error ⟨contentAt + byteLength inner.before, .nested⟩
      | none =>
        .ok (⟨display, opening, closed.before, rules.mark .closing closed.display⟩, closed.after)

/-- A passage and the text after it make up the text that was read, and its opening delimiter is
not empty. -/
theorem readPassage_eq_ok {rules : Rules} {display : Display} {openingAt : Nat}
    {text rest : List Char} {passage : Passage}
    (h : readPassage rules display openingAt text = .ok (passage, rest)) :
    passage.opening = rules.mark .opening display ∧ passage.opening ≠ [] ∧
      text = passage.content ++ passage.closing ++ rest := by
  unfold readPassage at h
  dsimp only at h
  split at h
  · simp at h
  · next closed hclosed =>
    split at h
    · simp at h
    · split at h
      · simp at h
      · next hinner =>
        simp only [Except.ok.injEq, Prod.mk.injEq] at h
        obtain ⟨rfl, rfl⟩ := h
        exact ⟨rfl, mark_ne_nil_of_findFirst_eq_none hinner display,
          findFirst_eq_some hclosed⟩

/-- The text after a passage is shorter than the text before it. -/
theorem length_rest_readPassage {rules : Rules} {document : List Char} {found : Found}
    {openingAt : Nat} {passage : Passage} {rest : List Char}
    (hfound : rules.findFirst .opening document = some found)
    (hread : readPassage rules found.display openingAt found.after = .ok (passage, rest)) :
    rest.length < document.length := by
  obtain ⟨hopening, hne, htext⟩ := readPassage_eq_ok hread
  have hdocument := congrArg List.length (findFirst_eq_some hfound)
  rw [hopening] at hne
  have := List.length_pos_iff.2 hne
  rw [htext] at hdocument
  simp only [List.length_append] at hdocument
  omega

/-! ## Callbacks -/

/-- What a callback leaves behind: its memory, the output, and its fault if it failed. -/
structure Callback.Answer (σ : Type) where
  memory : σ
  output : List Char
  fault : Option Fault

/-- Called with a memory of its own, the output so far and a formula with its display, to write
the replacement of the formula. -/
abbrev Callback (σ : Type) := σ → List Char → String → Display → Callback.Answer σ

/-- What becomes of a formula: its replacement, or its fault. -/
abbrev Converter := Display → String → Except Fault String

/-- Appends what a converter returns. -/
def Callback.ofConverter (converter : Converter) : Callback Unit :=
  fun _ output formula display =>
    match converter display formula with
    | .ok markup => ⟨(), output ++ markup.toList, none⟩
    | .error fault => ⟨(), output, some fault⟩

/-! ## Replacement -/

variable {σ : Type}

/-- How far a replacement has come: the memory of the callback, the last formula with its references
decoded, and the output. -/
structure Progress (σ : Type) where
  memory : σ
  decoded : List Char
  output : List Char

/-- Copies a text of the document. -/
def Progress.copy (progress : Progress σ) (text : List Char) : Progress σ :=
  { progress with output := progress.output ++ text }

/-- Has a formula, whose content starts at `contentAt`, replaced. References are decoded for the
callback; a formula that fails is copied if the rules say so. -/
def Progress.convert (rules : Rules) (callback : Callback σ) (progress : Progress σ)
    (passage : Passage) (contentAt : Nat) : Progress σ × Option Failure :=
  let decoded := decodeReferences passage.content
  let answer := callback progress.memory progress.output (String.ofList decoded) passage.display
  let progress := ⟨answer.memory, decoded, answer.output⟩
  match answer.fault with
  | none => (progress, none)
  | some fault =>
    if rules.keepFailed then (progress.copy passage.source, none)
    else (progress, some ⟨contentAt, .formula fault (String.ofList decoded)⟩)

/-- Replaces the formulas of a text that starts at a byte offset of its document. -/
def replaceFrom (rules : Rules) (callback : Callback σ) (progress : Progress σ) (offset : Nat)
    (text : List Char) : Progress σ × Option Failure :=
  match _found : rules.findFirst .opening text with
  | none => (progress.copy text, none)
  | some found =>
    let openingAt := offset + byteLength found.before
    match _read : readPassage rules found.display openingAt found.after with
    | .error failure => (progress.copy found.before, some failure)
    | .ok (passage, rest) =>
      match (progress.copy found.before).convert rules callback passage
          (openingAt + byteLength passage.opening) with
      | (progress, some failure) => (progress, some failure)
      | (progress, none) =>
        replaceFrom rules callback progress (openingAt + byteLength passage.source) rest
termination_by text.length
decreasing_by exact length_rest_readPassage _found _read

/-- Replaces the formulas of one document after the other. -/
structure Replacer where
  rules : Rules
  /-- The last formula with its references decoded. -/
  decoded : List Char

/-- A replacer that has seen no document. -/
def Replacer.new (rules : Rules) : Replacer := ⟨rules, []⟩

/-- A document with its formulas replaced, or the first failure; the memory of the callback and the
replacer afterwards. -/
def Replacer.replace (replacer : Replacer) (callback : Callback σ) (memory : σ)
    (document : List Char) : Except Failure (List Char) × σ × Replacer :=
  let (progress, failure) :=
    replaceFrom replacer.rules callback ⟨memory, replacer.decoded, []⟩ 0 document
  let result :=
    match failure with
    | none => .ok progress.output
    | some failure => .error failure
  (result, progress.memory, { replacer with decoded := progress.decoded })

/-- A document with what a converter makes of its formulas, or the first failure. -/
def replaceFormulas (rules : Rules) (converter : Converter) (document : List Char) :
    Except Failure (List Char) :=
  ((Replacer.new rules).replace (.ofConverter converter) () document).1

end MathMarkup.Document
