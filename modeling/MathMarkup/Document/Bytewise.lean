import MathMarkup.Document.Replacement
import MathMarkup.Loop
import MathMarkup.Text.Bytes

/-!
# Replacing formulas, byte by byte

The replacement of formulas as it works on the bytes of a document: marks are searched among bytes,
the document is cut at byte offsets, and two loops run until they are done. A round of a loop fails
where it would read outside of the bytes or cut a character in two.

* `Searcher` — a search among bytes, which finds the first place where they are.
* `findUnescaped` — the first place of a mark that is not skipped.
* `findMark` — the first delimiter of either display.
* `findPassage` — the formula behind an opening delimiter.
* `replaceRound` — one formula of a document, or the end of it.
* `Replacer.replaceBytewise` — a document with its formulas replaced.
-/

namespace MathMarkup.Document

open MathMarkup.Formula MathMarkup.Markup MathMarkup.Text

/-! ## Searching bytes -/

/-- The bytes stand behind `n` bytes of others. -/
def BytesOccur (needle haystack : List UInt8) (n : Nat) : Prop :=
  n ≤ haystack.length ∧ needle <+: haystack.drop n

/-- Searches among bytes. -/
structure Searcher where
  /-- How many bytes there are before the place that is found. -/
  find : (needle haystack : List UInt8) → Option Nat
  occurs : ∀ {needle haystack n}, find needle haystack = some n → BytesOccur needle haystack n
  leftmost : ∀ {needle haystack n}, find needle haystack = some n →
    ∀ m, BytesOccur needle haystack m → n ≤ m
  absent : ∀ {needle haystack}, find needle haystack = none →
    ∀ m, ¬BytesOccur needle haystack m

/-- The first place of some bytes, looked for at one place after the other. -/
def firstPlace (needle : List UInt8) : List UInt8 → Option Nat
  | [] => if needle.isEmpty then some 0 else none
  | b :: rest =>
    if needle.isPrefixOf (b :: rest) then some 0 else (firstPlace needle rest).map (· + 1)

theorem bytesOccur_zero {needle haystack : List UInt8} :
    BytesOccur needle haystack 0 ↔ needle <+: haystack := by
  simp [BytesOccur]

theorem bytesOccur_cons_succ {needle rest : List UInt8} {b : UInt8} {n : Nat} :
    BytesOccur needle (b :: rest) (n + 1) ↔ BytesOccur needle rest n := by
  simp [BytesOccur]

theorem firstPlace_spec (needle haystack : List UInt8) :
    match firstPlace needle haystack with
    | some n => BytesOccur needle haystack n ∧ ∀ m, BytesOccur needle haystack m → n ≤ m
    | none => ∀ m, ¬BytesOccur needle haystack m := by
  induction haystack with
  | nil =>
    cases needle with
    | nil => exact ⟨bytesOccur_zero.2 List.nil_prefix, fun m _ => Nat.zero_le m⟩
    | cons b needle =>
      intro m hm
      simp [BytesOccur] at hm
  | cons b rest ih =>
    rw [firstPlace]
    by_cases hprefix : needle <+: b :: rest
    · rw [if_pos (List.isPrefixOf_iff_prefix.2 hprefix)]
      exact ⟨bytesOccur_zero.2 hprefix, fun m _ => Nat.zero_le m⟩
    · rw [if_neg (mt List.isPrefixOf_iff_prefix.1 hprefix)]
      cases hplace : firstPlace needle rest with
      | none =>
        rw [hplace] at ih
        intro m hm
        cases m with
        | zero => exact hprefix (bytesOccur_zero.1 hm)
        | succ m => exact ih m (bytesOccur_cons_succ.1 hm)
      | some n =>
        rw [hplace] at ih
        refine ⟨bytesOccur_cons_succ.2 ih.1, fun m hm => ?_⟩
        cases m with
        | zero => exact absurd (bytesOccur_zero.1 hm) hprefix
        | succ m => exact Nat.succ_le_succ (ih.2 m (bytesOccur_cons_succ.1 hm))

/-- The search at one place after the other. -/
def Searcher.placeByPlace : Searcher where
  find := firstPlace
  occurs := @fun needle haystack _ h => by
    have hspec := firstPlace_spec needle haystack
    rw [h] at hspec
    exact hspec.1
  leftmost := @fun needle haystack _ h => by
    have hspec := firstPlace_spec needle haystack
    rw [h] at hspec
    exact hspec.2
  absent := @fun needle haystack h => by
    have hspec := firstPlace_spec needle haystack
    rw [h] at hspec
    exact hspec

/-- The bytes behind the first `n`, if there are as many. -/
def behind? (n : Nat) (bytes : List UInt8) : Option (List UInt8) :=
  if n ≤ bytes.length then some (bytes.drop n) else none

/-- The byte of a backslash. -/
def backslashByte : UInt8 := 0x5C

/-- Whether the byte before the offset is a backslash, if escapes are skipped. -/
def escapedAt? (skipEscaped : Bool) (bytes : List UInt8) (offset : Nat) : Option Bool :=
  if skipEscaped && 0 < offset then bytes[offset - 1]?.map (· = backslashByte) else some false

/-- Looks for a mark from an offset on. The search is done where the mark stands and is not escaped,
or nowhere; else it goes on behind the mark. -/
def searchRound (searcher : Searcher) (skipEscaped : Bool) (needle haystack : List UInt8)
    (offset : Nat) : Option (Round Nat (Option Nat)) := do
  let rest ← behind? offset haystack
  match searcher.find needle rest with
  | none => some (.done none)
  | some further =>
    let place := offset + further
    let escaped ← escapedAt? skipEscaped haystack place
    some (if escaped then .next (place + needle.length) else .done (some place))

/-- The number of bytes before the first place where a mark stands and is not skipped. -/
def findUnescaped (searcher : Searcher) (skipEscaped : Bool) (needle haystack : List UInt8) :
    Option (Option Nat) :=
  repeatRounds (searchRound searcher skipEscaped needle haystack) 0

/-- The first delimiter of a document from an offset on, with the offset of the delimiter. Where both
start at one place the block delimiter counts. -/
def findMark (searcher : Searcher) (rules : Rules) (edge : Edge) (document : List Char)
    (offset : Nat) : Option (Option (Display × Nat)) := do
  let haystack ← behind? offset (utf8 document)
  let inline ← findUnescaped searcher rules.skipEscaped (utf8 (rules.mark edge .inline)) haystack
  let block ← findUnescaped searcher rules.skipEscaped (utf8 (rules.mark edge .block)) haystack
  some <| match inline, block with
    | some i, some b =>
      if i < b then some (.inline, offset + i) else some (.block, offset + b)
    | some i, none => some (.inline, offset + i)
    | none, some b => some (.block, offset + b)
    | none, none => none

/-! ## Replacement -/

variable {σ : Type}

/-- The content of the formula behind an opening delimiter, and the offset where the rest of the
document starts. -/
def findPassage (searcher : Searcher) (rules : Rules) (document : List Char) (display : Display)
    (openingAt : Nat) : Option (Except Failure (List Char × Nat)) := do
  let contentAt := openingAt + byteLength (rules.mark .opening display)
  match ← findMark searcher rules .closing document contentAt with
  | none => some (.error ⟨openingAt, .unclosed⟩)
  | some (closed, closingAt) =>
    if !rules.sharesClosing && closed ≠ display then
      some (.error ⟨openingAt, .mismatched closingAt⟩)
    else
      let stop := closingAt + byteLength (rules.mark .closing closed)
      let content ← slice? contentAt closingAt document
      match ← findMark searcher rules .opening content 0 with
      | some (_, nestedAt) => some (.error ⟨contentAt + nestedAt, .nested⟩)
      | none => some (.ok (content, stop))

/-- Where the rest of a document starts, and how far its replacement has come. -/
structure Reading (σ : Type) where
  restStart : Nat
  progress : Progress σ

/-- Has the formula replaced that stands, with its delimiters, from `openingAt` up to `stop`. If it
fails it is copied from the document, or it fails the document. -/
def convertBetween (rules : Rules) (callback : Callback σ) (document : List Char)
    (progress : Progress σ) (display : Display) (content : List Char) (openingAt stop : Nat) :
    Option (Round (Reading σ) (Progress σ × Option Failure)) := do
  let contentAt := openingAt + byteLength (rules.mark .opening display)
  let decoded := decodeReferences content
  let answer := callback progress.memory progress.output (String.ofList decoded) display
  let progress : Progress σ := ⟨answer.memory, decoded, answer.output⟩
  match answer.fault with
  | none => some (.next ⟨stop, progress⟩)
  | some fault =>
    if rules.keepFailed then
      let source ← slice? openingAt stop document
      some (.next ⟨stop, progress.copy source⟩)
    else some (.done (progress, some ⟨contentAt, .formula fault (String.ofList decoded)⟩))

/-- Copies the document up to the next formula and has this formula replaced. The replacement is done
at the end of the document or with a failure. -/
def replaceRound (searcher : Searcher) (rules : Rules) (callback : Callback σ) (document : List Char)
    (reading : Reading σ) : Option (Round (Reading σ) (Progress σ × Option Failure)) := do
  match ← findMark searcher rules .opening document reading.restStart with
  | none =>
    let rest ← slice? reading.restStart (byteLength document) document
    some (.done (reading.progress.copy rest, none))
  | some (display, openingAt) =>
    let before ← slice? reading.restStart openingAt document
    let progress := reading.progress.copy before
    match ← findPassage searcher rules document display openingAt with
    | .error failure => some (.done (progress, some failure))
    | .ok (content, stop) =>
      convertBetween rules callback document progress display content openingAt stop

/-- A document with its formulas replaced, or the first failure; the memory of the callback and the
replacer afterwards. -/
def Replacer.replaceBytewise (replacer : Replacer) (searcher : Searcher) (callback : Callback σ)
    (memory : σ) (document : List Char) :
    Option (Except Failure (List Char) × σ × Replacer) :=
  haveI : Nonempty (Progress σ) := ⟨⟨memory, replacer.decoded, []⟩⟩
  do
    let (progress, failure) ←
      repeatRounds (replaceRound searcher replacer.rules callback document)
        ⟨0, ⟨memory, replacer.decoded, []⟩⟩
    let result :=
      match failure with
      | none => .ok progress.output
      | some failure => .error failure
    some (result, progress.memory, { replacer with decoded := progress.decoded })

end MathMarkup.Document
