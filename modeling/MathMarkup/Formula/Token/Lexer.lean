import MathMarkup.Formula.Spelling
import MathMarkup.Formula.Token
import MathMarkup.Text.Blank
import MathMarkup.Text.Location
import MathMarkup.Text.Reference

/-!
# Reading tokens

A formula is read from left to right. White space separates tokens and means nothing itself.

* `munch` — the token at the start of a text.
* `scan` — the lexemes of a text, and the fault that ended them early, if there is one.

Principal lemma: `length_rest_munch`, which says that a token is never empty.
-/

namespace MathMarkup.Formula

open MathMarkup.Text

/-- A token, the characters it is written with, and the text after them. -/
structure Munch where
  token : Token
  written : List Char
  rest : List Char
  deriving DecidableEq, Repr

/-- The character that closes a verbatim text opened by `c`. Only an argument of a symbol that takes
one may stand in brackets. -/
def verbatimCloser (inBrackets : Bool) (c : Char) : Option Char :=
  if c = '"' then some '"'
  else if inBrackets then
    if c = '(' then some ')'
    else if c = '[' then some ']'
    else if c = '\x7b' then some '\x7d'
    else none
  else none

/-- The digits of a number are ASCII digits; other decimal digits are letters. -/
def isDecimalDigit (c : Char) : Bool := '0' ≤ c && c ≤ '9'

/-- The number at the start of a text that starts with a digit. A point belongs to it only between
two digits, and only once. -/
def numeral (text : List Char) : List Char × List Char :=
  let whole := text.takeWhile isDecimalDigit
  match text.dropWhile isDecimalDigit with
  | '.' :: fraction =>
    if fraction.head?.any isDecimalDigit then
      (whole ++ '.' :: fraction.takeWhile isDecimalDigit, fraction.dropWhile isDecimalDigit)
    else (whole, '.' :: fraction)
  | rest => (whole, rest)

/-- The token at the start of a text whose first character `c` is no white space; `none` if a
verbatim text starts there and never ends. -/
def munch (inBrackets : Bool) (c : Char) (text : List Char) : Option Munch :=
  match verbatimCloser inBrackets c with
  | some closer =>
    match splitAtFirst closer text with
    | none => none
    | some (content, rest) =>
      some ⟨.text (String.ofList content), c :: content ++ [closer], rest⟩
  | none =>
    if isDecimalDigit c then
      let (digits, rest) := numeral (c :: text)
      some ⟨.number (String.ofList digits), digits, rest⟩
    else
      match longestMatch (c :: text) with
      | some s => some ⟨.symbol s.symbol, s.letters, text.drop (s.letters.length - 1)⟩
      | none => some ⟨.letter c, [c], text⟩

theorem length_dropWhile_le (p : Char → Bool) (text : List Char) :
    (text.dropWhile p).length ≤ text.length := (List.dropWhile_sublist p).length_le

theorem length_numeral_le (text : List Char) :
    (numeral text).2.length ≤ (text.dropWhile isDecimalDigit).length := by
  unfold numeral
  dsimp only
  split
  · next fraction h =>
    rw [h]
    split
    · exact Nat.le_succ_of_le (length_dropWhile_le _ _)
    · exact Nat.le_refl _
  · exact Nat.le_refl _

/-- The text after a token is no longer than the text after its first character. -/
theorem length_rest_munch {inBrackets : Bool} {c : Char} {text : List Char} {m : Munch}
    (h : munch inBrackets c text = some m) : m.rest.length ≤ text.length := by
  unfold munch at h
  split at h
  · split at h
    · simp at h
    · next hs =>
      simp only [Option.some.injEq] at h
      subst h
      exact Nat.le_of_lt (length_lt_of_splitAtFirst hs)
  · split at h
    · next hd =>
      simp only [Option.some.injEq] at h
      subst h
      refine Nat.le_trans (length_numeral_le _) ?_
      simpa [List.dropWhile_cons, hd] using length_dropWhile_le _ _
    · split at h
      · simp only [Option.some.injEq] at h
        subst h
        simp
      · simp only [Option.some.injEq] at h
        subst h
        simp

/-- The lexemes of a text. A text without a fault ends in an empty lexeme that marks its end; a
fault comes with the lexemes before it. -/
structure Scan where
  lexemes : List Lexeme
  fault : Option Fault
  deriving DecidableEq, Repr

/-- Reads a text that starts at a byte offset; `inBrackets` says whether a verbatim argument in
brackets may come next. -/
def scanFrom (inBrackets : Bool) (offset : Nat) (text : List Char) : Scan :=
  let start := offset + byteLength (text.takeWhile isBlank)
  match _unread : text.dropWhile isBlank with
  | [] => ⟨[⟨.endOfInput, Span.empty start⟩], none⟩
  | c :: following =>
    match _munched : munch inBrackets c following with
    | none => ⟨[], some ⟨.unterminatedText, ⟨start, start + byteLength (c :: following)⟩⟩⟩
    | some m =>
      let stop := start + byteLength m.written
      let later := scanFrom m.token.takesVerbatim stop m.rest
      ⟨⟨m.token, ⟨start, stop⟩⟩ :: later.lexemes, later.fault⟩
termination_by text.length
decreasing_by
  have := length_rest_munch _munched
  have := length_dropWhile_le isBlank text
  simp only [_unread, List.length_cons] at this
  omega

/-- The lexemes of a formula. -/
def scan (source : String) : Scan := scanFrom false 0 source.toList

end MathMarkup.Formula
