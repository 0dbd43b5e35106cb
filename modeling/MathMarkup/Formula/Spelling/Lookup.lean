import MathMarkup.Formula.Spelling
import MathMarkup.Text.Bytes

/-!
# Looking up spellings by their length

A table that can only be asked for whole spellings is searched for the longest one that starts a text
by asking for the first bytes of the text, as many as the longest spelling has, then for fewer and
fewer of them.

* `symbolOf?` — the symbol that is spelled with given letters.
* `matchByLength` — the symbol with the longest spelling that starts a text, and the bytes of this
  spelling.
-/

namespace MathMarkup.Formula

open MathMarkup.Text

/-- The symbol that is spelled with exactly these letters. -/
def symbolOf? (letters : List Char) : Option Symbol :=
  (spellings.find? fun s => s.letters = letters).map (·.symbol)

/-- The number of bytes of the longest spelling, `twoheadrightarrowtail`. -/
def maxSpellingLength : Nat := 21

/-- The symbol that is spelled with the first bytes of a text, unless they end within a character. -/
def symbolOfBytes? (length : Nat) (text : List Char) : Option Symbol := do
  let (candidate, _) ← splitAtByte? length text
  symbolOf? candidate

/-- The symbol that is spelled with the first bytes of a text, and their number: the largest one up to
`bound` for which there is a symbol. -/
def matchWithin (text : List Char) : Nat → Option (Symbol × Nat)
  | 0 => none
  | bound + 1 =>
    match symbolOfBytes? (bound + 1) text with
    | some symbol => some (symbol, bound + 1)
    | none => matchWithin text bound

/-- The symbol with the longest spelling that starts a text, and the bytes of this spelling. -/
def matchByLength (text : List Char) : Option (Symbol × Nat) :=
  matchWithin text (min (byteLength text) maxSpellingLength)

end MathMarkup.Formula
