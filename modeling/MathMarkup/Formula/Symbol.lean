/-!
# Symbols of the notation

* `Fence` — the kinds of brackets, and `Fence.closedBy`, which of them match.
* `Symbol` — what a spelling of the notation means, and `Symbol.arity`, the number of its
  operands.

Glyphs are texts in the form in which they are written to markup: plain ASCII or character
references. They are written as they stand.
-/

namespace MathMarkup.Formula

/-- The kind of a bracket. An invisible bracket is written `{:` or `:}`. -/
inductive Fence where
  | paren
  | square
  | brace
  | angle
  | invisible
  deriving DecidableEq, Repr

namespace Fence

/-- An opening bracket is closed by one of its kind; an invisible bracket matches every kind. -/
def closedBy (opening closing : Fence) : Bool :=
  opening = closing || opening = .invisible || closing = .invisible

def openingGlyph : Fence → Option String
  | paren => some "("
  | square => some "["
  | brace => some "\x7b"
  | angle => some "&#x27E8;"
  | invisible => none

def closingGlyph : Fence → Option String
  | paren => some ")"
  | square => some "]"
  | brace => some "\x7d"
  | angle => some "&#x27E9;"
  | invisible => none

theorem closedBy_self (f : Fence) : f.closedBy f = true := by simp [closedBy]

end Fence

/-- Above or below. -/
inductive Side where
  | above
  | below
  deriving DecidableEq, Repr

/-- The variants of the alphabet. -/
inductive Variant where
  | bold
  | doubleStruck
  | script
  | monospace
  | fraktur
  | sansSerif
  deriving DecidableEq, Repr

/-- A symbol that is a formula by itself. -/
inductive Sign where
  /-- A Greek letter or the name of a function. -/
  | identifier (glyph : String)
  | operator (glyph : String)
  /-- An operator that takes its scripts as limits. -/
  | largeOperator (glyph : String)
  /-- A logical word, which stands with a space on either side. -/
  | word (text : String)
  deriving DecidableEq, Repr

/-- A symbol that takes one formula as its operand. -/
inductive Unary where
  | accent (glyph : String) (side : Side)
  /-- A horizontal brace. A script on its side of the operand is stacked onto it. -/
  | brace (glyph : String) (side : Side)
  /-- The operand between two operators. -/
  | delimit (opening closing : String)
  | squareRoot
  | cancel
  | style (variant : Variant)
  deriving DecidableEq, Repr

/-- A symbol that takes two formulas as its operands. -/
inductive Binary where
  | fraction
  /-- Takes the index first. -/
  | root
  /-- Takes first what is set over the second operand. -/
  | overset
  /-- Takes first what is set under the second operand. -/
  | underset
  deriving DecidableEq, Repr

/-- The meaning of a spelling. -/
inductive Symbol where
  | sign (s : Sign)
  | opening (f : Fence)
  | closing (f : Fence)
  | superscript
  | subscript
  | slash
  | unary (f : Unary)
  | binary (f : Binary)
  /-- Takes a verbatim text. -/
  | text
  /-- Takes the name of a colour as a verbatim text, then a formula. -/
  | color
  deriving DecidableEq, Repr

namespace Symbol

/-- The number of operands that a symbol takes, verbatim texts included. -/
def arity : Symbol → Nat
  | unary _ => 1
  | text => 1
  | binary _ => 2
  | color => 2
  | sign _ => 0
  | opening _ => 0
  | closing _ => 0
  | superscript => 0
  | subscript => 0
  | slash => 0

/-- After these symbols a bracketed argument is read verbatim. -/
def takesVerbatim : Symbol → Bool
  | text => true
  | color => true
  | _ => false

end Symbol

end MathMarkup.Formula
