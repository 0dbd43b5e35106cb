import MathMarkup.Formula.Token

/-!
# Expressions

The grammar of the notation as trees: an expression is a sequence of ratios, a ratio a chain
of terms joined by slashes, a term an operand with up to two scripts. The trees keep what was
written and decide nothing about its appearance.

* `Operand`, `Term`, `Ratio` — the trees, and `Expression`, a sequence of ratios.
* `Operand.levels` — how deeply operands are nested.
-/

namespace MathMarkup.Formula

/-- An operand that is one token. -/
inductive Leaf where
  | number (digits : String)
  | letter (c : Char)
  | text (content : String)
  | sign (s : Sign)
  deriving DecidableEq, Repr

mutual

/-- What a script, a symbol or a slash can take as a whole. -/
inductive Operand where
  | leaf (l : Leaf)
  /-- The symbol for text with its argument. -/
  | words (content : String)
  | group (opening closing : Fence) (content : List Ratio)
  | unary (f : Unary) (operand : Operand)
  | binary (f : Binary) (first second : Operand)
  | color (name : String) (operand : Operand)

/-- An operand with its scripts. The order in which two scripts were written is not kept. -/
inductive Term where
  | bare (base : Operand)
  | sub (base script : Operand)
  | sup (base script : Operand)
  | subSup (base lower upper : Operand)

/-- Terms joined by slashes, which bind to the right. -/
inductive Ratio where
  | term (t : Term)
  | divided (numerator : Term) (denominator : Ratio)

end

/-- A whole formula, or the content of a group. -/
abbrev Expression := List Ratio

/-! ## Nesting -/

mutual

/-- The number of operands and denominators that stand inside one another, this one included. -/
def Operand.levels : Operand → Nat
  | .leaf _ => 1
  | .words _ => 1
  | .group _ _ content => expressionLevels content + 1
  | .unary _ operand => operand.levels + 1
  | .binary _ first second => max first.levels second.levels + 1
  | .color _ operand => operand.levels + 1

/-- Scripts stand on the level of their base. -/
def Term.levels : Term → Nat
  | .bare base => base.levels
  | .sub base script => max base.levels script.levels
  | .sup base script => max base.levels script.levels
  | .subSup base lower upper => max base.levels (max lower.levels upper.levels)

/-- A denominator is one level deeper than its numerator. -/
def Ratio.levels : Ratio → Nat
  | .term t => t.levels
  | .divided numerator denominator => max numerator.levels (denominator.levels + 1)

/-- The levels of the deepest member of a sequence. -/
def expressionLevels : List Ratio → Nat
  | [] => 0
  | q :: rest => max q.levels (expressionLevels rest)

end

end MathMarkup.Formula
