/-!
# Faults of a formula

* `Span` — a stretch of the source, in bytes.
* `Fault` — why a formula cannot be converted, and where; `Fault.message` is its wording.
-/

namespace MathMarkup.Formula

/-- The bytes from `start` up to, but not including, `stop`. -/
structure Span where
  start : Nat
  stop : Nat
  deriving DecidableEq, Repr

/-- The empty span at an offset. -/
def Span.empty (offset : Nat) : Span := ⟨offset, offset⟩

namespace Fault

/-- What can be wrong with a formula. -/
inductive Cause where
  /-- A bracket without a matching partner. -/
  | unbalancedBracket
  /-- A verbatim text whose closing character is missing. -/
  | unterminatedText
  /-- A second subscript or a second superscript on one base. -/
  | duplicateScript
  /-- The formula ends where an operand must stand. -/
  | unexpectedEnd
  /-- Something else stands where an operand must stand. -/
  | missingOperand
  /-- Operands are nested too deeply. -/
  | nestingLimit
  deriving DecidableEq, Repr

/-- The sentence that tells a reader about the fault. -/
def Cause.sentence : Cause → String
  | unbalancedBracket => "Unbalanced bracket."
  | unterminatedText => "Unterminated text literal."
  | duplicateScript => "Duplicate subscript or superscript on the same base."
  | unexpectedEnd => "Expected an operand but reached end of input."
  | missingOperand => "Expected an operand."
  | nestingLimit => "Nesting limit exceeded. Please simplify your equation."

/-- The note that a report attaches to the faulty place. -/
def Cause.label : Cause → String
  | unbalancedBracket => "unbalanced bracket"
  | unterminatedText => "text starts here"
  | duplicateScript => "duplicate"
  | unexpectedEnd => "expected an operand here"
  | missingOperand => "expected an operand, found this"
  | nestingLimit => "limit exceeded"

end Fault

/-- Why a formula cannot be converted, and the part of the source that shows it. -/
structure Fault where
  cause : Fault.Cause
  span : Span
  deriving DecidableEq, Repr

/-- The message of a fault opens with the offset of its place. -/
def Fault.message (fault : Fault) : String :=
  toString fault.span.start ++ ": " ++ fault.cause.sentence

end MathMarkup.Formula
