import MathMarkup.Formula.Fault
import MathMarkup.Formula.Symbol

/-!
# Tokens

* `Token` — what a stretch of a formula means by itself.
* `Lexeme` — a token with the span it was read from.
-/

namespace MathMarkup.Formula

inductive Token where
  /-- The mark after the last token of a formula. -/
  | endOfInput
  | number (digits : String)
  /-- A character that no symbol of the notation starts with. -/
  | letter (c : Char)
  /-- A verbatim text, without the characters that enclose it. -/
  | text (content : String)
  | symbol (s : Symbol)
  deriving DecidableEq, Repr

/-- After this token a bracketed argument is read verbatim. -/
def Token.takesVerbatim : Token → Bool
  | symbol s => s.takesVerbatim
  | _ => false

structure Lexeme where
  token : Token
  span : Span
  deriving DecidableEq, Repr

end MathMarkup.Formula
