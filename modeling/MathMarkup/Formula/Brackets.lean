import MathMarkup.Formula.Token

/-!
# Balance of brackets

* `openBrackets` — the brackets that a list of lexemes leaves open, outermost first, or the first
  closing bracket that does not match.
* `checkBrackets` — no bracket is left open and none closes out of place.
-/

namespace MathMarkup.Formula

/-- An opening bracket and where it stands. -/
structure Bracket where
  fence : Fence
  span : Span
  deriving DecidableEq, Repr

/-- A bracket without a partner, at its place. -/
def unbalanced (span : Span) : Fault := ⟨.unbalancedBracket, span⟩

/-- Follows the brackets of the lexemes; `stack` holds those still open, innermost first. -/
def followBrackets (stack : List Bracket) : List Lexeme → Except Fault (List Bracket)
  | [] => .ok stack
  | lexeme :: rest =>
    match lexeme.token with
    | .symbol (.opening fence) => followBrackets (⟨fence, lexeme.span⟩ :: stack) rest
    | .symbol (.closing fence) =>
      match stack with
      | [] => .error (unbalanced lexeme.span)
      | innermost :: outer =>
        if innermost.fence.closedBy fence then followBrackets outer rest
        else .error (unbalanced lexeme.span)
    | _ => followBrackets stack rest

/-- The brackets that the lexemes leave open, innermost last. -/
def openBrackets (lexemes : List Lexeme) : Except Fault (List Bracket) :=
  match followBrackets [] lexemes with
  | .error fault => .error fault
  | .ok stack => .ok stack.reverse

/-- Of several brackets left open the innermost one is at fault. -/
def checkBrackets (lexemes : List Lexeme) : Except Fault Unit :=
  match openBrackets lexemes with
  | .error fault => .error fault
  | .ok brackets =>
    match brackets.getLast? with
    | some innermost => .error (unbalanced innermost.span)
    | none => .ok ()

end MathMarkup.Formula
