import MathMarkup.Formula.Expression
import MathMarkup.Presentation.Matrix

/-!
# Typesetting expressions

* `Operand.node`, `Term.node`, `Ratio.node` — what an expression looks like.
* `typeset` — the nodes of a whole expression.

Brackets that only hold an operand together are dropped: around a numerator, under a root, in a
limit. Brackets around the base of a script and around a script at a corner stay.
-/

namespace MathMarkup.Formula

open MathMarkup.Presentation

/-- What a single token looks like. -/
def Leaf.node : Leaf → Node
  | number digits => .number digits
  | letter c => .identifier (String.singleton c)
  | text content => .text content
  | sign (.identifier glyph) => .identifier glyph
  | sign (.operator glyph) => .operator glyph
  | sign (.largeOperator glyph) => .operator glyph
  | sign (.word written) => .spacedText written

/-- A mark above or below a node. -/
def decorate (base mark : Node) : Side → Node
  | .above => .decorated base (some mark) none
  | .below => .decorated base none (some mark)

/-- What a symbol makes of its operand. -/
def Unary.node (operand : Node) : Unary → Node
  | accent glyph side => decorate operand.unfenced (.operator glyph) side
  | brace glyph side => decorate operand.unfenced (.operator glyph) side
  | delimit opening closing => .delimited opening closing operand.unfenced
  | squareRoot => .root none operand.unfenced
  | cancel => .struck operand.unfenced
  | style variant => .styled variant operand.unfenced

/-- What a symbol makes of its two operands. -/
def Binary.node (first second : Node) : Binary → Node
  | fraction => .fraction first.unfenced second.unfenced
  | root => .root (some first.inRow) second.inRow
  | overset => decorate second.inRow first.inRow .above
  | underset => decorate second.inRow first.inRow .below

/-- How an operand wants its scripts placed, given which scripts there are: a large operator takes
them as limits, and a horizontal brace stacks the one on its side. -/
def Operand.placement (hasSub hasSup : Bool) : Operand → Placement
  | .leaf (.sign (.largeOperator _)) => .limits
  | .unary (.brace _ .below) _ => if hasSub then .stacked .below else .attached
  | .unary (.brace _ .above) _ => if hasSup then .stacked .above else .attached
  | _ => .attached

/-- A base with its scripts. Only scripts at the corners keep their brackets. -/
def attachScripts (base : Node) (sub sup : Option Node) (placement : Placement) : Node :=
  match placement with
  | .attached => .scripts base sub sup .attached
  | placement => .scripts base (sub.map Node.unfenced) (sup.map Node.unfenced) placement

mutual

def Operand.node : Operand → Node
  | .leaf l => l.node
  | .words content => .text content
  | .group opening closing content =>
    .ofGroup opening.openingGlyph closing.closingGlyph (typeset content)
  | .unary f operand => f.node operand.node
  | .binary f first second => f.node first.node second.node
  | .color name operand => .colored name operand.node.unfenced

def Term.node : Term → Node
  | .bare base => base.node
  | .sub base script =>
    attachScripts base.node (some script.node) none (base.placement true false)
  | .sup base script =>
    attachScripts base.node none (some script.node) (base.placement false true)
  | .subSup base lower upper =>
    attachScripts base.node (some lower.node) (some upper.node) (base.placement true true)

def Ratio.node : Ratio → Node
  | .term t => t.node
  | .divided numerator denominator =>
    .fraction numerator.node.unfenced denominator.node.unfenced

/-- The nodes of an expression, one for each of its ratios. -/
def typeset : List Ratio → List Node
  | [] => []
  | q :: rest => q.node :: typeset rest

end

theorem typeset_eq_map (expression : Expression) :
    typeset expression = expression.map Ratio.node := by
  induction expression with
  | nil => simp [typeset]
  | cons q rest ih => simp [typeset, ih]

end MathMarkup.Formula
