import MathMarkup.Formula.Expression.Parser
import MathMarkup.Formula.Token.Lexer
import MathMarkup.Presentation.Emission
import MathMarkup.Presentation.Typeset

/-!
# Converting formulas

* `Settings` — what a caller can choose about the markup.
* `readFormula` — the expression that a text spells.
* `mathElement` — the outermost element of a formula.
* `emitFormula` — the text of that element, written at the indents of the settings.
* `convert` — the markup of a formula, or its fault.
-/

namespace MathMarkup

open Formula Markup Presentation Text

/-- Which formulas are spread over several lines. -/
inductive PrettyPrint where
  | never
  | always
  /-- Those that stand on lines of their own. -/
  | auto
  deriving DecidableEq, Repr

/-- How formulas are converted. -/
structure Settings where
  prettyPrint : PrettyPrint := .never
  /-- Whether the outermost element names its namespace. -/
  mathNamespace : Bool := false
  /-- Whether the source is kept beside the formula. -/
  keepSource : Bool := false
  deriving DecidableEq, Repr

/-- Whether a formula is spread over several lines. -/
def Settings.spreads (settings : Settings) (display : Display) : Bool :=
  settings.prettyPrint = .always || settings.prettyPrint = .auto && display = .block

/-- The layout of a formula. Its outermost element stands on level zero. -/
def Settings.layout (settings : Settings) (display : Display) : Layout :=
  if settings.spreads display then .indented 0 else .compact

/-- The indent of what the outermost element of a formula holds. -/
def Settings.baseIndent (settings : Settings) (display : Display) : Nat :=
  if settings.spreads display then 1 else 0

/-- The expression that a text spells. Where a verbatim text has no end, a closing bracket out of
place before it is the fault that is told. -/
def readFormula (source : String) : Except Fault Expression :=
  let scanned := scan source
  match scanned.fault with
  | none => parse scanned.lexemes
  | some fault =>
    match openBrackets scanned.lexemes with
    | .error earlier => .error earlier
    | .ok _ => .error fault

/-- A text in which every verbatim text has an end is left to the parser. -/
theorem readFormula_eq_parse {source : String} (h : (scan source).fault = none) :
    readFormula source = parse (scan source).lexemes := by
  unfold readFormula
  dsimp only
  rw [h]

/-! ## Elements -/

/-- Nodes as one node: a row, unless there is exactly one. -/
def asOneNode : List Node → Node
  | [node] => node
  | nodes => .row nodes

/-- What holds of each node and of the row of them holds of them as one node. -/
theorem asOneNode_of_forall {p : Node → Prop} {nodes : List Node} (h : ∀ node ∈ nodes, p node)
    (hrow : p (.row nodes)) : p (asOneNode nodes) := by
  unfold asOneNode
  split
  · exact h _ List.mem_cons_self
  · exact hrow

/-- The formula beside its source. -/
def annotated (source : String) (nodes : List Node) : Element :=
  .node .semantics []
    ((asOneNode nodes).elements ++ [.leaf .sourceText [.encoding] (.plain source)])

def mathAttributes (settings : Settings) (display : Display) : List Attribute :=
  (if settings.mathNamespace then [.mathNamespace] else []) ++ [.display display]

/-- The outermost element of a formula. -/
def mathElement (settings : Settings) (display : Display) (source : String)
    (nodes : List Node) : Element :=
  .node .math (mathAttributes settings display)
    (if settings.keepSource then [annotated source nodes] else sequenceElements nodes)

/-! ## Writing -/

/-- The formula beside its source, on lines of their own. -/
def emitAnnotated (source : String) (nodes : List Node) : Emitter := fun baseIndent =>
  let childIndent := nestedIndent baseIndent
  onLine baseIndent (startTag .semantics [] ++
    ((asOneNode nodes).emit childIndent ++
      onLine childIndent
        (startTag .sourceText [.encoding] ++ escapeContent source.toList ++ endTag .sourceText)) ++
    onLine baseIndent (endTag .semantics))

/-- The text of the outermost element. -/
def emitFormula (settings : Settings) (display : Display) (source : String) (nodes : List Node) :
    List Char :=
  let baseIndent := settings.baseIndent display
  startTag .math (mathAttributes settings display) ++
    (if settings.keepSource then emitAnnotated source nodes baseIndent
      else emitAll (emitters nodes) baseIndent) ++
    (if settings.spreads display then ['\n'] else []) ++ endTag .math

/-- The markup of a formula. -/
def convert (settings : Settings) (display : Display) (source : String) :
    Except Fault String :=
  match readFormula source with
  | .error fault => .error fault
  | .ok expression =>
    .ok (String.ofList (emitFormula settings display source (typeset expression)))

end MathMarkup
