import MathMarkup.Markup.Element
import MathMarkup.Presentation.Node

/-!
# Nodes as elements

* `Node.elements` — the elements that show a node: one for every node, three for content between
  two operators.
-/

namespace MathMarkup.Presentation

open MathMarkup.Formula MathMarkup.Markup

/-- An element without attributes that holds the written text. -/
def written (tag : Tag) (text : String) : Element := .leaf tag [] (.written text)

/-- The bracket of a group, unless it is invisible. -/
def fenceElements : Option String → List Element
  | none => []
  | some glyph => [written .mo glyph]

/-- The element that sets something on a side of a base. -/
def Side.tag : Side → Tag
  | .above => .mover
  | .below => .munder

/-- The element for a base with scripts. -/
def scriptsTag (hasSub hasSup : Bool) : Placement → Tag
  | .attached =>
    if hasSub && hasSup then .msubsup else if hasSub then .msub
    else if hasSup then .msup else .mrow
  | _ =>
    if hasSub && hasSup then .munderover else if hasSub then .munder
    else if hasSup then .mover else .mrow

/-- The element for a base with marks. -/
def decorationTag (hasAbove hasBelow : Bool) : Tag :=
  if hasBelow && hasAbove then .munderover else if hasBelow then .munder
  else if hasAbove then .mover else .mrow

/-- A stacked script has its base in an element of its own, without a script. -/
def stackBase (base : List Element) (hasScript : Bool) : Placement → List Element
  | .stacked side => if hasScript then [.node (Side.tag side) [] base] else base
  | _ => base

/-- The table of a matrix. -/
def tableElement (lines : List ColumnLine) (rows : List Element) : Element :=
  .node .mtable [.columnLines (lines.map (· = .solid))] rows

mutual

/-- The elements of a node. -/
def Node.elements : Node → List Element
  | .number text => [written .mn text]
  | .identifier text => [written .mi text]
  | .operator text => [written .mo text]
  | .text content => [.leaf .mtext [] (.plain content)]
  | .spacedText text => [.node .mrow [] [.space, written .mtext text, .space]]
  | .row content => [.node .mrow [] (sequenceElements content)]
  | .fenced opening closing content =>
    [.node .mrow [] (fenceElements opening ++ (sequenceElements content ++ fenceElements closing))]
  | .delimited opening closing content =>
    written .mo opening :: (content.elements ++ [written .mo closing])
  | .scripts base sub sup placement =>
    let stacked := stackBase base.elements (sub.isSome || sup.isSome) placement
    [.node (scriptsTag sub.isSome sup.isSome placement) []
      (stacked ++ (optionalElements sub ++ optionalElements sup))]
  | .fraction numerator denominator =>
    [.node .mfrac [] (numerator.elements ++ denominator.elements)]
  | .root none radicand => [.node .msqrt [] radicand.elements]
  | .root (some index) radicand => [.node .mroot [] (radicand.elements ++ index.elements)]
  | .decorated base above below =>
    [.node (decorationTag above.isSome below.isSome) []
      (base.elements ++ (optionalElements below ++ optionalElements above))]
  | .struck content => [.node .menclose [.upDiagonalStrike] content.elements]
  | .styled variant content => [.node .mstyle [.mathVariant variant] content.elements]
  | .colored color content => [.node .mstyle [.mathColor color] content.elements]
  | .matrix opening closing rows lines =>
    [.node .mrow []
      (fenceElements opening ++ (tableElement lines (rowElements rows) :: fenceElements closing))]

def optionalElements : Option Node → List Element
  | none => []
  | some node => node.elements

def sequenceElements : List Node → List Element
  | [] => []
  | node :: rest => node.elements ++ sequenceElements rest

/-- The cells of a row, each in an element of its own. -/
def cellElements : List (List Node) → List Element
  | [] => []
  | cell :: rest => .node .mtd [] (sequenceElements cell) :: cellElements rest

/-- The rows of a matrix, each in an element of its own. -/
def rowElements : List (List (List Node)) → List Element
  | [] => []
  | row :: rest => .node .mtr [] (cellElements row) :: rowElements rest

end

end MathMarkup.Presentation
