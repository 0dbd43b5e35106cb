import MathMarkup.Formula.Symbol

/-!
# Nodes of a typeset formula

* `Node` — the parts of a typeset formula, by what they look like.
* `Node.unfenced`, `Node.inRow` — the two forms in which operands are taken.

Texts of numbers, identifiers and operators are in the form in which they are written to markup;
verbatim texts and colours are plain and are escaped when they are written.
-/

namespace MathMarkup.Presentation

open MathMarkup.Formula

/-- Where scripts go. -/
inductive Placement where
  /-- At the right corners of the base. -/
  | attached
  /-- Under and over the base. -/
  | limits
  /-- Beyond a horizontal brace on the given side of the base. -/
  | stacked (side : Side)
  deriving DecidableEq, Repr

/-- The line between two columns of a matrix. -/
inductive ColumnLine where
  | none
  | solid
  deriving DecidableEq, Repr

/-- A part of a typeset formula. -/
inductive Node where
  | number (written : String)
  | identifier (written : String)
  | operator (written : String)
  | text (content : String)
  /-- A word with a space on either side. -/
  | spacedText (written : String)
  | row (content : List Node)
  /-- A bracketed group; an invisible bracket has no glyph. -/
  | fenced (opening closing : Option String) (content : List Node)
  /-- Content between two operators. -/
  | delimited (opening closing : String) (content : Node)
  | scripts (base : Node) (sub sup : Option Node) (placement : Placement)
  | fraction (numerator denominator : Node)
  /-- A square root, if there is no index. -/
  | root (index : Option Node) (radicand : Node)
  /-- A base with marks over and under it. -/
  | decorated (base : Node) (above below : Option Node)
  /-- Content with a line struck through it. -/
  | struck (content : Node)
  | styled (variant : Variant) (content : Node)
  | colored (color : String) (content : Node)
  /-- Rows of cells, each cell a sequence of nodes. -/
  | matrix (opening closing : Option String) (rows : List (List (List Node)))
      (lines : List ColumnLine)

namespace Node

/-- A bracketed group gives up its brackets and stays together as a row. -/
def unfenced : Node → Node
  | fenced _ _ content => row content
  | node => node

/-- Every node as a row. -/
def inRow : Node → Node
  | fenced _ _ content => row content
  | row content => row content
  | node => row [node]

end Node

end MathMarkup.Presentation
