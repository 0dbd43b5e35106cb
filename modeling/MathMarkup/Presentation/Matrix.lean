import MathMarkup.Presentation.Node

/-!
# Matrices

A group of bracketed rows, separated by commas, is a matrix if all its rows have the same number of
columns, also separated by commas. A column that contains a bar is no column of the matrix; in the
first row it asks for a line.

* `matrixRows` — the rows of a group that has the shape of a matrix.
* `Node.ofGroup` — a group as a matrix, if it has that shape.
-/

namespace MathMarkup.Presentation

/-- A comma of the formula. -/
def Node.isComma : Node → Bool
  | identifier written => written = ","
  | _ => false

/-- A vertical bar of the formula. -/
def Node.isBar : Node → Bool
  | operator written => written = "|"
  | _ => false

/-- The contents of bracketed groups that are separated by commas. -/
def groupsBetweenCommas : List Node → Option (List (List Node))
  | [.fenced _ _ content] => some [content]
  | .fenced _ _ content :: comma :: rest =>
    if comma.isComma then
      match groupsBetweenCommas rest with
      | none => none
      | some rows => some (content :: rows)
    else none
  | _ => none

/-- The pieces of a row between its commas. -/
def splitAtCommas : List Node → List (List Node)
  | [] => [[]]
  | node :: rest =>
    if node.isComma then [] :: splitAtCommas rest
    else
      match splitAtCommas rest with
      | [] => [[node]]
      | piece :: pieces => (node :: piece) :: pieces

/-- A piece with a bar among its nodes is a line between columns. -/
def isColumnBar (piece : List Node) : Bool := piece.any Node.isBar

/-- The rows of the content of a group, if it has the shape of a matrix: all rows have as many
commas as the first one, and a single row has at least one. -/
def matrixRows (content : List Node) : Option (List (List Node)) :=
  match groupsBetweenCommas content with
  | none => none
  | some [] => none
  | some (first :: others) =>
    let commas := first.countP Node.isComma
    if others.all (fun row => row.countP Node.isComma = commas) then
      if others.isEmpty && commas = 0 then none else some (first :: others)
    else none

/-- The cells of a row: its pieces without those that are bars. -/
def cellsOf (row : List Node) : List (List Node) :=
  (splitAtCommas row).filter fun piece => !isColumnBar piece

/-- The positions of the bars among the pieces of a row. -/
def barPositions (row : List Node) : List Nat :=
  (splitAtCommas row).zipIdx.filterMap fun (piece, position) =>
    if isColumnBar piece then some position else none

/-- A first row that is shorter than the second one is filled up with empty cells. -/
def fillFirst : List (List (List Node)) → List (List (List Node))
  | first :: second :: others =>
    (first ++ List.replicate (second.length - first.length) []) :: second :: others
  | rows => rows

/-- There is a solid line before column `n` of the matrix if the `n`-th piece of the first row is a
bar. -/
def columnLines (bars : List Nat) (columns : Nat) : List ColumnLine :=
  (List.range' 1 (columns - 1)).map fun column =>
    if bars.contains column then .solid else .none

/-- A group as a matrix, if its content has the shape of one. -/
def Node.matrix? (opening closing : Option String) (content : List Node) : Option Node :=
  match matrixRows content with
  | none => none
  | some rows =>
    let cells := fillFirst (rows.map cellsOf)
    let bars := barPositions (rows.headD [])
    some (.matrix opening closing cells (columnLines bars (cells.headD []).length))

/-- A group, as a matrix where it has the shape of one. -/
def Node.ofGroup (opening closing : Option String) (content : List Node) : Node :=
  match matrix? opening closing content with
  | some node => node
  | none => .fenced opening closing content

end MathMarkup.Presentation
