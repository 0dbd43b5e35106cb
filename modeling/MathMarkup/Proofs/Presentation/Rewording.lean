import MathMarkup.Presentation.Typeset
import MathMarkup.Proofs.Formula.Rewording
import MathMarkup.Proofs.Markup.Rewording
import MathMarkup.Proofs.Presentation.Elements

/-!
# Nodes with other texts

How a formula is typeset does not depend on its verbatim texts. None of them is taken for a comma, a bar or
a bracket.

* `Node.mapTexts` — a node with other texts and colours.

Principal results: `Node.ofGroup_mapTexts` — a group is the same matrix or none; `typeset_mapTexts` — an
expression with other texts has the same nodes with the other texts, and `Node.elements_mapTexts` — these
have the same elements with the other texts.
-/

namespace MathMarkup.Presentation

open MathMarkup.Formula MathMarkup.Markup

variable {f : String → String}

/-! ## Other texts -/

mutual

/-- A node with other texts. -/
def Node.mapTexts (f : String → String) : Node → Node
  | .number written => .number written
  | .identifier written => .identifier written
  | .operator written => .operator written
  | .text content => .text (f content)
  | .spacedText written => .spacedText written
  | .row content => .row (sequenceMapTexts f content)
  | .fenced opening closing content => .fenced opening closing (sequenceMapTexts f content)
  | .delimited opening closing content => .delimited opening closing (content.mapTexts f)
  | .scripts base sub sup placement =>
    .scripts (base.mapTexts f) (optionalMapTexts f sub) (optionalMapTexts f sup) placement
  | .fraction numerator denominator => .fraction (numerator.mapTexts f) (denominator.mapTexts f)
  | .root index radicand => .root (optionalMapTexts f index) (radicand.mapTexts f)
  | .decorated base above below =>
    .decorated (base.mapTexts f) (optionalMapTexts f above) (optionalMapTexts f below)
  | .struck content => .struck (content.mapTexts f)
  | .styled variant content => .styled variant (content.mapTexts f)
  | .colored color content => .colored (f color) (content.mapTexts f)
  | .matrix opening closing rows lines => .matrix opening closing (rowsMapTexts f rows) lines

def optionalMapTexts (f : String → String) : Option Node → Option Node
  | none => none
  | some node => some (node.mapTexts f)

def sequenceMapTexts (f : String → String) : List Node → List Node
  | [] => []
  | node :: rest => node.mapTexts f :: sequenceMapTexts f rest

def cellsMapTexts (f : String → String) : List (List Node) → List (List Node)
  | [] => []
  | cell :: rest => sequenceMapTexts f cell :: cellsMapTexts f rest

def rowsMapTexts (f : String → String) : List (List (List Node)) → List (List (List Node))
  | [] => []
  | row :: rest => cellsMapTexts f row :: rowsMapTexts f rest

end

theorem optionalMapTexts_eq_map (f : String → String) (optional : Option Node) :
    optionalMapTexts f optional = optional.map (Node.mapTexts f) := by
  cases optional with
  | none => rw [optionalMapTexts, Option.map_none]
  | some node => rw [optionalMapTexts, Option.map_some]

theorem isSome_optionalMapTexts (optional : Option Node) :
    (optionalMapTexts f optional).isSome = optional.isSome := by
  rw [optionalMapTexts_eq_map, Option.isSome_map]

theorem sequenceMapTexts_eq_map (f : String → String) (content : List Node) :
    sequenceMapTexts f content = content.map (Node.mapTexts f) := by
  induction content with
  | nil => rw [sequenceMapTexts, List.map_nil]
  | cons node rest ih => rw [sequenceMapTexts, List.map_cons, ih]

theorem cellsMapTexts_eq_map (f : String → String) (row : List (List Node)) :
    cellsMapTexts f row = row.map (List.map (Node.mapTexts f)) := by
  induction row with
  | nil => rw [cellsMapTexts, List.map_nil]
  | cons cell rest ih => rw [cellsMapTexts, List.map_cons, ih, sequenceMapTexts_eq_map]

theorem rowsMapTexts_eq_map (f : String → String) (rows : List (List (List Node))) :
    rowsMapTexts f rows = rows.map (List.map (List.map (Node.mapTexts f))) := by
  induction rows with
  | nil => rw [rowsMapTexts, List.map_nil]
  | cons row rest ih => rw [rowsMapTexts, List.map_cons, ih, cellsMapTexts_eq_map]

/-! ## Operands -/

theorem unfenced_mapTexts (node : Node) : (node.mapTexts f).unfenced = node.unfenced.mapTexts f := by
  cases node with
  | fenced opening closing content => rw [Node.unfenced, Node.mapTexts, Node.mapTexts, Node.unfenced]
  | _ => simp only [Node.unfenced, Node.mapTexts]

theorem inRow_mapTexts (node : Node) : (node.mapTexts f).inRow = node.inRow.mapTexts f := by
  cases node with
  | row content => rw [Node.inRow, Node.mapTexts, Node.inRow]
  | fenced opening closing content => rw [Node.inRow, Node.mapTexts, Node.mapTexts, Node.inRow]
  | _ => simp only [Node.inRow, Node.mapTexts, sequenceMapTexts]

/-! ## Matrices -/

theorem isComma_mapTexts (node : Node) : (node.mapTexts f).isComma = node.isComma := by
  cases node <;> rw [Node.mapTexts] <;> rfl

theorem isBar_mapTexts (node : Node) : (node.mapTexts f).isBar = node.isBar := by
  cases node <;> rw [Node.mapTexts] <;> rfl

theorem groupsBetweenCommas_mapTexts : ∀ content : List Node,
    groupsBetweenCommas (content.map (Node.mapTexts f)) =
      (groupsBetweenCommas content).map (List.map (List.map (Node.mapTexts f)))
  | [] => rfl
  | [node] => by
    cases node with
    | fenced opening closing content =>
      rw [List.map_singleton, Node.mapTexts, sequenceMapTexts_eq_map]
      rfl
    | _ =>
      rw [List.map_singleton, Node.mapTexts]
      rfl
  | node :: comma :: rest => by
    cases node with
    | fenced opening closing content =>
      rw [List.map_cons, List.map_cons, Node.mapTexts, sequenceMapTexts_eq_map, groupsBetweenCommas,
        groupsBetweenCommas, isComma_mapTexts, groupsBetweenCommas_mapTexts rest]
      split
      · cases groupsBetweenCommas rest <;> rfl
      · rfl
    | _ =>
      rw [List.map_cons, List.map_cons, Node.mapTexts]
      rfl

theorem countP_isComma_mapTexts (row : List Node) :
    (row.map (Node.mapTexts f)).countP Node.isComma = row.countP Node.isComma := by
  rw [List.countP_map]
  exact List.countP_congr fun node _ => by rw [Function.comp_apply, isComma_mapTexts]

theorem matrixRows_mapTexts (content : List Node) :
    matrixRows (content.map (Node.mapTexts f)) =
      (matrixRows content).map (List.map (List.map (Node.mapTexts f))) := by
  rw [matrixRows, matrixRows, groupsBetweenCommas_mapTexts]
  cases groupsBetweenCommas content with
  | none => rfl
  | some rows =>
    cases rows with
    | nil => rfl
    | cons first others =>
      simp only [Option.map_some, List.map_cons, List.all_map, List.isEmpty_map, Function.comp_def,
        countP_isComma_mapTexts]
      split
      · split <;> rfl
      · rfl

theorem splitAtCommas_mapTexts (row : List Node) :
    splitAtCommas (row.map (Node.mapTexts f)) =
      (splitAtCommas row).map (List.map (Node.mapTexts f)) := by
  induction row with
  | nil => rfl
  | cons node row ih =>
    rw [List.map_cons, splitAtCommas, splitAtCommas, isComma_mapTexts, ih]
    split
    · rfl
    · cases splitAtCommas row <;> rfl

theorem isColumnBar_mapTexts (piece : List Node) :
    isColumnBar (piece.map (Node.mapTexts f)) = isColumnBar piece := by
  simp only [isColumnBar, List.any_map, Function.comp_def, isBar_mapTexts]

theorem cellsOf_mapTexts (row : List Node) :
    cellsOf (row.map (Node.mapTexts f)) = (cellsOf row).map (List.map (Node.mapTexts f)) := by
  rw [cellsOf, cellsOf, splitAtCommas_mapTexts, List.filter_map]
  simp only [Function.comp_def, isColumnBar_mapTexts]

theorem barPositions_mapTexts (row : List Node) :
    barPositions (row.map (Node.mapTexts f)) = barPositions row := by
  rw [barPositions, barPositions, splitAtCommas_mapTexts, List.zipIdx_map, List.filterMap_map]
  refine List.filterMap_congr fun ⟨piece, position⟩ _ => ?_
  show (if isColumnBar (piece.map (Node.mapTexts f)) then some position else none) = _
  rw [isColumnBar_mapTexts]

theorem fillFirst_mapTexts (rows : List (List (List Node))) :
    fillFirst (rows.map (List.map (List.map (Node.mapTexts f)))) =
      (fillFirst rows).map (List.map (List.map (Node.mapTexts f))) := by
  match rows with
  | [] => rfl
  | [_] => rfl
  | first :: second :: others => simp [fillFirst]

theorem Node.matrix?_mapTexts (opening closing : Option String) (content : List Node) :
    Node.matrix? opening closing (content.map (Node.mapTexts f)) =
      (Node.matrix? opening closing content).map (Node.mapTexts f) := by
  rw [matrix?, matrix?, matrixRows_mapTexts]
  cases matrixRows content with
  | none => rfl
  | some rows =>
    have hcells : (rows.map (List.map (Node.mapTexts f))).map cellsOf =
        (rows.map cellsOf).map (List.map (List.map (Node.mapTexts f))) := by
      simp only [List.map_map, Function.comp_def, cellsOf_mapTexts]
    have hbars : barPositions ((rows.map (List.map (Node.mapTexts f))).headD []) =
        barPositions (rows.headD []) := by
      cases rows with
      | nil => rfl
      | cons first others => exact barPositions_mapTexts first
    have hwidth : ∀ cells : List (List (List Node)),
        ((cells.map (List.map (List.map (Node.mapTexts f)))).headD []).length =
          (cells.headD []).length := by
      intro cells
      cases cells with
      | nil => rfl
      | cons first others => exact List.length_map _
    simp only [Option.map_some, hcells, fillFirst_mapTexts, hbars, hwidth, mapTexts,
      rowsMapTexts_eq_map]

/-- **A group is a matrix or none whatever its texts are**, and the texts stay in their cells. -/
theorem Node.ofGroup_mapTexts (opening closing : Option String) (content : List Node) :
    Node.ofGroup opening closing (content.map (Node.mapTexts f)) =
      (Node.ofGroup opening closing content).mapTexts f := by
  rw [ofGroup, ofGroup, matrix?_mapTexts]
  cases matrix? opening closing content with
  | none => simp only [Option.map_none, mapTexts, sequenceMapTexts_eq_map]
  | some node => rfl

/-! ## Elements -/

theorem written_mapTexts (tag : Tag) (text : String) : (written tag text).mapTexts f = written tag text := by
  rw [written, Element.mapTexts]
  rfl

theorem fenceElements_mapTexts (fence : Option String) :
    elementsMapTexts f (fenceElements fence) = fenceElements fence := by
  cases fence with
  | none => rw [fenceElements, elementsMapTexts]
  | some glyph => rw [fenceElements, elementsMapTexts, elementsMapTexts, written_mapTexts]

theorem stackBase_mapTexts (base : List Element) (hasScript : Bool) (placement : Placement) :
    elementsMapTexts f (stackBase base hasScript placement) =
      stackBase (elementsMapTexts f base) hasScript placement := by
  cases placement with
  | stacked side =>
    cases hasScript with
    | false => rfl
    | true => simp [stackBase, elementsMapTexts, Element.mapTexts]
  | _ => rfl

mutual

/-- **A node with other texts has the same elements** with the other texts. -/
theorem Node.elements_mapTexts (f : String → String) : ∀ node : Node,
    (node.mapTexts f).elements = elementsMapTexts f node.elements
  | .number written => by
    rw [Node.mapTexts, Node.elements]
    rfl
  | .identifier written => by
    rw [Node.mapTexts, Node.elements]
    rfl
  | .operator written => by
    rw [Node.mapTexts, Node.elements]
    rfl
  | .text content => by
    rw [Node.mapTexts, Node.elements, Node.elements]
    rfl
  | .spacedText word => by
    rw [Node.mapTexts, Node.elements]
    rfl
  | .row content => by
    rw [Node.mapTexts, Node.elements, Node.elements, sequenceElements_mapTexts f content,
      elementsMapTexts_node, List.map_nil]
  | .fenced opening closing content => by
    rw [Node.mapTexts, Node.elements, Node.elements, sequenceElements_mapTexts f content,
      elementsMapTexts_node, List.map_nil, elementsMapTexts_append, elementsMapTexts_append,
      fenceElements_mapTexts, fenceElements_mapTexts]
  | .delimited opening closing content => by
    rw [Node.mapTexts, Node.elements, Node.elements, content.elements_mapTexts f, elementsMapTexts,
      elementsMapTexts_append, elementsMapTexts, elementsMapTexts, written_mapTexts, written_mapTexts]
  | .scripts base sub sup placement => by
    rw [Node.mapTexts, Node.elements, Node.elements, isSome_optionalMapTexts, isSome_optionalMapTexts,
      base.elements_mapTexts f, optionalElements_mapTexts f sub, optionalElements_mapTexts f sup,
      elementsMapTexts_node, List.map_nil, elementsMapTexts_append, elementsMapTexts_append,
      stackBase_mapTexts]
  | .fraction numerator denominator => by
    rw [Node.mapTexts, Node.elements, Node.elements, numerator.elements_mapTexts f,
      denominator.elements_mapTexts f, elementsMapTexts_node, List.map_nil, elementsMapTexts_append]
  | .root none radicand => by
    rw [Node.mapTexts, optionalMapTexts, Node.elements, Node.elements, radicand.elements_mapTexts f,
      elementsMapTexts_node, List.map_nil]
  | .root (some index) radicand => by
    rw [Node.mapTexts, optionalMapTexts, Node.elements, Node.elements, radicand.elements_mapTexts f,
      index.elements_mapTexts f, elementsMapTexts_node, List.map_nil, elementsMapTexts_append]
  | .decorated base above below => by
    rw [Node.mapTexts, Node.elements, Node.elements, isSome_optionalMapTexts, isSome_optionalMapTexts,
      base.elements_mapTexts f, optionalElements_mapTexts f above, optionalElements_mapTexts f below,
      elementsMapTexts_node, List.map_nil, elementsMapTexts_append, elementsMapTexts_append]
  | .struck content => by
    rw [Node.mapTexts, Node.elements, Node.elements, content.elements_mapTexts f, elementsMapTexts_node]
    rfl
  | .styled variant content => by
    rw [Node.mapTexts, Node.elements, Node.elements, content.elements_mapTexts f, elementsMapTexts_node]
    rfl
  | .colored color content => by
    rw [Node.mapTexts, Node.elements, Node.elements, content.elements_mapTexts f, elementsMapTexts_node]
    rfl
  | .matrix opening closing rows lines => by
    have htable : (tableElement lines (rowElements rows)).mapTexts f =
        tableElement lines (elementsMapTexts f (rowElements rows)) := by
      rw [tableElement, Element.mapTexts]
      rfl
    rw [Node.mapTexts, Node.elements, Node.elements, rowElements_mapTexts f rows, elementsMapTexts_node,
      List.map_nil, elementsMapTexts_append, elementsMapTexts, htable, fenceElements_mapTexts,
      fenceElements_mapTexts]

theorem optionalElements_mapTexts (f : String → String) : ∀ optional : Option Node,
    optionalElements (optionalMapTexts f optional) = elementsMapTexts f (optionalElements optional)
  | none => by rw [optionalMapTexts, optionalElements, elementsMapTexts]
  | some node => by rw [optionalMapTexts, optionalElements, optionalElements, node.elements_mapTexts f]

theorem sequenceElements_mapTexts (f : String → String) : ∀ content : List Node,
    sequenceElements (sequenceMapTexts f content) = elementsMapTexts f (sequenceElements content)
  | [] => by rw [sequenceMapTexts, sequenceElements, elementsMapTexts]
  | node :: rest => by
    rw [sequenceMapTexts, sequenceElements, sequenceElements, elementsMapTexts_append,
      node.elements_mapTexts f, sequenceElements_mapTexts f rest]

theorem cellElements_mapTexts (f : String → String) : ∀ row : List (List Node),
    cellElements (cellsMapTexts f row) = elementsMapTexts f (cellElements row)
  | [] => by rw [cellsMapTexts, cellElements, elementsMapTexts]
  | cell :: rest => by
    rw [cellsMapTexts, cellElements, cellElements, elementsMapTexts, Element.mapTexts, List.map_nil,
      sequenceElements_mapTexts f cell, cellElements_mapTexts f rest]

theorem rowElements_mapTexts (f : String → String) : ∀ rows : List (List (List Node)),
    rowElements (rowsMapTexts f rows) = elementsMapTexts f (rowElements rows)
  | [] => by rw [rowsMapTexts, rowElements, elementsMapTexts]
  | row :: rest => by
    rw [rowsMapTexts, rowElements, rowElements, elementsMapTexts, Element.mapTexts, List.map_nil,
      cellElements_mapTexts f row, rowElements_mapTexts f rest]

end

end MathMarkup.Presentation

namespace MathMarkup.Formula

open MathMarkup.Presentation

variable {f : String → String}

/-! ## Typesetting -/

theorem Leaf.node_mapText (f : String → String) (l : Leaf) : (l.mapText f).node = l.node.mapTexts f := by
  cases l with
  | sign symbol => cases symbol <;> rfl
  | _ => rfl

theorem decorate_mapTexts (base mark : Node) (side : Side) :
    (decorate base mark side).mapTexts f = decorate (base.mapTexts f) (mark.mapTexts f) side := by
  cases side <;> simp only [decorate, Node.mapTexts, optionalMapTexts]

theorem Unary.node_mapTexts (operand : Node) (g : Unary) :
    (g.node operand).mapTexts f = g.node (operand.mapTexts f) := by
  cases g <;>
    simp only [Unary.node, decorate_mapTexts, Node.mapTexts, optionalMapTexts, unfenced_mapTexts]

theorem Binary.node_mapTexts (first second : Node) (g : Binary) :
    (g.node first second).mapTexts f = g.node (first.mapTexts f) (second.mapTexts f) := by
  cases g <;>
    simp only [Binary.node, decorate_mapTexts, Node.mapTexts, optionalMapTexts, unfenced_mapTexts,
      inRow_mapTexts]

theorem Operand.placement_mapTexts (hasSub hasSup : Bool) (operand : Operand) :
    (operand.mapTexts f).placement hasSub hasSup = operand.placement hasSub hasSup := by
  cases operand with
  | leaf l =>
    rw [Operand.mapTexts]
    cases l <;> rfl
  | unary g operand =>
    rw [Operand.mapTexts]
    cases g with
    | brace glyph side => cases side <;> rfl
    | _ => rfl
  | _ =>
    rw [Operand.mapTexts]
    rfl

theorem attachScripts_mapTexts (base : Node) (sub sup : Option Node) (placement : Placement) :
    (attachScripts base sub sup placement).mapTexts f =
      attachScripts (base.mapTexts f) (sub.map (Node.mapTexts f)) (sup.map (Node.mapTexts f))
        placement := by
  cases placement <;>
    simp only [attachScripts, Node.mapTexts, optionalMapTexts_eq_map, Option.map_map, Function.comp_def,
      unfenced_mapTexts]

mutual

theorem Operand.node_mapTexts (f : String → String) : ∀ operand : Operand,
    (operand.mapTexts f).node = operand.node.mapTexts f
  | .leaf l => by rw [Operand.mapTexts, Operand.node, Operand.node, l.node_mapText]
  | .words content => by rw [Operand.mapTexts, Operand.node, Operand.node, Node.mapTexts]
  | .group opening closing content => by
    rw [Operand.mapTexts, Operand.node, Operand.node, typeset_mapTexts f content, Node.ofGroup_mapTexts]
  | .unary g operand => by
    rw [Operand.mapTexts, Operand.node, Operand.node, operand.node_mapTexts f, g.node_mapTexts]
  | .binary g first second => by
    rw [Operand.mapTexts, Operand.node, Operand.node, first.node_mapTexts f, second.node_mapTexts f,
      g.node_mapTexts]
  | .color name operand => by
    rw [Operand.mapTexts, Operand.node, Operand.node, operand.node_mapTexts f, unfenced_mapTexts,
      Node.mapTexts]

theorem Term.node_mapTexts (f : String → String) : ∀ term : Term,
    (term.mapTexts f).node = term.node.mapTexts f
  | .bare base => by rw [Term.mapTexts, Term.node, Term.node, base.node_mapTexts f]
  | .sub base script => by
    rw [Term.mapTexts, Term.node, Term.node, base.node_mapTexts f, script.node_mapTexts f,
      base.placement_mapTexts, attachScripts_mapTexts, Option.map_some, Option.map_none]
  | .sup base script => by
    rw [Term.mapTexts, Term.node, Term.node, base.node_mapTexts f, script.node_mapTexts f,
      base.placement_mapTexts, attachScripts_mapTexts, Option.map_some, Option.map_none]
  | .subSup base lower upper => by
    rw [Term.mapTexts, Term.node, Term.node, base.node_mapTexts f, lower.node_mapTexts f,
      upper.node_mapTexts f, base.placement_mapTexts, attachScripts_mapTexts, Option.map_some,
      Option.map_some]

theorem Ratio.node_mapTexts (f : String → String) : ∀ ratio : Ratio,
    (ratio.mapTexts f).node = ratio.node.mapTexts f
  | .term t => by rw [Ratio.mapTexts, Ratio.node, Ratio.node, t.node_mapTexts f]
  | .divided numerator denominator => by
    rw [Ratio.mapTexts, Ratio.node, Ratio.node, numerator.node_mapTexts f, denominator.node_mapTexts f,
      unfenced_mapTexts, unfenced_mapTexts, Node.mapTexts]

/-- **An expression with other texts has the same nodes** with the other texts. -/
theorem typeset_mapTexts (f : String → String) : ∀ expression : List Ratio,
    typeset (expressionMapTexts f expression) = (typeset expression).map (Node.mapTexts f)
  | [] => by rw [expressionMapTexts, typeset, List.map_nil]
  | q :: rest => by
    rw [expressionMapTexts, typeset, typeset, List.map_cons, q.node_mapTexts f, typeset_mapTexts f rest]

end

end MathMarkup.Formula
