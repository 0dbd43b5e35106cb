import Mathlib.Data.List.Perm.Basic
import MathMarkup.Proofs.Presentation.MatrixShape
import MathMarkup.Proofs.Presentation.Rewording

/-!
# Texts that are not shown

A column of a matrix that contains a bar is shown as a line, and what else stands in it is dropped. All
other texts of an expression are shown.

* `Node.texts` — the texts in the elements of a node.
* `barTexts` — the texts in the columns of a group that are shown as lines.
* `expressionDropped` — the texts in all such columns of an expression.

Principal results: `texts_typeset` — every text of an expression is shown or dropped, once each time it
stands there; `expressionDropped_mapTexts` — which texts are dropped does not depend on the texts.
-/

namespace MathMarkup.Presentation

open MathMarkup.Formula MathMarkup.Markup

variable {f : String → String}

/-! ## The texts in elements -/

theorem elementsTexts_fenceElements (fence : Option String) : elementsTexts (fenceElements fence) = [] := by
  cases fence <;> rfl

theorem elementsTexts_stackBase (base : List Element) (hasScript : Bool) (placement : Placement) :
    elementsTexts (stackBase base hasScript placement) = elementsTexts base := by
  cases placement with
  | stacked side =>
    cases hasScript with
    | false => rfl
    | true => rw [stackBase, if_pos rfl, elementsTexts_node, List.flatMap_nil, List.nil_append]
  | _ => rfl

namespace Node

/-- The texts that a node shows. -/
def texts (node : Node) : List String := elementsTexts node.elements

end Node

theorem elementsTexts_sequenceElements (content : List Node) :
    elementsTexts (sequenceElements content) = content.flatMap Node.texts := by
  rw [elementsTexts_eq_flatMap, sequenceElements_eq_flatMap, List.flatMap_assoc]
  exact List.flatMap_congr fun node _ => (elementsTexts_eq_flatMap _).symm

theorem elementsTexts_optionalElements (optional : Option Node) :
    elementsTexts (optionalElements optional) = optional.toList.flatMap Node.texts := by
  cases optional with
  | none => rfl
  | some node =>
    rw [optionalElements, Option.toList_some, List.flatMap_singleton]
    rfl

theorem elementsTexts_rowElements (rows : List (List (List Node))) :
    elementsTexts (rowElements rows) = rows.flatten.flatten.flatMap Node.texts := by
  induction rows with
  | nil => rfl
  | cons row rows ih =>
    have hrow : elementsTexts (cellElements row) = row.flatten.flatMap Node.texts := by
      induction row with
      | nil => rfl
      | cons cell row ih =>
        rw [cellElements, elementsTexts, Element.texts, List.flatMap_nil, List.nil_append, ih,
          elementsTexts_sequenceElements, List.flatten_cons, List.flatMap_append]
    rw [rowElements, elementsTexts, Element.texts, List.flatMap_nil, List.nil_append, hrow, ih,
      List.flatten_cons, List.flatten_append, List.flatMap_append]

namespace Node

/-- **A node shows its own texts and those of the nodes in it**, in this order. -/
theorem texts_eq (node : Node) : node.texts = node.plainTexts ++ node.children.flatMap texts := by
  rw [texts]
  cases node with
  | number glyph => rfl
  | identifier glyph => rfl
  | operator glyph => rfl
  | text content => rfl
  | spacedText word => rfl
  | row content =>
    rw [elements, elementsTexts_node, elementsTexts_sequenceElements]
    rfl
  | fenced opening closing content =>
    rw [elements, elementsTexts_node, elementsTexts_append, elementsTexts_append,
      elementsTexts_fenceElements, elementsTexts_fenceElements, elementsTexts_sequenceElements,
      List.append_nil]
    rfl
  | delimited opening closing content =>
    rw [elements, elementsTexts, elementsTexts_append, children, List.flatMap_singleton]
    exact List.append_nil _
  | scripts base sub sup placement =>
    rw [elements, elementsTexts_node, elementsTexts_append, elementsTexts_append,
      elementsTexts_stackBase, elementsTexts_optionalElements, elementsTexts_optionalElements, children,
      List.flatMap_cons, List.flatMap_append]
    rfl
  | fraction numerator denominator =>
    rw [elements, elementsTexts_node, elementsTexts_append, children, List.flatMap_cons,
      List.flatMap_singleton]
    rfl
  | root index radicand =>
    rw [children, List.flatMap_cons]
    cases index with
    | none =>
      rw [elements, elementsTexts_node]
      exact (List.append_nil radicand.texts).symm
    | some index =>
      rw [elements, elementsTexts_node, elementsTexts_append, Option.toList_some, List.flatMap_singleton]
      rfl
  | decorated base above below =>
    rw [elements, elementsTexts_node, elementsTexts_append, elementsTexts_append,
      elementsTexts_optionalElements, elementsTexts_optionalElements, children, List.flatMap_cons,
      List.flatMap_append]
    rfl
  | struck content =>
    rw [elements, elementsTexts_node, children, List.flatMap_singleton, List.flatMap_singleton]
    rfl
  | styled variant content =>
    rw [elements, elementsTexts_node, children, List.flatMap_singleton, List.flatMap_singleton]
    rfl
  | colored color content =>
    rw [elements, elementsTexts_node, children, List.flatMap_singleton, List.flatMap_singleton]
    rfl
  | matrix opening closing rows lines =>
    rw [elements, elementsTexts_node, elementsTexts_append, elementsTexts, tableElement, Element.texts,
      elementsTexts_fenceElements, elementsTexts_fenceElements, elementsTexts_rowElements, List.append_nil]
    rfl

theorem texts_mapTexts (f : String → String) (node : Node) : (node.mapTexts f).texts = node.texts.map f := by
  rw [texts, texts, elements_mapTexts, elementsTexts_mapTexts]

theorem texts_unfenced (node : Node) : node.unfenced.texts = node.texts := by
  cases node with
  | fenced opening closing content => rw [unfenced, texts_eq, texts_eq]; rfl
  | _ => rfl

theorem texts_inRow (node : Node) : node.inRow.texts = node.texts := by
  cases node with
  | fenced opening closing content => rw [inRow, texts_eq, texts_eq]; rfl
  | row content => rfl
  | _ =>
    simp only [inRow]
    rw [texts_eq (row _), children, List.flatMap_singleton]
    rfl

end Node

/-! ## The columns of a matrix -/

/-- The texts in the columns of a group that are shown as lines. -/
def barTexts (content : List Node) : List String :=
  match matrixRows content with
  | none => []
  | some rows => rows.flatMap fun row => ((splitAtCommas row).filter isColumnBar).flatten.flatMap Node.texts

theorem texts_comma : comma.texts = [] := rfl

/-- Commas have no texts. -/
theorem flatMap_texts_splitAtCommas (row : List Node) :
    (splitAtCommas row).flatten.flatMap Node.texts = row.flatMap Node.texts := by
  induction row using splitAtCommas_induction with
  | nil => rfl
  | ended ih => rw [List.flatten_cons, List.nil_append, ih, List.flatMap_cons, texts_comma, List.nil_append]
  | grown _ ih =>
    rw [List.flatten_cons, List.flatMap_append] at ih
    rw [List.flatten_cons, List.flatMap_append, List.flatMap_cons, List.flatMap_cons, List.append_assoc, ih]

/-- The nodes of a row stand in its cells, or in a column with a bar. -/
theorem texts_cellsOf (row : List Node) :
    (row.flatMap Node.texts).Perm ((cellsOf row).flatten.flatMap Node.texts ++
      ((splitAtCommas row).filter isColumnBar).flatten.flatMap Node.texts) := by
  rw [← flatMap_texts_splitAtCommas, ← List.flatMap_append, ← List.flatten_append, cellsOf]
  have hsplit := List.filter_append_perm (fun piece => !isColumnBar piece) (splitAtCommas row)
  simp only [Bool.not_not] at hsplit
  exact (hsplit.symm.flatten).flatMap_right Node.texts

/-- Empty cells have no texts. -/
theorem flatten_fillFirst (rows : List (List (List Node))) :
    (fillFirst rows).flatten.flatten = rows.flatten.flatten := by
  cases rows with
  | nil => rfl
  | cons first others => simp [fillFirst_cons]

/-- The groups between commas have all texts. -/
theorem texts_bracketed : ∀ {content : List Node}, Alternates content →
    (bracketed content).flatMap (·.flatMap Node.texts) = content.flatMap Node.texts
  | [], h => absurd h not_alternates_nil
  | [group], h => by
    obtain ⟨opening, closing, inner, rfl⟩ := alternates_singleton.1 h
    rw [List.flatMap_singleton, Node.texts_eq]
    exact List.flatMap_singleton _ inner
  | group :: other :: rest, h => by
    obtain ⟨⟨opening, closing, inner, rfl⟩, rfl, hrest⟩ := alternates_cons_cons.1 h
    rw [bracketed_cons_cons, List.flatMap_cons, texts_bracketed hrest, List.flatMap_cons,
      List.flatMap_cons, texts_comma, Node.texts_eq]
    rfl

/-- The rows of a matrix have the texts of its cells and of its bars. -/
theorem texts_rows (rows : List (List Node)) :
    (rows.flatMap (·.flatMap Node.texts)).Perm ((rows.map cellsOf).flatten.flatten.flatMap Node.texts ++
      rows.flatMap fun row => ((splitAtCommas row).filter isColumnBar).flatten.flatMap Node.texts) := by
  have hcells : (rows.map cellsOf).flatten.flatten.flatMap Node.texts =
      rows.flatMap fun row => (cellsOf row).flatten.flatMap Node.texts := by
    induction rows with
    | nil => rfl
    | cons row rows ih =>
      rw [List.map_cons, List.flatten_cons, List.flatten_append, List.flatMap_append, ih, List.flatMap_cons]
  rw [hcells]
  exact (List.Perm.flatMap_left rows fun row _ => texts_cellsOf row).trans
    (List.flatMap_append_perm _ _ _).symm

/-- **A group shows all texts in it, but for those in the columns of a matrix that are shown as lines.** -/
theorem Node.texts_ofGroup (opening closing : Option String) (content : List Node) :
    (content.flatMap texts).Perm ((ofGroup opening closing content).texts ++ barTexts content) := by
  rw [ofGroup, matrix?, barTexts]
  cases hrows : matrixRows content with
  | none =>
    dsimp only
    rw [texts_eq, List.append_nil]
    exact .refl _
  | some rows =>
    obtain ⟨⟨commas, hshape⟩, rfl⟩ := matrixRows_eq_some_iff.1 hrows
    dsimp only
    rw [texts_eq, children, flatten_fillFirst, ← texts_bracketed hshape.alternates]
    exact texts_rows (bracketed content)

/-- Which columns are shown as lines does not depend on the texts. -/
theorem barTexts_mapTexts (f : String → String) (content : List Node) :
    barTexts (content.map (Node.mapTexts f)) = (barTexts content).map f := by
  rw [barTexts, barTexts, matrixRows_mapTexts]
  cases matrixRows content with
  | none => rfl
  | some rows =>
    dsimp only [Option.map_some]
    rw [List.flatMap_map, List.map_flatMap]
    refine List.flatMap_congr fun row _ => ?_
    have hbars : isColumnBar ∘ List.map (Node.mapTexts f) = isColumnBar := funext isColumnBar_mapTexts
    rw [splitAtCommas_mapTexts, List.filter_map, hbars, ← List.map_flatten, List.flatMap_map,
      List.map_flatMap]
    exact List.flatMap_congr fun node _ => node.texts_mapTexts f

end MathMarkup.Presentation

namespace MathMarkup.Formula

open MathMarkup.Presentation

/-! ## The texts that an expression drops -/

mutual

/-- The texts in the columns that are shown as lines, in this operand and in the operands in it. -/
def Operand.dropped : Operand → List String
  | .leaf _ => []
  | .words _ => []
  | .group _ _ content => barTexts (typeset content) ++ expressionDropped content
  | .unary _ operand => operand.dropped
  | .binary _ first second => first.dropped ++ second.dropped
  | .color _ operand => operand.dropped

def Term.dropped : Term → List String
  | .bare base => base.dropped
  | .sub base script => base.dropped ++ script.dropped
  | .sup base script => base.dropped ++ script.dropped
  | .subSup base lower upper => base.dropped ++ (lower.dropped ++ upper.dropped)

def Ratio.dropped : Ratio → List String
  | .term t => t.dropped
  | .divided numerator denominator => numerator.dropped ++ denominator.dropped

def expressionDropped : List Ratio → List String
  | [] => []
  | q :: rest => q.dropped ++ expressionDropped rest

end

mutual

theorem Operand.dropped_mapTexts (f : String → String) : ∀ operand : Operand,
    (operand.mapTexts f).dropped = operand.dropped.map f
  | .leaf l => by rw [Operand.mapTexts, Operand.dropped, Operand.dropped, List.map_nil]
  | .words content => by rw [Operand.mapTexts, Operand.dropped, Operand.dropped, List.map_nil]
  | .group opening closing content => by
    rw [Operand.mapTexts, Operand.dropped, Operand.dropped, typeset_mapTexts, barTexts_mapTexts,
      expressionDropped_mapTexts f content, List.map_append]
  | .unary g operand => by
    rw [Operand.mapTexts, Operand.dropped, Operand.dropped, operand.dropped_mapTexts f]
  | .binary g first second => by
    rw [Operand.mapTexts, Operand.dropped, Operand.dropped, first.dropped_mapTexts f,
      second.dropped_mapTexts f, List.map_append]
  | .color name operand => by
    rw [Operand.mapTexts, Operand.dropped, Operand.dropped, operand.dropped_mapTexts f]

theorem Term.dropped_mapTexts (f : String → String) : ∀ term : Term,
    (term.mapTexts f).dropped = term.dropped.map f
  | .bare base => by rw [Term.mapTexts, Term.dropped, Term.dropped, base.dropped_mapTexts f]
  | .sub base script => by
    rw [Term.mapTexts, Term.dropped, Term.dropped, base.dropped_mapTexts f, script.dropped_mapTexts f,
      List.map_append]
  | .sup base script => by
    rw [Term.mapTexts, Term.dropped, Term.dropped, base.dropped_mapTexts f, script.dropped_mapTexts f,
      List.map_append]
  | .subSup base lower upper => by
    rw [Term.mapTexts, Term.dropped, Term.dropped, base.dropped_mapTexts f, lower.dropped_mapTexts f,
      upper.dropped_mapTexts f, List.map_append, List.map_append]

theorem Ratio.dropped_mapTexts (f : String → String) : ∀ ratio : Ratio,
    (ratio.mapTexts f).dropped = ratio.dropped.map f
  | .term t => by rw [Ratio.mapTexts, Ratio.dropped, Ratio.dropped, t.dropped_mapTexts f]
  | .divided numerator denominator => by
    rw [Ratio.mapTexts, Ratio.dropped, Ratio.dropped, numerator.dropped_mapTexts f,
      denominator.dropped_mapTexts f, List.map_append]

/-- **Which texts are dropped does not depend on the texts.** -/
theorem expressionDropped_mapTexts (f : String → String) : ∀ expression : List Ratio,
    expressionDropped (expressionMapTexts f expression) = (expressionDropped expression).map f
  | [] => by rw [expressionMapTexts, expressionDropped, List.map_nil]
  | q :: rest => by
    rw [expressionMapTexts, expressionDropped, expressionDropped, q.dropped_mapTexts f,
      expressionDropped_mapTexts f rest, List.map_append]

end

/-! ## The texts that an expression shows -/

theorem Leaf.texts_node (l : Leaf) : l.node.texts = l.texts := by
  cases l with
  | sign symbol => cases symbol <;> rfl
  | _ => rfl

theorem texts_decorate (base mark : Node) (side : Side) :
    (decorate base mark side).texts = base.texts ++ mark.texts := by
  have hmark : [mark].flatMap Node.texts = mark.texts := List.flatMap_singleton _ mark
  cases side with
  | above =>
    rw [decorate, Node.texts_eq, Node.children, List.flatMap_cons, ← hmark]
    rfl
  | below =>
    rw [decorate, Node.texts_eq, Node.children, List.flatMap_cons, ← hmark]
    rfl

/-- The mark of an operand is a glyph. -/
theorem Unary.texts_node (operand : Node) (g : Unary) : (g.node operand).texts = operand.texts := by
  cases g with
  | accent glyph side =>
    rw [Unary.node, texts_decorate, Node.texts_unfenced]
    exact List.append_nil _
  | brace glyph side =>
    rw [Unary.node, texts_decorate, Node.texts_unfenced]
    exact List.append_nil _
  | _ =>
    rw [Unary.node, Node.texts_eq, ← Node.texts_unfenced operand]
    exact List.flatMap_singleton _ _

/-- A root is shown with its second operand first, and so is a base with something over or under it. -/
theorem Binary.texts_node (first second : Node) (g : Binary) :
    (g.node first second).texts.Perm (first.texts ++ second.texts) := by
  cases g with
  | fraction =>
    rw [Binary.node, Node.texts_eq, Node.children, List.flatMap_cons, List.flatMap_singleton,
      Node.texts_unfenced, Node.texts_unfenced]
    exact .refl _
  | root =>
    rw [Binary.node, Node.texts_eq, Node.children, List.flatMap_cons, Option.toList_some,
      List.flatMap_singleton, Node.texts_inRow, Node.texts_inRow]
    show (second.texts ++ first.texts).Perm _
    exact List.perm_append_comm
  | overset =>
    rw [Binary.node, texts_decorate, Node.texts_inRow, Node.texts_inRow]
    exact List.perm_append_comm
  | underset =>
    rw [Binary.node, texts_decorate, Node.texts_inRow, Node.texts_inRow]
    exact List.perm_append_comm

theorem flatMap_texts_unfenced (optional : Option Node) :
    (optional.map Node.unfenced).toList.flatMap Node.texts = optional.toList.flatMap Node.texts := by
  cases optional with
  | none => rfl
  | some node =>
    rw [Option.map_some, Option.toList_some, Option.toList_some, List.flatMap_singleton,
      List.flatMap_singleton, node.texts_unfenced]

theorem texts_attachScripts (base : Node) (sub sup : Option Node) (placement : Placement) :
    (attachScripts base sub sup placement).texts =
      base.texts ++ (sub.toList.flatMap Node.texts ++ sup.toList.flatMap Node.texts) := by
  have hscripts : ∀ sub sup : Option Node, (Node.scripts base sub sup placement).texts =
      base.texts ++ (sub.toList.flatMap Node.texts ++ sup.toList.flatMap Node.texts) := by
    intro sub sup
    rw [Node.texts_eq, Node.children, List.flatMap_cons, List.flatMap_append]
    rfl
  unfold attachScripts
  split
  · exact hscripts sub sup
  · rw [hscripts, flatMap_texts_unfenced, flatMap_texts_unfenced]

/-- Two lists that are each split in two make up one list that is split in two. -/
theorem perm_append_append {a b a₁ a₂ b₁ b₂ : List String} (ha : a.Perm (a₁ ++ a₂))
    (hb : b.Perm (b₁ ++ b₂)) : (a ++ b).Perm (a₁ ++ b₁ ++ (a₂ ++ b₂)) := by
  rw [List.perm_iff_count] at ha hb ⊢
  intro text
  have hfirst := ha text
  have hsecond := hb text
  simp only [List.count_append] at hfirst hsecond ⊢
  omega

mutual

theorem Operand.texts_node : ∀ operand : Operand,
    operand.texts.Perm (operand.node.texts ++ operand.dropped)
  | .leaf l => by
    rw [Operand.texts, Operand.node, Operand.dropped, l.texts_node, List.append_nil]
  | .words content => by
    rw [Operand.texts, Operand.node, Operand.dropped]
    exact .refl _
  | .group opening closing content => by
    have hgroup := Node.texts_ofGroup opening.openingGlyph closing.closingGlyph (typeset content)
    rw [Operand.texts, Operand.node, Operand.dropped, ← List.append_assoc]
    exact (texts_typeset content).trans (hgroup.append_right _)
  | .unary g operand => by
    rw [Operand.texts, Operand.node, Operand.dropped, g.texts_node]
    exact operand.texts_node
  | .binary g first second => by
    have hnode := g.texts_node first.node second.node
    rw [Operand.texts, Operand.node, Operand.dropped]
    exact (perm_append_append first.texts_node second.texts_node).trans (hnode.symm.append_right _)
  | .color name operand => by
    have hnode : (Node.colored name operand.node.unfenced).texts = name :: operand.node.texts := by
      rw [Node.texts_eq, Node.children, List.flatMap_singleton, Node.texts_unfenced]
      rfl
    rw [Operand.texts, Operand.node, Operand.dropped, hnode]
    exact operand.texts_node.cons name

theorem Term.texts_node : ∀ term : Term, term.texts.Perm (term.node.texts ++ term.dropped)
  | .bare base => by
    rw [Term.texts, Term.node, Term.dropped]
    exact base.texts_node
  | .sub base script => by
    rw [Term.texts, Term.node, Term.dropped, texts_attachScripts, Option.toList_some,
      List.flatMap_singleton, Option.toList_none, List.flatMap_nil, List.append_nil]
    exact perm_append_append base.texts_node script.texts_node
  | .sup base script => by
    rw [Term.texts, Term.node, Term.dropped, texts_attachScripts, Option.toList_some,
      List.flatMap_singleton, Option.toList_none, List.flatMap_nil, List.nil_append]
    exact perm_append_append base.texts_node script.texts_node
  | .subSup base lower upper => by
    rw [Term.texts, Term.node, Term.dropped, texts_attachScripts, Option.toList_some, Option.toList_some,
      List.flatMap_singleton, List.flatMap_singleton]
    exact perm_append_append base.texts_node (perm_append_append lower.texts_node upper.texts_node)

theorem Ratio.texts_node : ∀ ratio : Ratio, ratio.texts.Perm (ratio.node.texts ++ ratio.dropped)
  | .term t => by
    rw [Ratio.texts, Ratio.node, Ratio.dropped]
    exact t.texts_node
  | .divided numerator denominator => by
    have hnode : (Node.fraction numerator.node.unfenced denominator.node.unfenced).texts =
        numerator.node.texts ++ denominator.node.texts := by
      rw [Node.texts_eq, Node.children, List.flatMap_cons, List.flatMap_singleton, Node.texts_unfenced,
        Node.texts_unfenced]
      rfl
    rw [Ratio.texts, Ratio.node, Ratio.dropped, hnode]
    exact perm_append_append numerator.texts_node denominator.texts_node

/-- **Every text of an expression is shown or dropped**, once each time it stands there. -/
theorem texts_typeset : ∀ expression : List Ratio,
    (expressionTexts expression).Perm
      ((typeset expression).flatMap Node.texts ++ expressionDropped expression)
  | [] => by
    rw [expressionTexts, typeset, expressionDropped]
    exact .refl _
  | q :: rest => by
    rw [expressionTexts, typeset, expressionDropped, List.flatMap_cons]
    exact perm_append_append q.texts_node (texts_typeset rest)

end

end MathMarkup.Formula
