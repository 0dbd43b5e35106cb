import Mathlib.Data.List.Basic
import MathMarkup.Proofs.Presentation.Elements
import MathMarkup.Proofs.Presentation.Parts

/-!
# What a node is shown with

The elements of a node are put together from the elements of its children, and from nothing else in
them.

* `Node.assemble` — the elements of a node, given those of its children.

Principal results: `Node.elements_eq_assemble`, and `Node.elements_unique` — the recursion that shows a
node calls itself on the parts of the node alone.
-/

namespace MathMarkup.Presentation

open MathMarkup.Markup

namespace Node

/-- The elements of a node, where `render` shows the nodes that stand in it. -/
def assemble (render : Node → List Element) : Node → List Element
  | number glyph => [written .mn glyph]
  | identifier glyph => [written .mi glyph]
  | operator glyph => [written .mo glyph]
  | text content => [.leaf .mtext [] (.plain content)]
  | spacedText word => [.node .mrow [] [.space, written .mtext word, .space]]
  | row content => [.node .mrow [] (content.flatMap render)]
  | fenced opening closing content =>
    [.node .mrow [] (fenceElements opening ++ (content.flatMap render ++ fenceElements closing))]
  | delimited opening closing content =>
    written .mo opening :: (render content ++ [written .mo closing])
  | scripts base sub sup placement =>
    [.node (scriptsTag sub.isSome sup.isSome placement) []
      (stackBase (render base) (sub.isSome || sup.isSome) placement ++
        (sub.toList.flatMap render ++ sup.toList.flatMap render))]
  | fraction numerator denominator => [.node .mfrac [] (render numerator ++ render denominator)]
  | root none radicand => [.node .msqrt [] (render radicand)]
  | root (some index) radicand => [.node .mroot [] (render radicand ++ render index)]
  | decorated base above below =>
    [.node (decorationTag above.isSome below.isSome) []
      (render base ++ (below.toList.flatMap render ++ above.toList.flatMap render))]
  | struck content => [.node .menclose [.upDiagonalStrike] (render content)]
  | styled variant content => [.node .mstyle [.mathVariant variant] (render content)]
  | colored color content => [.node .mstyle [.mathColor color] (render content)]
  | matrix opening closing rows lines =>
    [.node .mrow []
      (fenceElements opening ++
        (tableElement lines (rows.map fun row =>
            .node .mtr [] (row.map fun cell => .node .mtd [] (cell.flatMap render))) ::
          fenceElements closing))]

theorem elements_eq_assemble (node : Node) : node.elements = node.assemble elements := by
  cases node with
  | row content => rw [elements, assemble, sequenceElements_eq_flatMap]
  | fenced opening closing content => rw [elements, assemble, sequenceElements_eq_flatMap]
  | scripts base sub sup placement =>
    rw [elements, assemble, optionalElements_eq_flatMap, optionalElements_eq_flatMap]
  | root index radicand => cases index <;> rw [elements, assemble]
  | decorated base above below =>
    rw [elements, assemble, optionalElements_eq_flatMap, optionalElements_eq_flatMap]
  | matrix opening closing rows lines =>
    simp only [elements, assemble, rowElements_eq_map, cellElements_eq_map,
      sequenceElements_eq_flatMap]
  | _ => rw [elements, assemble]

/-- Only the children of a node are shown in it. -/
theorem assemble_congr {node : Node} {render render' : Node → List Element}
    (h : ∀ child ∈ node.children, render child = render' child) :
    node.assemble render = node.assemble render' := by
  cases node with
  | number glyph => rfl
  | identifier glyph => rfl
  | operator glyph => rfl
  | text content => rfl
  | spacedText word => rfl
  | row content =>
    have hcontent : content.flatMap render = content.flatMap render' := List.flatMap_congr h
    rw [assemble, assemble, hcontent]
  | fenced opening closing content =>
    have hcontent : content.flatMap render = content.flatMap render' := List.flatMap_congr h
    rw [assemble, assemble, hcontent]
  | delimited opening closing content => rw [assemble, assemble, h content List.mem_cons_self]
  | scripts base sub sup placement =>
    obtain ⟨hbase, h⟩ := List.forall_mem_cons.1 h
    obtain ⟨hsub, hsup⟩ := List.forall_mem_append.1 h
    rw [assemble, assemble, hbase, List.flatMap_congr hsub, List.flatMap_congr hsup]
  | fraction numerator denominator =>
    obtain ⟨hnumerator, h⟩ := List.forall_mem_cons.1 h
    rw [assemble, assemble, hnumerator, h denominator List.mem_cons_self]
  | root index radicand =>
    obtain ⟨hradicand, h⟩ := List.forall_mem_cons.1 h
    cases index with
    | none => rw [assemble, assemble, hradicand]
    | some index => rw [assemble, assemble, hradicand, h index List.mem_cons_self]
  | decorated base above below =>
    obtain ⟨hbase, h⟩ := List.forall_mem_cons.1 h
    obtain ⟨hbelow, habove⟩ := List.forall_mem_append.1 h
    rw [assemble, assemble, hbase, List.flatMap_congr hbelow, List.flatMap_congr habove]
  | struck content => rw [assemble, assemble, h content List.mem_cons_self]
  | styled variant content => rw [assemble, assemble, h content List.mem_cons_self]
  | colored color content => rw [assemble, assemble, h content List.mem_cons_self]
  | matrix opening closing rows lines =>
    have hrows : (rows.map fun row => Element.node .mtr []
          (row.map fun cell => .node .mtd [] (cell.flatMap render))) =
        rows.map fun row => .node .mtr []
          (row.map fun cell => .node .mtd [] (cell.flatMap render')) := by
      refine List.map_congr_left fun row hrow => ?_
      congr 1
      refine List.map_congr_left fun cell hcell => ?_
      rw [List.flatMap_congr fun node hn => ?_]
      exact h node (List.mem_flatten.2 ⟨cell, List.mem_flatten.2 ⟨row, hrow, hcell⟩, hn⟩)
    rw [assemble, assemble, hrows]

/-- **To show a node, only its parts are shown.** Whatever puts together the elements of the parts of a
node as `elements` does, yields the elements of the node, whatever it does with other nodes. -/
theorem elements_unique {render : Node → List Element} {node : Node}
    (h : ∀ part, Part part node → render part = part.assemble render) :
    render node = node.elements := by
  induction node using Node.induction_children with
  | step node ih =>
    obtain ⟨hnode, hchildren⟩ := forall_part_iff.1 h
    rw [hnode, elements_eq_assemble]
    exact assemble_congr fun child hc => ih child hc (hchildren child hc)

end Node

end MathMarkup.Presentation
