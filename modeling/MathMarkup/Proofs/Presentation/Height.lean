import Mathlib.Data.List.MinMax
import Mathlib.Order.Nat
import MathMarkup.Proofs.Presentation.Cells
import MathMarkup.Proofs.Presentation.Rendering

/-!
# The height of a node

Nodes are shown by a recursion that goes as deep as nodes stand in one another.

* `Node.height` — how many nodes stand in one another. A node without others in it has height one.
* `Node.elementsWithin` — the recursion that shows a node, cut off at a depth.

Principal results: `Node.height_le_iff` — a node is one higher than the highest of its children;
`Node.elementsWithin_eq` — the recursion goes no deeper than the height.
-/

namespace MathMarkup.Presentation

open MathMarkup.Formula MathMarkup.Markup

namespace Node

/-- The number of nodes that stand in one another, this one included. -/
def height (node : Node) : Nat :=
  (node.children.attach.map fun child => child.1.height).foldr max 0 + 1
termination_by sizeOf node
decreasing_by exact sizeOf_lt_of_mem_children child.2

variable {node : Node} {n : Nat}

theorem height_eq (node : Node) : node.height = (node.children.map height).foldr max 0 + 1 := by
  rw [height, List.attach_map_val]

theorem height_le_iff :
    node.height ≤ n + 1 ↔ ∀ child ∈ node.children, child.height ≤ n := by
  rw [height_eq, Nat.add_le_add_iff_right]
  constructor
  · intro h child hc
    exact Nat.le_trans (List.le_max_of_le (List.mem_map_of_mem hc) (Nat.le_refl _)) h
  · intro h
    exact List.max_le_of_forall_le _ _ (List.forall_mem_map.2 h)

theorem height_pos (node : Node) : 0 < node.height := by
  rw [height_eq]
  omega

/-- A child is less high. -/
theorem height_lt_of_mem_children {child : Node} (h : child ∈ node.children) :
    child.height < node.height := by
  have hpos := node.height_pos
  have hle : node.height ≤ (node.height - 1) + 1 := by omega
  have := height_le_iff.1 hle child h
  omega

theorem height_le_of_part {part : Node} (h : Part part node) : part.height ≤ node.height := by
  induction h with
  | refl => exact Nat.le_refl _
  | child hc _ ih => exact Nat.le_trans ih (Nat.le_of_lt (height_lt_of_mem_children hc))

theorem height_eq_one (h : node.children = []) : node.height = 1 := by
  rw [height_eq, h]
  rfl

/-! ## Nodes that are made of others -/

/-- A row is as high as the group that it was. -/
theorem height_unfenced (node : Node) : node.unfenced.height = node.height := by
  cases node with
  | fenced opening closing content => rw [unfenced, height_eq, height_eq, children, children]
  | _ => rfl

theorem height_inRow_le (node : Node) : node.inRow.height ≤ node.height + 1 := by
  unfold inRow
  split
  · rw [height_eq, height_eq, children, children]
    omega
  · exact Nat.le_succ _
  · refine height_le_iff.2 ?_
    rw [children, List.forall_mem_singleton]

/-- A matrix is no higher than the group that it was made of. -/
theorem height_ofGroup_le (opening closing : Option String) {content : List Node}
    (h : ∀ node ∈ content, node.height ≤ n) : (ofGroup opening closing content).height ≤ n + 1 := by
  rw [height_le_iff]
  rcases ofGroup_cases opening closing content with ⟨rows, lines, heq, hinner⟩ | heq
  · rw [heq]
    intro inner hi
    obtain ⟨cell, hcell, hi⟩ := List.mem_flatten.1 hi
    obtain ⟨row, hrow, hcell⟩ := List.mem_flatten.1 hcell
    obtain ⟨opening', closing', content', hfenced, hmem⟩ := hinner row hrow cell hcell inner hi
    have hlt : inner.height < (fenced opening' closing' content').height :=
      height_lt_of_mem_children hmem
    exact Nat.le_trans (Nat.le_of_lt hlt) (h _ hfenced)
  · rw [heq]
    exact h

/-! ## The recursion that shows a node -/

/-- The elements of a node, put together from those of its parts down to a depth. What stands deeper is
left to `innermost`. -/
def elementsWithin (innermost : Node → List Element) : Nat → Node → List Element
  | 0 => innermost
  | depth + 1 => assemble (elementsWithin innermost depth)

/-- **The recursion that shows a node goes no deeper than its height.** -/
theorem elementsWithin_eq {innermost : Node → List Element} :
    ∀ (depth : Nat) {node : Node}, node.height ≤ depth →
      elementsWithin innermost depth node = node.elements
  | 0, node, h => by
    have := node.height_pos
    omega
  | depth + 1, node, h => by
    rw [elementsWithin, elements_eq_assemble]
    exact assemble_congr fun child hc => elementsWithin_eq depth (height_le_iff.1 h child hc)

end Node

end MathMarkup.Presentation
