import MathMarkup.Presentation.Typeset
import MathMarkup.Proofs.Presentation.Height

/-!
# The height of an expression

How high the nodes of an expression are follows from its levels. A level adds three nodes at most: one for
a fraction, one for scripts, and one for what takes the operands of the next level.

Principal results: `Operand.height_node_le`, `Term.height_node_le`, `Ratio.height_node_le` — the height of
what stands on a number of levels.
-/

namespace MathMarkup.Formula

open MathMarkup.Presentation

variable {n : Nat}

theorem height_decorate_le {base mark : Node} (hb : base.height ≤ n) (hm : mark.height ≤ n)
    (side : Side) : (decorate base mark side).height ≤ n + 1 := by
  have h : ∀ child ∈ [base, mark], child.height ≤ n :=
    List.forall_mem_cons.2 ⟨hb, List.forall_mem_singleton.2 hm⟩
  cases side with
  | above => exact Node.height_le_iff.2 h
  | below => exact Node.height_le_iff.2 h

theorem Leaf.children_node (l : Leaf) : l.node.children = [] := by
  cases l with
  | sign s => cases s <;> rfl
  | _ => rfl

theorem Unary.height_node_le (f : Unary) (operand : Node) :
    (f.node operand).height ≤ operand.height + 1 := by
  have hoperand : operand.unfenced.height ≤ operand.height := Nat.le_of_eq operand.height_unfenced
  have hmark : ∀ glyph : String, (Node.operator glyph).height ≤ operand.height := by
    intro glyph
    rw [Node.height_eq_one rfl]
    exact operand.height_pos
  cases f with
  | accent glyph side => exact height_decorate_le hoperand (hmark glyph) side
  | brace glyph side => exact height_decorate_le hoperand (hmark glyph) side
  | delimit left right => exact Node.height_le_iff.2 (List.forall_mem_singleton.2 hoperand)
  | squareRoot => exact Node.height_le_iff.2 (List.forall_mem_singleton.2 hoperand)
  | cancel => exact Node.height_le_iff.2 (List.forall_mem_singleton.2 hoperand)
  | style variant => exact Node.height_le_iff.2 (List.forall_mem_singleton.2 hoperand)

/-- The operands of a root and of what is set over or under another operand may need a row each. -/
theorem Binary.height_node_le (f : Binary) {first second : Node} (h1 : first.height ≤ n)
    (h2 : second.height ≤ n) : (f.node first second).height ≤ n + 2 := by
  have hrow1 := Nat.le_trans first.height_inRow_le (Nat.succ_le_succ h1)
  have hrow2 := Nat.le_trans second.height_inRow_le (Nat.succ_le_succ h2)
  cases f with
  | fraction =>
    refine Nat.le_succ_of_le (Node.height_le_iff.2 ?_)
    refine List.forall_mem_cons.2 ⟨?_, List.forall_mem_singleton.2 ?_⟩
    · rwa [Node.height_unfenced]
    · rwa [Node.height_unfenced]
  | root =>
    exact Node.height_le_iff.2 (List.forall_mem_cons.2 ⟨hrow2, List.forall_mem_singleton.2 hrow1⟩)
  | overset => exact height_decorate_le hrow2 hrow1 .above
  | underset => exact height_decorate_le hrow2 hrow1 .below

theorem height_attachScripts_le {base : Node} (sub sup : Option Node) (placement : Placement)
    (hb : base.height ≤ n) (hscripts : ∀ node ∈ sub.toList ++ sup.toList, node.height ≤ n) :
    (attachScripts base sub sup placement).height ≤ n + 1 := by
  have hunfenced : ∀ node ∈ (sub.map Node.unfenced).toList ++ (sup.map Node.unfenced).toList,
      node.height ≤ n := by
    rw [Option.toList_map, Option.toList_map, ← List.map_append, List.forall_mem_map]
    intro node hn
    rw [Node.height_unfenced]
    exact hscripts node hn
  unfold attachScripts
  split
  · exact Node.height_le_iff.2 (List.forall_mem_cons.2 ⟨hb, hscripts⟩)
  · exact Node.height_le_iff.2 (List.forall_mem_cons.2 ⟨hb, hunfenced⟩)

/-! ## Expressions -/

mutual

/-- An operand is lower than a ratio of its levels by what a fraction and scripts would add. -/
theorem Operand.height_node_le : ∀ o : Operand, o.node.height + 2 ≤ 3 * o.levels
  | .leaf l => by
    rw [Operand.node, Operand.levels, Node.height_eq_one l.children_node]
  | .words content => by
    rw [Operand.node, Operand.levels, Node.height_eq_one rfl]
  | .group opening closing content => by
    have h := Node.height_ofGroup_le opening.openingGlyph closing.closingGlyph (height_typeset_le content)
    rw [Operand.node, Operand.levels]
    omega
  | .unary f operand => by
    have ih := operand.height_node_le
    have h := f.height_node_le operand.node
    rw [Operand.node, Operand.levels]
    omega
  | .binary f first second => by
    have ih1 := first.height_node_le
    have ih2 := second.height_node_le
    have h := f.height_node_le (n := max first.node.height second.node.height) (Nat.le_max_left _ _)
      (Nat.le_max_right _ _)
    rw [Operand.node, Operand.levels]
    omega
  | .color name operand => by
    have ih := operand.height_node_le
    have h : (Node.colored name operand.node.unfenced).height ≤ operand.node.height + 1 :=
      Node.height_le_iff.2 (List.forall_mem_singleton.2 (Nat.le_of_eq operand.node.height_unfenced))
    rw [Operand.node, Operand.levels]
    omega

theorem Term.height_node_le : ∀ t : Term, t.node.height + 1 ≤ 3 * t.levels
  | .bare base => by
    have ih := base.height_node_le
    rw [Term.node, Term.levels]
    omega
  | .sub base script => by
    have ih := base.height_node_le
    have ih1 := script.height_node_le
    have h := height_attachScripts_le (n := max base.node.height script.node.height)
      (some script.node) none (base.placement true false) (Nat.le_max_left _ _)
      (List.forall_mem_singleton.2 (Nat.le_max_right _ _))
    rw [Term.node, Term.levels]
    omega
  | .sup base script => by
    have ih := base.height_node_le
    have ih1 := script.height_node_le
    have h := height_attachScripts_le (n := max base.node.height script.node.height)
      none (some script.node) (base.placement false true) (Nat.le_max_left _ _)
      (List.forall_mem_singleton.2 (Nat.le_max_right _ _))
    rw [Term.node, Term.levels]
    omega
  | .subSup base lower upper => by
    have ih := base.height_node_le
    have ih1 := lower.height_node_le
    have ih2 := upper.height_node_le
    let n := max base.node.height (max lower.node.height upper.node.height)
    have hlower : lower.node.height ≤ n := by omega
    have hupper : upper.node.height ≤ n := by omega
    have h := height_attachScripts_le (some lower.node) (some upper.node) (base.placement true true)
      (Nat.le_max_left _ _ : base.node.height ≤ n)
      (List.forall_mem_cons.2 ⟨hlower, List.forall_mem_singleton.2 hupper⟩)
    rw [Term.node, Term.levels]
    omega

theorem Ratio.height_node_le : ∀ q : Ratio, q.node.height ≤ 3 * q.levels
  | .term t => by
    have ih := t.height_node_le
    rw [Ratio.node, Ratio.levels]
    omega
  | .divided numerator denominator => by
    have ih := numerator.height_node_le
    have ih1 := denominator.height_node_le
    have h : (Node.fraction numerator.node.unfenced denominator.node.unfenced).height ≤
        max numerator.node.height denominator.node.height + 1 := by
      refine Node.height_le_iff.2 (List.forall_mem_cons.2 ⟨?_, List.forall_mem_singleton.2 ?_⟩)
      · rw [Node.height_unfenced]
        exact Nat.le_max_left _ _
      · rw [Node.height_unfenced]
        exact Nat.le_max_right _ _
    rw [Ratio.node, Ratio.levels]
    omega

theorem height_typeset_le : ∀ e : List Ratio, ∀ node ∈ typeset e,
    node.height ≤ 3 * expressionLevels e
  | [] => by
    rw [typeset]
    exact List.forall_mem_nil _
  | q :: rest => by
    have ih := q.height_node_le
    rw [typeset, expressionLevels]
    refine List.forall_mem_cons.2 ⟨by omega, fun node hn => ?_⟩
    have ihrest := height_typeset_le rest node hn
    omega

end

end MathMarkup.Formula
