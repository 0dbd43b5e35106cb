import MathMarkup.Proofs.Conversion.WellFormed
import MathMarkup.Proofs.Presentation.Operands

/-!
# The operands in the markup of a formula

Absolute values and their like are written as an operator, their content and an operator, without an
element around them. Where one of them is an operand, the element it stands in holds too many
elements. This is the only exception.

Principal results: `isFilled_mathElement_iff` — when the elements of a formula are filled;
`convert_isFilled_iff` — when those in the markup are.
-/

namespace MathMarkup

open Formula Markup Presentation Markup.Xml

variable {settings : Settings} {display : Display} {source markup : String} {nodes : List Node}

/-- Beside its source a formula has a fixed place. -/
theorem isFilled_semantics_iff (node : Node) :
    (Element.node .semantics [] (node.elements ++
        [.leaf .sourceText [.encoding] (.plain source)])).xml.isFilled false = true ↔
      node.isDelimited = false ∧ node.SingleOperands := by
  have hpos := node.length_elements_pos
  have hne : (node.elements ++ [Element.leaf .sourceText [.encoding] (.plain source)]).length ≠ 1 := by
    rw [List.length_append, List.length_singleton]
    omega
  have hsource : (Element.leaf .sourceText [.encoding] (.plain source)).xml.isFilled false = true :=
    isFilled_leaf rfl
  rw [isFilled_counted_iff (show operandCount Tag.semantics.name = some 2 from rfl) hne,
    allFilled_append node.elements_ne_nil, allFilled_singleton, node.filledIff, hsource,
    List.length_append, List.length_singleton, ← node.length_elements_eq_one_iff]
  simp

theorem isFilled_annotated_iff :
    (annotated source nodes).xml.isFilled false = true ↔
      (∀ node ∈ nodes, node.SingleOperands) ∧
        ∀ node, nodes = [node] → node.isDelimited = false := by
  unfold annotated asOneNode
  rw [isFilled_semantics_iff]
  split
  · rename_i node
    simp [and_comm]
  · rename_i hmany
    have hrow : (Node.row nodes).SingleOperands ↔ ∀ node ∈ nodes, node.SingleOperands := by
      have hoperands : (Node.row nodes).operands = [] := rfl
      rw [Node.singleOperands_iff, hoperands, Node.children]
      simp
    have hone : ∀ node, nodes = [node] → node.isDelimited = false :=
      fun node h => absurd h (hmany node)
    rw [hrow]
    exact ⟨fun h => ⟨h.2, hone⟩, fun h => ⟨rfl, h.1⟩⟩

theorem isFilled_mathElement_iff :
    (mathElement settings display source nodes).xml.isFilled false = true ↔
      (∀ node ∈ nodes, node.SingleOperands) ∧
        (settings.keepSource = true → ∀ node, nodes = [node] → node.isDelimited = false) := by
  rw [mathElement, isFilled_uncounted_iff rfl]
  cases settings.keepSource with
  | false =>
    rw [if_neg Bool.false_ne_true, sequenceElements_eq_flatMap]
    refine (allFilled_flatMap_iff fun node _ => node.filledIff).trans ?_
    simp
  | true =>
    rw [if_pos rfl]
    refine (allFilled_singleton _).trans (isFilled_annotated_iff.trans ?_)
    simp

/-- **Each operand is one element, unless it is content between two operators.** In the markup of a
formula, every element has as many elements in it as its name fixes if and only if no node with a
fixed place is content between two operators, and neither is a formula beside its source. Every other
node is one element. -/
theorem convert_isFilled_iff (h : convert settings display source = .ok markup) :
    ∃ root expression, Xml.read markup.toList = some root ∧
      readFormula source = .ok expression ∧
      (root.isFilled false = true ↔
        (∀ node ∈ typeset expression, node.SingleOperands) ∧
          (settings.keepSource = true → ∀ node, typeset expression = [node] →
            node.isDelimited = false)) ∧
      ∀ node : Node, node.elements.length = 1 ↔ node.isDelimited = false := by
  obtain ⟨expression, hread, hxml⟩ := read_convert h
  exact ⟨_, expression, hxml, hread, isFilled_mathElement_iff, Node.length_elements_eq_one_iff⟩

/-- An absolute value as a numerator. Its two operators and its content are the first three of four
elements in the fraction. -/
theorem isFilled_abs_over_two :
    ∃ markup, convert {} .block "abs x/2" = .ok markup ∧
      (Xml.read markup.toList).map (Xml.isFilled false) = some false :=
  ⟨"<math display=\"block\"><mfrac><mo>|</mo><mi>x</mi><mo>|</mo><mn>2</mn></mfrac></math>",
    by decide +kernel, by decide +kernel⟩

/-- A script below a brace, whose base is stacked in an element of its own. -/
theorem convert_isFilled_stacked :
    ∃ markup root expression, convert {} .block "ubrace x_2" = .ok markup ∧
      Xml.read markup.toList = some root ∧ root.isFilled false = true ∧
      readFormula "ubrace x_2" = .ok expression ∧
      ∀ node ∈ typeset expression, node.SingleOperands := by
  obtain ⟨markup, h, hfilled⟩ : ∃ markup, convert {} .block "ubrace x_2" = .ok markup ∧
      (Xml.read markup.toList).map (Xml.isFilled false) = some true :=
    ⟨"<math display=\"block\"><munder><munder><munder><mi>x</mi><mo>&#x23DF;</mo></munder>" ++
      "</munder><mn>2</mn></munder></math>", by decide +kernel, by decide +kernel⟩
  obtain ⟨root, expression, hroot, hread, hiff, -⟩ := convert_isFilled_iff h
  rw [hroot] at hfilled
  have hroot' : root.isFilled false = true := Option.some.inj hfilled
  exact ⟨markup, root, expression, h, hroot, hroot', hread, (hiff.1 hroot').1⟩

end MathMarkup
