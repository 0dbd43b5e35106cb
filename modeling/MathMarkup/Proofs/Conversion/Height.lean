import MathMarkup.Proofs.Conversion.WellFormed
import MathMarkup.Proofs.Formula.Height

/-!
# The height of a formula

The recursion that shows a formula has no limit of its own. The limit on the nesting bounds it.

Principal result: `readFormula_height_le` — the nodes of a formula are at most three times as high as
operands may be nested, however long its text is.
-/

namespace MathMarkup

open Formula Markup Presentation

variable {source : String} {expression : Expression}

/-- **The limit on the nesting bounds the recursion that shows a formula.** No node of a formula, at the
top or inside of another one, is higher than three times the limit, and what stands deeper than that is
never looked at. Beside their source the nodes may stand in a row, which is one higher. -/
theorem readFormula_height_le (h : readFormula source = .ok expression) :
    (∀ node ∈ typeset expression, ∀ part, Part part node →
      part.height ≤ 3 * nestingLimit ∧
        ∀ innermost, part.elementsWithin innermost (3 * nestingLimit) = part.elements) ∧
    ∀ innermost, (Node.row (typeset expression)).elementsWithin innermost (3 * nestingLimit + 1) =
      (Node.row (typeset expression)).elements := by
  obtain ⟨-, d, -, rfl, hlevels⟩ := readFormula_eq_ok_iff.1 h
  have hheight : ∀ node ∈ typeset (expressionOf d), node.height ≤ 3 * nestingLimit := by
    intro node hn
    exact Nat.le_trans (height_typeset_le _ node hn) (Nat.mul_le_mul_left 3 hlevels)
  constructor
  · intro node hn part hpart
    have hle := Nat.le_trans (Node.height_le_of_part hpart) (hheight node hn)
    exact ⟨hle, fun innermost => Node.elementsWithin_eq _ hle⟩
  · intro innermost
    exact Node.elementsWithin_eq _ (Node.height_le_iff.2 hheight)

/-- Each of the two brackets adds the most that a level can add: a fraction, scripts and a group. -/
theorem readFormula_height_le_groups :
    ∃ expression, readFormula "((x)_1/2)_1/2" = .ok expression ∧
      ∀ node ∈ typeset expression, node.height ≤ 3 * nestingLimit ∧
        node.elementsWithin (fun _ => []) (3 * nestingLimit) = node.elements := by
  have h : convert ⟨.never, false, false⟩ .block "((x)_1/2)_1/2" = .ok (
      "<math display=\"block\"><mfrac><msub><mrow><mo>(</mo><mfrac><msub><mrow><mo>(</mo><mi>x</mi>" ++
      "<mo>)</mo></mrow><mn>1</mn></msub><mn>2</mn></mfrac><mo>)</mo></mrow><mn>1</mn></msub>" ++
      "<mn>2</mn></mfrac></math>") := by decide +kernel
  obtain ⟨expression, hread, -⟩ := convert_eq_ok_iff.1 h
  refine ⟨expression, hread, fun node hn => ?_⟩
  obtain ⟨hle, hshown⟩ := (readFormula_height_le hread).1 node hn node .refl
  exact ⟨hle, hshown _⟩

end MathMarkup
