import MathMarkup.Proofs.Formula.Soundness
import MathMarkup.Proofs.Presentation.Tidy

/-!
# Formulas are tidy

* `LargeOperatorAmong` — some tokens have a large operator with a glyph.

Principal results: `OperandSyntax.proper_node` and its like — what the grammar derives is shown as a proper
node; `proper_of_parse` — and so is all that the parser takes.
-/

namespace MathMarkup.Formula

open MathMarkup.Presentation

/-- One of the tokens is the large operator with the glyph. -/
def LargeOperatorAmong (tokens : List Token) (glyph : String) : Prop :=
  .symbol (.sign (.largeOperator glyph)) ∈ tokens

theorem OperandSyntax.largeOperatorAmong {d : OperandSyntax} {glyph : String}
    (h : d.operand = .leaf (.sign (.largeOperator glyph))) : LargeOperatorAmong d.tokens glyph := by
  cases d with
  | leaf l =>
    rw [operand, Operand.leaf.injEq] at h
    rw [LargeOperatorAmong, h, tokens, Leaf.token]
    exact List.mem_cons_self
  | _ => rw [operand] at h; cases h

section

variable {all : List Token}

theorem Term.proper_withScript {base script : OperandSyntax} {side : ScriptSide}
    (hb : base.operand.node.Proper (LargeOperatorAmong all)) (htokens : base.tokens ⊆ all)
    (hs : script.operand.node.Proper (LargeOperatorAmong all)) :
    (Term.withScript base.operand script.operand side).node.Proper (LargeOperatorAmong all) := by
  have hlarge : ∀ glyph, base.operand = .leaf (.sign (.largeOperator glyph)) →
      LargeOperatorAmong all glyph := fun _ h => htokens (OperandSyntax.largeOperatorAmong h)
  cases side with
  | lower => exact proper_attachScripts (some _) none hb hlarge (List.forall_mem_singleton.2 hs) rfl
  | upper => exact proper_attachScripts none (some _) hb hlarge (List.forall_mem_singleton.2 hs) rfl

theorem Term.proper_withScripts {base first second : OperandSyntax} {side : ScriptSide}
    (hb : base.operand.node.Proper (LargeOperatorAmong all)) (htokens : base.tokens ⊆ all)
    (h1 : first.operand.node.Proper (LargeOperatorAmong all))
    (h2 : second.operand.node.Proper (LargeOperatorAmong all)) :
    (Term.withScripts base.operand first.operand second.operand side).node.Proper
      (LargeOperatorAmong all) := by
  have hlarge : ∀ glyph, base.operand = .leaf (.sign (.largeOperator glyph)) →
      LargeOperatorAmong all glyph := fun _ h => htokens (OperandSyntax.largeOperatorAmong h)
  cases side with
  | lower =>
    exact proper_attachScripts (some _) (some _) hb hlarge
      (List.forall_mem_cons.2 ⟨h1, List.forall_mem_singleton.2 h2⟩) rfl
  | upper =>
    exact proper_attachScripts (some _) (some _) hb hlarge
      (List.forall_mem_cons.2 ⟨h2, List.forall_mem_singleton.2 h1⟩) rfl

mutual

/-- **What the grammar derives is shown as a proper node.** -/
theorem OperandSyntax.proper_node : ∀ d : OperandSyntax, d.tokens ⊆ all →
    d.operand.node.Proper (LargeOperatorAmong all)
  | .leaf l, _ => by
    rw [OperandSyntax.operand, Operand.node]
    exact l.proper_node
  | .words content, _ => by
    rw [OperandSyntax.operand, Operand.node]
    exact Node.proper_leaf rfl trivial rfl
  | .group opening closing content, h => by
    rw [OperandSyntax.tokens, List.cons_subset, List.append_subset] at h
    rw [OperandSyntax.operand, Operand.node]
    exact Node.proper_ofGroup _ _ (proper_sequence content h.2.1)
  | .unary f operand, h => by
    rw [OperandSyntax.tokens, List.cons_subset] at h
    rw [OperandSyntax.operand, Operand.node]
    exact f.proper_node (operand.proper_node h.2)
  | .binary f first second, h => by
    rw [OperandSyntax.tokens, List.cons_subset, List.append_subset] at h
    rw [OperandSyntax.operand, Operand.node]
    exact f.proper_node (first.proper_node h.2.1) (second.proper_node h.2.2)
  | .color name operand, h => by
    rw [OperandSyntax.tokens, List.cons_subset, List.cons_subset] at h
    rw [OperandSyntax.operand, Operand.node]
    exact Node.proper_around (operand.proper_node h.2.2) rfl id rfl

theorem TermSyntax.proper_node : ∀ d : TermSyntax, d.tokens ⊆ all →
    d.term.node.Proper (LargeOperatorAmong all)
  | .bare base, h => by
    rw [TermSyntax.tokens] at h
    rw [TermSyntax.term, Term.node]
    exact base.proper_node h
  | .one base side script, h => by
    rw [TermSyntax.tokens, List.append_subset, List.cons_subset] at h
    rw [TermSyntax.term]
    exact Term.proper_withScript (base.proper_node h.1) h.1 (script.proper_node h.2.2)
  | .two base side first second, h => by
    rw [TermSyntax.tokens, List.append_subset, List.cons_subset, List.append_subset,
      List.cons_subset] at h
    obtain ⟨hb, -, h1, -, h2⟩ := h
    rw [TermSyntax.term]
    exact Term.proper_withScripts (base.proper_node hb) hb (first.proper_node h1)
      (second.proper_node h2)

theorem RatioSyntax.proper_node : ∀ d : RatioSyntax, d.tokens ⊆ all →
    d.ratio.node.Proper (LargeOperatorAmong all)
  | .term t, h => by
    rw [RatioSyntax.tokens] at h
    rw [RatioSyntax.ratio, Ratio.node]
    exact t.proper_node h
  | .divided numerator denominator, h => by
    rw [RatioSyntax.tokens, List.append_subset, List.cons_subset] at h
    rw [RatioSyntax.ratio, Ratio.node]
    exact Node.proper_fraction (numerator.proper_node h.1) (denominator.proper_node h.2.2)

theorem proper_sequence : ∀ d : List RatioSyntax, sequenceTokens d ⊆ all →
    ∀ n ∈ typeset (expressionOf d), n.Proper (LargeOperatorAmong all)
  | [], _ => by
    rw [expressionOf, typeset]
    exact List.forall_mem_nil _
  | d :: rest, h => by
    rw [sequenceTokens, List.append_subset] at h
    rw [expressionOf, typeset]
    exact List.forall_mem_cons.2 ⟨d.proper_node h.1, proper_sequence rest h.2⟩

end

end

/-- **All that the parser takes is shown as proper nodes**, whatever the list of lexemes is. -/
theorem proper_of_parse {lexemes : List Lexeme} {expression : Expression}
    (h : parse lexemes = .ok expression) :
    ∀ node ∈ typeset expression, node.Proper (LargeOperatorAmong (lexemes.map (·.token))) := by
  obtain ⟨-, hread⟩ := parse_eq_ok h
  obtain ⟨d, rest, sd, rfl, -⟩ := readExpression_sound hread
  refine proper_sequence d ?_
  rw [sd.map_token]
  exact List.subset_append_left _ _

end MathMarkup.Formula
