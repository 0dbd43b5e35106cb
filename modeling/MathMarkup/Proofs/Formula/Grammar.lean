import MathMarkup.Presentation.Typeset
import MathMarkup.Proofs.Formula.Scanning

/-!
# The language of the parser

* `Derives` — a derivation of the grammar, with brackets that match around every group.

Principal results: `parse_eq_ok_iff` — the parser takes exactly the token lists that the grammar derives
within 128 levels; `parse_typeset_iff_derives` — and it shows them as the grammar prescribes.
-/

namespace MathMarkup.Formula

open MathMarkup.Presentation

variable {lexemes : List Lexeme}

/-- The tokens are derived as a sequence of ratios, with matching brackets around every group. -/
structure Derives (d : List RatioSyntax) (tokens : List Token) : Prop where
  tokens_eq : sequenceTokens d = tokens
  matched : ExpressionMatched (expressionOf d)

/-- The bracket check passes over what the grammar derives if and only if its groups are matched. -/
theorem checkBrackets_sequence (h : Sealed lexemes) {d : List RatioSyntax}
    (hd : sequenceTokens d = lexemes.dropLast.map (·.token)) :
    checkBrackets lexemes = .ok () ↔ ExpressionMatched (expressionOf d) := by
  obtain ⟨last, hlast, ht⟩ := h.eq_append
  have sd : Spells (sequenceTokens d) lexemes [last] := ⟨_, hlast, hd.symm⟩
  have hend : followBrackets [] [last] = .ok [] := followBrackets_plain (by rw [ht]; rfl) [] []
  rw [checkBrackets_eq_ok_iff, sd.followBrackets_sequence d, hend]
  simp

/-- **The parser takes exactly what the grammar derives within 128 levels.** -/
theorem parse_eq_ok_iff (h : Sealed lexemes) {e : Expression} :
    parse lexemes = .ok e ↔
      ∃ d, Derives d (lexemes.dropLast.map (·.token)) ∧ expressionOf d = e ∧
        expressionLevels e ≤ 128 := by
  constructor
  · intro hp
    obtain ⟨hcheck, hread⟩ := parse_eq_ok hp
    obtain ⟨d, hd, rfl, hl⟩ := (readExpression_eq_ok_iff h).1 hread
    exact ⟨d, ⟨hd, (checkBrackets_sequence h hd).1 hcheck⟩, rfl, hl⟩
  · rintro ⟨d, ⟨hd, hm⟩, rfl, hl⟩
    rw [parse_of_checkBrackets_ok ((checkBrackets_sequence h hd).2 hm)]
    exact (readExpression_eq_ok_iff h).2 ⟨d, hd, rfl, hl⟩

theorem TermSyntax.term_swap (base : OperandSyntax) (side : ScriptSide)
    (first second : OperandSyntax) :
    (TermSyntax.two base side first second).term =
      (TermSyntax.two base side.other second first).term := by
  cases side <;> rfl

/-- **The parser is the grammar.** A text without a fault yields lexemes that end with the mark of the
end. Such lexemes are shown as nodes if and only if the grammar derives the tokens before the mark
within 128 levels, and the nodes are those of the derivation. There is one derivation at most, and
what it stands for does not depend on the order in which two scripts were written. -/
theorem parse_typeset_iff_derives :
    (∀ source, (scan source).fault = none → Sealed (scan source).lexemes) ∧
    (∀ lexemes nodes, Sealed lexemes →
      ((parse lexemes).map typeset = .ok nodes ↔
        ∃ d, Derives d (lexemes.dropLast.map (·.token)) ∧
          expressionLevels (expressionOf d) ≤ 128 ∧ typeset (expressionOf d) = nodes)) ∧
    (∀ tokens d d', Derives d tokens → Derives d' tokens → d = d') ∧
    (∀ base side first second,
      (TermSyntax.two base side first second).term.node =
        (TermSyntax.two base side.other second first).term.node) := by
  refine ⟨fun source h => scan_sealed h, ?_, ?_, ?_⟩
  · intro lexemes nodes h
    constructor
    · intro hp
      cases hparse : parse lexemes with
      | error fault => rw [hparse] at hp; cases hp
      | ok e =>
        rw [hparse] at hp
        cases hp
        obtain ⟨d, hd, rfl, hl⟩ := (parse_eq_ok_iff h).1 hparse
        exact ⟨d, hd, hl, rfl⟩
    · rintro ⟨d, hd, hl, rfl⟩
      rw [(parse_eq_ok_iff h).2 ⟨d, hd, rfl, hl⟩]
      rfl
  · intro tokens d d' hd hd'
    exact sequenceTokens_injective (hd.tokens_eq.trans hd'.tokens_eq.symm)
  · intro base side first second
    rw [TermSyntax.term_swap]

/-- Two scripts in the order in which they are not shown. -/
theorem parse_typeset_twoScripts :
    Sealed (scan "x^2_i").lexemes ∧
      (parse (scan "x^2_i").lexemes).map typeset =
        .ok [.scripts (.identifier "x") (some (.identifier "i")) (some (.number "2")) .attached] := by
  have hscan : scan "x^2_i" = ⟨[⟨.letter 'x', ⟨0, 1⟩⟩, ⟨.symbol .superscript, ⟨1, 2⟩⟩,
      ⟨.number "2", ⟨2, 3⟩⟩, ⟨.symbol .subscript, ⟨3, 4⟩⟩, ⟨.letter 'i', ⟨4, 5⟩⟩,
      ⟨.endOfInput, ⟨5, 5⟩⟩], none⟩ := by decide +kernel
  have hsealed : Sealed (scan "x^2_i").lexemes :=
    parse_typeset_iff_derives.1 "x^2_i" (by rw [hscan])
  refine ⟨hsealed, (parse_typeset_iff_derives.2.1 _ _ hsealed).2 ?_⟩
  refine ⟨[.term (.two (.leaf (.letter 'x')) .upper (.leaf (.number "2")) (.leaf (.letter 'i')))],
    ⟨?_, ?_⟩, ?_, ?_⟩
  · rw [hscan]
    rfl
  · simp [expressionOf, ExpressionMatched, RatioSyntax.ratio, Ratio.Matched, TermSyntax.term,
      Term.matched_withScripts, OperandSyntax.operand, Operand.Matched]
  · decide
  · rfl

end MathMarkup.Formula
