import MathMarkup.Proofs.Formula.Stopping
import MathMarkup.Proofs.Formula.Tiling

/-!
# Which faults tell of tokens out of order

A missing operand, a script too many and an early end of the formula are told at a stop of the reading.
Each cause has its own tokens: the sign for a script is missing an operand only where it does not
follow a term that has this script.

Principal results: `Stop.cause_eq_duplicateScript_iff` — a script too many is told exactly where a
term has the script already; `convert_error_at_stop` — the fault of a conversion is told at the first
token that no formula can have there, and its cause says what the token is.
-/

namespace MathMarkup.Formula

open MathMarkup.Markup

variable {viable front : List Token → Prop} {cause : Fault.Cause} {before tokens : List Token}
  {t : Token}

/-! ## Causes -/

theorem TermSyntax.HasScript.tokens_eq {d : TermSyntax} {side : ScriptSide} (h : d.HasScript side) :
    ∃ front sign script, d.tokens = front ++ ScriptSide.token sign :: OperandSyntax.tokens script := by
  cases d with
  | bare base => cases h
  | one base sign script => exact ⟨base.tokens, sign, script, by rw [TermSyntax.tokens]⟩
  | two base sign first second =>
    exact ⟨base.tokens ++ sign.token :: first.tokens, sign.other, second, by
      rw [TermSyntax.tokens, List.append_assoc, List.cons_append]⟩

/-- Behind a script a slash could stand. Where an operand is missing it could not, so a sign behind
a script is told as one too many. -/
theorem Stop.cause_of_repeats (h : Stop SequenceViable SequenceFront cause before t)
    (hrepeats : Repeats before t) : cause = .duplicateScript := by
  rcases h.cause_eq with hcause | ⟨hcause, -⟩
  · exfalso
    obtain ⟨side, outer, term, ht, rfl, hscript⟩ := hrepeats
    obtain ⟨front, sign, script, hterm⟩ := hscript.tokens_eq
    obtain ⟨d, c, -, hd⟩ := h.viable
    have hsign : sequenceTokens d = outer ++ front ++ sign.token :: (script.tokens ++ c) := by
      rw [hd, hterm]
      simp
    obtain ⟨script', r, hr, c', d', hd'⟩ := slashFits_sequence d hsign
    obtain ⟨rfl, -⟩ := script'.tokens_append_inj script hr
    refine h.refused (.symbol .slash) c' (.inr ⟨?_, ⟨side, ht⟩, rfl⟩) ⟨d', [], noOperand_nil, ?_⟩
    · rw [hcause, ht]
      cases side <;> rfl
    · rw [hd', hterm]
      simp
  · exact hcause

theorem Stop.cause_eq_duplicateScript_iff (h : Stop SequenceViable SequenceFront cause before t) :
    cause = .duplicateScript ↔ Repeats before t := by
  constructor
  · intro hcause
    rcases h.cause_eq with hmissing | ⟨-, hrepeats⟩
    · rw [hcause] at hmissing
      cases t <;> cases hmissing
    · exact hrepeats
  · exact h.cause_of_repeats

theorem Stop.cause_eq_unexpectedEnd_iff (h : Stop viable front cause before t) :
    cause = .unexpectedEnd ↔ t = .endOfInput := by
  rcases h.cause_eq with rfl | ⟨rfl, side, -, -, rfl, -⟩
  · cases t <;> simp [missingCause]
  · simp [side.token_ne_endOfInput]

/-! ## Conversion -/

theorem SequenceViable.derives (h : SequenceViable tokens) :
    ∃ d rest, Derives d (tokens ++ rest) := by
  obtain ⟨d, c, hm, hd⟩ := h
  exact ⟨d, c, hd, hm⟩

/-- What is derived is a sequence in front of whatever ends it. -/
theorem Derives.sequenceFront {d : List RatioSyntax} (h : Derives d tokens) {r : List Token}
    (hr : NoOperand r) : SequenceFront (tokens ++ r) :=
  ⟨d, r, hr, by rw [h.tokens_eq]⟩

/-- **A fault in the order of the tokens is told at the first token that no formula can have there.**
Where a text without a fault of the scan passes the bracket check, and its conversion fails for a
missing operand, a script too many or an early end, the fault is told at one of the lexemes. The
tokens before it start a token list that the grammar derives, and no such list starts with them and
the token itself; where it is the mark of the end, the tokens before it are not derived as they are.
An early end is told at this mark only, a script too many only at a sign behind a term that has this
script, and a missing operand everywhere else. -/
theorem convert_error_at_stop {settings : Settings} {display : Display} {source : String}
    {fault : Fault} (hscan : (scan source).fault = none)
    (hcheck : checkBrackets (scan source).lexemes = .ok ())
    (hconvert : convert settings display source = .error fault)
    (hcause : fault.cause.ConcernsOrder) :
    ∃ before lexeme after, (scan source).lexemes = before ++ lexeme :: after ∧
      fault.span = lexeme.span ∧ (∀ other ∈ before ++ after, other.span ≠ fault.span) ∧
      (∃ d rest, Derives d (before.map (·.token) ++ rest)) ∧
      (∀ d rest, ¬Derives d (before.map (·.token) ++ lexeme.token :: rest)) ∧
      (lexeme.token = .endOfInput → after = [] ∧ ∀ d, ¬Derives d (before.map (·.token))) ∧
      (fault.cause = .unexpectedEnd ↔ lexeme.token = .endOfInput) ∧
      (fault.cause = .duplicateScript ↔ Repeats (before.map (·.token)) lexeme.token) ∧
      (fault.cause = .missingOperand ↔
        lexeme.token ≠ .endOfInput ∧ ¬Repeats (before.map (·.token)) lexeme.token) := by
  have hsealed := scan_sealed hscan
  rw [convert_eq_error_iff, readFormula_of_paired hscan hcheck] at hconvert
  obtain ⟨tokens, lexeme, after, ⟨before, hlexemes, rfl⟩, hspan, hstop⟩ :=
    readExpression_stopsAt hsealed hcheck hconvert hcause
  have hend := hstop.cause_eq_unexpectedEnd_iff
  have hrepeats := hstop.cause_eq_duplicateScript_iff
  have hrefused : ∀ rest, ¬SequenceFront (before.map (·.token) ++ lexeme.token :: rest) :=
    fun rest => hstop.refused lexeme.token rest (.inl rfl)
  refine ⟨before, lexeme, after, hlexemes, hspan, ?_, hstop.viable.derives, ?_, ?_, hend, hrepeats,
    ?_⟩
  · have hspans := scan_spans_pairwise hscan
    rw [hlexemes, List.pairwise_append, List.pairwise_cons] at hspans
    obtain ⟨-, ⟨hafter, -⟩, hbefore⟩ := hspans
    intro other hother
    rw [hspan]
    rcases List.mem_append.1 hother with hmem | hmem
    · exact hbefore other hmem lexeme List.mem_cons_self
    · exact (hafter other hmem).symm
  · intro d rest hd
    have hfront := hd.sequenceFront noOperand_nil
    rw [List.append_nil] at hfront
    exact hrefused rest hfront
  · intro ht
    refine ⟨hsealed.eq_nil hlexemes ht, fun d hd => hrefused [] (hd.sequenceFront ?_)⟩
    intro t h
    cases h
    exact .inl ht
  · rw [← hrepeats, Ne, ← hend]
    constructor
    · intro hmissing
      rw [hmissing]
      simp
    · rintro ⟨hnotEnd, hnotRepeats⟩
      rcases hcause with h | h | h
      · exact h
      · exact absurd h hnotRepeats
      · exact absurd h hnotEnd

/-- A second subscript within a group, which a closing bracket would have completed. -/
theorem convert_error_at_stop_group :
    ∃ before lexeme after, (scan "(a_1_2)").lexemes = before ++ lexeme :: after ∧
      lexeme.span = ⟨4, 5⟩ ∧ (∃ d rest, Derives d (before.map (·.token) ++ rest)) ∧
      (∀ d rest, ¬Derives d (before.map (·.token) ++ lexeme.token :: rest)) ∧
      Repeats (before.map (·.token)) lexeme.token := by
  have hscan : scan "(a_1_2)" = ⟨[⟨.symbol (.opening .paren), ⟨0, 1⟩⟩, ⟨.letter 'a', ⟨1, 2⟩⟩,
      ⟨.symbol .subscript, ⟨2, 3⟩⟩, ⟨.number "1", ⟨3, 4⟩⟩, ⟨.symbol .subscript, ⟨4, 5⟩⟩,
      ⟨.number "2", ⟨5, 6⟩⟩, ⟨.symbol (.closing .paren), ⟨6, 7⟩⟩, ⟨.endOfInput, ⟨7, 7⟩⟩], none⟩ := by
    decide +kernel
  have hfault : (scan "(a_1_2)").fault = none := by rw [hscan]
  have hcheck : checkBrackets (scan "(a_1_2)").lexemes = .ok () := by rw [hscan]; rfl
  have hconvert : convert {} .block "(a_1_2)" = .error ⟨.duplicateScript, ⟨4, 5⟩⟩ := by
    rw [convert_eq_error_iff, readFormula_of_paired hfault hcheck, hscan]
    rfl
  obtain ⟨before, lexeme, after, hlexemes, hspan, -, hviable, hrefused, -, -, hrepeats, -⟩ :=
    convert_error_at_stop hfault hcheck hconvert (.inr (.inl rfl))
  exact ⟨before, lexeme, after, hlexemes, hspan.symm, hviable, hrefused, hrepeats.1 rfl⟩

end MathMarkup.Formula
