import MathMarkup.Proofs.Formula.Unambiguity

/-!
# Prefixes of what the grammar derives

* `OperandFront` and its like — a list of tokens has an operand (a term, a ratio, a sequence) at
  its front. One that does not is refused, whatever stands further behind.
* `OperandViable` and its like — a list of tokens can be continued to an operand with matching
  brackets.
* `slashFits_sequence` — behind every script of a formula, a slash could be written.

What stands behind the first tokens of an operand decides whether there is one, and how the tokens
can be continued: for each part of the grammar, one lemma takes it from the front of the tokens
(`OperandFront.of_binary_first`), another puts it there (`OperandViable.binary_first`).
-/

namespace MathMarkup.Formula

variable {tokens : List Token} {t : Token}

/-! ## What stands at the front -/

/-- There is an operand at the front of the tokens. -/
def OperandFront (tokens : List Token) : Prop :=
  ∃ (d : OperandSyntax) (r : List Token), d.tokens ++ r = tokens

/-- There is a term at the front of the tokens, and no further script. -/
def TermFront (tokens : List Token) : Prop :=
  ∃ (d : TermSyntax) (r : List Token), NoScript r ∧ d.tokens ++ r = tokens

/-- There is a ratio at the front of the tokens, and nothing that belongs to it follows. -/
def RatioFront (tokens : List Token) : Prop :=
  ∃ (d : RatioSyntax) (r : List Token), NoScript r ∧ NoSlash r ∧ d.tokens ++ r = tokens

/-- There is a sequence at the front of the tokens, up to a closing bracket or the end. -/
def SequenceFront (tokens : List Token) : Prop :=
  ∃ (d : List RatioSyntax) (r : List Token), NoOperand r ∧ sequenceTokens d ++ r = tokens

/-- What an operand that starts with the symbol has behind it. -/
def Symbol.TakesFront (tokens : List Token) : Symbol → Prop
  | .sign _ => True
  | .opening _ => SequenceFront tokens
  | .unary _ => OperandFront tokens
  | .binary _ => ∃ (first second : OperandSyntax) (r : List Token),
      first.tokens ++ (second.tokens ++ r) = tokens
  | .text => ∃ content rest, tokens = .text content :: rest
  | .color => ∃ name rest, tokens = .text name :: rest ∧ OperandFront rest
  | .closing _ => False
  | .superscript => False
  | .subscript => False
  | .slash => False

namespace OperandFront

theorem startsOperand (h : OperandFront (t :: tokens)) : t.startsOperand = true := by
  obtain ⟨d, r, hd⟩ := h
  obtain ⟨t', rest, hcons, ht⟩ := d.tokens_eq_cons
  rw [hcons, List.cons_append] at hd
  obtain ⟨rfl, -⟩ := List.cons.inj hd
  exact ht

/-- The symbol at the front tells what stands behind it. -/
theorem takesFront {s : Symbol} (h : OperandFront (.symbol s :: tokens)) :
    s.TakesFront tokens := by
  obtain ⟨d, r, hd⟩ := h
  cases d with
  | leaf l =>
    cases l with
    | sign s' =>
      obtain ⟨hs, -⟩ := List.cons.inj hd
      cases hs
      trivial
    | _ => cases hd
  | words content =>
    rw [OperandSyntax.tokens] at hd
    cases hd
    exact ⟨content, r, rfl⟩
  | group opening closing content =>
    rw [OperandSyntax.tokens, List.cons_append, List.append_assoc] at hd
    cases hd
    exact ⟨content, _, noOperand_closing closing r, rfl⟩
  | unary f operand =>
    rw [OperandSyntax.tokens] at hd
    cases hd
    exact ⟨operand, r, rfl⟩
  | binary f first second =>
    rw [OperandSyntax.tokens, List.cons_append, List.append_assoc] at hd
    cases hd
    exact ⟨first, second, r, rfl⟩
  | color name operand =>
    rw [OperandSyntax.tokens] at hd
    cases hd
    exact ⟨name, _, rfl, operand, r, rfl⟩

theorem of_color {name : String} (h : OperandFront (.symbol .color :: .text name :: tokens)) :
    OperandFront tokens := by
  obtain ⟨name', rest, hcons, hrest⟩ := h.takesFront
  obtain ⟨-, rfl⟩ := List.cons.inj hcons
  exact hrest

theorem of_binary_first {f : Binary} (h : OperandFront (.symbol (.binary f) :: tokens)) :
    OperandFront tokens := by
  obtain ⟨first, second, r, hd⟩ := h.takesFront
  exact ⟨first, second.tokens ++ r, hd⟩

theorem of_binary_second {f : Binary} (first : OperandSyntax)
    (h : OperandFront (.symbol (.binary f) :: (first.tokens ++ tokens))) :
    OperandFront tokens := by
  obtain ⟨first', second, r, hd⟩ := h.takesFront
  obtain ⟨-, rfl⟩ := first'.tokens_append_inj first hd
  exact ⟨second, r, rfl⟩

end OperandFront

namespace TermFront

variable {base first second : OperandSyntax} {side side' side'' : ScriptSide}

theorem of_base (h : TermFront tokens) : OperandFront tokens := by
  obtain ⟨d, r, -, hd⟩ := h
  cases d with
  | bare base =>
    rw [TermSyntax.tokens] at hd
    exact ⟨base, r, hd⟩
  | one base side script =>
    rw [TermSyntax.tokens, List.append_assoc] at hd
    exact ⟨base, _, hd⟩
  | two base side first second =>
    rw [TermSyntax.tokens, List.append_assoc] at hd
    exact ⟨base, _, hd⟩

/-- Behind a base with a sign stands the script, then the end of the term or the second script. -/
theorem of_sign (h : TermFront (base.tokens ++ side.token :: tokens)) :
    ∃ (script : OperandSyntax) (r : List Token), script.tokens ++ r = tokens ∧
      (NoScript r ∨ ∃ (second : OperandSyntax) (r' : List Token), NoScript r' ∧
        side.other.token :: (second.tokens ++ r') = r) := by
  obtain ⟨d, r, hr, hd⟩ := h
  cases d with
  | bare base' =>
    rw [TermSyntax.tokens] at hd
    obtain ⟨-, rfl⟩ := base'.tokens_append_inj base hd
    exact absurd hr (not_noScript_side side _)
  | one base' side' script =>
    rw [TermSyntax.tokens, List.append_assoc, List.cons_append] at hd
    obtain ⟨-, hsign⟩ := base'.tokens_append_inj base hd
    exact ⟨script, r, (List.cons.inj hsign).2, .inl hr⟩
  | two base' side' script second =>
    simp only [TermSyntax.tokens, List.append_assoc, List.cons_append] at hd
    obtain ⟨-, hsign⟩ := base'.tokens_append_inj base hd
    obtain ⟨hside, hscript⟩ := List.cons.inj hsign
    obtain rfl := ScriptSide.token_injective hside
    exact ⟨script, _, hscript, .inr ⟨second, r, hr, rfl⟩⟩

theorem of_script (h : TermFront (base.tokens ++ side.token :: tokens)) : OperandFront tokens := by
  obtain ⟨script, r, hscript, -⟩ := h.of_sign
  exact ⟨script, r, hscript⟩

/-- A second sign is one for the other side, and behind it stands the last script of the term. -/
theorem of_secondSign
    (h : TermFront (base.tokens ++ side.token :: (first.tokens ++ side'.token :: tokens))) :
    side' = side.other ∧ ∃ (second : OperandSyntax) (r : List Token), NoScript r ∧
      second.tokens ++ r = tokens := by
  obtain ⟨script, r, hscript, hr⟩ := h.of_sign
  obtain ⟨-, rfl⟩ := script.tokens_append_inj first hscript
  rcases hr with hr | ⟨second, r', hr', hsign⟩
  · exact absurd hr (not_noScript_side side' _)
  · obtain ⟨hside, hsecond⟩ := List.cons.inj hsign
    exact ⟨(ScriptSide.token_injective hside).symm, second, r', hr', hsecond⟩

theorem of_secondScript
    (h : TermFront (base.tokens ++ side.token :: (first.tokens ++ side'.token :: tokens))) :
    OperandFront tokens := by
  obtain ⟨-, second, r, -, hsecond⟩ := h.of_secondSign
  exact ⟨second, r, hsecond⟩

/-- No term has two scripts on one side. -/
theorem not_again :
    ¬TermFront (base.tokens ++ side.token :: (first.tokens ++ side.token :: tokens)) := by
  intro h
  obtain ⟨hside, -⟩ := h.of_secondSign
  cases side <;> cases hside

/-- No term has three scripts. -/
theorem not_third :
    ¬TermFront (base.tokens ++ side.token :: (first.tokens ++ side'.token ::
      (second.tokens ++ side''.token :: tokens))) := by
  intro h
  obtain ⟨-, second', r, hr, hsecond⟩ := h.of_secondSign
  obtain ⟨-, rfl⟩ := second'.tokens_append_inj second hsecond
  exact not_noScript_side side'' _ hr

end TermFront

theorem RatioFront.of_numerator (h : RatioFront tokens) : TermFront tokens := by
  obtain ⟨d, r, hr, -, hd⟩ := h
  cases d with
  | term d =>
    rw [RatioSyntax.tokens] at hd
    exact ⟨d, r, hr, hd⟩
  | divided numerator denominator =>
    rw [RatioSyntax.tokens, List.append_assoc] at hd
    exact ⟨numerator, _, noScript_slash _, hd⟩

theorem RatioFront.of_denominator {numerator : TermSyntax}
    (h : RatioFront (numerator.tokens ++ .symbol .slash :: tokens)) : RatioFront tokens := by
  obtain ⟨d, r, hr, hs, hd⟩ := h
  cases d with
  | term d =>
    rw [RatioSyntax.tokens] at hd
    obtain ⟨-, rfl⟩ := d.tokens_append_inj numerator hr (noScript_slash _) hd
    exact absurd rfl hs
  | divided numerator' denominator =>
    rw [RatioSyntax.tokens, List.append_assoc] at hd
    obtain ⟨-, hslash⟩ :=
      numerator'.tokens_append_inj numerator (noScript_slash _) (noScript_slash _) hd
    exact ⟨denominator, r, hr, hs, (List.cons.inj hslash).2⟩

/-- A sequence that does not end at once starts with a ratio. -/
theorem SequenceFront.of_head (h : SequenceFront tokens) (hend : ¬NoOperand tokens) :
    RatioFront tokens := by
  obtain ⟨d, r, hr, hd⟩ := h
  cases d with
  | nil =>
    rw [sequenceTokens, List.nil_append] at hd
    exact absurd (hd ▸ hr) hend
  | cons q d =>
    rw [sequenceTokens, List.append_assoc] at hd
    obtain ⟨hscript, hslash⟩ := noScript_sequence d hr
    exact ⟨q, _, hscript, hslash, hd⟩

theorem SequenceFront.of_tail {q : RatioSyntax} (h : SequenceFront (q.tokens ++ tokens))
    (hscript : NoScript tokens) (hslash : NoSlash tokens) : SequenceFront tokens := by
  obtain ⟨d, r, hr, hd⟩ := h
  cases d with
  | nil =>
    obtain ⟨t, rest, hq, ht⟩ := q.tokens_eq_cons
    rw [sequenceTokens, List.nil_append, hq] at hd
    subst hd
    rw [NoOperand.not_startsOperand hr] at ht
    cases ht
  | cons q' d =>
    rw [sequenceTokens, List.append_assoc] at hd
    obtain ⟨hscript', hslash'⟩ := noScript_sequence d hr
    obtain ⟨-, hrest⟩ := q'.tokens_append_inj q hscript' hscript hslash' hslash hd
    exact ⟨d, r, hr, hrest⟩

/-! ## What can be continued -/

/-- The tokens can be continued to an operand with matching brackets. -/
def OperandViable (tokens : List Token) : Prop :=
  ∃ (d : OperandSyntax) (c : List Token), d.operand.Matched ∧ d.tokens = tokens ++ c

/-- The tokens can be continued to a term with matching brackets. -/
def TermViable (tokens : List Token) : Prop :=
  ∃ (d : TermSyntax) (c : List Token), d.term.Matched ∧ d.tokens = tokens ++ c

/-- The tokens can be continued to a ratio with matching brackets. -/
def RatioViable (tokens : List Token) : Prop :=
  ∃ (d : RatioSyntax) (c : List Token), d.ratio.Matched ∧ d.tokens = tokens ++ c

/-- The tokens can be continued to a sequence with matching brackets. -/
def SequenceViable (tokens : List Token) : Prop :=
  ∃ (d : List RatioSyntax) (c : List Token),
    ExpressionMatched (expressionOf d) ∧ sequenceTokens d = tokens ++ c

/-- An operand to put where one is missing. -/
def OperandSyntax.zero : OperandSyntax := .leaf (.number "0")

theorem OperandSyntax.zero_matched : zero.operand.Matched := by
  rw [zero, operand, Operand.Matched]
  trivial

theorem OperandSyntax.viable {d : OperandSyntax} (h : d.operand.Matched) :
    OperandViable d.tokens :=
  ⟨d, [], h, (List.append_nil _).symm⟩

namespace OperandViable

theorem nil : OperandViable [] := ⟨.zero, _, OperandSyntax.zero_matched, rfl⟩

theorem words : OperandViable [.symbol .text] := by
  refine ⟨.words "", [.text ""], ?_, ?_⟩
  · rw [OperandSyntax.operand, Operand.Matched]
    trivial
  · rw [OperandSyntax.tokens]
    rfl

theorem color {name : String} (h : OperandViable tokens) :
    OperandViable (.symbol .color :: .text name :: tokens) := by
  obtain ⟨d, c, hm, hd⟩ := h
  refine ⟨.color name d, c, ?_, ?_⟩
  · rwa [OperandSyntax.operand, Operand.Matched]
  · rw [OperandSyntax.tokens, hd]
    rfl

theorem colorName : OperandViable [.symbol .color] := by
  have h : OperandViable [.symbol .color, .text ""] := nil.color
  obtain ⟨d, c, hm, hd⟩ := h
  exact ⟨d, .text "" :: c, hm, hd⟩

theorem unary {f : Unary} (h : OperandViable tokens) :
    OperandViable (.symbol (.unary f) :: tokens) := by
  obtain ⟨d, c, hm, hd⟩ := h
  refine ⟨.unary f d, c, ?_, ?_⟩
  · rwa [OperandSyntax.operand, Operand.Matched]
  · rw [OperandSyntax.tokens, hd]
    rfl

theorem binary_second {f : Binary} {first : OperandSyntax} (hfirst : first.operand.Matched)
    (h : OperandViable tokens) :
    OperandViable (.symbol (.binary f) :: (first.tokens ++ tokens)) := by
  obtain ⟨d, c, hm, hd⟩ := h
  refine ⟨.binary f first d, c, ?_, ?_⟩
  · rw [OperandSyntax.operand, Operand.Matched]
    exact ⟨hfirst, hm⟩
  · rw [OperandSyntax.tokens, hd, List.cons_append, List.append_assoc]

theorem binary_first {f : Binary} (h : OperandViable tokens) :
    OperandViable (.symbol (.binary f) :: tokens) := by
  obtain ⟨first, c, hm, hfirst⟩ := h
  obtain ⟨d, c', hm', hd⟩ := nil.binary_second (f := f) hm
  refine ⟨d, c ++ c', hm', ?_⟩
  rw [hd, hfirst]
  simp

/-- The group is closed by a bracket of the kind that opened it. -/
theorem group {opening : Fence} (h : SequenceViable tokens) :
    OperandViable (.symbol (.opening opening) :: tokens) := by
  obtain ⟨d, c, hm, hd⟩ := h
  refine ⟨.group opening opening d, c ++ [.symbol (.closing opening)], ?_, ?_⟩
  · rw [OperandSyntax.operand, Operand.Matched]
    exact ⟨opening.closedBy_self, hm⟩
  · rw [OperandSyntax.tokens, hd, List.cons_append, List.append_assoc]

end OperandViable

namespace TermViable

variable {base first second : OperandSyntax} {side : ScriptSide}

theorem of_base (h : OperandViable tokens) : TermViable tokens := by
  obtain ⟨d, c, hm, hd⟩ := h
  refine ⟨.bare d, c, ?_, ?_⟩
  · rwa [TermSyntax.term, Term.Matched]
  · rwa [TermSyntax.tokens]

theorem script (hbase : base.operand.Matched) (h : OperandViable tokens) :
    TermViable (base.tokens ++ side.token :: tokens) := by
  obtain ⟨d, c, hm, hd⟩ := h
  refine ⟨.one base side d, c, ?_, ?_⟩
  · rw [TermSyntax.term, Term.matched_withScript]
    exact ⟨hbase, hm⟩
  · rw [TermSyntax.tokens, hd, List.append_assoc, List.cons_append]

theorem secondScript (hbase : base.operand.Matched) (hfirst : first.operand.Matched)
    (h : OperandViable tokens) :
    TermViable (base.tokens ++ side.token :: (first.tokens ++ side.other.token :: tokens)) := by
  obtain ⟨d, c, hm, hd⟩ := h
  refine ⟨.two base side first d, c, ?_, ?_⟩
  · rw [TermSyntax.term, Term.matched_withScripts]
    exact ⟨hbase, hfirst, hm⟩
  · simp only [TermSyntax.tokens, hd, List.append_assoc, List.cons_append]

end TermViable

theorem RatioViable.of_numerator (h : TermViable tokens) : RatioViable tokens := by
  obtain ⟨d, c, hm, hd⟩ := h
  refine ⟨.term d, c, ?_, ?_⟩
  · rwa [RatioSyntax.ratio, Ratio.Matched]
  · rwa [RatioSyntax.tokens]

theorem RatioViable.denominator {numerator : TermSyntax} (hnumerator : numerator.term.Matched)
    (h : RatioViable tokens) : RatioViable (numerator.tokens ++ .symbol .slash :: tokens) := by
  obtain ⟨d, c, hm, hd⟩ := h
  refine ⟨.divided numerator d, c, ?_, ?_⟩
  · rw [RatioSyntax.ratio, Ratio.Matched]
    exact ⟨hnumerator, hm⟩
  · rw [RatioSyntax.tokens, hd, List.append_assoc, List.cons_append]

theorem SequenceViable.of_head (h : RatioViable tokens) : SequenceViable tokens := by
  obtain ⟨q, c, hm, hq⟩ := h
  refine ⟨[q], c, ?_, ?_⟩
  · rw [expressionOf, expressionOf, ExpressionMatched, ExpressionMatched]
    exact ⟨hm, trivial⟩
  · rw [sequenceTokens, sequenceTokens, List.append_nil, hq]

theorem SequenceViable.tail {q : RatioSyntax} (hq : q.ratio.Matched) (h : SequenceViable tokens) :
    SequenceViable (q.tokens ++ tokens) := by
  obtain ⟨d, c, hm, hd⟩ := h
  refine ⟨q :: d, c, ?_, ?_⟩
  · rw [expressionOf, ExpressionMatched]
    exact ⟨hq, hm⟩
  · rw [sequenceTokens, hd, List.append_assoc]

/-! ## Slashes behind scripts -/

/-- After `before`, a sign and `after`, a script stands at the front of `after`, and with a slash
behind it the tokens can be continued to something that is derived. -/
def SlashFits (derived : List Token → Prop) (before : List Token) (side : ScriptSide)
    (after : List Token) : Prop :=
  ∃ (script : OperandSyntax) (r : List Token), script.tokens ++ r = after ∧
    ∃ c, derived (before ++ side.token :: (script.tokens ++ .symbol .slash :: c))

/-- What is derived may stand in the middle of something else. -/
theorem SlashFits.within {derived derived' : List Token → Prop} {before after : List Token}
    {side : ScriptSide} (h : SlashFits derived before side after) (front rest : List Token)
    (hwithin : ∀ inner, derived inner → ∃ c, derived' (front ++ inner ++ c)) :
    SlashFits derived' (front ++ before) side (after ++ rest) := by
  obtain ⟨script, r, rfl, c, hc⟩ := h
  obtain ⟨c', hc'⟩ := hwithin _ hc
  refine ⟨script, r ++ rest, by rw [List.append_assoc], c ++ c', ?_⟩
  simpa using hc'

/-- The same at the end of what it stands in. -/
theorem SlashFits.atEnd {derived derived' : List Token → Prop} {before after : List Token}
    {side : ScriptSide} (h : SlashFits derived before side after) (front : List Token)
    (hwithin : ∀ inner, derived inner → ∃ c, derived' (front ++ inner ++ c)) :
    SlashFits derived' (front ++ before) side after := by
  simpa using h.within front [] hwithin

def OperandDerived (tokens : List Token) : Prop := ∃ d : OperandSyntax, d.tokens = tokens

def RatioDerived (tokens : List Token) : Prop := ∃ d : RatioSyntax, d.tokens = tokens

def SequenceDerived (tokens : List Token) : Prop := ∃ d, sequenceTokens d = tokens

section Signs

variable {b before after : List Token} {side : ScriptSide}

/-- A sign that is not the first token stands behind it. -/
theorem NoScript.cons_eq_append_sign (hno : NoScript (t :: b))
    (h : t :: b = before ++ side.token :: after) :
    ∃ middle, before = t :: middle ∧ b = middle ++ side.token :: after := by
  cases before with
  | nil =>
    rw [List.nil_append] at h
    exact absurd (h ▸ hno) (not_noScript_side side after)
  | cons first middle =>
    obtain ⟨rfl, hb⟩ := List.cons.inj h
    exact ⟨middle, rfl, hb⟩

theorem nil_ne_append_sign : [] ≠ before ++ side.token :: after := by
  simp

end Signs

mutual

theorem OperandSyntax.slashFits : ∀ (d : OperandSyntax) {before after : List Token}
    {side : ScriptSide}, d.tokens = before ++ side.token :: after →
    SlashFits OperandDerived before side after
  | .leaf l, before, after, side, h => by
    rw [OperandSyntax.tokens] at h
    obtain ⟨middle, -, hnil⟩ :=
      (noScript_of_startsOperand (by cases l <;> rfl) []).cons_eq_append_sign h
    exact absurd hnil nil_ne_append_sign
  | .words content, before, after, side, h => by
    rw [OperandSyntax.tokens] at h
    obtain ⟨middle, -, htext⟩ := (noScript_of_startsOperand rfl _).cons_eq_append_sign h
    obtain ⟨middle', -, hnil⟩ := (noScript_of_startsOperand rfl _).cons_eq_append_sign htext
    exact absurd hnil nil_ne_append_sign
  | .group opening closing content, before, after, side, h => by
    rw [OperandSyntax.tokens] at h
    obtain ⟨middle, rfl, hinner⟩ := (noScript_of_startsOperand rfl _).cons_eq_append_sign h
    rcases append_eq_append_cons hinner with ⟨inner, hcontent, rfl⟩ | ⟨inner, rfl, hclosing⟩
    · refine (slashFits_sequence content hcontent).within [.symbol (.opening opening)] _ ?_
      rintro _ ⟨d, rfl⟩
      exact ⟨[.symbol (.closing closing)], .group opening closing d, by simp [OperandSyntax.tokens]⟩
    · obtain ⟨middle', -, hnil⟩ :=
        (noOperand_closing closing []).noScript.cons_eq_append_sign hclosing
      exact absurd hnil nil_ne_append_sign
  | .unary f operand, before, after, side, h => by
    rw [OperandSyntax.tokens] at h
    obtain ⟨middle, rfl, hoperand⟩ := (noScript_of_startsOperand rfl _).cons_eq_append_sign h
    refine (operand.slashFits hoperand).atEnd [.symbol (.unary f)] ?_
    rintro _ ⟨d, rfl⟩
    exact ⟨[], .unary f d, by simp [OperandSyntax.tokens]⟩
  | .binary f first second, before, after, side, h => by
    rw [OperandSyntax.tokens] at h
    obtain ⟨middle, rfl, hoperands⟩ := (noScript_of_startsOperand rfl _).cons_eq_append_sign h
    rcases append_eq_append_cons hoperands with ⟨inner, hfirst, rfl⟩ | ⟨inner, rfl, hsecond⟩
    · refine (first.slashFits hfirst).within [.symbol (.binary f)] _ ?_
      rintro _ ⟨d, rfl⟩
      exact ⟨OperandSyntax.zero.tokens, .binary f d .zero, by simp [OperandSyntax.tokens]⟩
    · refine (second.slashFits hsecond).atEnd (.symbol (.binary f) :: first.tokens) ?_
      rintro _ ⟨d, rfl⟩
      exact ⟨[], .binary f first d, by simp [OperandSyntax.tokens]⟩
  | .color name operand, before, after, side, h => by
    rw [OperandSyntax.tokens] at h
    obtain ⟨middle, rfl, hname⟩ := (noScript_of_startsOperand rfl _).cons_eq_append_sign h
    obtain ⟨middle', rfl, hoperand⟩ := (noScript_of_startsOperand rfl _).cons_eq_append_sign hname
    refine (operand.slashFits hoperand).atEnd [.symbol .color, .text name] ?_
    rintro _ ⟨d, rfl⟩
    exact ⟨[], .color name d, by simp [OperandSyntax.tokens]⟩

/-- Behind the last script of the term the slash starts a denominator. -/
theorem TermSyntax.slashFits : ∀ (d : TermSyntax) {before after : List Token}
    {side : ScriptSide}, d.tokens = before ++ side.token :: after →
    SlashFits RatioDerived before side after
  | .bare base, before, after, side, h => by
    rw [TermSyntax.tokens] at h
    refine (base.slashFits h).atEnd [] ?_
    rintro _ ⟨d, rfl⟩
    exact ⟨[], .term (.bare d), by simp [RatioSyntax.tokens, TermSyntax.tokens]⟩
  | .one base sign script, before, after, side, h => by
    rw [TermSyntax.tokens] at h
    rcases append_eq_append_cons h with ⟨inner, hbase, rfl⟩ | ⟨inner, rfl, hscript⟩
    · refine (base.slashFits hbase).within [] _ ?_
      rintro _ ⟨d, rfl⟩
      exact ⟨[], .term (.bare d), by simp [RatioSyntax.tokens, TermSyntax.tokens]⟩
    · cases inner with
      | nil =>
        obtain ⟨hsign, rfl⟩ := List.cons.inj hscript
        refine ⟨script, [], List.append_nil _, OperandSyntax.zero.tokens,
          .divided (.one base sign script) (.term (.bare .zero)), ?_⟩
        simp [RatioSyntax.tokens, TermSyntax.tokens, hsign]
      | cons first inner =>
        obtain ⟨rfl, hinner⟩ := List.cons.inj hscript
        rw [List.append_cons]
        refine (script.slashFits hinner).atEnd (base.tokens ++ [sign.token]) ?_
        rintro _ ⟨d, rfl⟩
        exact ⟨[], .term (.one base sign d), by simp [RatioSyntax.tokens, TermSyntax.tokens]⟩
  | .two base sign first second, before, after, side, h => by
    rw [TermSyntax.tokens] at h
    rcases append_eq_append_cons h with ⟨inner, hbase, rfl⟩ | ⟨inner, rfl, hscripts⟩
    · refine (base.slashFits hbase).within [] _ ?_
      rintro _ ⟨d, rfl⟩
      exact ⟨[], .term (.bare d), by simp [RatioSyntax.tokens, TermSyntax.tokens]⟩
    cases inner with
    | nil =>
      obtain ⟨hsign, rfl⟩ := List.cons.inj hscripts
      refine ⟨first, _, rfl, OperandSyntax.zero.tokens,
        .divided (.one base sign first) (.term (.bare .zero)), ?_⟩
      simp [RatioSyntax.tokens, TermSyntax.tokens, hsign]
    | cons _ inner =>
      obtain ⟨rfl, hinner⟩ := List.cons.inj hscripts
      rcases append_eq_append_cons hinner with ⟨inner, hfirst, rfl⟩ | ⟨inner, rfl, hscript⟩
      · rw [List.append_cons]
        refine (first.slashFits hfirst).within (base.tokens ++ [sign.token]) _ ?_
        rintro _ ⟨d, rfl⟩
        exact ⟨[], .term (.one base sign d), by simp [RatioSyntax.tokens, TermSyntax.tokens]⟩
      cases inner with
      | nil =>
        obtain ⟨hsign, rfl⟩ := List.cons.inj hscript
        refine ⟨second, [], List.append_nil _, OperandSyntax.zero.tokens,
          .divided (.two base sign first second) (.term (.bare .zero)), ?_⟩
        simp [RatioSyntax.tokens, TermSyntax.tokens, hsign]
      | cons _ inner =>
        obtain ⟨rfl, hsecond⟩ := List.cons.inj hscript
        have hfront : base.tokens ++ sign.token :: (first.tokens ++ sign.other.token :: inner) =
            base.tokens ++ sign.token :: (first.tokens ++ [sign.other.token]) ++ inner := by simp
        rw [hfront]
        refine (second.slashFits hsecond).atEnd
          (base.tokens ++ sign.token :: (first.tokens ++ [sign.other.token])) ?_
        rintro _ ⟨d, rfl⟩
        exact ⟨[], .term (.two base sign first d), by simp [RatioSyntax.tokens, TermSyntax.tokens]⟩

theorem RatioSyntax.slashFits : ∀ (d : RatioSyntax) {before after : List Token}
    {side : ScriptSide}, d.tokens = before ++ side.token :: after →
    SlashFits RatioDerived before side after
  | .term t, before, after, side, h => by
    rw [RatioSyntax.tokens] at h
    exact t.slashFits h
  | .divided numerator denominator, before, after, side, h => by
    rw [RatioSyntax.tokens] at h
    rcases append_eq_append_cons h with ⟨inner, hnumerator, rfl⟩ | ⟨inner, rfl, hslash⟩
    · refine (numerator.slashFits hnumerator).within [] _ ?_
      rintro _ ⟨d, rfl⟩
      exact ⟨[], d, by simp⟩
    · obtain ⟨middle, rfl, hdenominator⟩ := (noScript_slash _).cons_eq_append_sign hslash
      rw [List.append_cons]
      refine (denominator.slashFits hdenominator).atEnd (numerator.tokens ++ [.symbol .slash]) ?_
      rintro _ ⟨d, rfl⟩
      exact ⟨[], .divided numerator d, by simp [RatioSyntax.tokens]⟩

theorem slashFits_sequence : ∀ (d : List RatioSyntax) {before after : List Token}
    {side : ScriptSide}, sequenceTokens d = before ++ side.token :: after →
    SlashFits SequenceDerived before side after
  | [], before, after, side, h => by
    rw [sequenceTokens] at h
    exact absurd h nil_ne_append_sign
  | q :: d, before, after, side, h => by
    rw [sequenceTokens] at h
    rcases append_eq_append_cons h with ⟨inner, hq, rfl⟩ | ⟨inner, rfl, hd⟩
    · refine (q.slashFits hq).within [] _ ?_
      rintro _ ⟨q', rfl⟩
      exact ⟨[], [q'], by simp [sequenceTokens]⟩
    · refine (slashFits_sequence d hd).atEnd q.tokens ?_
      rintro _ ⟨d', rfl⟩
      exact ⟨[], q :: d', by simp [sequenceTokens]⟩

end

end MathMarkup.Formula
