import MathMarkup.Proofs.Formula.BracketFaults
import MathMarkup.Proofs.Formula.Prefixes

/-!
# Where the readers stop

* `Stop` — a place where reading ends: what was read can be continued, but not by the token there.
* `Stopping` — a reader that fails for want of an operand, or for a script too many, fails at a stop.

Principal results: `Level.stopping_ofNat` — the readers of all levels are stopping;
`readExpression_stopsAt` — after the bracket check, such a fault of an expression is told at a stop.
-/

namespace MathMarkup.Formula

variable {lexemes rest : List Lexeme} {lexeme finish : Lexeme} {n : Nat}

/-! ## Stops -/

/-- The causes that concern the order of the tokens. -/
def Fault.Cause.ConcernsOrder (cause : Fault.Cause) : Prop :=
  cause = .missingOperand ∨ cause = .duplicateScript ∨ cause = .unexpectedEnd

/-- What is told about a token in place of an operand. -/
def missingCause : Token → Fault.Cause
  | .endOfInput => .unexpectedEnd
  | _ => .missingOperand

/-- The term has a script on the given side. -/
def TermSyntax.HasScript : TermSyntax → ScriptSide → Prop
  | .bare _, _ => False
  | .one _ side _, side' => side' = side
  | .two _ _ _ _, _ => True

/-- The token is the sign for a script that the term before it has already. -/
def Repeats (before : List Token) (t : Token) : Prop :=
  ∃ side front d, t = ScriptSide.token side ∧ before = front ++ TermSyntax.tokens d ∧
    d.HasScript side

/-- The tokens that cannot stand at a stop: the one that stands there, and a slash in place of a
sign that is not taken for one of a script. -/
def Refused (cause : Fault.Cause) (t t' : Token) : Prop :=
  t' = t ∨ cause = .missingOperand ∧ (∃ side, t = ScriptSide.token side) ∧ t' = .symbol .slash

/-- Reading stops at the token `t` behind the tokens `before`. These can be continued to what is
read, `t` cannot follow them there, and the cause says what `t` is. -/
structure Stop (viable front : List Token → Prop) (cause : Fault.Cause) (before : List Token)
    (t : Token) : Prop where
  viable : viable before
  refused : ∀ t' after, Refused cause t t' → ¬front (before ++ t' :: after)
  cause_eq : cause = missingCause t ∨ cause = .duplicateScript ∧ Repeats before t

variable {viable viable' front front' : List Token → Prop} {cause : Fault.Cause}
  {before tokens : List Token} {t t' : Token}

theorem Repeats.behind (h : Repeats before t) (tokens : List Token) :
    Repeats (tokens ++ before) t := by
  obtain ⟨side, front, d, rfl, rfl, hd⟩ := h
  exact ⟨side, tokens ++ front, d, rfl, by rw [List.append_assoc], hd⟩

/-- A stop stays one behind tokens that were read before. -/
theorem Stop.behind (h : Stop viable front cause before t) (hviable : viable' (tokens ++ before))
    (hfront : ∀ t' after, Refused cause t t' → front' (tokens ++ (before ++ t' :: after)) →
      front (before ++ t' :: after)) :
    Stop viable' front' cause (tokens ++ before) t := by
  refine ⟨hviable, ?_, ?_⟩
  · intro t' after hrefused hf
    rw [List.append_assoc] at hf
    exact h.refused t' after hrefused (hfront t' after hrefused hf)
  · rcases h.cause_eq with hcause | ⟨hcause, hrepeats⟩
    · exact .inl hcause
    · exact .inr ⟨hcause, hrepeats.behind tokens⟩

/-- Signs and slashes start no operand. -/
theorem Refused.startsOperand (h : Refused cause t t') (ht : t.startsOperand = false) :
    t'.startsOperand = false := by
  rcases h with rfl | ⟨-, -, rfl⟩
  · exact ht
  · rfl

theorem Refused.ne_text (h : Refused cause t t') (ht : ∀ content, t ≠ .text content)
    (content : String) : t' ≠ .text content := by
  rcases h with rfl | ⟨-, -, rfl⟩
  · exact ht content
  · simp

theorem stop_operand (ht : t.startsOperand = false) :
    Stop OperandViable OperandFront (missingCause t) [] t := by
  refine ⟨.nil, ?_, .inl rfl⟩
  intro t' after hrefused hfront
  have hstarts := OperandFront.startsOperand hfront
  rw [hrefused.startsOperand ht] at hstarts
  cases hstarts

/-- Behind a symbol that takes a verbatim text every other token is refused. -/
theorem stop_verbatim {symbol : Symbol} (hviable : OperandViable [.symbol symbol])
    (hfront : ∀ tokens, OperandFront (.symbol symbol :: tokens) →
      ∃ content rest, tokens = .text content :: rest)
    (ht : ∀ content, t ≠ .text content) :
    Stop OperandViable OperandFront (missingCause t) [.symbol symbol] t := by
  refine ⟨hviable, ?_, .inl rfl⟩
  intro t' after hrefused hf
  obtain ⟨content, rest, hcons⟩ := hfront _ hf
  exact hrefused.ne_text ht content (List.cons.inj hcons).1

/-! ## Readers that stop -/

/-- The readers find the lexemes so: the mark of the end is among them, and the bracket check
passes over them. -/
structure Readable (lexemes : List Lexeme) : Prop where
  ends : .endOfInput ∈ lexemes.map (·.token)
  followed : ∃ stack last, followBrackets stack lexemes = .ok last

namespace Readable

theorem of_spells (h : Readable lexemes) (hs : Spells tokens lexemes rest)
    (hend : .endOfInput ∉ tokens) : Readable rest := by
  obtain ⟨hmem, stack, last, hfollowed⟩ := h
  constructor
  · rw [hs.map_token, List.mem_append] at hmem
    exact hmem.resolve_left hend
  · obtain ⟨used, rfl, -⟩ := hs
    obtain ⟨middle, -, hrest⟩ := followBrackets_append_eq_ok_iff.1 hfollowed
    exact ⟨middle, last, hrest⟩

theorem eq_cons (h : Readable lexemes) : ∃ lexeme rest, lexemes = lexeme :: rest := by
  cases lexemes with
  | nil => exact absurd h.ends (by simp)
  | cons lexeme rest => exact ⟨lexeme, rest, rfl⟩

/-- Behind a derivation, of which the bracket check tells whether it is matched. -/
theorem behind {matched : Prop} (h : Readable lexemes) (hs : Spells tokens lexemes rest)
    (hend : .endOfInput ∉ tokens)
    (hfollow : ∀ stack last, followBrackets stack lexemes = .ok last ↔
      matched ∧ followBrackets stack rest = .ok last) : matched ∧ Readable rest := by
  obtain ⟨stack, last, hfollowed⟩ := h.followed
  exact ⟨((hfollow stack last).1 hfollowed).1, h.of_spells hs hend⟩

theorem behind_operand (h : Readable lexemes) {d : OperandSyntax}
    (hs : Spells d.tokens lexemes rest) : d.operand.Matched ∧ Readable rest :=
  h.behind hs d.endOfInput_notMem (hs.followBrackets_operand d)

theorem behind_term (h : Readable lexemes) {d : TermSyntax}
    (hs : Spells d.tokens lexemes rest) : d.term.Matched ∧ Readable rest :=
  h.behind hs d.endOfInput_notMem (hs.followBrackets_term d)

theorem behind_ratio (h : Readable lexemes) {d : RatioSyntax}
    (hs : Spells d.tokens lexemes rest) : d.ratio.Matched ∧ Readable rest :=
  h.behind hs d.endOfInput_notMem (hs.followBrackets_ratio d)

theorem behind_sign (h : Readable lexemes) {side : ScriptSide}
    (hs : Spells [side.token] lexemes rest) : Readable rest := by
  refine h.of_spells hs ?_
  rw [List.mem_singleton]
  exact side.token_ne_endOfInput.symm

end Readable

/-- The fault is told at a lexeme where reading stops. -/
def StopsAt (viable front : List Token → Prop) (fault : Fault) (lexemes : List Lexeme) : Prop :=
  ∃ before lexeme after, Spells before lexemes (lexeme :: after) ∧ fault.span = lexeme.span ∧
    Stop viable front fault.cause before lexeme.token

/-- Where the reader fails for the order of the tokens, it stops. -/
def Stopping {α : Type} (viable front : List Token → Prop) (reader : Reader α) : Prop :=
  ∀ lexemes fault, Readable lexemes → reader lexemes = .error fault →
    fault.cause.ConcernsOrder → StopsAt viable front fault lexemes

theorem StopsAt.behind {fault : Fault} (h : StopsAt viable front fault rest)
    (hs : Spells tokens lexemes rest) (hviable : ∀ u, viable u → viable' (tokens ++ u))
    (hfront : ∀ x, front' (tokens ++ x) → front x) : StopsAt viable' front' fault lexemes := by
  obtain ⟨before, lexeme, after, hbefore, hspan, hstop⟩ := h
  exact ⟨tokens ++ before, lexeme, after, hs.append hbefore, hspan,
    hstop.behind (hviable before hstop.viable) fun _ _ _ hf => hfront _ hf⟩

/-- A lexeme that starts no operand stops the reading of one. -/
theorem StopsAt.here {fault : Fault} (ht : lexeme.token.startsOperand = false)
    (hfault : fault = ⟨missingCause lexeme.token, lexeme.span⟩) (rest : List Lexeme) :
    StopsAt OperandViable OperandFront fault (lexeme :: rest) := by
  subst hfault
  exact ⟨[], lexeme, rest, .nil _, rfl, stop_operand ht⟩

/-! ### Scripts and slashes -/

theorem scriptSign_eq_some_iff {side : ScriptSide} {span : Span} :
    scriptSign lexemes = some (side, span, rest) ↔
      ∃ lexeme, lexemes = lexeme :: rest ∧ lexeme.token = side.token ∧ lexeme.span = span := by
  constructor
  · intro h
    cases lexemes with
    | nil => cases h
    | cons lexeme lexemes =>
      rw [scriptSign] at h
      split at h
      · rename_i ht; cases h; exact ⟨lexeme, rfl, ht, rfl⟩
      · rename_i ht; cases h; exact ⟨lexeme, rfl, ht, rfl⟩
      · cases h
  · rintro ⟨lexeme, rfl, ht, rfl⟩
    exact scriptSign_cons ht rest

/-- Behind a term that has a script already, its sign stops the reading of the term. -/
theorem StopsAt.duplicate {d : TermSyntax} {side : ScriptSide} {span : Span} {middle : List Lexeme}
    (hs : Spells d.tokens lexemes middle) (hsign : scriptSign middle = some (side, span, rest))
    (hd : d.term.Matched) (hside : d.HasScript side)
    (hnot : ∀ after, ¬TermFront (d.tokens ++ side.token :: after)) :
    StopsAt TermViable TermFront ⟨.duplicateScript, span⟩ lexemes := by
  obtain ⟨sign, rfl, ht, rfl⟩ := scriptSign_eq_some_iff.1 hsign
  refine ⟨d.tokens, sign, rest, hs, rfl, ⟨d, [], hd, (List.append_nil _).symm⟩, ?_,
    .inr ⟨rfl, side, [], d, ht, rfl, hside⟩⟩
  -- a slash is refused in place of a sign where an operand is missing only
  rintro t' after (rfl | ⟨hcause, -⟩)
  · rw [ht]
    exact hnot after
  · cases hcause

theorem noScript_of_scriptSign (h : scriptSign lexemes = none) :
    NoScript (lexemes.map (·.token)) := by
  intro side hside
  cases lexemes with
  | nil => cases hside
  | cons lexeme lexemes =>
    rw [List.map_cons, List.head?_cons, Option.some.injEq] at hside
    rw [scriptSign_cons hside] at h
    cases h

theorem noSlash_of_afterSlash? (h : afterSlash? lexemes = none) :
    NoSlash (lexemes.map (·.token)) := by
  intro hslash
  cases lexemes with
  | nil => cases hslash
  | cons lexeme lexemes =>
    rw [List.map_cons, List.head?_cons, Option.some.injEq] at hslash
    rw [afterSlash?_cons hslash] at h
    cases h

theorem readTerm_stopping {operand : Reader Operand} (hs : SoundOperand n operand)
    (hh : Stopping OperandViable OperandFront operand) :
    Stopping TermViable TermFront (readTerm operand) := by
  intro lexemes fault hr h hc
  unfold readTerm at h
  split at h
  · rename_i hbase
    cases h
    exact (hh _ _ hr hbase hc).behind (.nil lexemes) (fun _ => TermViable.of_base)
      fun _ => TermFront.of_base
  rename_i base l1 hbase
  obtain ⟨db, sb, -, -⟩ := hs _ _ _ hbase
  obtain ⟨mb, r1⟩ := hr.behind_operand sb
  split at h
  · cases h
  rename_i side span l2 hsign
  have ssign := scriptSign_eq_some hsign
  have r2 := r1.behind_sign ssign
  have s2 := sb.append ssign
  split at h
  · rename_i hfirst
    cases h
    refine (hh _ _ r2 hfirst hc).behind s2 ?_ ?_
    · intro u hu
      rw [← List.append_cons]
      exact TermViable.script mb hu
    · intro x hx
      rw [← List.append_cons] at hx
      exact TermFront.of_script hx
  rename_i first l3 hfirst
  obtain ⟨df, sf, -, -⟩ := hs _ _ _ hfirst
  obtain ⟨mf, r3⟩ := r2.behind_operand sf
  split at h
  · cases h
  rename_i side' span' l4 hsign'
  have s3 : Spells (TermSyntax.one db side df).tokens lexemes l3 := by
    rw [TermSyntax.tokens]
    exact sb.append (ssign.append sf)
  split at h
  · rename_i hside
    cases h
    subst hside
    refine .duplicate s3 hsign' ?_ rfl fun after => ?_
    · rw [TermSyntax.term, Term.matched_withScript]
      exact ⟨mb, mf⟩
    · rw [TermSyntax.tokens, List.append_assoc, List.cons_append]
      exact TermFront.not_again
  rename_i hne
  have hother : side' = side.other := by
    cases side <;> cases side' <;> first | rfl | exact absurd rfl hne
  subst hother
  have ssign' := scriptSign_eq_some hsign'
  have r4 := r3.behind_sign ssign'
  split at h
  · rename_i hsecond
    cases h
    refine (hh _ _ r4 hsecond hc).behind (s3.append ssign') ?_ ?_
    · intro u hu
      rw [← List.append_cons, TermSyntax.tokens, List.append_assoc, List.cons_append]
      exact TermViable.secondScript mb mf hu
    · intro x hx
      rw [← List.append_cons, TermSyntax.tokens, List.append_assoc, List.cons_append] at hx
      exact TermFront.of_secondScript hx
  rename_i second l5 hsecond
  obtain ⟨ds, ss, -, -⟩ := hs _ _ _ hsecond
  obtain ⟨ms, -⟩ := r4.behind_operand ss
  split at h
  · cases h
  · rename_i side'' span'' l6 hsign''
    cases h
    have s5 : Spells (TermSyntax.two db side df ds).tokens lexemes l5 := by
      rw [TermSyntax.tokens]
      exact sb.append (ssign.append (sf.append (ssign'.append ss)))
    refine .duplicate s5 hsign'' ?_ trivial fun after => ?_
    · rw [TermSyntax.term, Term.matched_withScripts]
      exact ⟨mb, mf, ms⟩
    · simp only [TermSyntax.tokens, List.append_assoc, List.cons_append]
      exact TermFront.not_third

theorem readRatio_stopping {operand : Reader Operand} {denominator : Reader Ratio}
    (hs : SoundOperand n operand) (hh : Stopping OperandViable OperandFront operand)
    (hd : Stopping RatioViable RatioFront denominator) :
    Stopping RatioViable RatioFront (readRatio operand denominator) := by
  intro lexemes fault hr h hc
  unfold readRatio at h
  split at h
  · rename_i hnumerator
    cases h
    exact (readTerm_stopping hs hh _ _ hr hnumerator hc).behind (.nil lexemes)
      (fun _ => RatioViable.of_numerator) fun _ => RatioFront.of_numerator
  rename_i numerator l1 hnumerator
  obtain ⟨dn, sn, -, -⟩ := readTerm_sound hs hnumerator
  obtain ⟨mn, r1⟩ := hr.behind_term sn
  split at h
  · cases h
  rename_i l2 hslash
  have sslash := afterSlash?_eq_some hslash
  have r2 := r1.of_spells sslash (by simp)
  split at h
  · rename_i hbelow
    cases h
    refine (hd _ _ r2 hbelow hc).behind (sn.append sslash) ?_ ?_
    · intro u hu
      rw [← List.append_cons]
      exact RatioViable.denominator mn hu
    · intro x hx
      rw [← List.append_cons] at hx
      exact RatioFront.of_denominator hx
  · cases h

/-! ### Sequences -/

/-- Behind a ratio that was read stands nothing that could belong to it. -/
def Greedy (ratio : Reader Ratio) : Prop :=
  ∀ lexemes q rest, ratio lexemes = .ok (q, rest) →
    NoScript (rest.map (·.token)) ∧ NoSlash (rest.map (·.token))

theorem noScript_of_readTerm {operand : Reader Operand} {term : Term}
    (h : readTerm operand lexemes = .ok (term, rest)) : NoScript (rest.map (·.token)) := by
  unfold readTerm at h
  split at h
  · cases h
  split at h
  · rename_i hsign
    cases h
    exact noScript_of_scriptSign hsign
  split at h
  · cases h
  split at h
  · rename_i hsign
    cases h
    exact noScript_of_scriptSign hsign
  split at h
  · cases h
  split at h
  · cases h
  split at h
  · rename_i hsign
    cases h
    exact noScript_of_scriptSign hsign
  · cases h

theorem readRatio_greedy {operand : Reader Operand} {denominator : Reader Ratio}
    (hd : Greedy denominator) : Greedy (readRatio operand denominator) := by
  intro lexemes q rest h
  unfold readRatio at h
  split at h
  · cases h
  rename_i numerator l1 hnumerator
  split at h
  · rename_i hslash
    cases h
    exact ⟨noScript_of_readTerm hnumerator, noSlash_of_afterSlash? hslash⟩
  split at h
  · cases h
  · rename_i below l3 hbelow
    cases h
    exact hd _ _ _ hbelow

theorem Level.greedy_ofNat (finish : Lexeme) : ∀ n, Greedy (ofNat finish n).ratio
  | 0 => fun _ _ _ h => (nomatch h)
  | n + 1 => readRatio_greedy (greedy_ofNat finish n)

/-- With a refused token in place of the one at the stop, the tokens start as they did, or with a slash
where a sign was. -/
theorem Refused.head?_eq {after : List Lexeme} (h : Refused cause lexeme.token t')
    (hs : Spells before lexemes (lexeme :: after)) (after' : List Token) :
    (before ++ t' :: after').head? = (lexemes.map (·.token)).head? ∨
      (before ++ t' :: after').head? = some (.symbol .slash) ∧
        ∃ side, (lexemes.map (·.token)).head? = some (ScriptSide.token side) := by
  rw [hs.map_token]
  cases before with
  | cons first before => exact .inl rfl
  | nil =>
    rcases h with rfl | ⟨-, ⟨side, hside⟩, rfl⟩
    · exact .inl rfl
    · exact .inr ⟨rfl, side, congrArg some hside⟩

theorem Refused.not_noOperand {after : List Lexeme} {after' : List Token}
    (h : Refused cause lexeme.token t') (hs : Spells before lexemes (lexeme :: after))
    (hend : endsSequence lexemes = false) : ¬NoOperand (before ++ t' :: after') := by
  intro hno
  rcases h.head?_eq hs after' with hhead | ⟨hslash, -⟩
  · have hno' : NoOperand (lexemes.map (·.token)) := fun t ht => hno t (hhead.trans ht)
    rw [endsSequence_eq_true hno'] at hend
    cases hend
  · rcases hno _ hslash with ht | ⟨fence, ht⟩ <;> cases ht

theorem Refused.noScript {after : List Lexeme} {after' : List Token}
    (h : Refused cause lexeme.token t') (hs : Spells before lexemes (lexeme :: after))
    (hscript : NoScript (lexemes.map (·.token))) (hslash : NoSlash (lexemes.map (·.token))) :
    NoScript (before ++ t' :: after') ∧ NoSlash (before ++ t' :: after') := by
  rcases h.head?_eq hs after' with hhead | ⟨-, side, hside⟩
  · exact ⟨fun side hs => hscript side (hhead.symm.trans hs), fun hs => hslash (hhead.symm.trans hs)⟩
  · exact absurd hside (hscript side)

/-- The induction is on the budget. A sequence stops in its first ratio or behind it. -/
theorem sequenceWithin_stopping {ratio : Reader Ratio} (hs : SoundRatio n ratio)
    (hg : Greedy ratio) (hh : Stopping RatioViable RatioFront ratio) :
    ∀ budget : Nat, Stopping SequenceViable SequenceFront (sequenceWithin ratio budget)
  | 0, lexemes, fault, _, h, _ => by cases h
  | budget + 1, lexemes, fault, hr, h, hc => by
    rw [sequenceWithin] at h
    split at h
    · cases h
    rename_i hend
    split at h
    · rename_i hfirst
      cases h
      obtain ⟨before, lexeme, after, hbefore, hspan, hstop⟩ := hh _ _ hr hfirst hc
      have hbehind : Stop SequenceViable SequenceFront fault.cause ([] ++ before) lexeme.token := by
        refine hstop.behind (.of_head hstop.viable) ?_
        intro t' after' hrefused hf
        exact hf.of_head (hrefused.not_noOperand hbefore (Bool.eq_false_iff.2 hend))
      exact ⟨before, lexeme, after, hbefore, hspan, hbehind⟩
    rename_i first l1 hfirst
    obtain ⟨d, sd, -, -⟩ := hs _ _ _ hfirst
    obtain ⟨md, r1⟩ := hr.behind_ratio sd
    obtain ⟨hscript, hslash⟩ := hg _ _ _ hfirst
    split at h
    · rename_i hothers
      cases h
      obtain ⟨before, lexeme, after, hbefore, hspan, hstop⟩ :=
        sequenceWithin_stopping hs hg hh budget _ _ r1 hothers hc
      refine ⟨d.tokens ++ before, lexeme, after, sd.append hbefore, hspan,
        hstop.behind (.tail md hstop.viable) ?_⟩
      intro t' after' hrefused hf
      obtain ⟨hscript', hslash'⟩ := hrefused.noScript hbefore hscript hslash
      exact hf.of_tail hscript' hslash'
    · cases h

theorem readSequence_stopping {ratio : Reader Ratio} (hs : SoundRatio n ratio)
    (hg : Greedy ratio) (hh : Stopping RatioViable RatioFront ratio) :
    Stopping SequenceViable SequenceFront (readSequence ratio) :=
  fun lexemes => sequenceWithin_stopping hs hg hh lexemes.length lexemes

/-! ### Operands -/

/-- A verbatim text is missing only where another token stands. -/
theorem readVerbatim_eq_error {fault : Fault} (hr : Readable lexemes)
    (h : readVerbatim finish lexemes = .error fault) :
    ∃ lexeme after, lexemes = lexeme :: after ∧ (∀ content, lexeme.token ≠ .text content) ∧
      fault = ⟨missingCause lexeme.token, lexeme.span⟩ := by
  obtain ⟨lexeme, after, rfl⟩ := hr.eq_cons
  unfold readVerbatim at h
  dsimp only [nextLexeme] at h
  refine ⟨lexeme, after, rfl, ?_⟩
  split at h
  · cases h
  · rename_i ht
    cases h
    exact ⟨by simp [ht], by rw [ht]; rfl⟩
  · rename_i hne hend
    cases h
    refine ⟨hne, ?_⟩
    rw [missingCause]
    exact hend

theorem readGroup_stopping {inner : Level} (hs : SoundRatio n inner.ratio)
    (hg : Greedy inner.ratio) (hh : Stopping RatioViable RatioFront inner.ratio) {opening : Fence} :
    Stopping SequenceViable SequenceFront (readGroup finish inner opening) := by
  intro lexemes fault hr h hc
  unfold readGroup at h
  split at h
  · rename_i hcontent
    cases h
    exact readSequence_stopping hs hg hh _ _ hr hcontent hc
  · dsimp only at h
    split at h
    · cases h
    · cases h
      rcases hc with hc | hc | hc <;> cases hc

theorem readSymbol_stopping {inner : Level} (hf : finish.token = .endOfInput)
    (hso : SoundOperand n inner.operand) (hsr : SoundRatio n inner.ratio)
    (hg : Greedy inner.ratio) (hho : Stopping OperandViable OperandFront inner.operand)
    (hhr : Stopping RatioViable RatioFront inner.ratio) {symbol : Symbol} {fault : Fault}
    (ht : lexeme.token = .symbol symbol) (hr : Readable (lexeme :: rest))
    (h : readSymbol finish inner symbol lexeme.span rest = .error fault)
    (hc : fault.cause.ConcernsOrder) :
    StopsAt OperandViable OperandFront fault (lexeme :: rest) := by
  have st : Spells [.symbol symbol] (lexeme :: rest) rest := .one ht rest
  have r1 : Readable rest := hr.of_spells st (by simp)
  cases symbol with
  | sign s => cases h
  | opening fence =>
    exact (readGroup_stopping hsr hg hhr _ _ r1 h hc).behind st (fun _ => OperandViable.group)
      fun _ => OperandFront.takesFront
  | closing fence => cases h; exact .here (by rw [ht]; rfl) (by rw [ht]; rfl) rest
  | superscript => cases h; exact .here (by rw [ht]; rfl) (by rw [ht]; rfl) rest
  | subscript => cases h; exact .here (by rw [ht]; rfl) (by rw [ht]; rfl) rest
  | slash => cases h; exact .here (by rw [ht]; rfl) (by rw [ht]; rfl) rest
  | unary f =>
    rw [readSymbol] at h
    split at h
    · rename_i hoperand
      cases h
      exact (hho _ _ r1 hoperand hc).behind st (fun _ => OperandViable.unary)
        fun _ => OperandFront.takesFront
    · cases h
  | binary f =>
    rw [readSymbol] at h
    split at h
    · rename_i hfirst
      cases h
      exact (hho _ _ r1 hfirst hc).behind st (fun _ => OperandViable.binary_first)
        fun _ => OperandFront.of_binary_first
    rename_i first l1 hfirst
    obtain ⟨df, sf, -, -⟩ := hso _ _ _ hfirst
    obtain ⟨mf, r2⟩ := r1.behind_operand sf
    split at h
    · rename_i hsecond
      cases h
      exact (hho _ _ r2 hsecond hc).behind (st.append sf) (fun _ => OperandViable.binary_second mf)
        fun _ => OperandFront.of_binary_second df
    · cases h
  | text =>
    rw [readSymbol] at h
    split at h
    · rename_i hcontent
      cases h
      obtain ⟨stop, after, rfl, hne, rfl⟩ := readVerbatim_eq_error r1 hcontent
      exact ⟨_, stop, after, st, rfl, stop_verbatim .words (fun _ => OperandFront.takesFront) hne⟩
    · cases h
  | color =>
    rw [readSymbol] at h
    split at h
    · rename_i hname
      cases h
      obtain ⟨stop, after, rfl, hne, rfl⟩ := readVerbatim_eq_error r1 hname
      refine ⟨_, stop, after, st, rfl, stop_verbatim .colorName ?_ hne⟩
      intro tokens hfront
      obtain ⟨name, rest, hcons, -⟩ := hfront.takesFront
      exact ⟨name, rest, hcons⟩
    rename_i name l1 hname
    have sn := readVerbatim_sound hf hname
    split at h
    · rename_i hoperand
      cases h
      exact (hho _ _ (r1.of_spells sn (by simp)) hoperand hc).behind (st.append sn)
        (fun _ => OperandViable.color) fun _ => OperandFront.of_color
    · cases h

theorem readOperand_stopping {inner : Level} (hf : finish.token = .endOfInput)
    (hso : SoundOperand n inner.operand) (hsr : SoundRatio n inner.ratio)
    (hg : Greedy inner.ratio) (hho : Stopping OperandViable OperandFront inner.operand)
    (hhr : Stopping RatioViable RatioFront inner.ratio) :
    Stopping OperandViable OperandFront (readOperand finish inner) := by
  intro lexemes fault hr h hc
  obtain ⟨lexeme, rest, rfl⟩ := hr.eq_cons
  unfold readOperand at h
  dsimp only [nextLexeme] at h
  split at h
  · rename_i ht
    cases h
    exact .here (by rw [ht]; rfl) (by rw [ht]; rfl) rest
  · cases h
  · cases h
  · cases h
  · rename_i symbol ht
    exact readSymbol_stopping hf hso hsr hg hho hhr ht hr h hc

/-- **Where a reader fails for the order of the tokens, it stops**, at every level. -/
theorem Level.stopping_ofNat (hf : finish.token = .endOfInput) : ∀ n,
    Stopping OperandViable OperandFront (ofNat finish n).operand ∧
      Stopping RatioViable RatioFront (ofNat finish n).ratio
  | 0 => by
    constructor
    · intro lexemes fault _ h hc
      cases h
      rcases hc with hc | hc | hc <;> cases hc
    · intro lexemes fault _ h hc
      cases h
      rcases hc with hc | hc | hc <;> cases hc
  | n + 1 => by
    obtain ⟨hso, hsr⟩ := sound_ofNat hf n
    obtain ⟨hho, hhr⟩ := stopping_ofNat hf n
    have ho := readOperand_stopping hf hso hsr (greedy_ofNat finish n) hho hhr
    exact ⟨ho, readRatio_stopping (readOperand_sound hf hso hsr) ho hhr⟩

/-! ### Whole expressions -/

theorem Sealed.readable (h : Sealed lexemes) (hcheck : checkBrackets lexemes = .ok ()) :
    Readable lexemes := by
  obtain ⟨last, hlast, ht⟩ := h.eq_append
  constructor
  · rw [hlast, ← ht]
    simp
  · exact ⟨[], [], checkBrackets_eq_ok_iff.1 hcheck⟩

theorem readExpression_stopsAt (h : Sealed lexemes) (hcheck : checkBrackets lexemes = .ok ())
    {fault : Fault} (hread : readExpression n lexemes = .error fault)
    (hc : fault.cause.ConcernsOrder) : StopsAt SequenceViable SequenceFront fault lexemes := by
  have hf : (finishOf lexemes).token = .endOfInput := rfl
  have hs := (Level.sound_ofNat hf n).2
  have hh := (Level.stopping_ofNat hf n).2
  obtain hsequence | ⟨e, rest, -, -, rfl⟩ := readWith_eq_error_iff.1 hread
  · exact readSequence_stopping hs (Level.greedy_ofNat _ n) hh _ _ (h.readable hcheck) hsequence hc
  · rcases hc with hc | hc | hc <;> cases hc

end MathMarkup.Formula
