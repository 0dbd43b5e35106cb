import MathMarkup.Proofs.Formula.Stopping

/-!
# Where the nesting is too deep

* `OperandExceeds` and its like — tokens behind which the next one would begin one level too deep: they
  are those of an operand (a term, a ratio, a sequence) up to a place inside all levels that are left.
* `Limiting` — a reader that fails for neither the order of the tokens nor a bracket fails at such a
  place, for the limit on the nesting.
* `Limited` — behind such tokens a reader fails for the limit.

Principal results: `Level.limiting_ofNat`, `Level.limited_ofNat` — the readers of all levels are both;
`readExpression_limit_iff` — after the bracket check, what an expression fails for besides the order of
its tokens is the limit, and it is told exactly at the token that begins one level too deep.
-/

namespace MathMarkup.Formula

variable {lexemes rest : List Lexeme} {lexeme finish : Lexeme} {n : Nat} {before tokens : List Token}
  {t : Token}

/-! ## Places inside all levels -/

mutual

/-- The tokens start an operand, and the next one, `t`, would begin inside `n` levels of it. Each symbol
that takes operands and each group is a level; what stands complete before the place is no deeper. -/
inductive OperandExceeds (t : Token) : Nat → List Token → Prop
  | here : OperandExceeds t 0 []
  | group {n : Nat} {before : List Token} {opening : Fence} :
      SequenceExceeds t n before →
      OperandExceeds t (n + 1) (.symbol (.opening opening) :: before)
  | unary {n : Nat} {before : List Token} {f : Unary} :
      OperandExceeds t n before → OperandExceeds t (n + 1) (.symbol (.unary f) :: before)
  | first {n : Nat} {before : List Token} {f : Binary} :
      OperandExceeds t n before → OperandExceeds t (n + 1) (.symbol (.binary f) :: before)
  | second {n : Nat} {before : List Token} {f : Binary} {first : OperandSyntax} :
      first.operand.levels ≤ n → OperandExceeds t n before →
      OperandExceeds t (n + 1) (.symbol (.binary f) :: (first.tokens ++ before))
  | color {n : Nat} {before : List Token} {name : String} :
      OperandExceeds t n before →
      OperandExceeds t (n + 1) (.symbol .color :: .text name :: before)

/-- A script stands on the level of its base. -/
inductive TermExceeds (t : Token) : Nat → List Token → Prop
  | base {n : Nat} {before : List Token} : OperandExceeds t n before → TermExceeds t n before
  | script {n : Nat} {before : List Token} {base : OperandSyntax} {side : ScriptSide} :
      base.operand.levels ≤ n → OperandExceeds t n before →
      TermExceeds t n (base.tokens ++ side.token :: before)
  | secondScript {n : Nat} {before : List Token} {base first : OperandSyntax} {side : ScriptSide} :
      base.operand.levels ≤ n → first.operand.levels ≤ n → OperandExceeds t n before →
      TermExceeds t n (base.tokens ++ side.token :: (first.tokens ++ side.other.token :: before))

/-- A denominator is a level. -/
inductive RatioExceeds (t : Token) : Nat → List Token → Prop
  | numerator {n : Nat} {before : List Token} : TermExceeds t n before → RatioExceeds t n before
  | denominator {n : Nat} {before : List Token} {numerator : TermSyntax} :
      numerator.term.levels ≤ n + 1 → RatioExceeds t n before →
      RatioExceeds t (n + 1) (numerator.tokens ++ .symbol .slash :: before)

/-- The next token must not end the sequence. -/
inductive SequenceExceeds (t : Token) : Nat → List Token → Prop
  | head {n : Nat} {before : List Token} :
      ¬NoOperand (before ++ [t]) → RatioExceeds t n before → SequenceExceeds t n before
  | tail {n : Nat} {before : List Token} {first : RatioSyntax} :
      first.ratio.levels ≤ n → SequenceExceeds t n before →
      SequenceExceeds t n (first.tokens ++ before)

end

/-! ## Readers that tell the limit -/

/-- The fault tells the limit on the nesting, at a lexeme behind such tokens. -/
def LimitsAt (exceeds : Token → List Token → Prop) (fault : Fault) (lexemes : List Lexeme) : Prop :=
  ∃ before lexeme after, Spells before lexemes (lexeme :: after) ∧
    fault = ⟨.nestingLimit, lexeme.span⟩ ∧ exceeds lexeme.token before

/-- Where the reader fails for neither the order of the tokens nor a bracket, it tells the limit. -/
def Limiting {α : Type} (exceeds : Token → List Token → Prop) (reader : Reader α) : Prop :=
  ∀ lexemes fault, Readable lexemes → reader lexemes = .error fault →
    ¬fault.cause.ConcernsOrder → fault.cause ≠ .unbalancedBracket → LimitsAt exceeds fault lexemes

variable {exceeds exceeds' : Token → List Token → Prop} {fault : Fault}

/-- The first token alone tells whether a sequence ends. -/
theorem noOperand_append_cons (before : List Token) (t : Token) (after : List Token) :
    NoOperand (before ++ t :: after) ↔ NoOperand (before ++ [t]) := by
  cases before <;> exact Iff.rfl

theorem endsSequence_iff : endsSequence lexemes = true ↔ NoOperand (lexemes.map (·.token)) := by
  refine ⟨fun h => ?_, endsSequence_eq_true⟩
  cases lexemes with
  | nil => exact noOperand_nil
  | cons lexeme rest =>
    intro t ht
    rw [List.map_cons, List.head?_cons, Option.some.injEq] at ht
    subst ht
    rw [endsSequence] at h
    split at h
    · rename_i hend
      exact .inl hend
    · rename_i fence hclosing
      exact .inr ⟨fence, hclosing⟩
    · cases h

/-- Where the lexemes start with such tokens, the sequence does not end there. -/
theorem endsSequence_of_spells {after : List Lexeme} (hs : Spells before lexemes (lexeme :: after)) :
    endsSequence lexemes = true ↔ NoOperand (before ++ [lexeme.token]) := by
  rw [endsSequence_iff, hs.map_token, List.map_cons, noOperand_append_cons]

theorem LimitsAt.behind (h : LimitsAt exceeds fault rest) (hs : Spells tokens lexemes rest)
    (hexceeds : ∀ t before, exceeds t before → exceeds' t (tokens ++ before)) :
    LimitsAt exceeds' fault lexemes := by
  obtain ⟨before, lexeme, after, hbefore, hfault, hlimit⟩ := h
  exact ⟨tokens ++ before, lexeme, after, hs.append hbefore, hfault, hexceeds _ _ hlimit⟩

/-- Without a level left, every lexeme is one too deep. -/
theorem LimitsAt.here (hr : Readable lexemes) (hexceeds : ∀ t, exceeds t []) :
    LimitsAt exceeds ⟨.nestingLimit, (nextLexeme finish lexemes).1.span⟩ lexemes := by
  obtain ⟨lexeme, rest, rfl⟩ := hr.eq_cons
  exact ⟨[], lexeme, rest, .nil _, rfl, hexceeds _⟩

theorem concernsOrder_missingCause (t : Token) : (missingCause t).ConcernsOrder := by
  cases t with
  | endOfInput => exact .inr (.inr rfl)
  | _ => exact .inl rfl

theorem readTerm_limiting {operand : Reader Operand} (hs : SoundOperand n operand)
    (hh : Limiting (OperandExceeds · n) operand) :
    Limiting (TermExceeds · n) (readTerm operand) := by
  intro lexemes fault hr h hc hb
  unfold readTerm at h
  split at h
  · rename_i hbase
    cases h
    exact (hh _ _ hr hbase hc hb).behind (.nil lexemes) fun _ _ => .base
  rename_i base l1 hbase
  obtain ⟨db, sb, rfl, lb⟩ := hs _ _ _ hbase
  obtain ⟨-, r1⟩ := hr.behind_operand sb
  split at h
  · cases h
  rename_i side span l2 hsign
  have ssign := scriptSign_eq_some hsign
  have r2 := r1.behind_sign ssign
  have s2 := sb.append ssign
  split at h
  · rename_i hfirst
    cases h
    refine (hh _ _ r2 hfirst hc hb).behind s2 fun t before hexceeds => ?_
    rw [← List.append_cons]
    exact .script lb hexceeds
  rename_i first l3 hfirst
  obtain ⟨df, sf, rfl, lf⟩ := hs _ _ _ hfirst
  obtain ⟨-, r3⟩ := r2.behind_operand sf
  split at h
  · cases h
  rename_i side' span' l4 hsign'
  split at h
  · cases h
    exact absurd (.inr (.inl rfl)) hc
  rename_i hne
  have hother : side' = side.other := by
    cases side <;> cases side' <;> first | rfl | exact absurd rfl hne
  subst hother
  have ssign' := scriptSign_eq_some hsign'
  split at h
  · rename_i hsecond
    cases h
    have s4 := sb.append (ssign.append (sf.append ssign'))
    refine (hh _ _ (r3.behind_sign ssign') hsecond hc hb).behind s4 fun t before hexceeds => ?_
    simp only [List.append_assoc, List.cons_append, List.nil_append]
    exact .secondScript lb lf hexceeds
  split at h
  · cases h
  · cases h
    exact absurd (.inr (.inl rfl)) hc

theorem readRatio_limiting {operand : Reader Operand} {denominator : Reader Ratio}
    (hs : SoundOperand (n + 1) operand) (hh : Limiting (OperandExceeds · (n + 1)) operand)
    (hd : Limiting (RatioExceeds · n) denominator) :
    Limiting (RatioExceeds · (n + 1)) (readRatio operand denominator) := by
  intro lexemes fault hr h hc hb
  unfold readRatio at h
  split at h
  · rename_i hnumerator
    cases h
    exact (readTerm_limiting hs hh _ _ hr hnumerator hc hb).behind (.nil lexemes)
      fun _ _ => .numerator
  rename_i numerator l1 hnumerator
  obtain ⟨dn, sn, rfl, ln⟩ := readTerm_sound hs hnumerator
  obtain ⟨-, r1⟩ := hr.behind_term sn
  split at h
  · cases h
  rename_i l2 hslash
  have sslash := afterSlash?_eq_some hslash
  have r2 := r1.of_spells sslash (by simp)
  split at h
  · rename_i hbelow
    cases h
    refine (hd _ _ r2 hbelow hc hb).behind (sn.append sslash) fun t before hexceeds => ?_
    rw [← List.append_cons]
    exact .denominator ln hexceeds
  · cases h

/-- The induction is on the budget. -/
theorem sequenceWithin_limiting {ratio : Reader Ratio} (hs : SoundRatio n ratio)
    (hh : Limiting (RatioExceeds · n) ratio) :
    ∀ budget : Nat, Limiting (SequenceExceeds · n) (sequenceWithin ratio budget)
  | 0, lexemes, fault, _, h, _, _ => by cases h
  | budget + 1, lexemes, fault, hr, h, hc, hb => by
    rw [sequenceWithin] at h
    split at h
    · cases h
    rename_i hend
    split at h
    · rename_i hfirst
      cases h
      obtain ⟨before, lexeme, after, hbefore, hfault, hexceeds⟩ := hh _ _ hr hfirst hc hb
      rw [endsSequence_of_spells hbefore] at hend
      exact ⟨before, lexeme, after, hbefore, hfault, .head hend hexceeds⟩
    rename_i first l1 hfirst
    obtain ⟨d, sd, rfl, ld⟩ := hs _ _ _ hfirst
    obtain ⟨-, r1⟩ := hr.behind_ratio sd
    split at h
    · rename_i hothers
      cases h
      exact (sequenceWithin_limiting hs hh budget _ _ r1 hothers hc hb).behind sd
        fun _ _ => .tail ld
    · cases h

theorem readSequence_limiting {ratio : Reader Ratio} (hs : SoundRatio n ratio)
    (hh : Limiting (RatioExceeds · n) ratio) :
    Limiting (SequenceExceeds · n) (readSequence ratio) :=
  fun lexemes => sequenceWithin_limiting hs hh lexemes.length lexemes

theorem readGroup_limiting {inner : Level} (hs : SoundRatio n inner.ratio)
    (hh : Limiting (RatioExceeds · n) inner.ratio) {opening : Fence} :
    Limiting (SequenceExceeds · n) (readGroup finish inner opening) := by
  intro lexemes fault hr h hc hb
  unfold readGroup at h
  split at h
  · rename_i hcontent
    cases h
    exact readSequence_limiting hs hh _ _ hr hcontent hc hb
  · dsimp only at h
    split at h
    · cases h
    · cases h
      exact absurd rfl hb

/-- A verbatim text that is missing is a matter of the order of the tokens. -/
theorem concernsOrder_of_readVerbatim (hr : Readable lexemes)
    (h : readVerbatim finish lexemes = .error fault) : fault.cause.ConcernsOrder := by
  obtain ⟨lexeme, after, -, -, rfl⟩ := readVerbatim_eq_error hr h
  exact concernsOrder_missingCause lexeme.token

theorem readSymbol_limiting {inner : Level} (hf : finish.token = .endOfInput)
    (hso : SoundOperand n inner.operand) (hsr : SoundRatio n inner.ratio)
    (hho : Limiting (OperandExceeds · n) inner.operand)
    (hhr : Limiting (RatioExceeds · n) inner.ratio) {symbol : Symbol}
    (ht : lexeme.token = .symbol symbol) (hr : Readable (lexeme :: rest))
    (h : readSymbol finish inner symbol lexeme.span rest = .error fault)
    (hc : ¬fault.cause.ConcernsOrder) (hb : fault.cause ≠ .unbalancedBracket) :
    LimitsAt (OperandExceeds · (n + 1)) fault (lexeme :: rest) := by
  have st : Spells [.symbol symbol] (lexeme :: rest) rest := .one ht rest
  have r1 : Readable rest := hr.of_spells st (by simp)
  cases symbol with
  | sign s => cases h
  | opening fence =>
    exact (readGroup_limiting hsr hhr _ _ r1 h hc hb).behind st fun _ _ => .group
  | closing fence => cases h; exact absurd (.inl rfl) hc
  | superscript => cases h; exact absurd (.inl rfl) hc
  | subscript => cases h; exact absurd (.inl rfl) hc
  | slash => cases h; exact absurd (.inl rfl) hc
  | unary f =>
    rw [readSymbol] at h
    split at h
    · rename_i hoperand
      cases h
      exact (hho _ _ r1 hoperand hc hb).behind st fun _ _ => .unary
    · cases h
  | binary f =>
    rw [readSymbol] at h
    split at h
    · rename_i hfirst
      cases h
      exact (hho _ _ r1 hfirst hc hb).behind st fun _ _ => .first
    rename_i first l1 hfirst
    obtain ⟨df, sf, rfl, lf⟩ := hso _ _ _ hfirst
    obtain ⟨-, r2⟩ := r1.behind_operand sf
    split at h
    · rename_i hsecond
      cases h
      exact (hho _ _ r2 hsecond hc hb).behind (st.append sf) fun _ _ => .second lf
    · cases h
  | text =>
    rw [readSymbol] at h
    split at h
    · rename_i hcontent
      cases h
      exact absurd (concernsOrder_of_readVerbatim r1 hcontent) hc
    · cases h
  | color =>
    rw [readSymbol] at h
    split at h
    · rename_i hname
      cases h
      exact absurd (concernsOrder_of_readVerbatim r1 hname) hc
    rename_i name l1 hname
    have sn := readVerbatim_sound hf hname
    split at h
    · rename_i hoperand
      cases h
      exact (hho _ _ (r1.of_spells sn (by simp)) hoperand hc hb).behind (st.append sn)
        fun _ _ => .color
    · cases h

theorem readOperand_limiting {inner : Level} (hf : finish.token = .endOfInput)
    (hso : SoundOperand n inner.operand) (hsr : SoundRatio n inner.ratio)
    (hho : Limiting (OperandExceeds · n) inner.operand)
    (hhr : Limiting (RatioExceeds · n) inner.ratio) :
    Limiting (OperandExceeds · (n + 1)) (readOperand finish inner) := by
  intro lexemes fault hr h hc hb
  obtain ⟨lexeme, rest, rfl⟩ := hr.eq_cons
  unfold readOperand at h
  dsimp only [nextLexeme] at h
  split at h
  · cases h
    exact absurd (.inr (.inr rfl)) hc
  · cases h
  · cases h
  · cases h
  · rename_i symbol ht
    exact readSymbol_limiting hf hso hsr hho hhr ht hr h hc hb

/-- **What a reader fails for besides the order of the tokens and the brackets is the limit**, at every
level, and it is told where a token begins one level too deep. -/
theorem Level.limiting_ofNat (hf : finish.token = .endOfInput) : ∀ n,
    Limiting (OperandExceeds · n) (ofNat finish n).operand ∧
      Limiting (RatioExceeds · n) (ofNat finish n).ratio
  | 0 => by
    constructor
    · intro lexemes fault hr h _ _
      cases h
      exact .here hr fun _ => .here
    · intro lexemes fault hr h _ _
      cases h
      exact .here hr fun _ => .numerator (.base .here)
  | n + 1 => by
    obtain ⟨hso, hsr⟩ := sound_ofNat hf n
    obtain ⟨hho, hhr⟩ := limiting_ofNat hf n
    have ho := readOperand_limiting hf hso hsr hho hhr
    exact ⟨ho, readRatio_limiting (readOperand_sound hf hso hsr) ho hhr⟩

/-! ## Where a token begins too deep, the limit is told -/

/-- The tokens start like an operand. -/
def BeginsOperand (tokens : List Token) : Prop :=
  ∃ first rest, tokens = first :: rest ∧ first.startsOperand = true

theorem BeginsOperand.append (h : BeginsOperand tokens) (more : List Token) :
    BeginsOperand (tokens ++ more) := by
  obtain ⟨first, rest, rfl, hfirst⟩ := h
  exact ⟨first, rest ++ more, rfl, hfirst⟩

theorem BeginsOperand.of_spells (h : BeginsOperand tokens) (hs : Spells tokens lexemes rest) :
    NoScript (lexemes.map (·.token)) ∧ NoSlash (lexemes.map (·.token)) ∧
      endsSequence lexemes = false := by
  obtain ⟨first, more, rfl, hfirst⟩ := h
  obtain ⟨lexeme, middle, rfl, rfl, -⟩ := hs.of_cons
  exact ⟨noScript_of_startsOperand hfirst _, noSlash_of_startsOperand hfirst _,
    endsSequence_eq_false hfirst⟩

/-- With a level left, a token stands before the place. -/
theorem OperandExceeds.begins (h : OperandExceeds t n before) (hn : 0 < n) :
    BeginsOperand before := by
  cases h with
  | here => cases hn
  | group _ => exact ⟨_, _, rfl, rfl⟩
  | unary _ => exact ⟨_, _, rfl, rfl⟩
  | first _ => exact ⟨_, _, rfl, rfl⟩
  | second _ _ => exact ⟨_, _, rfl, rfl⟩
  | color _ => exact ⟨_, _, rfl, rfl⟩

theorem TermExceeds.begins (h : TermExceeds t n before) (hn : 0 < n) : BeginsOperand before := by
  cases h with
  | base h => exact h.begins hn
  | script _ _ => exact BeginsOperand.append (OperandSyntax.tokens_eq_cons _) _
  | secondScript _ _ _ => exact BeginsOperand.append (OperandSyntax.tokens_eq_cons _) _

theorem RatioExceeds.begins (h : RatioExceeds t n before) (hn : 0 < n) : BeginsOperand before := by
  cases h with
  | numerator h => exact h.begins hn
  | denominator _ _ => exact BeginsOperand.append (TermSyntax.tokens_eq_cons _) _

theorem SequenceExceeds.begins (h : SequenceExceeds t n before) (hn : 0 < n) :
    BeginsOperand before := by
  cases h with
  | head _ h => exact h.begins hn
  | tail _ _ => exact BeginsOperand.append (RatioSyntax.tokens_eq_cons _) _

/-- Without a level left, the place is where the ratio begins. -/
theorem RatioExceeds.eq_nil (h : RatioExceeds t 0 before) : before = [] := by
  cases h with
  | numerator h =>
    cases h with
    | base h =>
      cases h
      rfl
    | @script _ _ base _ hbase _ =>
      have := base.operand.levels_pos
      omega
    | @secondScript _ _ base _ _ hbase _ _ =>
      have := base.operand.levels_pos
      omega

/-- The reader tells the limit at a lexeme behind such tokens. -/
def Limited {α : Type} (exceeds : Token → List Token → Prop) (reader : Reader α) : Prop :=
  ∀ before lexemes lexeme after, Spells before lexemes (lexeme :: after) →
    exceeds lexeme.token before → reader lexemes = .error ⟨.nestingLimit, lexeme.span⟩

theorem readTerm_limited {operand : Reader Operand} (hcomplete : CompleteOperand n operand)
    (hlimited : Limited (OperandExceeds · n) operand) :
    Limited (TermExceeds · n) (readTerm operand) := by
  intro before lexemes lexeme after hs hexceeds
  unfold readTerm
  cases hexceeds with
  | base h => rw [hlimited _ _ _ _ hs h]
  | @script _ before base side hbase h =>
    obtain ⟨l1, sbase, hs⟩ := hs.of_append
    obtain ⟨sign, l2, rfl, hsign, hs⟩ := hs.of_cons
    rw [hcomplete base _ _ sbase hbase]
    dsimp only
    rw [scriptSign_cons hsign]
    dsimp only
    rw [hlimited _ _ _ _ hs h]
  | @secondScript _ before base first side hbase hfirst h =>
    obtain ⟨l1, sbase, hs⟩ := hs.of_append
    obtain ⟨sign, l2, rfl, hsign, hs⟩ := hs.of_cons
    obtain ⟨l3, sfirst, hs⟩ := hs.of_append
    obtain ⟨sign', l4, rfl, hsign', hs⟩ := hs.of_cons
    have hne : side.other ≠ side := by cases side <;> simp [ScriptSide.other]
    rw [hcomplete base _ _ sbase hbase]
    dsimp only
    rw [scriptSign_cons hsign]
    dsimp only
    rw [hcomplete first _ _ sfirst hfirst]
    dsimp only
    rw [scriptSign_cons hsign']
    dsimp only
    rw [if_neg hne, hlimited _ _ _ _ hs h]

theorem readRatio_limited {operand : Reader Operand} {denominator : Reader Ratio}
    (hcomplete : CompleteOperand (n + 1) operand)
    (hlimited : Limited (OperandExceeds · (n + 1)) operand)
    (hdenominator : Limited (RatioExceeds · n) denominator) :
    Limited (RatioExceeds · (n + 1)) (readRatio operand denominator) := by
  intro before lexemes lexeme after hs hexceeds
  unfold readRatio
  cases hexceeds with
  | numerator h => rw [readTerm_limited hcomplete hlimited _ _ _ _ hs h]
  | @denominator _ before numerator hnumerator h =>
    obtain ⟨l1, snumerator, hs⟩ := hs.of_append
    obtain ⟨slash, l2, rfl, hslash, hs⟩ := hs.of_cons
    have hscript : NoScript ((slash :: l2).map (·.token)) := by
      rw [List.map_cons, hslash]
      exact noScript_slash _
    rw [readTerm_complete hcomplete numerator snumerator hnumerator hscript]
    dsimp only
    rw [afterSlash?_cons hslash]
    dsimp only
    rw [hdenominator _ _ _ _ hs h]

/-- The induction is on the budget. -/
theorem sequenceWithin_limited {ratio : Reader Ratio} (hcomplete : CompleteRatio n ratio)
    (hlimited : Limited (RatioExceeds · n) ratio) : ∀ (budget : Nat) {before lexemes after},
      lexemes.length ≤ budget → Spells before lexemes (lexeme :: after) →
      SequenceExceeds lexeme.token n before →
      sequenceWithin ratio budget lexemes = .error ⟨.nestingLimit, lexeme.span⟩
  | 0, before, lexemes, after, hbudget, hs, _ => by
    have := hs.length_eq
    rw [List.length_cons] at this
    omega
  | budget + 1, before, lexemes, after, hbudget, hs, hexceeds => by
    rw [sequenceWithin]
    cases hexceeds with
    | head hends h =>
      rw [← endsSequence_of_spells hs] at hends
      rw [if_neg hends, hlimited _ _ _ _ hs h]
    | @tail _ before first hfirst h =>
      -- the first ratio takes a level, so that a token stands between it and the place
      have hpos := Nat.lt_of_lt_of_le first.ratio.levels_pos hfirst
      obtain ⟨l1, sfirst, hs⟩ := hs.of_append
      have hfirstBegins : BeginsOperand first.tokens := first.tokens_eq_cons
      obtain ⟨-, -, hend⟩ := hfirstBegins.of_spells sfirst
      obtain ⟨hscript, hslash, -⟩ := (h.begins hpos).of_spells hs
      have hbudget' : l1.length ≤ budget := by
        obtain ⟨t, more, htokens, -⟩ := hfirstBegins
        have hlength := sfirst.length_eq
        rw [htokens, List.length_cons] at hlength
        omega
      rw [hend, if_neg Bool.false_ne_true, hcomplete first _ _ sfirst hfirst hscript hslash]
      dsimp only
      rw [sequenceWithin_limited hcomplete hlimited budget hbudget' hs h]

theorem readSequence_limited {ratio : Reader Ratio} (hcomplete : CompleteRatio n ratio)
    (hlimited : Limited (RatioExceeds · n) ratio) :
    Limited (SequenceExceeds · n) (readSequence ratio) :=
  fun _ _ _ _ hs h => sequenceWithin_limited hcomplete hlimited _ (Nat.le_refl _) hs h

theorem readOperand_limited (finish : Lexeme) {inner : Level}
    (hcomplete : CompleteOperand n inner.operand)
    (hcompleteRatio : CompleteRatio n inner.ratio)
    (hoperand : Limited (OperandExceeds · n) inner.operand)
    (hratio : Limited (RatioExceeds · n) inner.ratio) :
    Limited (OperandExceeds · (n + 1)) (readOperand finish inner) := by
  intro before lexemes lexeme after hs hexceeds
  unfold readOperand
  cases hexceeds with
  | group h =>
    obtain ⟨opening, l1, rfl, ht, hs⟩ := hs.of_cons
    dsimp only [nextLexeme]
    rw [ht]
    dsimp only [readSymbol, readGroup]
    rw [readSequence_limited hcompleteRatio hratio _ _ _ _ hs h]
  | unary h =>
    obtain ⟨symbol, l1, rfl, ht, hs⟩ := hs.of_cons
    dsimp only [nextLexeme]
    rw [ht]
    dsimp only [readSymbol]
    rw [hoperand _ _ _ _ hs h]
  | first h =>
    obtain ⟨symbol, l1, rfl, ht, hs⟩ := hs.of_cons
    dsimp only [nextLexeme]
    rw [ht]
    dsimp only [readSymbol]
    rw [hoperand _ _ _ _ hs h]
  | @second _ before f first hfirst h =>
    obtain ⟨symbol, l1, rfl, ht, hs⟩ := hs.of_cons
    obtain ⟨l2, sfirst, hs⟩ := hs.of_append
    dsimp only [nextLexeme]
    rw [ht]
    dsimp only [readSymbol]
    rw [hcomplete first _ _ sfirst hfirst]
    dsimp only
    rw [hoperand _ _ _ _ hs h]
  | color h =>
    obtain ⟨symbol, l1, rfl, ht, hs⟩ := hs.of_cons
    obtain ⟨name, l2, rfl, hname, hs⟩ := hs.of_cons
    dsimp only [nextLexeme]
    rw [ht]
    dsimp only [readSymbol]
    rw [readVerbatim_complete hname]
    dsimp only
    rw [hoperand _ _ _ _ hs h]

/-- **Where a token begins one level too deep, the readers tell the limit**, at every level. -/
theorem Level.limited_ofNat (finish : Lexeme) : ∀ n,
    Limited (OperandExceeds · n) (ofNat finish n).operand ∧
      Limited (RatioExceeds · n) (ofNat finish n).ratio
  | 0 => by
    constructor
    · intro before lexemes lexeme after hs h
      cases h
      obtain rfl := hs.of_nil
      rfl
    · intro before lexemes lexeme after hs h
      obtain rfl := h.eq_nil
      obtain rfl := hs.of_nil
      rfl
  | n + 1 => by
    obtain ⟨hcomplete, hcompleteRatio⟩ := complete_ofNat finish n
    obtain ⟨hoperand, hratio⟩ := limited_ofNat finish n
    have ho := readOperand_limited finish hcomplete hcompleteRatio hoperand hratio
    exact ⟨ho, readRatio_limited (complete_ofNat finish (n + 1)).1 ho hratio⟩

/-! ## Whole expressions -/

/-- **The limit on the nesting is told exactly where a token begins one level too deep.** After the
bracket check, what an expression fails for besides the order of its tokens is the limit. -/
theorem readExpression_limit_iff (h : Sealed lexemes) (hcheck : checkBrackets lexemes = .ok ())
    (fault : Fault) :
    readExpression n lexemes = .error fault ∧ ¬fault.cause.ConcernsOrder ↔
      LimitsAt (SequenceExceeds · n) fault lexemes := by
  have hf : (finishOf lexemes).token = .endOfInput := rfl
  have hratio := (Level.limiting_ofNat hf n).2
  constructor
  · rintro ⟨hread, hc⟩
    have hb := readExpression_cause_ne h hcheck hread
    obtain hsequence | ⟨e, rest, -, -, rfl⟩ := readWith_eq_error_iff.1 hread
    · exact readSequence_limiting (Level.sound_ofNat hf n).2 hratio _ _ (h.readable hcheck)
        hsequence hc hb
    · exact absurd rfl hb
  · rintro ⟨before, lexeme, after, hs, rfl, hexceeds⟩
    have hlimited := (Level.limited_ofNat (finishOf lexemes) n).2
    constructor
    · exact readWith_of_error
        (readSequence_limited (Level.complete_ofNat _ n).2 hlimited _ _ _ _ hs hexceeds)
    · rintro (hc | hc | hc) <;> cases hc

end MathMarkup.Formula
