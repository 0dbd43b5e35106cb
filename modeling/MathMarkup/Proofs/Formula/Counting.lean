import MathMarkup.Proofs.Formula.Readers

/-!
# What the counting machine reads

The machine reads what the readers with the levels that are left read, and keeps its counts.

* `Steady` — what holds of the states before and after a part was read: the depth is what it was, and in
  between it was never above the limit.
* `Counts` — a reader of the machine that follows a reader, at a depth.

Principal results: `Counts.bind` — what follows step by step follows as a whole;
`CountingLevel.counts_unrolled` — at every depth the machine follows the readers with as many levels left
as there are up to the limit; `Routine.counts` — so does every function of the parser;
`parseFrom_eq` — and the parser, from every depth on.
-/

namespace MathMarkup.Formula

variable {α β : Type} {finish : Lexeme} {limit depth k l : Nat}

/-! ## States -/

/-- From one state to another, the depth is what it was, the greatest depth did not go above the limit,
and whatever symbol was read has as many operands as it takes. -/
structure Steady (limit : Nat) (before after : Progress) : Prop where
  depth_eq : after.depth = before.depth
  deepest_ge : before.deepest ≤ after.deepest
  deepest_le : after.deepest ≤ limit
  tallies : ∀ tally ∈ after.tallies, tally ∈ before.tallies ∨ tally.2 = tally.1.arity

namespace Steady

variable {before middle after : Progress}

theorem refl (h : before.deepest ≤ limit) : Steady limit before before :=
  ⟨rfl, Nat.le_refl _, h, fun _ => .inl⟩

theorem trans (h : Steady limit before middle) (h' : Steady limit middle after) :
    Steady limit before after := by
  refine ⟨h'.depth_eq.trans h.depth_eq, Nat.le_trans h.deepest_ge h'.deepest_ge, h'.deepest_le, ?_⟩
  intro tally ht
  exact (h'.tallies tally ht).elim (h.tallies tally) .inr

/-- The lexemes and the operands that were read do not matter. -/
theorem withCount {lexemes : List Lexeme} {n : Nat}
    (h : Steady limit { before with lexemes := lexemes, operandsRead := n } after) :
    Steady limit before after :=
  ⟨h.depth_eq, h.deepest_ge, h.deepest_le, h.tallies⟩

/-- Back from one level deeper. -/
theorem leave (h : Steady limit before.enter after) : Steady limit before after.leave := by
  refine ⟨?_, Nat.le_trans (Nat.le_max_left _ _) h.deepest_ge, h.deepest_le, h.tallies⟩
  rw [Progress.leave, h.depth_eq]
  exact Nat.add_sub_cancel _ 1

/-- A symbol was read with all that it takes. -/
theorem tally (h : Steady limit before after) {symbol : Symbol} {n : Nat} (hn : n = symbol.arity)
    (outer : Nat) :
    Steady limit before
      { after with operandsRead := outer, tallies := (symbol, n) :: after.tallies } :=
  ⟨h.depth_eq, h.deepest_ge, h.deepest_le, List.forall_mem_cons.2 ⟨.inr hn, h.tallies⟩⟩

/-- The count goes on where it was before the symbol. -/
theorem resume (h : Steady limit before after) (outer : Nat) :
    Steady limit before { after with operandsRead := outer } :=
  ⟨h.depth_eq, h.deepest_ge, h.deepest_le, h.tallies⟩

end Steady

/-! ## Following a reader -/

/-- The machine is through with what the reader found. Where nothing is wrong it counted `k` operands. -/
def Follows (limit k : Nat) (before : Progress) (found : Except Fault (α × List Lexeme)) :
    EStateM.Result Fault Progress α → Prop
  | .ok value after =>
    found = .ok (value, after.lexemes) ∧ after.operandsRead = before.operandsRead + k ∧
      Steady limit before after
  | .error fault after => found = .error fault ∧ Steady limit before after

/-- At a depth the machine reads what the reader reads, and counts `k` operands. -/
def Counts (limit depth k : Nat) (count : CountingReader α) (read : Reader α) : Prop :=
  ∀ before : Progress, before.deepest ≤ limit → before.depth = depth →
    Follows limit k before (read before.lexemes) (count before)

theorem Follows.outcome_eq {before : Progress} {found : Except Fault (α × List Lexeme)}
    {result : EStateM.Result Fault Progress α} (h : Follows limit k before found result) :
    outcome result = found := by
  cases result with
  | ok value after => exact h.1.symm
  | error fault after => exact h.1.symm

theorem Follows.steady {before : Progress} {found : Except Fault (α × List Lexeme)}
    {result : EStateM.Result Fault Progress α} (h : Follows limit k before found result) :
    Steady limit before (finalState result) := by
  cases result with
  | ok value after => exact h.2.2
  | error fault after => exact h.2

/-- The lexemes from which the reading started do not matter. -/
theorem Follows.withLexemes {before : Progress} {lexemes : List Lexeme}
    {found : Except Fault (α × List Lexeme)} {result : EStateM.Result Fault Progress α}
    (h : Follows limit k { before with lexemes := lexemes } found result) :
    Follows limit k before found result := by
  cases result with
  | ok value after => exact ⟨h.1, h.2.1, h.2.2.withCount⟩
  | error fault after => exact ⟨h.1, h.2.withCount⟩

namespace CountingReader

variable {count : CountingReader α} {next : α → CountingReader β} {before middle : Progress}

theorem bind_ok {value : α} (h : count before = .ok value middle) :
    (count >>= next) before = next value middle := by
  show EStateM.bind count next before = _
  rw [EStateM.bind, h]

theorem bind_error {fault : Fault} (h : count before = .error fault middle) :
    (count >>= next) before = .error fault middle := by
  show EStateM.bind count next before = _
  rw [EStateM.bind, h]

end CountingReader

namespace Counts

variable {count : CountingReader α} {read : Reader α} {next : α → CountingReader β}
  {readNext : α → Reader β}

theorem pure (value : α) :
    Counts limit depth 0 (Pure.pure value) fun lexemes => .ok (value, lexemes) :=
  fun _ hdeepest _ => ⟨rfl, rfl, .refl hdeepest⟩

theorem throw (fault : Fault) :
    Counts limit depth k (MonadExcept.throw fault : CountingReader α) fun _ => .error fault :=
  fun _ hdeepest _ => ⟨rfl, .refl hdeepest⟩

/-- **What follows step by step follows as a whole.** -/
theorem bind (h : Counts limit depth k count read)
    (hnext : ∀ value, Counts limit depth l (next value) (readNext value)) :
    Counts limit depth (k + l) (count >>= next) (read.bind readNext) := by
  intro before hdeepest hdepth
  have hfirst := h before hdeepest hdepth
  cases hcount : count before with
  | error fault middle =>
    rw [hcount] at hfirst
    obtain ⟨hread, hsteady⟩ := hfirst
    rw [CountingReader.bind_error hcount, Reader.bind_error hread]
    exact ⟨rfl, hsteady⟩
  | ok value middle =>
    rw [hcount] at hfirst
    obtain ⟨hread, hoperands, hsteady⟩ := hfirst
    rw [CountingReader.bind_ok hcount, Reader.bind_ok hread]
    have hsecond := hnext value middle hsteady.deepest_le (hsteady.depth_eq.trans hdepth)
    cases hafter : next value middle with
    | error fault after =>
      rw [hafter] at hsecond
      obtain ⟨hread', hsteady'⟩ := hsecond
      exact ⟨hread', hsteady.trans hsteady'⟩
    | ok result after =>
      rw [hafter] at hsecond
      obtain ⟨hread', hoperands', hsteady'⟩ := hsecond
      exact ⟨hread', by rw [hoperands', hoperands, Nat.add_assoc], hsteady.trans hsteady'⟩

/-- What fails, fails whatever would be read next. -/
theorem bind_of_error {fault : List Lexeme → Fault}
    (h : Counts limit depth k count fun lexemes => .error (fault lexemes)) :
    Counts limit depth k (count >>= next) fun lexemes => .error (fault lexemes) := by
  intro before hdeepest hdepth
  have hfirst := h before hdeepest hdepth
  dsimp only at hfirst ⊢
  cases hcount : count before with
  | error fault middle =>
    rw [hcount] at hfirst
    rw [CountingReader.bind_error hcount]
    exact ⟨congrArg Except.error (Except.error.inj hfirst.1), hfirst.2⟩
  | ok value middle =>
    rw [hcount] at hfirst
    cases hfirst.1

/-- Behind a lexeme that was taken. -/
theorem take_bind {next : Lexeme → CountingReader β} {readNext : Lexeme → Reader β}
    (h : ∀ lexeme, Counts limit depth k (next lexeme) (readNext lexeme)) :
    Counts limit depth k (CountingReader.take finish >>= next) (Reader.behind finish readNext) :=
  fun before hdeepest hdepth =>
    (h _ { before with lexemes := (nextLexeme finish before.lexemes).2 } hdeepest hdepth).withLexemes

theorem countOperand_bind (h : Counts limit depth k count read) :
    Counts limit depth (k + 1) (CountingReader.countOperand >>= fun _ => count) read := by
  intro before hdeepest hdepth
  have hcount := h { before with operandsRead := before.operandsRead + 1 } hdeepest hdepth
  show Follows limit (k + 1) before (read before.lexemes)
    (count { before with operandsRead := before.operandsRead + 1 })
  cases hafter : count { before with operandsRead := before.operandsRead + 1 } with
  | error fault after =>
    rw [hafter] at hcount
    exact ⟨hcount.1, hcount.2.withCount⟩
  | ok value after =>
    rw [hafter] at hcount
    obtain ⟨hread, hoperands, hsteady⟩ := hcount
    exact ⟨hread, by rw [hoperands, Nat.add_right_comm, Nat.add_assoc], hsteady.withCount⟩

/-- One level deeper, the depth comes back to where it was, however the reading ends. -/
theorem nested (span : Span) (hlt : depth < limit) (h : Counts limit (depth + 1) k count read) :
    Counts limit depth k (CountingReader.nested limit span count) read := by
  intro before hdeepest hdepth
  subst hdepth
  unfold CountingReader.nested
  rw [if_neg (Nat.not_le.2 hlt)]
  have hcount := h before.enter (Nat.max_le.2 ⟨hdeepest, hlt⟩) rfl
  cases hafter : count before.enter with
  | error fault after =>
    rw [hafter] at hcount
    exact ⟨hcount.1, hcount.2.leave⟩
  | ok value after =>
    rw [hafter] at hcount
    obtain ⟨hread, hoperands, hsteady⟩ := hcount
    exact ⟨hread, hoperands, hsteady.leave⟩

theorem nested_limit (span : Span) :
    Counts limit limit k (CountingReader.nested limit span count) fun _ =>
      .error ⟨.nestingLimit, span⟩ := by
  intro before hdeepest hdepth
  unfold CountingReader.nested
  rw [if_pos (Nat.le_of_eq hdepth.symm)]
  exact ⟨rfl, .refl hdeepest⟩

/-- The operands of a symbol are not counted for the symbol around it. -/
theorem tallied {symbol : Symbol} (h : Counts limit depth symbol.arity count read) :
    Counts limit depth 0 (CountingReader.tallied symbol count) read := by
  intro before hdeepest hdepth
  have hcount := h { before with operandsRead := 0 } hdeepest hdepth
  unfold CountingReader.tallied
  cases hafter : count { before with operandsRead := 0 } with
  | error fault after =>
    rw [hafter] at hcount
    obtain ⟨hread, hsteady⟩ := hcount
    exact ⟨hread, hsteady.withCount.resume _⟩
  | ok value after =>
    rw [hafter] at hcount
    obtain ⟨hread, hoperands, hsteady⟩ := hcount
    exact ⟨hread, rfl, hsteady.withCount.tally (hoperands.trans (Nat.zero_add _)) _⟩

end Counts

/-! ## The functions of the parser -/

section Routines

variable {operand : CountingReader Operand} {operand' : Reader Operand}
  {ratio : CountingReader Ratio} {ratio' : Reader Ratio}

theorem counts_sequenceWithin (h : Counts limit depth 0 ratio ratio') :
    ∀ budget, Counts limit depth 0 (CountingReader.sequenceWithin ratio budget)
      (sequenceWithin ratio' budget)
  | 0 => Counts.pure []
  | budget + 1 => by
    rw [sequenceWithin_succ]
    intro before hdeepest hdepth
    show Follows limit 0 before _
      ((if endsSequence before.lexemes then pure [] else _ : CountingReader Expression) before)
    dsimp only
    by_cases hends : endsSequence before.lexemes = true
    · rw [if_pos hends, if_pos hends]
      exact Counts.pure [] before hdeepest hdepth
    · rw [if_neg hends, if_neg hends]
      have hrest : ∀ first, Counts limit depth 0
          (do
            let others ← CountingReader.sequenceWithin ratio budget
            pure (first :: others))
          ((sequenceWithin ratio' budget).bind fun others lexemes => .ok (first :: others, lexemes)) :=
        fun first => (counts_sequenceWithin h budget).bind fun others => Counts.pure (first :: others)
      exact h.bind hrest before hdeepest hdepth

theorem counts_sequence (h : Counts limit depth 0 ratio ratio') :
    Counts limit depth 0 (CountingReader.sequence ratio) (readSequence ratio') :=
  fun before hdeepest hdepth => counts_sequenceWithin h before.lexemes.length before hdeepest hdepth

/-- Behind a sign for a script, if there is one. -/
theorem counts_takeScriptSign_bind {count : Option (ScriptSide × Span) → CountingReader α}
    {read : Reader α} {readNext : ScriptSide → Span → Reader α}
    (hnone : Counts limit depth k (count none) read)
    (hsome : ∀ side span, Counts limit depth k (count (some (side, span))) (readNext side span)) :
    Counts limit depth k (CountingReader.takeScriptSign >>= count) fun lexemes =>
      match scriptSign lexemes with
      | none => read lexemes
      | some (side, span, lexemes) => readNext side span lexemes := by
  intro before hdeepest hdepth
  dsimp only
  cases hsign : scriptSign before.lexemes with
  | none =>
    have hcount : CountingReader.takeScriptSign before = .ok none before := by
      rw [CountingReader.takeScriptSign, hsign]
    rw [CountingReader.bind_ok hcount]
    exact hnone before hdeepest hdepth
  | some sign =>
    obtain ⟨side, span, rest⟩ := sign
    have hcount : CountingReader.takeScriptSign before =
        .ok (some (side, span)) { before with lexemes := rest } := by
      rw [CountingReader.takeScriptSign, hsign]
    rw [CountingReader.bind_ok hcount]
    exact (hsome side span { before with lexemes := rest } hdeepest hdepth).withLexemes

theorem counts_term (h : Counts limit depth 0 operand operand') :
    Counts limit depth 0 (CountingReader.term operand) (readTerm operand') := by
  rw [readTerm_eq]
  refine h.bind (l := 0) fun base => ?_
  refine counts_takeScriptSign_bind (Counts.pure _) fun side span => ?_
  refine h.bind (l := 0) fun first => ?_
  refine counts_takeScriptSign_bind (Counts.pure _) fun otherSide span => ?_
  by_cases hside : otherSide = side
  · simp only [if_pos hside]
    exact Counts.throw _
  simp only [if_neg hside]
  refine h.bind (l := 0) fun second => ?_
  exact counts_takeScriptSign_bind (Counts.pure _) fun _ span => Counts.throw _

/-- Behind a slash, if there is one. -/
theorem counts_takeSlash_bind {count : Option Span → CountingReader α} {read readNext : Reader α}
    (hnone : Counts limit depth k (count none) read)
    (hsome : ∀ span, Counts limit depth k (count (some span)) readNext) :
    Counts limit depth k (CountingReader.takeSlash finish >>= count) fun lexemes =>
      match afterSlash? lexemes with
      | none => read lexemes
      | some lexemes => readNext lexemes := by
  intro before hdeepest hdepth
  dsimp only
  cases hslash : afterSlash? before.lexemes with
  | none =>
    have hcount : CountingReader.takeSlash finish before = .ok none before := by
      rw [CountingReader.takeSlash, hslash]
    rw [CountingReader.bind_ok hcount]
    exact hnone before hdeepest hdepth
  | some rest =>
    have hcount : CountingReader.takeSlash finish before =
        .ok (some (nextLexeme finish before.lexemes).1.span) { before with lexemes := rest } := by
      rw [CountingReader.takeSlash, hslash]
    rw [CountingReader.bind_ok hcount]
    exact (hsome _ { before with lexemes := rest } hdeepest hdepth).withLexemes

/-- A denominator is read where the numerator was one, so above the limit. -/
theorem counts_ratio (hlt : depth < limit) (ho : Counts limit depth 0 operand operand')
    (hr : Counts limit (depth + 1) 0 ratio ratio') :
    Counts limit depth 0 (CountingReader.ratio finish limit operand ratio)
      (readRatio operand' ratio') := by
  rw [readRatio_eq]
  refine (counts_term ho).bind (l := 0) fun numerator => ?_
  refine counts_takeSlash_bind (Counts.pure _) fun span => ?_
  exact (Counts.nested span hlt hr).bind (l := 0) fun below => Counts.pure _

theorem counts_verbatim :
    Counts limit depth 1 (CountingReader.verbatim finish) (readVerbatim finish) := by
  rw [readVerbatim_eq]
  refine Counts.take_bind fun lexeme => ?_
  cases lexeme.token with
  | text content => exact Counts.countOperand_bind (Counts.pure content)
  | _ => exact Counts.throw _

theorem counts_group {level : Level} (h : Counts limit depth 0 ratio level.ratio) (opening : Fence) :
    Counts limit depth 0 (CountingReader.group finish ratio opening)
      (readGroup finish level opening) := by
  rw [readGroup_eq]
  refine (counts_sequence h).bind (l := 0) fun content => ?_
  refine Counts.take_bind fun lexeme => ?_
  cases lexeme.token with
  | symbol s =>
    cases s with
    | closing closing => exact Counts.pure _
    | _ => exact Counts.throw _
  | _ => exact Counts.throw _

theorem counts_whole (h : Counts limit depth 0 ratio ratio') :
    Counts limit depth 0 (CountingReader.whole finish ratio) (readWhole finish ratio') := by
  rw [readWhole_eq]
  refine (counts_sequence h).bind (l := 0) fun expression => ?_
  refine Counts.take_bind fun lexeme => ?_
  cases lexeme.token with
  | endOfInput => exact Counts.pure _
  | _ => exact Counts.throw _

theorem counts_counted (h : Counts limit depth 0 operand operand') :
    Counts limit depth 1 (CountingReader.counted operand) operand' := by
  rw [← Reader.bind_pure operand']
  exact h.bind (l := 1) fun value => Counts.countOperand_bind (Counts.pure value)

end Routines

/-! ## Levels -/

/-- The machine reads operands and ratios as the readers of a level do. -/
structure CountingLevel.Counts (limit depth : Nat) (count : CountingLevel) (level : Level) : Prop where
  operand : Formula.Counts limit depth 0 count.operand level.operand
  ratio : Formula.Counts limit depth 0 count.ratio level.ratio

section Levels

variable {inner : CountingLevel} {inner' : Level}

/-- **A symbol is counted as many operands as it takes.** -/
theorem counts_symbol (h : inner.Counts limit depth inner') (symbol : Symbol) (span : Span) :
    Counts limit depth symbol.arity (inner.symbol finish symbol span)
      (readSymbol finish inner' symbol span) := by
  cases symbol with
  | sign s => exact Counts.pure _
  | opening fence => exact counts_group h.ratio fence
  | closing fence => exact Counts.throw _
  | superscript => exact Counts.throw _
  | subscript => exact Counts.throw _
  | slash => exact Counts.throw _
  | unary f =>
    rw [readSymbol_unary]
    exact (counts_counted h.operand).bind (l := 0) fun operand => Counts.pure _
  | binary f =>
    rw [readSymbol_binary]
    refine (counts_counted h.operand).bind (l := 1) fun first => ?_
    exact (counts_counted h.operand).bind (l := 0) fun second => Counts.pure _
  | text =>
    rw [readSymbol_text]
    exact counts_verbatim.bind (l := 0) fun content => Counts.pure _
  | color =>
    rw [readSymbol_color]
    refine counts_verbatim.bind (l := 1) fun name => ?_
    exact (counts_counted h.operand).bind (l := 0) fun operand => Counts.pure _

theorem counts_token (h : inner.Counts limit depth inner') (lexeme : Lexeme) :
    Counts limit depth 0 (inner.token finish lexeme) fun lexemes =>
      readOperand finish inner' (lexeme :: lexemes) := by
  unfold CountingLevel.token readOperand
  dsimp only [nextLexeme]
  cases lexeme.token with
  | endOfInput => exact Counts.throw _
  | number digits => exact Counts.pure _
  | letter c => exact Counts.pure _
  | text content => exact Counts.pure _
  | symbol s => exact Counts.tallied (counts_symbol h s lexeme.span)

/-- With a level left, an operand is read on it. -/
theorem counts_simple (hlt : depth < limit) (h : inner.Counts limit (depth + 1) inner') :
    Counts limit depth 0 (inner.simple finish limit) (readOperand finish inner') := by
  rw [readOperand_eq]
  exact Counts.take_bind fun lexeme => Counts.nested lexeme.span hlt (counts_token h lexeme)

/-- Without a level left, every lexeme is one too deep. -/
theorem counts_simple_limit (inner : CountingLevel) :
    Counts limit limit 0 (inner.simple finish limit) (Level.exhausted finish).operand := by
  show Counts limit limit 0 _ (Reader.behind finish fun lexeme _ => .error ⟨.nestingLimit, lexeme.span⟩)
  exact Counts.take_bind fun lexeme => Counts.nested_limit lexeme.span

namespace CountingLevel

/-- **At every depth the machine reads what the readers with the levels up to the limit read.** -/
theorem counts_unrolled (finish : Lexeme) (innermost : CountingLevel) :
    ∀ n depth, depth ≤ limit → limit < depth + n →
      (unrolled finish limit innermost n).Counts limit depth (Level.ofNat finish (limit - depth))
  | 0, depth, hle, hlt => by omega
  | n + 1, depth, hle, hlt => by
    rcases Nat.lt_or_eq_of_le hle with hless | rfl
    · have ih := counts_unrolled finish innermost n (depth + 1) hless (by omega)
      have hlevel : limit - depth = limit - (depth + 1) + 1 := by omega
      rw [hlevel]
      have hoperand : Formula.Counts limit depth 0 _ (readOperand finish _) := counts_simple hless ih
      exact ⟨hoperand, counts_ratio hless hoperand ih.ratio⟩
    · rw [Nat.sub_self]
      have hoperand : Formula.Counts depth depth 0 _ (Level.exhausted finish).operand :=
        counts_simple_limit (unrolled finish depth innermost n)
      exact ⟨hoperand, hoperand.bind_of_error.bind_of_error⟩

end CountingLevel

/-- **Every function of the parser follows its reader**, and counts the operands that are due. -/
theorem Routine.counts (h : inner.Counts limit depth inner') (routine : Routine α) :
    Counts limit depth routine.operands (routine.run finish inner) (routine.read finish inner') := by
  cases routine with
  | whole => exact counts_whole h.ratio
  | sequence => exact counts_sequence h.ratio
  | ratio => exact h.ratio
  | term => exact counts_term h.operand
  | simple => exact h.operand
  | operand => exact counts_counted h.operand
  | token lexeme => exact counts_token h lexeme
  | symbol s span => exact counts_symbol h s span
  | verbatim => exact counts_verbatim
  | group opening => exact counts_group h.ratio opening

/-- In the machine, a function of the parser follows its reader with the levels up to the limit. -/
theorem Routine.counts_machine (finish : Lexeme) (innermost : CountingLevel)
    (h : depth ≤ nestingLimit) (routine : Routine α) :
    Counts nestingLimit depth routine.operands (routine.run finish (machine finish innermost))
      (routine.read finish (Level.ofNat finish (nestingLimit - depth))) :=
  routine.counts (CountingLevel.counts_unrolled finish innermost (nestingLimit + 1) depth h (by omega))

/-- What comes of a run depends on the lexemes and the depth. -/
theorem Routine.outcome_run (finish : Lexeme) (innermost : CountingLevel) (routine : Routine α)
    {before : Progress} (hdepth : before.depth ≤ nestingLimit)
    (hdeepest : before.deepest ≤ nestingLimit) :
    outcome (routine.run finish (machine finish innermost) before) =
      routine.read finish (Level.ofNat finish (nestingLimit - before.depth)) before.lexemes :=
  (routine.counts_machine finish innermost hdepth before hdeepest rfl).outcome_eq

end Levels

/-- **From every depth on the parser of the machine reads with the levels that are left.** -/
theorem parseFrom_eq (innermost : CountingLevel) (h : depth ≤ nestingLimit) (lexemes : List Lexeme) :
    parseFrom innermost depth lexemes =
      parseWith (Level.ofNat (finishOf lexemes) (nestingLimit - depth)) lexemes := by
  unfold parseFrom parseWith readWith
  cases checkBrackets lexemes with
  | error fault => rfl
  | ok _ =>
    have hstart : (Progress.start depth lexemes).depth ≤ nestingLimit := h
    exact congrArg (Except.map Prod.fst) (Routine.outcome_run _ _ _ hstart h)

end MathMarkup.Formula
