import MathMarkup.Proofs.Formula.NestingLimit

/-!
# The operands of symbols are counted

The machine has one count for all symbols. It starts from zero at a symbol and goes on, behind what the
symbol takes, where it was before.

* `Operand.symbols` and its like — the symbols in what was read.
* `Records` — a reader of the machine that tallies the symbols in what it reads.

Principal results: `CountingLevel.records_unrolled` — at every depth the readers of the machine do so;
`operandsRead_simple` — an operand leaves the count of the symbol around it as it was;
`tallies_eq_arity` — every symbol that is read is counted as many operands as it takes.
-/

namespace MathMarkup.Formula

variable {α β : Type} {finish : Lexeme} {limit depth : Nat}

/-! ## The symbols of an expression -/

def Leaf.symbols : Leaf → List Symbol
  | sign s => [.sign s]
  | _ => []

mutual

/-- The symbols in an operand. Of a group it is the opening bracket that takes the content. -/
def Operand.symbols : Operand → List Symbol
  | .leaf l => l.symbols
  | .words _ => [.text]
  | .group opening _ content => .opening opening :: expressionSymbols content
  | .unary f operand => .unary f :: operand.symbols
  | .binary f first second => .binary f :: (first.symbols ++ second.symbols)
  | .color _ operand => .color :: operand.symbols

/-- The symbols in a base and its scripts. The signs of the scripts take nothing. -/
def Term.symbols : Term → List Symbol
  | .bare base => base.symbols
  | .sub base script => base.symbols ++ script.symbols
  | .sup base script => base.symbols ++ script.symbols
  | .subSup base lower upper => base.symbols ++ (lower.symbols ++ upper.symbols)

def Ratio.symbols : Ratio → List Symbol
  | .term t => t.symbols
  | .divided numerator denominator => numerator.symbols ++ denominator.symbols

def expressionSymbols : List Ratio → List Symbol
  | [] => []
  | q :: rest => q.symbols ++ expressionSymbols rest

end

theorem Term.symbols_withScript (base script : Operand) (side : ScriptSide) :
    (Term.withScript base script side).symbols = base.symbols ++ script.symbols := by
  cases side <;> rw [withScript, symbols]

/-- Which of two scripts was written first is not kept. -/
theorem Term.symbols_withScripts (base first second : Operand) (side : ScriptSide) :
    (base.symbols ++ first.symbols ++ second.symbols).Perm
      (Term.withScripts base first second side).symbols := by
  cases side with
  | lower => rw [withScripts, symbols, List.append_assoc]
  | upper =>
    rw [withScripts, symbols, List.append_assoc]
    exact List.perm_append_comm.append_left _

/-! ## Readers that tally -/

/-- At a depth, a reader tallies what it reads, of which `earlier` was tallied before. -/
def Records (depth : Nat) (earlier : List Symbol) (symbols : α → List Symbol)
    (count : CountingReader α) : Prop :=
  ∀ before value after, before.depth = depth → count before = .ok value after →
    after.depth = depth ∧ ∃ added, after.tallies.map Prod.fst = added ++ before.tallies.map Prod.fst ∧
      (earlier ++ added).Perm (symbols value)

namespace Records

variable {earlier : List Symbol} {symbols : α → List Symbol} {symbols' : β → List Symbol}
  {count : CountingReader α} {next : α → CountingReader β}

theorem pure {value : α} (h : earlier.Perm (symbols value)) :
    Records depth earlier symbols (Pure.pure value) := by
  rintro before _ _ hdepth ⟨⟩
  exact ⟨hdepth, [], rfl, by rwa [List.append_nil]⟩

theorem throw (fault : Fault) :
    Records depth earlier symbols (MonadExcept.throw fault : CountingReader α) := by
  rintro before _ _ - ⟨⟩

/-- **What tallies step by step tallies as a whole.** -/
theorem bind (h : Records depth [] symbols count)
    (hnext : ∀ value, Records depth (earlier ++ symbols value) symbols' (next value)) :
    Records depth earlier symbols' (count >>= next) := by
  intro before result after hdepth hrun
  cases hcount : count before with
  | error fault middle =>
    rw [CountingReader.bind_error hcount] at hrun
    cases hrun
  | ok value middle =>
    rw [CountingReader.bind_ok hcount] at hrun
    obtain ⟨hdepth', first, hfirst, hperm⟩ := h before value middle hdepth hcount
    obtain ⟨hdepth'', second, hsecond, hperm'⟩ := hnext value middle result after hdepth' hrun
    refine ⟨hdepth'', second ++ first, by rw [hsecond, hfirst, List.append_assoc], ?_⟩
    have hswap : (earlier ++ (second ++ first)).Perm (earlier ++ symbols value ++ second) := by
      rw [List.append_assoc]
      exact (List.perm_append_comm.trans (hperm.append_right _)).append_left _
    exact hswap.trans hperm'

/-- The lexemes and the operands that were read make no difference. -/
theorem of_tallies (step : Progress → Progress) (h : Records depth earlier symbols count)
    (hdepth : ∀ before, (step before).depth = before.depth)
    (htallies : ∀ before, (step before).tallies = before.tallies) :
    Records depth earlier symbols fun before => count (step before) := by
  intro before value after hbefore hrun
  obtain ⟨hafter, hadded⟩ := h (step before) value after ((hdepth before).trans hbefore) hrun
  rw [htallies] at hadded
  exact ⟨hafter, hadded⟩

theorem take_bind {next : Lexeme → CountingReader α}
    (h : ∀ lexeme, Records depth earlier symbols (next lexeme)) :
    Records depth earlier symbols (CountingReader.take finish >>= next) :=
  fun before => (h _).of_tallies (fun before =>
    { before with lexemes := (nextLexeme finish before.lexemes).2 }) (fun _ => rfl) (fun _ => rfl) before

theorem countOperand_bind (h : Records depth earlier symbols count) :
    Records depth earlier symbols (CountingReader.countOperand >>= fun _ => count) :=
  h.of_tallies (fun before => { before with operandsRead := before.operandsRead + 1 })
    (fun _ => rfl) fun _ => rfl

theorem takeScriptSign_bind {next : Option (ScriptSide × Span) → CountingReader α}
    (h : ∀ sign, Records depth earlier symbols (next sign)) :
    Records depth earlier symbols (CountingReader.takeScriptSign >>= next) := by
  intro before value after hdepth hrun
  cases hsign : scriptSign before.lexemes with
  | none =>
    have hcount : CountingReader.takeScriptSign before = .ok none before := by
      rw [CountingReader.takeScriptSign, hsign]
    rw [CountingReader.bind_ok hcount] at hrun
    exact h none before value after hdepth hrun
  | some sign =>
    have hcount : CountingReader.takeScriptSign before =
        .ok (some (sign.1, sign.2.1)) { before with lexemes := sign.2.2 } := by
      rw [CountingReader.takeScriptSign, hsign]
    rw [CountingReader.bind_ok hcount] at hrun
    exact h _ { before with lexemes := sign.2.2 } value after hdepth hrun

theorem takeSlash_bind {next : Option Span → CountingReader α}
    (h : ∀ slash, Records depth earlier symbols (next slash)) :
    Records depth earlier symbols (CountingReader.takeSlash finish >>= next) := by
  intro before value after hdepth hrun
  cases hslash : afterSlash? before.lexemes with
  | none =>
    have hcount : CountingReader.takeSlash finish before = .ok none before := by
      rw [CountingReader.takeSlash, hslash]
    rw [CountingReader.bind_ok hcount] at hrun
    exact h none before value after hdepth hrun
  | some rest =>
    have hcount : CountingReader.takeSlash finish before =
        .ok (some (nextLexeme finish before.lexemes).1.span) { before with lexemes := rest } := by
      rw [CountingReader.takeSlash, hslash]
    rw [CountingReader.bind_ok hcount] at hrun
    exact h _ { before with lexemes := rest } value after hdepth hrun

/-- A level deeper the same is tallied. -/
theorem nested (span : Span) (h : depth < limit → Records (depth + 1) earlier symbols count) :
    Records depth earlier symbols (CountingReader.nested limit span count) := by
  rintro before value after rfl hrun
  unfold CountingReader.nested at hrun
  split at hrun
  · cases hrun
  rename_i hlimit
  cases hcount : count before.enter with
  | error fault inner =>
    rw [hcount] at hrun
    cases hrun
  | ok result inner =>
    rw [hcount] at hrun
    cases hrun
    obtain ⟨hdepth, hadded⟩ := h (Nat.not_le.1 hlimit) before.enter value inner rfl hcount
    refine ⟨?_, hadded⟩
    show inner.depth - 1 = before.depth
    rw [hdepth, Nat.add_sub_cancel]

/-- A symbol is tallied behind what it takes. -/
theorem tallied {symbol : Symbol} (h : Records depth [symbol] symbols count) :
    Records depth [] symbols (CountingReader.tallied symbol count) := by
  intro before value after hdepth hrun
  unfold CountingReader.tallied at hrun
  cases hcount : count { before with operandsRead := 0 } with
  | error fault inner =>
    rw [hcount] at hrun
    cases hrun
  | ok result inner =>
    rw [hcount] at hrun
    cases hrun
    obtain ⟨hdepth', added, hadded, hperm⟩ := h { before with operandsRead := 0 } value inner hdepth hcount
    exact ⟨hdepth', symbol :: added, congrArg (symbol :: ·) hadded, hperm⟩

end Records

/-! ## The functions of the parser -/

section Routines

variable {operand : CountingReader Operand} {ratio : CountingReader Ratio}

theorem records_sequenceWithin (h : Records depth [] Ratio.symbols ratio) :
    ∀ budget, Records depth [] expressionSymbols (CountingReader.sequenceWithin ratio budget)
  | 0 => .pure (by rw [expressionSymbols])
  | budget + 1 => by
    intro before value after hdepth hrun
    have hrun' : (if endsSequence before.lexemes then pure [] else _ : CountingReader Expression) before =
        .ok value after := hrun
    by_cases hends : endsSequence before.lexemes = true
    · rw [if_pos hends] at hrun'
      have hnil : Records depth [] expressionSymbols (Pure.pure []) := .pure (by rw [expressionSymbols])
      exact hnil before value after hdepth hrun'
    · rw [if_neg hends] at hrun'
      have hboth : Records depth [] expressionSymbols
          (do
            let first ← ratio
            let others ← CountingReader.sequenceWithin ratio budget
            pure (first :: others)) :=
        h.bind fun first => (records_sequenceWithin h budget).bind fun others =>
          .pure (by rw [expressionSymbols, List.nil_append])
      exact hboth before value after hdepth hrun'

theorem records_sequence (h : Records depth [] Ratio.symbols ratio) :
    Records depth [] expressionSymbols (CountingReader.sequence ratio) :=
  fun before => records_sequenceWithin h before.lexemes.length before

theorem records_term (h : Records depth [] Operand.symbols operand) :
    Records depth [] Term.symbols (CountingReader.term operand) := by
  refine h.bind fun base => .takeScriptSign_bind fun sign => ?_
  cases sign with
  | none => exact .pure (by rw [Term.symbols, List.nil_append])
  | some sign =>
    refine h.bind fun first => .takeScriptSign_bind fun sign' => ?_
    cases sign' with
    | none => exact .pure (by rw [Term.symbols_withScript, List.nil_append])
    | some sign' =>
      dsimp only
      split
      · exact .throw _
      refine h.bind fun second => .takeScriptSign_bind fun sign'' => ?_
      cases sign'' with
      | none => exact .pure (Term.symbols_withScripts base first second sign.1)
      | some sign'' => exact .throw _

theorem records_ratio (h : Records depth [] Operand.symbols operand)
    (hbelow : depth < limit → Records (depth + 1) [] Ratio.symbols ratio) :
    Records depth [] Ratio.symbols (CountingReader.ratio finish limit operand ratio) := by
  refine (records_term h).bind fun numerator => .takeSlash_bind fun slash => ?_
  cases slash with
  | none => exact .pure (by rw [Ratio.symbols, List.nil_append])
  | some span =>
    exact (Records.nested span hbelow).bind fun below => .pure (by rw [Ratio.symbols, List.nil_append])

theorem records_verbatim : Records depth [] (fun _ => []) (CountingReader.verbatim finish) := by
  refine .take_bind fun lexeme => ?_
  cases lexeme.token with
  | text content => exact .countOperand_bind (.pure (.refl _))
  | _ => exact .throw _

theorem records_group (h : Records depth [] Ratio.symbols ratio) (opening : Fence) :
    Records depth [.opening opening] Operand.symbols (CountingReader.group finish ratio opening) := by
  refine (records_sequence h).bind fun content => .take_bind fun lexeme => ?_
  split
  · exact .pure (by rw [Operand.symbols, List.singleton_append])
  · exact .throw _

theorem records_counted (h : Records depth [] Operand.symbols operand) :
    Records depth [] Operand.symbols (CountingReader.counted operand) :=
  h.bind fun _ => .countOperand_bind (.pure (.refl _))

theorem records_whole (h : Records depth [] Ratio.symbols ratio) :
    Records depth [] expressionSymbols (CountingReader.whole finish ratio) := by
  refine (records_sequence h).bind fun expression => .take_bind fun lexeme => ?_
  split
  · exact .pure (.refl _)
  · exact .throw _

end Routines

/-! ## Levels -/

/-- The readers of a level tally what they read. -/
structure CountingLevel.Records (depth : Nat) (level : CountingLevel) : Prop where
  operand : Formula.Records depth [] Operand.symbols level.operand
  ratio : Formula.Records depth [] Ratio.symbols level.ratio

section Levels

variable {inner : CountingLevel}

theorem records_symbol (h : inner.Records depth) (symbol : Symbol) (span : Span) :
    Records depth [symbol] Operand.symbols (inner.symbol finish symbol span) := by
  cases symbol with
  | sign s => exact .pure (by rw [Operand.symbols, Leaf.symbols])
  | opening fence => exact records_group h.ratio fence
  | closing fence => exact .throw _
  | superscript => exact .throw _
  | subscript => exact .throw _
  | slash => exact .throw _
  | unary f => exact (records_counted h.operand).bind fun operand => .pure (by rw [Operand.symbols]; rfl)
  | binary f =>
    refine (records_counted h.operand).bind fun first => ?_
    exact (records_counted h.operand).bind fun second => .pure (by rw [Operand.symbols]; rfl)
  | text => exact records_verbatim.bind fun content => .pure (by rw [Operand.symbols]; rfl)
  | color =>
    refine records_verbatim.bind fun name => ?_
    exact (records_counted h.operand).bind fun operand => .pure (by rw [Operand.symbols]; rfl)

theorem records_token (h : inner.Records depth) (lexeme : Lexeme) :
    Records depth [] Operand.symbols (inner.token finish lexeme) := by
  unfold CountingLevel.token
  cases lexeme.token with
  | endOfInput => exact .throw _
  | number digits => exact .pure (by rw [Operand.symbols]; rfl)
  | letter c => exact .pure (by rw [Operand.symbols]; rfl)
  | text content => exact .pure (by rw [Operand.symbols]; rfl)
  | symbol s => exact .tallied (records_symbol h s lexeme.span)

theorem records_simple (h : depth < limit → inner.Records (depth + 1)) :
    Records depth [] Operand.symbols (inner.simple finish limit) :=
  .take_bind fun lexeme => .nested lexeme.span fun hlt => records_token (h hlt) lexeme

/-- **At every depth up to the limit the readers of the machine tally what they read.** -/
theorem CountingLevel.records_unrolled (finish : Lexeme) (innermost : CountingLevel) :
    ∀ n depth, depth ≤ limit → limit < depth + n → (unrolled finish limit innermost n).Records depth
  | 0, depth, hle, hlt => by omega
  | n + 1, depth, hle, hlt => by
    have ih : depth < limit → (unrolled finish limit innermost n).Records (depth + 1) :=
      fun hless => records_unrolled finish innermost n (depth + 1) hless (by omega)
    have hoperand : Formula.Records depth [] Operand.symbols
        ((unrolled finish limit innermost n).simple finish limit) := records_simple ih
    exact ⟨hoperand, records_ratio hoperand fun hless => (ih hless).ratio⟩

end Levels

/-! ## The count of the symbol around an operand -/

/-- **An operand leaves the count of the symbol around it as it was**, whether it is read to its end or
not. The count goes on only where the symbol itself takes the operand. -/
theorem operandsRead_simple (finish : Lexeme) (limit : Nat) (inner : CountingLevel) (before : Progress) :
    (finalState (inner.simple finish limit before)).operandsRead = before.operandsRead := by
  have htoken : ∀ (lexeme : Lexeme) (progress : Progress),
      (finalState (inner.token finish lexeme progress)).operandsRead = progress.operandsRead := by
    intro lexeme progress
    unfold CountingLevel.token
    cases lexeme.token with
    | symbol s =>
      dsimp only
      unfold CountingReader.tallied
      split <;> rfl
    | _ => rfl
  show (finalState (CountingReader.nested limit (nextLexeme finish before.lexemes).1.span
    (inner.token finish (nextLexeme finish before.lexemes).1)
    { before with lexemes := (nextLexeme finish before.lexemes).2 })).operandsRead = before.operandsRead
  unfold CountingReader.nested
  split
  · rfl
  have hinner := htoken (nextLexeme finish before.lexemes).1
    (Progress.enter { before with lexemes := (nextLexeme finish before.lexemes).2 })
  split
  · rename_i heq
    rw [heq] at hinner
    exact hinner
  · rename_i heq
    rw [heq] at hinner
    exact hinner

/-- The lexemes of a root of a root of a letter. -/
def nestedRootLexemes : List Lexeme :=
  ⟨.symbol (.unary .squareRoot), ⟨0, 4⟩⟩ ::
    rootLexemes.map fun lexeme => { lexeme with span := ⟨lexeme.span.start + 5, lexeme.span.stop + 5⟩ }

/-- **Every symbol is counted as many operands as it takes.** On whatever lexemes and from whatever state the
functions of the parser are run, each of them counts the operands that are due for the symbol around it,
and every symbol that is read whole on the way, at any depth and also in a run that fails later, is tallied
with as many operands as it takes. What an operand reads leaves the count of the symbol around it as it was.
Where the parser takes the lexemes, all symbols of the expression are tallied, each as often as it stands
there. -/
theorem tallies_eq_arity (innermost : CountingLevel) :
    (∀ (finish : Lexeme) (α : Type) (routine : Routine α) (before : Progress),
      before.depth ≤ nestingLimit → before.deepest ≤ nestingLimit →
      (∀ tally ∈ (finalState (routine.run finish (machine finish innermost) before)).tallies,
        tally ∈ before.tallies ∨ tally.2 = tally.1.arity) ∧
      ∀ value after, routine.run finish (machine finish innermost) before = .ok value after →
        after.operandsRead = before.operandsRead + routine.operands) ∧
    (∀ finish before,
      (finalState (Routine.simple.run finish (machine finish innermost) before)).operandsRead =
        before.operandsRead) ∧
    ∀ lexemes,
      (∀ tally ∈ (finalState (Routine.whole.run (finishOf lexemes)
          (machine (finishOf lexemes) innermost) (.start 0 lexemes))).tallies, tally.2 = tally.1.arity) ∧
      ∀ expression, parse lexemes = .ok expression →
        ∃ after, Routine.whole.run (finishOf lexemes) (machine (finishOf lexemes) innermost)
            (.start 0 lexemes) = .ok expression after ∧
          after.tallies.Perm ((expressionSymbols expression).map fun symbol => (symbol, symbol.arity)) := by
  have hcounts : ∀ (finish : Lexeme) (α : Type) (routine : Routine α) (before : Progress),
      before.depth ≤ nestingLimit → before.deepest ≤ nestingLimit →
      Follows nestingLimit routine.operands before
        (routine.read finish (Level.ofNat finish (nestingLimit - before.depth)) before.lexemes)
        (routine.run finish (machine finish innermost) before) :=
    fun finish α routine before hdepth hdeepest =>
      routine.counts_machine finish innermost hdepth before hdeepest rfl
  have hexact : ∀ lexemes, ∀ tally ∈ (finalState (Routine.whole.run (finishOf lexemes)
      (machine (finishOf lexemes) innermost) (.start 0 lexemes))).tallies, tally.2 = tally.1.arity := by
    intro lexemes tally htally
    have hsteady := (hcounts (finishOf lexemes) _ .whole (.start 0 lexemes) (Nat.zero_le _)
      (Nat.zero_le _)).steady
    exact (hsteady.tallies tally htally).resolve_left List.not_mem_nil
  refine ⟨fun finish α routine before hdepth hdeepest => ?_, fun finish before => ?_,
    fun lexemes => ⟨hexact lexemes, fun expression hparse => ?_⟩⟩
  · have hfollows := hcounts finish α routine before hdepth hdeepest
    refine ⟨hfollows.steady.tallies, fun value after hrun => ?_⟩
    rw [hrun] at hfollows
    exact hfollows.2.1
  · exact operandsRead_simple finish nestingLimit _ before
  · have houtcome : parseFrom innermost 0 lexemes = .ok expression := by
      rw [parseFrom_eq innermost (Nat.zero_le _), Nat.sub_zero, ← parse, hparse]
    unfold parseFrom at houtcome
    split at houtcome
    · cases houtcome
    dsimp only at houtcome
    cases hrun : Routine.whole.run (finishOf lexemes) (machine (finishOf lexemes) innermost)
        (.start 0 lexemes) with
    | error fault after =>
      rw [hrun] at houtcome
      cases houtcome
    | ok value after =>
      rw [hrun] at houtcome
      cases houtcome
      refine ⟨after, rfl, ?_⟩
      have hlevel : (CountingLevel.unrolled (finishOf lexemes) nestingLimit innermost
          (nestingLimit + 1)).Records 0 :=
        CountingLevel.records_unrolled _ innermost _ 0 (Nat.zero_le _) (by omega)
      have hwhole : Records 0 [] expressionSymbols
          (Routine.whole.run (finishOf lexemes) (machine (finishOf lexemes) innermost)) :=
        records_whole hlevel.ratio
      obtain ⟨-, added, hadded, hperm⟩ := hwhole _ _ _ rfl hrun
      have hall : after.tallies = (after.tallies.map Prod.fst).map fun symbol => (symbol, symbol.arity) := by
        rw [List.map_map]
        refine (List.map_id _).symm.trans (List.map_congr_left fun tally htally => Prod.ext rfl ?_)
        have htallied := hexact lexemes tally
        rw [hrun] at htallied
        exact htallied htally
      rw [hall, hadded]
      exact ((List.Perm.of_eq (List.append_nil added)).trans hperm).map _

/-- A root of a root takes one operand each time: the count of the inner root does not reach the outer. -/
theorem tallies_eq_arity_nested_root :
    parse nestedRootLexemes =
      .ok [.term (.bare (.unary .squareRoot (.unary .squareRoot (.leaf (.letter 'x')))))] ∧
    ∃ after, Routine.whole.run (finishOf nestedRootLexemes) (machine (finishOf nestedRootLexemes) .idle)
        (.start 0 nestedRootLexemes) =
          .ok [.term (.bare (.unary .squareRoot (.unary .squareRoot (.leaf (.letter 'x')))))] after ∧
      after.tallies.Perm [(.unary .squareRoot, 1), (.unary .squareRoot, 1)] := by
  have hparse : parse nestedRootLexemes =
      .ok [.term (.bare (.unary .squareRoot (.unary .squareRoot (.leaf (.letter 'x')))))] := rfl
  exact ⟨hparse, ((tallies_eq_arity .idle).2.2 nestedRootLexemes).2 _ hparse⟩

end MathMarkup.Formula
