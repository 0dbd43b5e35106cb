import MathMarkup.Proofs.Formula.Readers
import MathMarkup.Proofs.Formula.Soundness

/-!
# Readers with and without a limit

The readers with a number of levels left do what readers without a limit do, up to where they tell that
the nesting is too deep.

* `CutsOff` — a reader does what another one does, or tells that the nesting is too deep.
* `Takes` — on few lexemes a reader never tells so, and takes some of them.
* `Level.endless` — the readers that have as many levels as there are lexemes, and one more.

Principal results: `Level.cutsOff_ofNat` — with fewer levels left the readers cut off those with more;
`Level.around_eq_iff` — the readers that call themselves are those with more levels than lexemes, and
there are no others; `Level.cutsOff_endless` — the readers with any number of levels cut them off.
-/

namespace MathMarkup.Formula

variable {α β : Type} {finish : Lexeme} {m n k l : Nat}

/-- It is told that the nesting is too deep. -/
def ReportsLimit (found : Except Fault α) : Prop := ∃ span, found = .error ⟨.nestingLimit, span⟩

theorem not_reportsLimit_error {fault : Fault} (h : fault.cause ≠ .nestingLimit) :
    ¬ReportsLimit (.error fault : Except Fault α) := by
  rintro ⟨span, hspan⟩
  exact h (congrArg Fault.cause (Except.error.inj hspan))

theorem not_reportsLimit_ok (value : α) : ¬ReportsLimit (.ok value : Except Fault α) :=
  fun ⟨_, h⟩ => nomatch h

/-! ## Readers that are cut off -/

/-- The first reader does what the second does, or tells that the nesting is too deep. -/
def CutsOff (read read' : Reader α) : Prop :=
  ∀ lexemes, ReportsLimit (read lexemes) ∨ read lexemes = read' lexemes

namespace CutsOff

variable {read read' : Reader α} {next next' : α → Reader β}

theorem refl (read : Reader α) : CutsOff read read := fun _ => .inr rfl

theorem eq_of_not_reportsLimit (h : CutsOff read read') {lexemes : List Lexeme}
    (hnot : ¬ReportsLimit (read lexemes)) : read lexemes = read' lexemes :=
  (h lexemes).resolve_left hnot

theorem bind (h : CutsOff read read') (hnext : ∀ value, CutsOff (next value) (next' value)) :
    CutsOff (read.bind next) (read'.bind next') := by
  intro lexemes
  rcases h lexemes with ⟨span, hspan⟩ | hsame
  · rw [Reader.bind_error hspan]
    exact .inl ⟨span, rfl⟩
  cases hread : read lexemes with
  | error fault =>
    rw [Reader.bind_error hread, Reader.bind_error (hsame.symm.trans hread)]
    exact .inr rfl
  | ok found =>
    rw [Reader.bind_ok hread, Reader.bind_ok (hsame.symm.trans hread)]
    exact hnext _ _

theorem behind {next next' : Lexeme → Reader β} (h : ∀ lexeme, CutsOff (next lexeme) (next' lexeme)) :
    CutsOff (Reader.behind finish next) (Reader.behind finish next') :=
  fun _ => h _ _

end CutsOff

section Readers

variable {operand operand' : Reader Operand} {ratio ratio' : Reader Ratio}

theorem cutsOff_sequenceWithin (h : CutsOff ratio ratio') :
    ∀ budget, CutsOff (sequenceWithin ratio budget) (sequenceWithin ratio' budget)
  | 0 => CutsOff.refl _
  | budget + 1 => by
    rw [sequenceWithin_succ, sequenceWithin_succ]
    intro lexemes
    dsimp only
    split
    · exact .inr rfl
    · exact (h.bind fun _ => (cutsOff_sequenceWithin h budget).bind fun _ => .refl _) lexemes

theorem cutsOff_readSequence (h : CutsOff ratio ratio') :
    CutsOff (readSequence ratio) (readSequence ratio') :=
  fun lexemes => cutsOff_sequenceWithin h lexemes.length lexemes

theorem cutsOff_readTerm (h : CutsOff operand operand') :
    CutsOff (readTerm operand) (readTerm operand') := by
  rw [readTerm_eq, readTerm_eq]
  refine h.bind fun base lexemes => ?_
  cases scriptSign lexemes with
  | none => exact .inr rfl
  | some sign =>
    refine h.bind (fun first lexemes => ?_) sign.2.2
    cases scriptSign lexemes with
    | none => exact .inr rfl
    | some sign' =>
      dsimp only
      split
      · exact .inr rfl
      · exact h.bind (fun second => .refl _) sign'.2.2

theorem cutsOff_readRatio (ho : CutsOff operand operand') (hr : CutsOff ratio ratio') :
    CutsOff (readRatio operand ratio) (readRatio operand' ratio') := by
  rw [readRatio_eq, readRatio_eq]
  refine (cutsOff_readTerm ho).bind fun numerator lexemes => ?_
  cases afterSlash? lexemes with
  | none => exact .inr rfl
  | some lexemes => exact hr.bind (fun below => .refl _) lexemes

theorem cutsOff_readWhole (h : CutsOff ratio ratio') :
    CutsOff (readWhole finish ratio) (readWhole finish ratio') := by
  rw [readWhole_eq, readWhole_eq]
  exact (cutsOff_readSequence h).bind fun _ => .refl _

end Readers

/-- The readers of a level do what those of another one do, or tell that the nesting is too deep. -/
structure Level.CutsOff (level level' : Level) : Prop where
  operand : Formula.CutsOff level.operand level'.operand
  ratio : Formula.CutsOff level.ratio level'.ratio

section Levels

variable {inner inner' : Level}

theorem cutsOff_readGroup (h : inner.CutsOff inner') (opening : Fence) :
    CutsOff (readGroup finish inner opening) (readGroup finish inner' opening) := by
  rw [readGroup_eq, readGroup_eq]
  exact (cutsOff_readSequence h.ratio).bind fun _ => .refl _

theorem cutsOff_readSymbol (h : inner.CutsOff inner') (symbol : Symbol) (span : Span) :
    CutsOff (readSymbol finish inner symbol span) (readSymbol finish inner' symbol span) := by
  cases symbol with
  | opening fence => exact cutsOff_readGroup h fence
  | unary f =>
    rw [readSymbol_unary, readSymbol_unary]
    exact h.operand.bind fun _ => .refl _
  | binary f =>
    rw [readSymbol_binary, readSymbol_binary]
    exact h.operand.bind fun _ => h.operand.bind fun _ => .refl _
  | text =>
    rw [readSymbol_text, readSymbol_text]
    exact .refl _
  | color =>
    rw [readSymbol_color, readSymbol_color]
    exact (CutsOff.refl _).bind fun _ => h.operand.bind fun _ => .refl _
  | _ => exact .refl _

theorem cutsOff_readOperand (h : inner.CutsOff inner') :
    CutsOff (readOperand finish inner) (readOperand finish inner') := by
  intro lexemes
  unfold readOperand
  dsimp only
  split
  · exact .inr rfl
  · exact .inr rfl
  · exact .inr rfl
  · exact .inr rfl
  · exact cutsOff_readSymbol h _ _ _

/-- **Readers that use cut off readers are cut off.** -/
theorem Level.CutsOff.around (h : inner.CutsOff inner') :
    (Level.around finish inner).CutsOff (Level.around finish inner') :=
  ⟨cutsOff_readOperand h, cutsOff_readRatio (cutsOff_readOperand h) h.ratio⟩

/-- So is every function of the parser. -/
theorem Routine.cutsOff (h : inner.CutsOff inner') (routine : Routine α) :
    CutsOff (routine.read finish inner) (routine.read finish inner') := by
  cases routine with
  | whole => exact cutsOff_readWhole h.ratio
  | sequence => exact cutsOff_readSequence h.ratio
  | ratio => exact h.ratio
  | term => exact cutsOff_readTerm h.operand
  | simple => exact h.operand
  | operand => exact h.operand
  | token lexeme => exact fun lexemes => cutsOff_readOperand h (lexeme :: lexemes)
  | symbol s span => exact cutsOff_readSymbol h s span
  | verbatim => exact .refl _
  | group opening => exact cutsOff_readGroup h opening

namespace Level

theorem exhausted_cutsOff (level : Level) : (exhausted finish).CutsOff level :=
  ⟨fun _ => .inl ⟨_, rfl⟩, fun _ => .inl ⟨_, rfl⟩⟩

/-- **With fewer levels left, the readers cut off those with more.** -/
theorem cutsOff_ofNat : ∀ {n m : Nat}, n ≤ m → (ofNat finish n).CutsOff (ofNat finish m)
  | 0, _, _ => exhausted_cutsOff _
  | _ + 1, _ + 1, h => (cutsOff_ofNat (Nat.le_of_succ_le_succ h)).around

/-- The readers with any number of levels left cut off those that call themselves. -/
theorem cutsOff_of_around_eq {level : Level} (h : around finish level = level) :
    ∀ n, (ofNat finish n).CutsOff level
  | 0 => exhausted_cutsOff _
  | n + 1 => by
    rw [← h]
    exact (cutsOff_of_around_eq h n).around

end Level

end Levels

/-! ## Enough levels -/

/-- On fewer than `m` lexemes the reader never tells that the nesting is too deep, and takes `k` of them
at least. -/
def Takes (m k : Nat) (read : Reader α) : Prop :=
  ∀ lexemes, lexemes.length < m → ¬ReportsLimit (read lexemes) ∧
    ∀ value rest, read lexemes = .ok (value, rest) → rest.length + k ≤ lexemes.length

namespace Takes

variable {read : Reader α} {next : α → Reader β}

theorem mono (h : Takes m k read) (hm : n ≤ m) (hk : l ≤ k) : Takes n l read := by
  intro lexemes hlt
  obtain ⟨hreports, htakes⟩ := h lexemes (by omega)
  refine ⟨hreports, fun value rest hread => ?_⟩
  have := htakes value rest hread
  omega

theorem pure (value : α) : Takes m 0 fun lexemes => .ok (value, lexemes) := by
  intro lexemes _
  refine ⟨not_reportsLimit_ok _, fun value rest hread => ?_⟩
  cases hread
  exact Nat.le_refl _

theorem fail {fault : Fault} (h : fault.cause ≠ .nestingLimit) :
    Takes m k (fun _ => .error fault : Reader α) :=
  fun _ _ => ⟨not_reportsLimit_error h, fun _ _ hread => nomatch hread⟩

/-- What comes next finds fewer lexemes. -/
theorem bind (h : Takes m k read) (hnext : ∀ value, Takes (m - k) l (next value)) :
    Takes m (k + l) (read.bind next) := by
  intro lexemes hlt
  obtain ⟨hreports, htakes⟩ := h lexemes hlt
  cases hread : read lexemes with
  | error fault =>
    rw [Reader.bind_error hread]
    rw [hread] at hreports
    exact ⟨fun ⟨span, hspan⟩ => hreports ⟨span, congrArg Except.error (Except.error.inj hspan)⟩,
      fun _ _ hread' => nomatch hread'⟩
  | ok found =>
    rw [Reader.bind_ok hread]
    have hrest := htakes found.1 found.2 hread
    obtain ⟨hreports', htakes'⟩ := hnext found.1 found.2 (by omega)
    refine ⟨hreports', fun value rest hread' => ?_⟩
    have := htakes' value rest hread'
    omega

theorem behind {next : Lexeme → Reader β} (h : ∀ lexeme, Takes m k (next lexeme)) :
    Takes m k (Reader.behind finish next) := by
  intro lexemes hlt
  have hlength : (nextLexeme finish lexemes).2.length ≤ lexemes.length := by
    cases lexemes <;> simp [nextLexeme]
  obtain ⟨hreports, htakes⟩ := h (nextLexeme finish lexemes).1 _ (Nat.lt_of_le_of_lt hlength hlt)
  refine ⟨hreports, fun value rest hread => ?_⟩
  exact Nat.le_trans (htakes value rest hread) hlength

/-- Where the mark of the end is at fault, a lexeme was taken. -/
theorem behind_one {next : Lexeme → Reader β} (h : ∀ lexeme, Takes m k (next lexeme))
    (hend : ∃ fault : Fault, fault.cause ≠ .nestingLimit ∧ next finish [] = .error fault) :
    Takes (m + 1) (k + 1) (Reader.behind finish next) := by
  obtain ⟨fault, hcause, hfinish⟩ := hend
  intro lexemes hlt
  cases lexemes with
  | nil =>
    show ¬ReportsLimit (next finish []) ∧ ∀ value rest, next finish [] = .ok (value, rest) → _
    rw [hfinish]
    exact ⟨not_reportsLimit_error hcause, fun _ _ hread => nomatch hread⟩
  | cons lexeme rest =>
    rw [List.length_cons] at hlt
    obtain ⟨hreports, htakes⟩ := h lexeme rest (by omega)
    refine ⟨hreports, fun value rest' hread => ?_⟩
    have := htakes value rest' hread
    rw [List.length_cons]
    omega

end Takes

section Readers

variable {operand : Reader Operand} {ratio : Reader Ratio}

theorem takes_sequenceWithin (h : Takes m k ratio) :
    ∀ budget, Takes m 0 (sequenceWithin ratio budget)
  | 0 => Takes.pure _
  | budget + 1 => by
    rw [sequenceWithin_succ]
    intro lexemes hlt
    dsimp only
    split
    · exact Takes.pure _ lexemes hlt
    · have hratio : Takes m 0 ratio := h.mono (Nat.le_refl m) (Nat.zero_le k)
      exact (hratio.bind (l := 0) fun first => (takes_sequenceWithin h budget).bind (l := 0) fun others =>
        Takes.pure (first :: others)) lexemes hlt

theorem takes_readSequence (h : Takes m k ratio) : Takes m 0 (readSequence ratio) :=
  fun lexemes => takes_sequenceWithin h lexemes.length lexemes

/-- Behind a lexeme that was taken from the front. -/
theorem Takes.behind_spelled {read : Reader α} {lexemes rest : List Lexeme} {t : Token}
    (h : Takes m 0 read) (hs : Spells [t] lexemes rest) (hlt : lexemes.length < m) :
    ¬ReportsLimit (read rest) ∧
      ∀ value rest', read rest = .ok (value, rest') → rest'.length + 0 ≤ lexemes.length := by
  have hlength := hs.length_eq
  rw [List.length_singleton] at hlength
  obtain ⟨hreports, htakes⟩ := h rest (by omega)
  refine ⟨hreports, fun value rest' hread => ?_⟩
  have := htakes value rest' hread
  omega

theorem takes_scriptSign {read : Reader α} {readNext : ScriptSide → Span → Reader α}
    (hnone : Takes m 0 read) (hsome : ∀ side span, Takes m 0 (readNext side span)) :
    Takes m 0 fun lexemes =>
      match scriptSign lexemes with
      | none => read lexemes
      | some (side, span, lexemes) => readNext side span lexemes := by
  intro lexemes hlt
  dsimp only
  cases hsign : scriptSign lexemes with
  | none => exact hnone lexemes hlt
  | some sign => exact (hsome sign.1 sign.2.1).behind_spelled (scriptSign_eq_some hsign) hlt

theorem takes_readTerm (h : Takes m 1 operand) : Takes m 1 (readTerm operand) := by
  rw [readTerm_eq]
  have h' : Takes (m - 1) 0 operand := h.mono (Nat.sub_le m 1) (Nat.zero_le 1)
  refine h.bind (l := 0) fun base => ?_
  refine takes_scriptSign (Takes.pure _) fun side span => ?_
  refine h'.bind (l := 0) fun first => ?_
  refine takes_scriptSign (Takes.pure _) fun otherSide span => ?_
  by_cases hside : otherSide = side
  · simp only [if_pos hside]
    exact Takes.fail nofun
  simp only [if_neg hside]
  refine h'.bind (l := 0) fun second => ?_
  exact takes_scriptSign (Takes.pure _) fun _ span => Takes.fail nofun

/-- A denominator finds fewer lexemes than its ratio. -/
theorem takes_readRatio (ho : Takes (m + 1) 1 operand) (hr : Takes m 1 ratio) :
    Takes (m + 1) 1 (readRatio operand ratio) := by
  rw [readRatio_eq]
  refine (takes_readTerm ho).bind (l := 0) fun numerator lexemes hlt => ?_
  cases hslash : afterSlash? lexemes with
  | none => exact Takes.pure _ lexemes hlt
  | some rest =>
    have hratio : Takes m 0 ratio := hr.mono (Nat.le_refl m) (Nat.zero_le 1)
    have hbelow := hratio.bind (l := 0) fun below => Takes.pure (Ratio.divided numerator below)
    exact hbelow.behind_spelled (afterSlash?_eq_some hslash) hlt

theorem takes_readVerbatim : Takes m 0 (readVerbatim finish) := by
  rw [readVerbatim_eq]
  refine Takes.behind fun lexeme => ?_
  cases lexeme.token with
  | text content => exact Takes.pure content
  | _ => exact Takes.fail nofun

theorem takes_readWhole (h : Takes m k ratio) : Takes m 0 (readWhole finish ratio) := by
  rw [readWhole_eq]
  refine (takes_readSequence h).bind (l := 0) fun expression => ?_
  refine Takes.behind fun lexeme => ?_
  cases lexeme.token with
  | endOfInput => exact Takes.pure expression
  | _ => exact Takes.fail nofun

end Readers

/-- On fewer than `m` lexemes the readers of the level have enough levels, and take a lexeme. -/
structure Level.Takes (m : Nat) (level : Level) : Prop where
  operand : Formula.Takes m 1 level.operand
  ratio : Formula.Takes m 1 level.ratio

section Levels

variable {inner : Level}

theorem takes_readGroup (h : inner.Takes m) (opening : Fence) :
    Takes m 0 (readGroup finish inner opening) := by
  rw [readGroup_eq]
  refine (takes_readSequence h.ratio).bind (l := 0) fun content => ?_
  refine Takes.behind fun lexeme => ?_
  cases lexeme.token with
  | symbol s =>
    cases s with
    | closing closing => exact Takes.pure _
    | _ => exact Takes.fail nofun
  | _ => exact Takes.fail nofun

theorem takes_readSymbol (h : inner.Takes m) (symbol : Symbol) (span : Span) :
    Takes m 0 (readSymbol finish inner symbol span) := by
  have hoperand : Takes m 0 inner.operand := h.operand.mono (Nat.le_refl m) (Nat.zero_le 1)
  cases symbol with
  | sign s => exact Takes.pure _
  | opening fence => exact takes_readGroup h fence
  | closing fence => exact Takes.fail nofun
  | superscript => exact Takes.fail nofun
  | subscript => exact Takes.fail nofun
  | slash => exact Takes.fail nofun
  | unary f =>
    rw [readSymbol_unary]
    exact hoperand.bind (l := 0) fun operand => Takes.pure _
  | binary f =>
    rw [readSymbol_binary]
    exact hoperand.bind (l := 0) fun first => hoperand.bind (l := 0) fun second => Takes.pure _
  | text =>
    rw [readSymbol_text]
    exact takes_readVerbatim.bind (l := 0) fun content => Takes.pure _
  | color =>
    rw [readSymbol_color]
    exact takes_readVerbatim.bind (l := 0) fun name =>
      hoperand.bind (l := 0) fun operand => Takes.pure _

theorem takes_readOperand (hfinish : finish.token = .endOfInput) (h : inner.Takes m) :
    Takes (m + 1) 1 (readOperand finish inner) := by
  rw [readOperand_eq]
  refine Takes.behind_one (fun lexeme => ?_) ⟨⟨.unexpectedEnd, finish.span⟩, nofun, ?_⟩
  · unfold readOperand
    dsimp only [nextLexeme]
    cases lexeme.token with
    | endOfInput => exact Takes.fail nofun
    | number digits => exact Takes.pure _
    | letter c => exact Takes.pure _
    | text content => exact Takes.pure _
    | symbol s => exact takes_readSymbol h s lexeme.span
  · unfold readOperand
    dsimp only [nextLexeme]
    rw [hfinish]

namespace Level

/-- **More levels than there are lexemes are enough.** -/
theorem takes_ofNat (hfinish : finish.token = .endOfInput) : ∀ n, (ofNat finish n).Takes n
  | 0 => ⟨fun _ hlt => absurd hlt (Nat.not_lt_zero _), fun _ hlt => absurd hlt (Nat.not_lt_zero _)⟩
  | n + 1 => by
    have ih := takes_ofNat hfinish n
    have hoperand := takes_readOperand hfinish ih
    exact ⟨hoperand, takes_readRatio hoperand ih.ratio⟩

/-- The readers that have as many levels as there are lexemes, and one more. -/
def endless (finish : Lexeme) : Level where
  operand := fun lexemes => (ofNat finish (lexemes.length + 1)).operand lexemes
  ratio := fun lexemes => (ofNat finish (lexemes.length + 1)).ratio lexemes

/-- With more levels than there are lexemes, the number of levels does not matter. -/
theorem endless_eq (hfinish : finish.token = .endOfInput) {lexemes : List Lexeme}
    (h : lexemes.length < n) :
    (endless finish).operand lexemes = (ofNat finish n).operand lexemes ∧
      (endless finish).ratio lexemes = (ofNat finish n).ratio lexemes := by
  have htakes := takes_ofNat hfinish (lexemes.length + 1)
  have hcutsOff : (ofNat finish (lexemes.length + 1)).CutsOff (ofNat finish n) := cutsOff_ofNat h
  have hlt := Nat.lt_succ_self lexemes.length
  exact ⟨hcutsOff.operand.eq_of_not_reportsLimit (htakes.operand lexemes hlt).1,
    hcutsOff.ratio.eq_of_not_reportsLimit (htakes.ratio lexemes hlt).1⟩

/-- **The readers with any number of levels cut off those that never run out of levels.** -/
theorem cutsOff_endless (hfinish : finish.token = .endOfInput) (n : Nat) :
    (ofNat finish n).CutsOff (endless finish) := by
  constructor
  all_goals
    intro lexemes
    rcases Nat.lt_or_ge lexemes.length n with hlt | hge
  · exact .inr (endless_eq hfinish hlt).1.symm
  · exact (cutsOff_ofNat (Nat.le_succ_of_le hge)).operand lexemes
  · exact .inr (endless_eq hfinish hlt).2.symm
  · exact (cutsOff_ofNat (Nat.le_succ_of_le hge)).ratio lexemes

theorem takes_endless (hfinish : finish.token = .endOfInput) (m : Nat) :
    (endless finish).Takes m :=
  ⟨fun lexemes _ => (takes_ofNat hfinish _).operand lexemes (Nat.lt_succ_self _),
    fun lexemes _ => (takes_ofNat hfinish _).ratio lexemes (Nat.lt_succ_self _)⟩

/-- No other readers are cut off by those with every number of levels. -/
theorem eq_endless (hfinish : finish.token = .endOfInput) {level : Level}
    (h : ∀ n, (ofNat finish n).CutsOff level) : level = endless finish := by
  have hoperand : level.operand = (endless finish).operand := by
    funext lexemes
    have htakes := (takes_ofNat hfinish (lexemes.length + 1)).operand
    exact ((h _).operand.eq_of_not_reportsLimit (htakes lexemes (Nat.lt_succ_self _)).1).symm
  have hratio : level.ratio = (endless finish).ratio := by
    funext lexemes
    have htakes := (takes_ofNat hfinish (lexemes.length + 1)).ratio
    exact ((h _).ratio.eq_of_not_reportsLimit (htakes lexemes (Nat.lt_succ_self _)).1).symm
  show Level.mk _ _ = Level.mk _ _
  exact congr (congrArg Level.mk hoperand) hratio

/-- **The readers that call themselves are those with more levels than lexemes**, and there are no
others. -/
theorem around_eq_iff (hfinish : finish.token = .endOfInput) {level : Level} :
    around finish level = level ↔ level = endless finish := by
  constructor
  · intro h
    exact eq_endless hfinish (cutsOff_of_around_eq h)
  · rintro rfl
    refine eq_endless hfinish fun n => ?_
    cases n with
    | zero => exact exhausted_cutsOff _
    | succ n => exact (cutsOff_endless hfinish n).around

end Level

end Levels

end MathMarkup.Formula
