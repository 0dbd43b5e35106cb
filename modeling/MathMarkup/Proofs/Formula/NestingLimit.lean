import MathMarkup.Proofs.Formula.Bracketing
import MathMarkup.Proofs.Formula.Counting
import MathMarkup.Proofs.Formula.CutOff

/-!
# The limit on the nesting

Principal result: `nestingLimit_only_cutsOff` — the limit decides whether there is a result, and never
which one; what is read first leaves nothing of it used up for what comes after.
-/

namespace MathMarkup.Formula

variable {α : Type} {finish : Lexeme} {depth depth' : Nat} {lexemes : List Lexeme}

/-- The bracket check knows nothing of the limit. -/
theorem not_reportsLimit_checkBrackets : ¬ReportsLimit (checkBrackets lexemes) := by
  unfold checkBrackets
  cases hopen : openBrackets lexemes with
  | error fault =>
    obtain ⟨closing, -, rfl⟩ := openBrackets_eq_error_iff.1 hopen
    exact not_reportsLimit_error nofun
  | ok brackets =>
    dsimp only
    cases brackets.getLast? with
    | none => exact not_reportsLimit_ok ()
    | some innermost => exact not_reportsLimit_error nofun

theorem reportsLimit_map {β : Type} {f : α → β} {found : Except Fault α} :
    ReportsLimit (found.map f) ↔ ReportsLimit found := by
  cases found with
  | error fault =>
    have herror : (Except.error fault : Except Fault α).map f = .error fault := rfl
    simp only [ReportsLimit, herror, Except.error.injEq]
  | ok value => exact iff_of_false (not_reportsLimit_ok (f value)) (not_reportsLimit_ok value)

theorem parseWith_cutsOff {level level' : Level} (h : level.CutsOff level') (lexemes : List Lexeme) :
    ReportsLimit (parseWith level lexemes) ∨ parseWith level lexemes = parseWith level' lexemes := by
  unfold parseWith readWith
  cases checkBrackets lexemes with
  | error fault => exact .inr rfl
  | ok _ =>
    refine (cutsOff_readWhole h.ratio lexemes).imp reportsLimit_map.2 fun hsame => ?_
    exact congrArg (Except.map Prod.fst) hsame

/-- The parser without a limit never tells that the nesting is too deep. -/
theorem not_reportsLimit_endless (lexemes : List Lexeme) :
    ¬ReportsLimit (parseWith (Level.endless (finishOf lexemes)) lexemes) := by
  unfold parseWith readWith
  cases hcheck : checkBrackets lexemes with
  | error fault =>
    rintro ⟨span, hspan⟩
    exact not_reportsLimit_checkBrackets ⟨span, hcheck.trans (congrArg _ (Except.error.inj hspan))⟩
  | ok _ =>
    have htakes : (Level.endless (finishOf lexemes)).Takes (lexemes.length + 1) :=
      Level.takes_endless rfl _
    rw [reportsLimit_map]
    exact (takes_readWhole htakes.ratio lexemes (Nat.lt_succ_self _)).1

/-- From less deep on there are more levels left. -/
theorem cutsOff_of_depth_le (h : depth' ≤ depth) :
    (Level.ofNat finish (nestingLimit - depth)).CutsOff (Level.ofNat finish (nestingLimit - depth')) :=
  Level.cutsOff_ofNat (Nat.sub_le_sub_left h nestingLimit)

/-- **The limit on the nesting cuts off, and changes nothing.** The parser that starts at a depth tells
that the nesting is too deep, or what it returns is returned from every smaller depth on, and by the
parser without a limit. This one has readers that call themselves, and there is one choice of them only.
Every function of the parser leaves the depth as it found it, whether it fails or not, and on the way the
depth does not go above the limit; what comes of it at a smaller depth is the same, unless the nesting is
too deep for it. -/
theorem nestingLimit_only_cutsOff (innermost : CountingLevel) :
    (∀ lexemes, parseFrom innermost 0 lexemes = parse lexemes) ∧
    (∀ lexemes depth depth', depth' ≤ depth → depth ≤ nestingLimit →
      ¬ReportsLimit (parseFrom innermost depth lexemes) →
      parseFrom innermost depth' lexemes = parseFrom innermost depth lexemes) ∧
    (∀ lexemes, ∃ level,
      (∀ level', Level.around (finishOf lexemes) level' = level' ↔ level' = level) ∧
      ¬ReportsLimit (parseWith level lexemes) ∧
      ∀ depth ≤ nestingLimit, parseFrom innermost depth lexemes = parseWith level lexemes ↔
        ¬ReportsLimit (parseFrom innermost depth lexemes)) ∧
    ∀ (finish : Lexeme) (α : Type) (routine : Routine α) (before : Progress),
      before.depth ≤ nestingLimit → before.deepest ≤ nestingLimit →
      (finalState (routine.run finish (machine finish innermost) before)).depth = before.depth ∧
      before.deepest ≤ (finalState (routine.run finish (machine finish innermost) before)).deepest ∧
      (finalState (routine.run finish (machine finish innermost) before)).deepest ≤ nestingLimit ∧
      ∀ before' : Progress, before'.lexemes = before.lexemes → before'.depth ≤ before.depth →
        before'.deepest ≤ nestingLimit →
        ¬ReportsLimit (outcome (routine.run finish (machine finish innermost) before)) →
        outcome (routine.run finish (machine finish innermost) before') =
          outcome (routine.run finish (machine finish innermost) before) := by
  refine ⟨fun lexemes => ?_, fun lexemes depth depth' hle hlimit hnot => ?_, fun lexemes => ?_, ?_⟩
  · rw [parseFrom_eq innermost (Nat.zero_le _), Nat.sub_zero, parse]
  · rw [parseFrom_eq innermost hlimit] at hnot ⊢
    rw [parseFrom_eq innermost (Nat.le_trans hle hlimit)]
    exact ((parseWith_cutsOff (cutsOff_of_depth_le hle) lexemes).resolve_left hnot).symm
  · refine ⟨Level.endless (finishOf lexemes), fun level' => Level.around_eq_iff rfl,
      not_reportsLimit_endless lexemes, fun depth hlimit => ?_⟩
    rw [parseFrom_eq innermost hlimit]
    constructor
    · intro hsame
      rw [hsame]
      exact not_reportsLimit_endless lexemes
    · exact (parseWith_cutsOff (Level.cutsOff_endless rfl _) lexemes).resolve_left
  · intro finish α routine before hdepth hdeepest
    have hsteady := (routine.counts_machine finish innermost hdepth before hdeepest rfl).steady
    refine ⟨hsteady.depth_eq, hsteady.deepest_ge, hsteady.deepest_le, ?_⟩
    intro before' hlexemes hle hdeepest' hnot
    rw [routine.outcome_run finish innermost hdepth hdeepest] at hnot ⊢
    rw [routine.outcome_run finish innermost (Nat.le_trans hle hdepth) hdeepest', hlexemes]
    exact ((routine.cutsOff (cutsOff_of_depth_le hle)).eq_of_not_reportsLimit hnot).symm

/-- The lexemes of a root of a letter. -/
def rootLexemes : List Lexeme :=
  [⟨.symbol (.unary .squareRoot), ⟨0, 4⟩⟩, ⟨.letter 'x', ⟨5, 6⟩⟩, ⟨.endOfInput, ⟨6, 6⟩⟩]

/-- Readers that read nothing. -/
def CountingLevel.idle : CountingLevel :=
  ⟨throw ⟨.missingOperand, .empty 0⟩, throw ⟨.missingOperand, .empty 0⟩⟩

/-- A root of a letter needs two levels. They are left at depth 126, where it is read as from the start and
as without a limit. At depth 127 one is missing, and the reading ends at that depth. -/
theorem nestingLimit_only_cutsOff_root :
    parseFrom .idle 126 rootLexemes = .ok [.term (.bare (.unary .squareRoot (.leaf (.letter 'x'))))] ∧
    parseFrom .idle 0 rootLexemes = parseFrom .idle 126 rootLexemes ∧
    (∃ level, Level.around (finishOf rootLexemes) level = level ∧
      parseFrom .idle 126 rootLexemes = parseWith level rootLexemes) ∧
    ReportsLimit (parseFrom .idle 127 rootLexemes) ∧
    (finalState (Routine.ratio.run (finishOf rootLexemes) (machine (finishOf rootLexemes) .idle)
      (.start 127 rootLexemes))).depth = 127 := by
  have hread : parseFrom .idle 126 rootLexemes =
      .ok [.term (.bare (.unary .squareRoot (.leaf (.letter 'x'))))] := rfl
  have hnot : ¬ReportsLimit (parseFrom .idle 126 rootLexemes) := by
    rw [hread]
    exact not_reportsLimit_ok _
  obtain ⟨-, hless, hendless, hroutine⟩ := nestingLimit_only_cutsOff .idle
  obtain ⟨level, hlevel, -, hsame⟩ := hendless rootLexemes
  refine ⟨hread, hless rootLexemes 126 0 (by decide) (by decide) hnot, ?_, ?_, ?_⟩
  · exact ⟨level, (hlevel level).2 rfl, (hsame 126 (by decide)).2 hnot⟩
  · exact ⟨⟨5, 6⟩, rfl⟩
  · exact (hroutine _ _ .ratio (.start 127 rootLexemes) (by decide) (by decide)).1

end MathMarkup.Formula
