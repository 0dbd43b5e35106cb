/-!
# Loops

A loop repeats a round until the round is done. A round may fail to give anything, as when it reads
outside of what it may read.

* `Round` — what a round comes to.
* `repeatRounds` — what a loop results in. A loop with a failing round has no result.
* `Reaches` — the states that a loop comes to.
* `EndsWith` — a loop comes to an end, with a result.

Principal lemmas: `EndsWith.repeatRounds_eq` — a loop that comes to an end results in what it ends
with; `endsWith_of_step` — a loop whose rounds keep an invariant and bring a measure down comes to one.
-/

namespace MathMarkup

/-- What a round of a loop comes to: the result of the loop, or the state for the next round. -/
inductive Round (σ ρ : Type) where
  | done (result : ρ)
  | next (state : σ)

variable {σ ρ : Type}

def Round.toSum : Round σ ρ → σ ⊕ ρ
  | done result => .inr result
  | next state => .inl state

/-- Repeats a round until it is done. -/
def repeatRounds [Nonempty ρ] (round : σ → Option (Round σ ρ)) (state : σ) : Option ρ :=
  repeatM (fun state => (round state).map Round.toSum) state

/-- A loop that is in the state `first` comes to the other state. -/
inductive Reaches (round : σ → Option (Round σ ρ)) (first : σ) : σ → Prop
  | start : Reaches round first first
  | next {state later : σ} :
      Reaches round first state → round state = some (.next later) → Reaches round first later

/-- A loop that is in the state `first` comes to a round that is done with the result. -/
def EndsWith (round : σ → Option (Round σ ρ)) (first : σ) (result : ρ) : Prop :=
  ∃ last, Reaches round first last ∧ round last = some (.done result)

variable {round : σ → Option (Round σ ρ)} {first state later : σ} {result : ρ}

theorem repeatRounds_done [Nonempty ρ] (h : round state = some (.done result)) :
    repeatRounds round state = some result := by
  unfold repeatRounds
  rw [repeatM_eq_of_monadTail, repeatM.body, h]
  rfl

theorem repeatRounds_next [Nonempty ρ] (h : round state = some (.next later)) :
    repeatRounds round state = repeatRounds round later := by
  unfold repeatRounds
  rw [repeatM_eq_of_monadTail, repeatM.body, h]
  rfl

theorem Reaches.repeatRounds_eq [Nonempty ρ] (h : Reaches round first state) :
    repeatRounds round first = repeatRounds round state := by
  induction h with
  | start => rfl
  | next _ hround ih => rw [ih, repeatRounds_next hround]

/-- What the rounds keep holds in every state that the loop comes to. -/
theorem Reaches.invariant {holds : σ → Prop}
    (step : ∀ state later, holds state → round state = some (.next later) → holds later)
    (hfirst : holds first) (h : Reaches round first state) : holds state := by
  induction h with
  | start => exact hfirst
  | next _ hround ih => exact step _ _ ih hround

/-- **A loop that comes to an end results in what it ends with.** -/
theorem EndsWith.repeatRounds_eq [Nonempty ρ] (h : EndsWith round first result) :
    repeatRounds round first = some result := by
  obtain ⟨last, hreaches, hround⟩ := h
  rw [hreaches.repeatRounds_eq, repeatRounds_done hround]

/-- **A loop whose rounds bring a measure down comes to an end.** Each round that keeps the invariant
is done with a right result or goes on. -/
theorem endsWith_of_step {holds : σ → Prop} {right : ρ → Prop} (measure : σ → Nat)
    (step : ∀ state, holds state →
      (∃ result, round state = some (.done result) ∧ right result) ∨
      ∃ later, round state = some (.next later) ∧ holds later ∧ measure later < measure state)
    (hfirst : holds first) : ∃ result, EndsWith round first result ∧ right result := by
  have hend : ∀ bound state, Reaches round first state → holds state → measure state < bound →
      ∃ result, EndsWith round first result ∧ right result := by
    intro bound
    induction bound with
    | zero => exact fun state _ _ hlt => absurd hlt (Nat.not_lt_zero _)
    | succ bound ih =>
      intro state hreaches hstate hlt
      rcases step state hstate with ⟨result, hround, hright⟩ | ⟨later, hround, hlater, hless⟩
      · exact ⟨result, ⟨state, hreaches, hround⟩, hright⟩
      · exact ih later (hreaches.next hround) hlater (by omega)
  exact hend _ first .start hfirst (Nat.lt_succ_self _)

end MathMarkup
