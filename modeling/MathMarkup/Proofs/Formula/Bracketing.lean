import MathMarkup.Formula.Brackets

/-!
# What the bracket check accepts

The check follows the brackets with a stack. Here it is compared with a grammar that knows no stack.

* `Balanced` — token lists whose brackets pair up, kind by kind.
* `LeavesOpen` — lexemes that pair up, except for some opening brackets that stay open.
* `OutOfPlace` — a closing bracket that has no partner among the lexemes before it.
* `FirstOutOfPlace` — the first such bracket of a list.

Principal results: `openBrackets_eq_ok_iff` and `openBrackets_eq_error_iff` — the check returns exactly
the brackets that are left open, and fails exactly at the first bracket out of place.
-/

namespace MathMarkup.Formula

/-- Neither an opening nor a closing bracket. -/
def Token.isPlain : Token → Bool
  | symbol (.opening _) => false
  | symbol (.closing _) => false
  | _ => true

/-- Token lists whose brackets pair up. -/
inductive Balanced : List Token → Prop
  | nil : Balanced []
  | plain {t : Token} : t.isPlain = true → Balanced [t]
  | append {a b : List Token} : Balanced a → Balanced b → Balanced (a ++ b)
  | wrap {opening closing : Fence} {w : List Token} : opening.closedBy closing = true → Balanced w →
      Balanced (.symbol (.opening opening) :: (w ++ [.symbol (.closing closing)]))

/-- Lexemes that leave exactly the given brackets open, outermost first. -/
inductive LeavesOpen : List Lexeme → List Bracket → Prop
  | none {w : List Lexeme} : Balanced (w.map (·.token)) → LeavesOpen w []
  | more {w v : List Lexeme} {brackets : List Bracket} {fence : Fence} {span : Span} :
      LeavesOpen w brackets → Balanced (v.map (·.token)) →
      LeavesOpen (w ++ ⟨.symbol (.opening fence), span⟩ :: v) (brackets ++ [⟨fence, span⟩])

/-- A closing bracket with no bracket left open before it, or with an innermost one of another
kind. -/
def OutOfPlace (before : List Lexeme) (closing : Lexeme) : Prop :=
  ∃ fence brackets, closing.token = .symbol (.closing fence) ∧ LeavesOpen before brackets ∧
    ∀ innermost, brackets.getLast? = some innermost → innermost.fence.closedBy fence = false

/-- A closing bracket of the lexemes is out of place. -/
def SomeOutOfPlace (lexemes : List Lexeme) : Prop :=
  ∃ before closing after, lexemes = before ++ closing :: after ∧ OutOfPlace before closing

/-- An opening bracket of the lexemes is never closed. -/
def SomeLeftOpen (lexemes : List Lexeme) : Prop :=
  ∃ outer innermost, LeavesOpen lexemes (outer ++ [innermost])

/-- The first closing bracket of the lexemes that is out of place. -/
def FirstOutOfPlace (lexemes : List Lexeme) (closing : Lexeme) : Prop :=
  ∃ before after, lexemes = before ++ closing :: after ∧ OutOfPlace before closing ∧
    ∀ before' closing' after', lexemes = before' ++ closing' :: after' →
      OutOfPlace before' closing' → before.length ≤ before'.length

variable {stack : List Bracket} {a b w : List Lexeme} {lexeme : Lexeme}

/-! ## One lexeme -/

theorem followBrackets_plain (h : lexeme.token.isPlain = true) (stack : List Bracket)
    (lexemes : List Lexeme) :
    followBrackets stack (lexeme :: lexemes) = followBrackets stack lexemes := by
  rw [followBrackets]
  split
  · rename_i hf; rw [hf] at h; cases h
  · rename_i hf; rw [hf] at h; cases h
  · rfl

theorem followBrackets_opening {fence : Fence} (h : lexeme.token = .symbol (.opening fence))
    (stack : List Bracket) (lexemes : List Lexeme) :
    followBrackets stack (lexeme :: lexemes) =
      followBrackets (⟨fence, lexeme.span⟩ :: stack) lexemes := by
  rw [followBrackets, h]

theorem followBrackets_closing {fence : Fence} {innermost : Bracket}
    (h : lexeme.token = .symbol (.closing fence)) (hf : innermost.fence.closedBy fence = true)
    (stack : List Bracket) (lexemes : List Lexeme) :
    followBrackets (innermost :: stack) (lexeme :: lexemes) = followBrackets stack lexemes := by
  rw [followBrackets, h]
  simp only [hf, if_true]

/-- A closing bracket that the innermost open bracket does not match ends the check. -/
theorem followBrackets_stranded {fence : Fence} (h : lexeme.token = .symbol (.closing fence))
    (hs : ∀ innermost, stack.head? = some innermost → innermost.fence.closedBy fence = false)
    (lexemes : List Lexeme) :
    followBrackets stack (lexeme :: lexemes) = .error (unbalanced lexeme.span) := by
  rw [followBrackets, h]
  cases stack with
  | nil => rfl
  | cons innermost outer => simp [hs innermost rfl]

/-! ## Several lexemes -/

theorem followBrackets_append (stack : List Bracket) (a b : List Lexeme) :
    followBrackets stack (a ++ b) =
      (followBrackets stack a).bind fun open' => followBrackets open' b := by
  induction a generalizing stack with
  | nil => rfl
  | cons lexeme a ih =>
    rw [List.cons_append, followBrackets, followBrackets]
    split
    · exact ih _
    · split
      · rfl
      · split
        · exact ih _
        · rfl
    · exact ih _

/-- Lexemes can be followed if their first part can, and the second part from there. -/
theorem followBrackets_append_eq_ok_iff {stack last : List Bracket} :
    followBrackets stack (a ++ b) = .ok last ↔
      ∃ middle, followBrackets stack a = .ok middle ∧ followBrackets middle b = .ok last := by
  rw [followBrackets_append]
  cases followBrackets stack a with
  | error fault => simp [Except.bind]
  | ok middle => simp [Except.bind]

theorem followBrackets_append_of_ok {middle : List Bracket}
    (h : followBrackets stack a = .ok middle) (b : List Lexeme) :
    followBrackets stack (a ++ b) = followBrackets middle b := by
  rw [followBrackets_append, h]
  rfl

/-- Balanced lexemes leave the stack as it is. -/
theorem followBrackets_balanced {tokens : List Token} (h : Balanced tokens) :
    ∀ (w : List Lexeme), w.map (·.token) = tokens → ∀ stack, followBrackets stack w = .ok stack := by
  induction h with
  | nil =>
    intro w hw stack
    rw [List.map_eq_nil_iff.1 hw]
    rfl
  | plain ht =>
    intro w hw stack
    obtain ⟨lexeme, rfl, rfl⟩ := List.map_eq_singleton_iff.1 hw
    rw [followBrackets_plain ht]
    rfl
  | append _ _ iha ihb =>
    intro w hw stack
    obtain ⟨u, v, rfl, hu, hv⟩ := List.map_eq_append_iff.1 hw
    rw [followBrackets_append_of_ok (iha u hu stack), ihb v hv stack]
  | wrap hf _ ih =>
    intro w hw stack
    obtain ⟨first, u, rfl, hfirst, hu⟩ := List.map_eq_cons_iff.1 hw
    obtain ⟨v, l, rfl, hv, hl⟩ := List.map_eq_append_iff.1 hu
    obtain ⟨last, rfl, hlast⟩ := List.map_eq_singleton_iff.1 hl
    rw [followBrackets_opening hfirst, followBrackets_append_of_ok (ih v hv _),
      followBrackets_closing hlast hf]
    rfl

/-! ## The brackets left open -/

/-- Balanced lexemes at the end leave no further bracket open. -/
theorem LeavesOpen.append_balanced {brackets : List Bracket} {v : List Lexeme}
    (h : LeavesOpen w brackets) (hv : Balanced (v.map (·.token))) : LeavesOpen (w ++ v) brackets := by
  cases h with
  | none hw => exact .none (by rw [List.map_append]; exact hw.append hv)
  | more hw hu =>
    rw [List.append_assoc, List.cons_append]
    exact .more hw (by rw [List.map_append]; exact hu.append hv)

/-- A closing bracket that matches the innermost open one closes it. -/
theorem LeavesOpen.close {brackets : List Bracket} {innermost : Bracket} {fence : Fence}
    (h : LeavesOpen w (brackets ++ [innermost])) (ht : lexeme.token = .symbol (.closing fence))
    (hf : innermost.fence.closedBy fence = true) : LeavesOpen (w ++ [lexeme]) brackets := by
  generalize hb : brackets ++ [innermost] = all at h
  cases h with
  | none => simp at hb
  | more hw hv =>
    obtain ⟨rfl, hi⟩ := List.append_inj' hb rfl
    obtain rfl := List.cons.inj hi |>.1
    rw [List.append_assoc]
    refine hw.append_balanced ?_
    simpa [ht] using Balanced.wrap hf hv

theorem followBrackets_leavesOpen {brackets : List Bracket} (h : LeavesOpen w brackets) :
    followBrackets [] w = .ok brackets.reverse := by
  induction h with
  | none hw => exact followBrackets_balanced hw _ rfl []
  | more _ hv ih =>
    rw [followBrackets_append_of_ok ih, followBrackets_opening rfl,
      followBrackets_balanced hv _ rfl]
    simp

/-- The step of the check: the brackets on the stack are those that the lexemes so far leave
open. -/
theorem leavesOpen_followBrackets :
    ∀ (lexemes w : List Lexeme) (stack last : List Bracket), LeavesOpen w stack.reverse →
      followBrackets stack lexemes = .ok last → LeavesOpen (w ++ lexemes) last.reverse
  | [], w, stack, last, hw, h => by
    cases h
    rw [List.append_nil]
    exact hw
  | lexeme :: lexemes, w, stack, last, hw, h => by
    rw [← List.singleton_append, ← List.append_assoc]
    rw [followBrackets] at h
    split at h
    · rename_i fence ht
      refine leavesOpen_followBrackets lexemes _ _ last ?_ h
      rw [List.reverse_cons]
      obtain ⟨token, span⟩ := lexeme
      obtain rfl := ht
      exact .more hw .nil
    · rename_i fence ht
      split at h
      · cases h
      · rename_i innermost outer
        split at h
        · rename_i hf
          rw [List.reverse_cons] at hw
          exact leavesOpen_followBrackets lexemes _ _ last (hw.close ht hf) h
        · cases h
    · rename_i ho hc
      refine leavesOpen_followBrackets lexemes _ _ last (hw.append_balanced ?_) h
      refine .plain ?_
      unfold Token.isPlain
      split
      · rename_i hf; exact absurd hf (ho _)
      · rename_i hf; exact absurd hf (hc _)
      · rfl

/-- **The check returns exactly the brackets that are left open.** -/
theorem openBrackets_eq_ok_iff {lexemes : List Lexeme} {brackets : List Bracket} :
    openBrackets lexemes = .ok brackets ↔ LeavesOpen lexemes brackets := by
  unfold openBrackets
  constructor
  · intro h
    split at h
    · cases h
    · rename_i stack hs
      cases h
      exact leavesOpen_followBrackets lexemes [] [] stack (.none .nil) hs
  · intro h
    rw [followBrackets_leavesOpen h]
    simp

theorem checkBrackets_eq_ok_iff {lexemes : List Lexeme} :
    checkBrackets lexemes = .ok () ↔ followBrackets [] lexemes = .ok [] := by
  unfold checkBrackets openBrackets
  cases followBrackets [] lexemes with
  | error fault => simp
  | ok stack =>
    cases stack with
    | nil => simp
    | cons innermost outer => simp

/-! ## The first bracket out of place -/

/-- Where the check fails, the lexemes before that place leave some brackets open, and the bracket
at that place does not match the innermost one. -/
theorem outOfPlace_of_followBrackets :
    ∀ (lexemes w : List Lexeme) (stack : List Bracket) (fault : Fault),
      LeavesOpen w stack.reverse → followBrackets stack lexemes = .error fault →
      ∃ before closing after, lexemes = before ++ closing :: after ∧
        OutOfPlace (w ++ before) closing ∧ fault = unbalanced closing.span
  | [], w, stack, fault, _, h => by cases h
  | lexeme :: lexemes, w, stack, fault, hw, h => by
    have further : ∀ stack', LeavesOpen (w ++ [lexeme]) stack'.reverse →
        followBrackets stack' lexemes = .error fault →
        ∃ before closing after, lexeme :: lexemes = before ++ closing :: after ∧
          OutOfPlace (w ++ before) closing ∧ fault = unbalanced closing.span := by
      intro stack' hw' h'
      obtain ⟨before, closing, after, rfl, hout, hfault⟩ :=
        outOfPlace_of_followBrackets lexemes _ stack' fault hw' h'
      refine ⟨lexeme :: before, closing, after, rfl, ?_, hfault⟩
      rwa [List.append_assoc] at hout
    -- what the lexeme itself leaves open is the statement about the lists that end with it
    have step : ∀ stack', followBrackets stack [lexeme] = .ok stack' →
        LeavesOpen (w ++ [lexeme]) stack'.reverse :=
      fun stack' h' => leavesOpen_followBrackets [lexeme] w stack stack' hw h'
    rw [← List.singleton_append, followBrackets_append] at h
    cases hone : followBrackets stack [lexeme] with
    | ok stack' =>
      rw [hone] at h
      exact further stack' (step stack' hone) h
    | error earlier =>
      rw [hone] at h
      cases h
      refine ⟨[], lexeme, lexemes, rfl, ?_⟩
      rw [List.append_nil]
      rw [followBrackets] at hone
      split at hone
      · cases hone
      · rename_i fence ht
        split at hone
        · cases hone
          exact ⟨⟨fence, _, ht, hw, by simp⟩, rfl⟩
        · rename_i innermost outer
          split at hone
          · cases hone
          · rename_i hf
            cases hone
            refine ⟨⟨fence, _, ht, hw, ?_⟩, rfl⟩
            intro last hlast
            rw [List.reverse_cons, List.getLast?_concat] at hlast
            cases hlast
            simpa using hf
      · cases hone

theorem followBrackets_outOfPlace {before : List Lexeme} {closing : Lexeme}
    (h : OutOfPlace before closing) (after : List Lexeme) :
    followBrackets [] (before ++ closing :: after) = .error (unbalanced closing.span) := by
  obtain ⟨fence, brackets, ht, hopen, hlast⟩ := h
  rw [followBrackets_append_of_ok (followBrackets_leavesOpen hopen)]
  refine followBrackets_stranded ht ?_ after
  intro innermost hi
  rw [List.head?_reverse] at hi
  exact hlast innermost hi

/-- No bracket stands out of place before the first one. -/
theorem OutOfPlace.length_le {before before' after after' : List Lexeme} {closing closing' : Lexeme}
    (h : OutOfPlace before closing) (h' : OutOfPlace before' closing')
    (heq : before ++ closing :: after = before' ++ closing' :: after') :
    before.length ≤ before'.length := by
  refine Decidable.byContradiction fun hlt => ?_
  -- otherwise the lexemes before the one bracket would contain the other
  obtain ⟨between, hb⟩ : ∃ between, before = before' ++ closing' :: between := by
    rcases List.append_eq_append_iff.1 heq with ⟨c, hc, _⟩ | ⟨c, hc, hd⟩
    · rw [hc, List.length_append] at hlt; omega
    · cases c with
      | nil => rw [hc, List.append_nil] at hlt; omega
      | cons d c =>
        obtain ⟨rfl, -⟩ := List.cons.inj hd
        exact ⟨c, hc⟩
  obtain ⟨fence, brackets, -, hopen, -⟩ := h
  have hfail := followBrackets_outOfPlace h' between
  rw [← hb, followBrackets_leavesOpen hopen] at hfail
  cases hfail

theorem OutOfPlace.first {before after : List Lexeme} {closing : Lexeme}
    (h : OutOfPlace before closing) : FirstOutOfPlace (before ++ closing :: after) closing :=
  ⟨before, after, rfl, h, fun _ _ _ heq h' => h.length_le h' heq⟩

/-- **The check fails exactly at the first bracket out of place.** -/
theorem openBrackets_eq_error_iff {lexemes : List Lexeme} {fault : Fault} :
    openBrackets lexemes = .error fault ↔
      ∃ closing, FirstOutOfPlace lexemes closing ∧ fault = unbalanced closing.span := by
  unfold openBrackets
  constructor
  · intro h
    split at h
    · rename_i earlier hs
      cases h
      obtain ⟨before, closing, after, rfl, hout, hfault⟩ :=
        outOfPlace_of_followBrackets lexemes [] [] fault (.none .nil) hs
      exact ⟨closing, hout.first, hfault⟩
    · cases h
  · rintro ⟨closing, ⟨before, after, rfl, hout, -⟩, rfl⟩
    rw [followBrackets_outOfPlace hout]

theorem someOutOfPlace_iff {lexemes : List Lexeme} :
    SomeOutOfPlace lexemes ↔ ∃ closing, FirstOutOfPlace lexemes closing := by
  constructor
  · rintro ⟨before, closing, after, rfl, h⟩
    exact ⟨closing, h.first⟩
  · rintro ⟨closing, before, after, heq, h, -⟩
    exact ⟨before, closing, after, heq, h⟩

/-! ## The whole check -/

/-- Of the brackets left open, the check tells the innermost one. -/
theorem checkBrackets_leftOpen {lexemes : List Lexeme} {outer : List Bracket} {innermost : Bracket}
    (h : LeavesOpen lexemes (outer ++ [innermost])) :
    checkBrackets lexemes = .error (unbalanced innermost.span) := by
  unfold checkBrackets
  rw [openBrackets_eq_ok_iff.2 h]
  simp

theorem checkBrackets_outOfPlace {lexemes : List Lexeme} {closing : Lexeme}
    (h : FirstOutOfPlace lexemes closing) :
    checkBrackets lexemes = .error (unbalanced closing.span) := by
  unfold checkBrackets
  rw [openBrackets_eq_error_iff.2 ⟨closing, h, rfl⟩]

/-- Where no bracket is out of place and none is left open, the check has nothing to tell. -/
theorem checkBrackets_eq_ok {lexemes : List Lexeme} (hout : ¬ SomeOutOfPlace lexemes)
    (hopen : ¬ SomeLeftOpen lexemes) : checkBrackets lexemes = .ok () := by
  cases h : openBrackets lexemes with
  | error fault =>
    obtain ⟨closing, hc, -⟩ := openBrackets_eq_error_iff.1 h
    exact absurd (someOutOfPlace_iff.2 ⟨closing, hc⟩) hout
  | ok brackets =>
    rcases brackets.eq_nil_or_concat with rfl | ⟨outer, innermost, rfl⟩
    · rw [checkBrackets, h]
      rfl
    · rw [List.concat_eq_append] at h
      exact absurd ⟨outer, innermost, openBrackets_eq_ok_iff.1 h⟩ hopen

end MathMarkup.Formula
