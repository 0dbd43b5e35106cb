import MathMarkup.Proofs.Formula.Bracketing
import Mathlib.Data.List.Induction

/-!
# Lexemes between brackets that stay open

Any list of lexemes that the bracket check passes falls into balanced stretches with an opening
bracket between each two of them, and it does so in one way only.

* `Stretch` — lexemes whose brackets pair up.
* `Decomposition` — `B₀ o₁ B₁ … oₙ Bₙ`, stretches with the opening brackets between them.
* `EndsAt` — the place at which the check ends before the end of the lexemes.

Principal results: `Decomposition.lexemes_injective` — a list has one decomposition at most;
`checkBrackets_eq_ok_iff_balanced` — the whole check passes exactly the balanced lists;
`openBrackets_decomposition` — the check returns the brackets of the decomposition, and ends at the
first closing bracket that the decomposition before it leaves without a partner.
-/

namespace MathMarkup.Formula

/-- The lexeme that opens a bracket. -/
def Bracket.lexeme (bracket : Bracket) : Lexeme := ⟨.symbol (.opening bracket.fence), bracket.span⟩

/-- Lexemes whose brackets pair up. -/
structure Stretch where
  lexemes : List Lexeme
  balanced : Balanced (lexemes.map (·.token))

/-- A stretch, then opening brackets that stay open, outermost first, each with the stretch behind
it. -/
structure Decomposition where
  first : Stretch
  opened : List (Bracket × Stretch)

/-- The check comes as far as `closing` and ends there: it passes the lexemes before, and tells of
`closing` whatever follows. -/
def EndsAt (before : List Lexeme) (closing : Lexeme) : Prop :=
  (∃ brackets, openBrackets before = .ok brackets) ∧
    ∀ after, openBrackets (before ++ closing :: after) = .error (unbalanced closing.span)

namespace Decomposition

/-- `B₀ o₁ B₁ … oₙ Bₙ`. -/
def lexemes (d : Decomposition) : List Lexeme :=
  d.first.lexemes ++ d.opened.flatMap fun part => part.1.lexeme :: part.2.lexemes

/-- `o₁ … oₙ`. -/
def brackets (d : Decomposition) : List Bracket := d.opened.map (·.1)

/-- No bracket is open, or the innermost one does not match the closing bracket. -/
def Refuses (d : Decomposition) (closing : Fence) : Prop :=
  d.brackets = [] ∨
    ∃ outer innermost, d.brackets = outer ++ [innermost] ∧
      innermost.fence.closedBy closing = false

/-- One more bracket inside all others. -/
def extend (d : Decomposition) (bracket : Bracket) (stretch : Stretch) : Decomposition :=
  ⟨d.first, d.opened ++ [(bracket, stretch)]⟩

variable {d d' : Decomposition} {bracket bracket' : Bracket} {stretch stretch' : Stretch}
  {before before' : List Lexeme}

@[simp] theorem lexemes_whole (stretch : Stretch) :
    lexemes ⟨stretch, []⟩ = stretch.lexemes := by
  simp [lexemes]

@[simp] theorem brackets_whole (stretch : Stretch) : brackets ⟨stretch, []⟩ = [] := rfl

@[simp] theorem lexemes_extend (d : Decomposition) (bracket : Bracket) (stretch : Stretch) :
    (d.extend bracket stretch).lexemes = d.lexemes ++ bracket.lexeme :: stretch.lexemes := by
  simp [lexemes, extend]

@[simp] theorem brackets_extend (d : Decomposition) (bracket : Bracket) (stretch : Stretch) :
    (d.extend bracket stretch).brackets = d.brackets ++ [bracket] := by
  simp [brackets, extend]

/-- Decompositions are built from the outside to the inside. -/
@[elab_as_elim]
theorem inductionOn {motive : Decomposition → Prop} (d : Decomposition)
    (whole : ∀ stretch, motive ⟨stretch, []⟩)
    (extend : ∀ d bracket stretch, motive d → motive (d.extend bracket stretch)) : motive d := by
  obtain ⟨first, opened⟩ := d
  induction opened using List.reverseRecOn with
  | nil => exact whole first
  | append_singleton opened part ih => exact extend ⟨first, opened⟩ part.1 part.2 ih

/-! ## What a decomposition leaves open -/

theorem leavesOpen (d : Decomposition) : LeavesOpen d.lexemes d.brackets := by
  induction d using inductionOn with
  | whole stretch =>
    rw [lexemes_whole, brackets_whole]
    exact .none stretch.balanced
  | extend d bracket stretch ih =>
    rw [lexemes_extend, brackets_extend]
    exact .more ih stretch.balanced

theorem exists_of_leavesOpen {w : List Lexeme} {open' : List Bracket} (h : LeavesOpen w open') :
    ∃ d : Decomposition, d.lexemes = w ∧ d.brackets = open' := by
  induction h with
  | none hw => exact ⟨⟨⟨_, hw⟩, []⟩, lexemes_whole _, brackets_whole _⟩
  | @more w v open' fence span _ hv ih =>
    obtain ⟨d, rfl, rfl⟩ := ih
    exact ⟨d.extend ⟨fence, span⟩ ⟨v, hv⟩, lexemes_extend .., brackets_extend ..⟩

/-! ## One decomposition at most -/

/-- A bracket with nothing but a stretch behind it is not closed. -/
theorem not_balanced_opening (before : List Lexeme) (bracket : Bracket) (stretch : Stretch) :
    ¬Balanced ((before ++ bracket.lexeme :: stretch.lexemes).map (·.token)) := by
  intro h
  have hrun := followBrackets_balanced h _ rfl []
  obtain ⟨middle, -, hrest⟩ := followBrackets_append_eq_ok_iff.1 hrun
  rw [followBrackets_opening rfl, followBrackets_balanced stretch.balanced _ rfl] at hrest
  cases hrest

/-- The innermost open bracket stands where the last stretch begins, and no bracket behind it stays
open. -/
theorem length_le_of_append_eq
    (h : before ++ bracket.lexeme :: stretch.lexemes =
      before' ++ bracket'.lexeme :: stretch'.lexemes) : before'.length ≤ before.length := by
  rcases List.append_eq_append_iff.1 h with ⟨between, hbefore, hrest⟩ | ⟨between, hbefore, -⟩
  · cases between with
    | nil => simp [hbefore]
    | cons lexeme between =>
      -- the other bracket would stand in the stretch
      have hstretch : stretch.lexemes = between ++ bracket'.lexeme :: stretch'.lexemes :=
        (List.cons.inj hrest).2
      exact absurd (hstretch ▸ stretch.balanced) (not_balanced_opening _ _ _)
  · rw [hbefore, List.length_append]
    omega

theorem append_opening_inj
    (h : before ++ bracket.lexeme :: stretch.lexemes =
      before' ++ bracket'.lexeme :: stretch'.lexemes) :
    before = before' ∧ bracket = bracket' ∧ stretch = stretch' := by
  have hlength := Nat.le_antisymm (length_le_of_append_eq h.symm) (length_le_of_append_eq h)
  obtain ⟨hbefore, hrest⟩ := List.append_inj h hlength
  obtain ⟨hbracket, hstretch⟩ := List.cons.inj hrest
  refine ⟨hbefore, ?_, ?_⟩
  · cases bracket
    cases bracket'
    simpa [Bracket.lexeme] using hbracket
  · cases stretch
    cases stretch'
    simpa using hstretch

/-- **A list of lexemes has one decomposition at most.** -/
theorem lexemes_injective : Function.Injective lexemes := by
  intro d d' h
  induction d using inductionOn generalizing d' with
  | whole stretch =>
    induction d' using inductionOn with
    | whole stretch' =>
      cases stretch
      cases stretch'
      simpa using h
    | extend d' bracket' stretch' =>
      rw [lexemes_whole, lexemes_extend] at h
      exact absurd (h ▸ stretch.balanced) (not_balanced_opening _ _ _)
  | extend d bracket stretch ih =>
    induction d' using inductionOn with
    | whole stretch' =>
      rw [lexemes_whole, lexemes_extend] at h
      exact absurd (h ▸ stretch'.balanced) (not_balanced_opening _ _ _)
    | extend d' bracket' stretch' =>
      rw [lexemes_extend, lexemes_extend] at h
      obtain ⟨hbefore, rfl, rfl⟩ := append_opening_inj h
      rw [ih hbefore]

end Decomposition

/-! ## The check -/

variable {lexemes before after : List Lexeme} {closing : Lexeme}

theorem openBrackets_eq_ok_iff_exists {brackets : List Bracket} :
    openBrackets lexemes = .ok brackets ↔
      ∃ d : Decomposition, d.lexemes = lexemes ∧ d.brackets = brackets := by
  rw [openBrackets_eq_ok_iff]
  constructor
  · exact Decomposition.exists_of_leavesOpen
  · rintro ⟨d, rfl, rfl⟩
    exact d.leavesOpen

theorem outOfPlace_iff_exists {fence : Fence} (ht : closing.token = .symbol (.closing fence)) :
    OutOfPlace before closing ↔
      ∃ d : Decomposition, d.lexemes = before ∧ d.Refuses fence := by
  constructor
  · rintro ⟨fence', brackets, ht', hopen, hlast⟩
    obtain rfl : fence = fence' := by simpa [ht] using ht'
    obtain ⟨d, rfl, rfl⟩ := Decomposition.exists_of_leavesOpen hopen
    refine ⟨d, rfl, ?_⟩
    rcases List.eq_nil_or_concat d.brackets with hnil | ⟨outer, innermost, hconcat⟩
    · exact .inl hnil
    · rw [List.concat_eq_append] at hconcat
      exact .inr ⟨outer, innermost, hconcat, hlast innermost (by rw [hconcat]; simp)⟩
  · rintro ⟨d, rfl, hrefuses⟩
    refine ⟨fence, d.brackets, ht, d.leavesOpen, ?_⟩
    intro last hlast
    rcases hrefuses with hnil | ⟨outer, innermost, hconcat, hmatch⟩
    · simp [hnil] at hlast
    · rw [hconcat, List.getLast?_concat] at hlast
      cases hlast
      exact hmatch

/-- The check ends at the brackets out of place, if it comes to them at all. -/
theorem endsAt_iff_outOfPlace : EndsAt before closing ↔ OutOfPlace before closing := by
  constructor
  · rintro ⟨⟨brackets, hopen⟩, hfail⟩
    obtain ⟨closing', ⟨before', after', heq, hout, -⟩, -⟩ := openBrackets_eq_error_iff.1 (hfail [])
    rcases List.eq_nil_or_concat after' with rfl | ⟨between, last, rfl⟩
    · obtain ⟨rfl, hclosing⟩ := List.append_inj' heq rfl
      obtain rfl := (List.cons.inj hclosing).1
      exact hout
    · -- the bracket that the fault tells of would stand before, where the check has passed
      rw [List.concat_eq_append, ← List.cons_append, ← List.append_assoc] at heq
      obtain ⟨rfl, -⟩ := List.append_inj' heq rfl
      rw [openBrackets_eq_error_iff.2 ⟨closing', hout.first, rfl⟩] at hopen
      cases hopen
  · intro hout
    obtain ⟨fence, brackets, -, hopen, -⟩ := id hout
    exact ⟨⟨brackets, openBrackets_eq_ok_iff.2 hopen⟩,
      fun after => openBrackets_eq_error_iff.2 ⟨closing, hout.first, rfl⟩⟩

/-- The check ends at one place only. -/
theorem EndsAt.unique {before' after' : List Lexeme} {closing' : Lexeme}
    (h : EndsAt before closing) (h' : EndsAt before' closing')
    (heq : before ++ closing :: after = before' ++ closing' :: after') :
    before = before' ∧ closing = closing' ∧ after = after' := by
  rw [endsAt_iff_outOfPlace] at h h'
  have hlength := Nat.le_antisymm (h.length_le h' heq) (h'.length_le h heq.symm)
  obtain ⟨hbefore, hrest⟩ := List.append_inj heq hlength
  exact ⟨hbefore, List.cons.inj hrest⟩

theorem openBrackets_eq_error_iff_endsAt {fault : Fault} :
    openBrackets lexemes = .error fault ↔
      ∃ before closing after fence, lexemes = before ++ closing :: after ∧
        closing.token = .symbol (.closing fence) ∧ EndsAt before closing ∧
        fault = unbalanced closing.span := by
  rw [openBrackets_eq_error_iff]
  constructor
  · rintro ⟨closing, ⟨before, after, heq, hout, -⟩, hfault⟩
    obtain ⟨fence, brackets, ht, -⟩ := id hout
    exact ⟨before, closing, after, fence, heq, ht, endsAt_iff_outOfPlace.2 hout, hfault⟩
  · rintro ⟨before, closing, after, fence, rfl, -, hends, hfault⟩
    exact ⟨closing, (endsAt_iff_outOfPlace.1 hends).first, hfault⟩

/-- The whole check passes exactly the balanced lists. -/
theorem checkBrackets_eq_ok_iff_balanced :
    checkBrackets lexemes = .ok () ↔ Balanced (lexemes.map (·.token)) := by
  rw [checkBrackets_eq_ok_iff]
  constructor
  · intro h
    have hopen : openBrackets lexemes = .ok [] := by rw [openBrackets, h]; rfl
    obtain ⟨⟨first, opened⟩, rfl, hbrackets⟩ := openBrackets_eq_ok_iff_exists.1 hopen
    obtain rfl : opened = [] := List.map_eq_nil_iff.1 hbrackets
    rw [Decomposition.lexemes_whole]
    exact first.balanced
  · intro h
    exact followBrackets_balanced h lexemes rfl []

/-- `( {: ] [ :}`, all of them at one place, as those of a text never are. -/
def invisibleLexemes : List Lexeme :=
  [.opening .paren, .opening .invisible, .closing .square, .opening .square,
    .closing .invisible].map fun symbol => ⟨.symbol symbol, ⟨0, 1⟩⟩

/-- **The check finds the decomposition.** Of any lexemes, also such as no text has, the check
returns exactly the opening brackets of their decomposition into balanced stretches, of which there is
one at most. It ends at a closing bracket exactly if the lexemes before have a decomposition that
leaves no bracket open, or whose innermost bracket does not match; a fault is told of exactly such a
place, and there is one at most. -/
theorem openBrackets_decomposition (lexemes : List Lexeme) :
    (∀ brackets, openBrackets lexemes = .ok brackets ↔
      ∃ d : Decomposition, d.lexemes = lexemes ∧ d.brackets = brackets) ∧
    (∀ d d' : Decomposition, d.lexemes = lexemes → d'.lexemes = lexemes → d = d') ∧
    (∀ before closing after fence, lexemes = before ++ closing :: after →
      closing.token = .symbol (.closing fence) →
      (EndsAt before closing ↔ ∃ d : Decomposition, d.lexemes = before ∧ d.Refuses fence)) ∧
    (∀ fault, openBrackets lexemes = .error fault ↔
      ∃ before closing after fence, lexemes = before ++ closing :: after ∧
        closing.token = .symbol (.closing fence) ∧ EndsAt before closing ∧
        fault = unbalanced closing.span) ∧
    ∀ before closing after before' closing' after', lexemes = before ++ closing :: after →
      lexemes = before' ++ closing' :: after' → EndsAt before closing → EndsAt before' closing' →
        before = before' ∧ closing = closing' ∧ after = after' := by
  refine ⟨?_, ?_, ?_, ?_, ?_⟩
  · intro brackets
    exact openBrackets_eq_ok_iff_exists
  · intro d d' hd hd'
    exact Decomposition.lexemes_injective (hd.trans hd'.symm)
  · intro before closing after fence _ ht
    rw [endsAt_iff_outOfPlace, outOfPlace_iff_exists ht]
  · intro fault
    exact openBrackets_eq_error_iff_endsAt
  · intro before closing after before' closing' after' heq heq' h h'
    exact h.unique h' (heq.symm.trans heq')

/-- Invisible brackets pair up with any kind, so that the parenthesis alone is left open; a brace does
not close it. -/
theorem openBrackets_decomposition_invisible :
    openBrackets invisibleLexemes = .ok [⟨.paren, ⟨0, 1⟩⟩] ∧
      EndsAt invisibleLexemes ⟨.symbol (.closing .brace), ⟨0, 1⟩⟩ := by
  have hinner : Balanced (invisibleLexemes.tail.map (·.token)) :=
    .append (.wrap rfl .nil) (.wrap rfl .nil)
  let d : Decomposition := ⟨⟨[], .nil⟩, [(⟨.paren, ⟨0, 1⟩⟩, ⟨_, hinner⟩)]⟩
  constructor
  · obtain ⟨hok, -⟩ := openBrackets_decomposition invisibleLexemes
    exact (hok _).2 ⟨d, rfl, rfl⟩
  · obtain ⟨-, -, hends, -⟩ := openBrackets_decomposition
      (invisibleLexemes ++ [⟨.symbol (.closing .brace), ⟨0, 1⟩⟩])
    exact (hends _ _ [] .brace rfl rfl).2 ⟨d, rfl, .inr ⟨[], _, rfl, rfl⟩⟩

end MathMarkup.Formula
