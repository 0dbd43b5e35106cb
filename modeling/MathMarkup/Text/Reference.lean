/-!
# Character references

* `references` — the names that stand for characters with a meaning in a formula.
* `splitAtFirst` — the text before and after the first occurrence of a character.
* `decodeReferences` — a text with the known references replaced by their characters.
-/

namespace MathMarkup.Text

/-- The text before and after the first occurrence of `mark`, if there is one. -/
def splitAtFirst (mark : Char) : List Char → Option (List Char × List Char)
  | [] => none
  | c :: cs =>
    if c = mark then some ([], cs)
    else
      match splitAtFirst mark cs with
      | none => none
      | some (before, after) => some (c :: before, after)

/-- The two parts and the mark between them are the text, and the first part is free of it. -/
theorem splitAtFirst_eq_some {mark : Char} {text before after : List Char}
    (h : splitAtFirst mark text = some (before, after)) :
    text = before ++ mark :: after ∧ mark ∉ before := by
  induction text generalizing before after with
  | nil => simp [splitAtFirst] at h
  | cons c cs ih =>
    unfold splitAtFirst at h
    split at h
    · simp_all
    · next hc =>
      split at h
      · simp at h
      · next b a hsplit =>
        have := ih hsplit
        simp only [Option.some.injEq, Prod.mk.injEq] at h
        obtain ⟨rfl, rfl⟩ := h
        simp [this.1, this.2, Ne.symm hc]

theorem splitAtFirst_eq_none_iff {mark : Char} {text : List Char} :
    splitAtFirst mark text = none ↔ mark ∉ text := by
  induction text with
  | nil => simp [splitAtFirst]
  | cons c cs ih =>
    unfold splitAtFirst
    by_cases hc : c = mark
    · simp [hc]
    · cases hs : splitAtFirst mark cs with
      | none => simp [hc, Ne.symm hc, ← ih, hs]
      | some p =>
        simp only [hc, if_false, List.mem_cons, Ne.symm hc, false_or]
        have : mark ∈ cs := by
          apply Decidable.byContradiction
          intro hm
          rw [← ih, hs] at hm
          simp at hm
        simp [this]

/-- A text is split at a mark that is not in the part before it. -/
theorem splitAtFirst_append {mark : Char} {before : List Char} (h : mark ∉ before)
    (after : List Char) : splitAtFirst mark (before ++ mark :: after) = some (before, after) := by
  induction before with
  | nil => simp [splitAtFirst]
  | cons c before ih =>
    rw [List.mem_cons, not_or] at h
    rw [List.cons_append, splitAtFirst, if_neg (Ne.symm h.1), ih h.2]

/-- There is only one first occurrence. -/
theorem append_cons_inj_of_notMem {mark : Char} {before before' after after' : List Char}
    (h : mark ∉ before) (h' : mark ∉ before')
    (heq : before ++ mark :: after = before' ++ mark :: after') :
    before = before' ∧ after = after' := by
  have hsplit := splitAtFirst_append h after
  rw [heq, splitAtFirst_append h' after', Option.some.injEq, Prod.mk.injEq] at hsplit
  exact ⟨hsplit.1.symm, hsplit.2.symm⟩

theorem length_lt_of_splitAtFirst {mark : Char} {text before after : List Char}
    (h : splitAtFirst mark text = some (before, after)) : after.length < text.length := by
  rw [(splitAtFirst_eq_some h).1]
  simp
  omega

/-- The known references, by the text between `&` and `;`. -/
def references : List (List Char × Char) :=
  [("#34".toList, '"'), ("quot".toList, '"'),
   ("#38".toList, '&'), ("amp".toList, '&'),
   ("#39".toList, '\''), ("apos".toList, '\''),
   ("#60".toList, '<'), ("lt".toList, '<'),
   ("#62".toList, '>'), ("gt".toList, '>'),
   ("#96".toList, '`'), ("grave".toList, '`'),
   ("nbsp".toList, ' ')]

theorem mem_of_lookup {name : List Char} {c : Char} (h : references.lookup name = some c) :
    (name, c) ∈ references := by
  obtain ⟨earlier, later, hsplit, -⟩ := List.lookup_eq_some_iff.1 h
  rw [hsplit]
  exact List.mem_append_right _ List.mem_cons_self

/-- Every `&` reaches to the next `;`, wherever that is. If the text between them is a known name,
all of it becomes one character; otherwise all of it is kept. Without a `;` the rest is kept. -/
def decodeReferences : List Char → List Char
  | [] => []
  | c :: rest =>
    if c = '&' then
      match _split : splitAtFirst ';' rest with
      | none => c :: rest
      | some (name, after) =>
        match references.lookup name with
        | some character => character :: decodeReferences after
        | none => (c :: name) ++ ';' :: decodeReferences after
    else c :: decodeReferences rest
termination_by text => text.length
decreasing_by
  · have := length_lt_of_splitAtFirst _split
    simp only [List.length_cons]
    omega
  · have := length_lt_of_splitAtFirst _split
    simp only [List.length_cons]
    omega
  · simp

end MathMarkup.Text
