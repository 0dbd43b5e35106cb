import MathMarkup.Proofs.Document.References
import Mathlib.Data.List.TakeWhile

/-!
# Escaped texts are decoded to what they were

* `Harmless` — marks stand in a written text at most as references.

Principal result: `decodeReferences_escaped` — what is appended to a buffer is harmless, and decoding
gives the text back.
-/

namespace MathMarkup.Text

variable {marks output text written rest : List Char} {c : Char}

/-! ## What is appended -/

theorem flatMap_escapeMarked_of_free (h : ∀ c ∈ text, c ∉ marks) :
    text.flatMap (escapeMarked marks) = text := by
  rw [List.flatMap_congr fun c hc => escapeMarked_of_notMem (h c hc), List.flatMap_singleton']

/-- **The rounds append one character after the other**, and leave what the buffer held. -/
theorem appendEscaped_eq (marks output text : List Char) :
    appendEscaped marks output text = output ++ text.flatMap (escapeMarked marks) := by
  fun_induction appendEscaped marks output text with
  | case1 output text hdrop =>
    have hfree : ∀ c ∈ text, c ∉ marks := by simpa [List.dropWhile_eq_nil_iff] using hdrop
    rw [flatMap_escapeMarked_of_free hfree]
  | case2 output text mark after hdrop ih =>
    have hmark : mark ∈ marks := by
      have hhead := List.head_dropWhile_not (p := (· ∉ marks)) (l := text)
        (by rw [hdrop]; exact List.cons_ne_nil _ _)
      simp only [hdrop, List.head_cons] at hhead
      simpa using hhead
    have hfree : ∀ c ∈ text.takeWhile (· ∉ marks), c ∉ marks := fun c hc => by
      simpa using List.mem_takeWhile_imp hc
    have htext : text = text.takeWhile (· ∉ marks) ++ mark :: after := by
      rw [← hdrop, List.takeWhile_append_dropWhile]
    have hescaped := calc
      text.flatMap (escapeMarked marks)
        = (text.takeWhile (· ∉ marks) ++ mark :: after).flatMap (escapeMarked marks) := by rw [← htext]
      _ = text.takeWhile (· ∉ marks) ++ (referenceTo mark ++ after.flatMap (escapeMarked marks)) := by
        rw [List.flatMap_append, List.flatMap_cons, flatMap_escapeMarked_of_free hfree,
          escapeMarked_of_mem hmark]
    rw [ih, hescaped, List.append_assoc, List.append_assoc]

/-! ## Marks in a written text -/

/-- The characters for which there are references. -/
def ReferableMarks (marks : List Char) : Prop := '&' ∈ marks ∧ marks ⊆ ['&', '<', '>', '"']

/-- No mark but the ampersand stands in a written text, and the ampersand only where a reference to a mark
starts. -/
structure Harmless (marks written : List Char) : Prop where
  raw : ∀ mark ∈ marks, mark ≠ '&' → mark ∉ written
  ampersand : ∀ before after, written = before ++ '&' :: after →
    ∃ mark ∈ marks, referenceTo mark <+: '&' :: after

/-- A reference has its ampersand at the start and none of the other marks. -/
theorem referenceTo_eq_cons (h : c ∈ ['&', '<', '>', '"']) :
    ∃ name, referenceTo c = '&' :: (name ++ [';']) ∧ references.lookup name = some c ∧
      ∀ mark ∈ ['&', '<', '>', '"'], mark ∉ name ++ [';'] := by
  simp only [List.mem_cons, List.not_mem_nil, or_false] at h
  rcases h with rfl | rfl | rfl | rfl
  · exact ⟨['a', 'm', 'p'], by decide, by decide, by simp⟩
  · exact ⟨['l', 't'], by decide, by decide, by simp⟩
  · exact ⟨['g', 't'], by decide, by decide, by simp⟩
  · exact ⟨['q', 'u', 'o', 't'], by decide, by decide, by simp⟩

theorem Harmless.escapeMarked_append (hmarks : ReferableMarks marks) (h : Harmless marks rest) (c : Char) :
    Harmless marks (escapeMarked marks c ++ rest) := by
  by_cases hc : c ∈ marks
  · obtain ⟨name, hname, -, hfree⟩ := referenceTo_eq_cons (hmarks.2 hc)
    rw [escapeMarked_of_mem hc, hname, List.cons_append]
    refine ⟨fun mark hmark hne hmem => ?_, fun before after heq => ?_⟩
    · rcases List.mem_cons.1 hmem with rfl | hmem
      · exact hne rfl
      · exact (List.mem_append.1 hmem).elim (hfree mark (hmarks.2 hmark)) (h.raw mark hmark hne)
    · cases before with
      | nil =>
        refine ⟨c, hc, hname ▸ ?_⟩
        rw [← (List.cons.inj heq).2]
        exact ⟨rest, rfl⟩
      | cons _ before =>
        -- the rest of the reference has no ampersand, so that this one stands behind it
        have hbehind := List.append_eq_append_iff.1 (List.cons.inj heq).2
        rcases hbehind with ⟨between, rfl, hrest⟩ | ⟨between, hwithin, hrest⟩
        · exact h.ampersand between after hrest
        · cases between with
          | nil => exact h.ampersand [] after hrest.symm
          | cons _ between =>
            obtain ⟨rfl, -⟩ := List.cons.inj hrest
            exact absurd (hwithin ▸ by simp) (hfree '&' (by decide))
  · rw [escapeMarked_of_notMem hc, List.singleton_append]
    refine ⟨fun mark hmark hne hmem => ?_, fun before after heq => ?_⟩
    · rcases List.mem_cons.1 hmem with rfl | hmem
      · exact hc hmark
      · exact h.raw mark hmark hne hmem
    · cases before with
      | nil => exact absurd hmarks.1 ((List.cons.inj heq).1 ▸ hc)
      | cons _ before => exact h.ampersand before after (List.cons.inj heq).2

theorem harmless_escaped (hmarks : ReferableMarks marks) (text : List Char) :
    Harmless marks (text.flatMap (escapeMarked marks)) := by
  induction text with
  | nil => exact ⟨fun _ _ _ => List.not_mem_nil, fun before after heq => by simp at heq⟩
  | cons c text ih => exact ih.escapeMarked_append hmarks c

/-! ## Decoding -/

theorem decodeReferences_cons_of_ne (h : c ≠ '&') (rest : List Char) :
    decodeReferences (c :: rest) = c :: decodeReferences rest := by
  rw [decodeReferences, if_neg h]

/-- A reference that is known is decoded, whatever stands behind it: its own semicolon is the first. -/
theorem Refers.decodeReferences_append (h : Refers written c) (rest : List Char) :
    decodeReferences (written ++ rest) = c :: decodeReferences rest := by
  obtain ⟨name, hlookup, rfl⟩ := h
  rw [List.cons_append, List.append_assoc, List.singleton_append, decodeReferences, if_pos rfl]
  have hsplit := splitAtFirst_append (notMem_of_lookup hlookup).2 rest
  split
  · rename_i hnone
    rw [hsplit] at hnone
    cases hnone
  · rename_i hsome
    rw [hsplit] at hsome
    cases hsome
    rw [hlookup]

theorem decodeReferences_escapeMarked (hmarks : ReferableMarks marks) (text : List Char) :
    decodeReferences (text.flatMap (escapeMarked marks)) = text := by
  induction text with
  | nil => rw [List.flatMap_nil, decodeReferences]
  | cons c text ih =>
    rw [List.flatMap_cons]
    by_cases hc : c ∈ marks
    · obtain ⟨name, hname, hlookup, -⟩ := referenceTo_eq_cons (hmarks.2 hc)
      rw [escapeMarked_of_mem hc, Refers.decodeReferences_append ⟨name, hlookup, hname⟩, ih]
    · rw [escapeMarked_of_notMem hc, List.singleton_append,
        decodeReferences_cons_of_ne (ne_of_mem_of_not_mem hmarks.1 hc).symm, ih]

/-- **Escaping only appends, what it appends is harmless, and decoding gives the text back**, whatever the
buffer held, and also where the text holds references or parts of them. -/
theorem decodeReferences_escaped (output text : List Char) :
    (∃ written, appendContent output text = output ++ written ∧ written = escapeContent text ∧
      Harmless ['&', '<', '>'] written ∧ decodeReferences written = text) ∧
    ∃ written, appendAttribute output text = output ++ written ∧ written = escapeAttribute text ∧
      Harmless ['&', '"', '<'] written ∧ decodeReferences written = text := by
  have happended : ∀ marks, ReferableMarks marks → ∃ written,
      appendEscaped marks output text = output ++ written ∧
        written = text.flatMap (escapeMarked marks) ∧
        Harmless marks written ∧ decodeReferences written = text := fun marks hmarks =>
    ⟨_, appendEscaped_eq marks output text, rfl, harmless_escaped hmarks text,
      decodeReferences_escapeMarked hmarks text⟩
  exact ⟨happended contentMarks ⟨by decide, by decide⟩, happended attributeMarks ⟨by decide, by decide⟩⟩

end MathMarkup.Text
