import MathMarkup.Proofs.Formula.Scanning
import MathMarkup.Proofs.Formula.Texts
import MathMarkup.Proofs.Presentation.Writable

/-!
# What formulas write as it stands

Digits, letters and the glyphs of symbols are written without escaping. None of them can be taken for
markup: the table of spellings holds glyphs in their written form, and the characters with a meaning
in markup are spellings of the table themselves, so that no letter is one of them.

Principal results: `holds_isGlyph_of_munched` — what a token that was read writes as it stands is in its
written form; `writable_sequence` — whatever is derived from tokens that were read can be written.
-/

namespace MathMarkup.Formula

open MathMarkup.Markup.Xml MathMarkup.Presentation

theorem isGlyph_of_mem_spellings : ∀ s ∈ spellings, ∀ g ∈ s.symbol.glyphs, IsGlyph g := by
  decide +kernel

/-- The characters with a meaning in markup are spellings. -/
theorem isGlyph_letter {c : Char} (h : Munched (.letter c)) : IsGlyph (String.singleton c) := by
  have spelled : ['<', '>', '&'].all (fun d => spellings.any fun s => s.letters = [d]) = true := by
    decide +kernel
  have other : ∀ d ∈ ['<', '>', '&'], c ≠ d := by
    rintro d hd rfl
    obtain ⟨s, hs, hl⟩ := List.any_eq_true.1 (List.all_eq_true.1 spelled c hd)
    exact h s hs (of_decide_eq_true hl)
  have h1 := other '<' (by decide)
  have h2 := other '>' (by decide)
  have h3 := other '&' (by decide)
  refine isData_of_plain (by decide) ?_
  simp [isContentCharacter, h1, h2, h3]

theorem isGlyph_number {digits : String} (h : Munched (.number digits)) : IsGlyph digits := by
  have other : ∀ c ∈ digits.toList, ∀ d ∈ ['<', '>', '&'], c ≠ d := by
    rintro c hc d hd rfl
    have outside : ['<', '>', '&'].all (fun d => !(isDecimalDigit d || d = '.')) = true := by
      decide
    have hc' := List.all_eq_true.1 outside c hd
    rcases h c hc with h | h
    · simp [h] at hc'
    · simp [h] at hc'
  refine isData_of_plain (by decide) fun c hc => ?_
  have h1 := other c hc '<' (by decide)
  have h2 := other c hc '>' (by decide)
  have h3 := other c hc '&' (by decide)
  simp [isContentCharacter, h1, h2, h3]

/-- **What a token that was read writes as it stands is in its written form.** -/
theorem holds_isGlyph_of_munched {t : Token} (h : Munched t) : t.Holds IsGlyph fun _ => True := by
  cases t with
  | endOfInput => trivial
  | number digits => exact isGlyph_number h
  | letter c => exact isGlyph_letter h
  | text content => trivial
  | symbol s =>
    obtain ⟨spelling, hm, rfl⟩ := h
    exact isGlyph_of_mem_spellings spelling hm

/-- **What is derived from tokens that were read can be written.** -/
theorem writable_sequence (d : List RatioSyntax) (h : ∀ t ∈ sequenceTokens d, Munched t) :
    ∀ n ∈ typeset (expressionOf d), n.Writable := by
  intro n hn
  have hholds := holds_sequence d (fun t ht => holds_isGlyph_of_munched (h t ht)) n hn
  exact hholds.writable

end MathMarkup.Formula
