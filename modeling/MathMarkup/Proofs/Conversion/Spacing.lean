import MathMarkup.Proofs.Conversion.WellFormed
import MathMarkup.Proofs.Formula.Relocation
import MathMarkup.Proofs.Formula.Spacing

/-!
# Formulas with other white space

Principal results: `readFormula_spaced` — with other white space between its tokens a text spells the same
expression or has the same fault at the new place; `convert_spaced` — and so it has the same markup.
-/

namespace MathMarkup

open Formula Markup Presentation Text

variable {source spread : String} {lead : List Char} {spaced : List (Lexeme × List Char)}

/-- The last lexeme of a text without a fault is what the readers find behind all of them. -/
theorem finishOf_scan (h : (scan source).fault = none) :
    finishOf (scan source).lexemes ∈ (scan source).lexemes ∧
      (scan source).lexemes.getLast? = some (finishOf (scan source).lexemes) := by
  rcases (scan_tiles source).1 with ⟨-, lexemes, heq, -⟩ | ⟨_, _, _, _, -, hsome, -⟩
  · rw [heq, finishOf_concat, List.getLast?_concat]
    exact ⟨List.mem_append_right _ List.mem_cons_self, rfl⟩
  · rw [hsome] at h
    cases h

/-- **With other white space the same is read**, at other places. -/
theorem readFormula_spaced (hfault : (scan source).fault = none)
    (hfault' : (scan spread).fault = none)
    (htokens : (scan spread).lexemes.map (·.token) = (scan source).lexemes.map (·.token)) :
    ∃ place, (scan spread).lexemes = (scan source).lexemes.map (Lexeme.relocate place) ∧
      readFormula spread = (readFormula source).mapError (Fault.relocate place) := by
  obtain ⟨place, hplace⟩ := exists_relocate htokens (scan_spans_pairwise hfault)
  refine ⟨place, hplace, ?_⟩
  have hfinish : finishOf ((scan source).lexemes.map (Lexeme.relocate place)) =
      (finishOf (scan source).lexemes).relocate place := by
    have hlast := (finishOf_scan hfault').2
    rw [hplace, List.getLast?_map, (finishOf_scan hfault).2] at hlast
    exact (Option.some.inj hlast).symm
  rw [readFormula_eq_parse hfault, readFormula_eq_parse hfault', hplace, parse_relocate hfinish]

/-- **White space between tokens means nothing.** Let a text consist of tokens. If the slices in which they
stand are written with any other white space between them, and any before and behind them, the new text
has the same tokens, each at the new place of its slice. The white space must not be empty between two
tokens and must not start with a space behind a backslash. If the source is not kept beside the formula,
the new text has the same markup, or a fault with the same cause at the same token. -/
theorem convert_spaced (hfault : (scan source).fault = none)
    (hlexemes : spaced.map Prod.fst = (scan source).lexemes.dropLast)
    (hlead : ∀ c ∈ lead, isBlank c = true) (hspacing : Spacing spaced)
    (hspread : spread.toList = lead ++ spacedText source.toList spaced) :
    (scan spread).lexemes.map (·.token) = (scan source).lexemes.map (·.token) ∧
    scan spread = ⟨spacedLexemes source.toList (byteLength lead) spaced ++
      [⟨.endOfInput, Span.empty (byteLength spread.toList)⟩], none⟩ ∧
    ∀ settings display, settings.keepSource = false →
      match convert settings display source, convert settings display spread with
      | .ok markup, .ok markup' => markup = markup'
      | .error fault, .error fault' => fault.cause = fault'.cause ∧
          ∃ i : Nat, ((scan source).lexemes.map (·.span))[i]? = some fault.span ∧
            ((scan spread).lexemes.map (·.span))[i]? = some fault'.span
      | _, _ => False := by
  have hscan := scan_spaced hfault hlexemes hlead hspacing hspread
  have hfault' : (scan spread).fault = none := by rw [hscan]; rfl
  have htokens : (scan spread).lexemes.map (·.token) = (scan source).lexemes.map (·.token) := by
    obtain ⟨last, hlast, ht⟩ := (scan_sealed hfault).eq_append
    have hbody := congrArg (List.map (·.token)) hlexemes
    rw [List.map_map] at hbody
    rw [hscan, hlast, List.map_append, ← hbody, Scan.behind, List.map_append,
      tokens_spacedLexemes, List.map_singleton, List.map_singleton, ht]
    rfl
  refine ⟨htokens, hscan, ?_⟩
  intro settings display hplain
  obtain ⟨place, hplace, hread⟩ := readFormula_spaced hfault hfault' htokens
  unfold convert
  rw [hread]
  cases hparse : readFormula source with
  | ok expression =>
    exact congrArg String.ofList (emitFormula_of_plain hplain display _ _ _)
  | error fault =>
    refine ⟨rfl, ?_⟩
    rw [readFormula_eq_parse hfault] at hparse
    obtain ⟨lexeme, hmem, hspan⟩ := exists_lexeme_of_parse_error (finishOf_scan hfault).1 hparse
    obtain ⟨i, hi⟩ := List.mem_iff_getElem?.1 hmem
    refine ⟨i, ?_, ?_⟩
    · rw [List.getElem?_map, hi, Option.map_some, hspan]
    · rw [hplace, List.getElem?_map, List.getElem?_map, hi]
      show some (place lexeme.span) = some (place fault.span)
      rw [hspan]

/-- A tabulator behind a backslash, and the end of a line behind a slash. -/
theorem convert_spaced_backslash :
    ∃ markup, convert ⟨.never, false, false⟩ .inline "\\x/2" = .ok markup ∧
      convert ⟨.never, false, false⟩ .inline "\n\\\tx  /\n2 " = .ok markup := by
  let spaced : List (Lexeme × List Char) :=
    [(⟨.letter '\\', ⟨0, 1⟩⟩, ['\t']), (⟨.letter 'x', ⟨1, 2⟩⟩, [' ', ' ']),
      (⟨.symbol .slash, ⟨2, 3⟩⟩, ['\n']), (⟨.number "2", ⟨3, 4⟩⟩, [' '])]
  have hspacing : Spacing spaced := by
    constructor
    · simp only [spaced, List.forall_mem_cons]
      have isGap : ∀ {t gap}, gap.all isBlank = true → (t = .letter '\\' → gap.head? ≠ some ' ') →
          IsGap t gap := fun hblank hapart => ⟨List.all_eq_true.1 hblank, hapart⟩
      refine ⟨isGap ?_ ?_, isGap ?_ ?_, isGap ?_ ?_, isGap ?_ ?_, List.forall_mem_nil _⟩ <;> decide
    · decide
  have hconvert : convert ⟨.never, false, false⟩ .inline "\\x/2" =
      .ok "<math display=\"inline\"><mi>\\</mi><mfrac><mi>x</mi><mn>2</mn></mfrac></math>" := by
    decide +kernel
  obtain ⟨-, -, hsame⟩ := @convert_spaced "\\x/2" "\n\\\tx  /\n2 " ['\n'] spaced
    (by decide +kernel) (by decide +kernel) (List.all_eq_true.1 (by decide)) hspacing
    (by decide +kernel)
  have h := hsame ⟨.never, false, false⟩ .inline rfl
  rw [hconvert] at h
  cases hspread : convert ⟨.never, false, false⟩ .inline "\n\\\tx  /\n2 " with
  | error fault =>
    rw [hspread] at h
    cases h
  | ok markup =>
    rw [hspread] at h
    exact ⟨_, hconvert, by rw [h]⟩

end MathMarkup
