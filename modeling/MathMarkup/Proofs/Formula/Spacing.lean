import MathMarkup.Proofs.Formula.Separation

/-!
# White space between tokens

* `Span.slice` — the characters of a text in a span.
* `Spacing` — white space that may be put between the lexemes of a text.
* `spacedText`, `spacedLexemes` — the slices of lexemes with other white space between them, and the
  lexemes at their new places.

Principal results: `Reads.before_gap` — what stands behind a gap changes no token;
`scan_spaced` — with other white space a text has the same tokens.
-/

namespace MathMarkup.Formula

open MathMarkup.Text

variable {inBrackets : Bool} {c : Char} {t : Token} {written rest gap after text : List Char}

/-! ## Gaps -/

/-- White space that can stand behind a token. A space behind a backslash would make another token of
the two. -/
structure IsGap (t : Token) (gap : List Char) : Prop where
  blank : ∀ c ∈ gap, isBlank c = true
  apart : t = .letter '\\' → gap.head? ≠ some ' '

/-- Spelled with a backslash and a space, or without any space. -/
def Spelling.sparesSpace (s : Spelling) : Bool :=
  s.letters = ['\\', ' '] || !s.letters.contains ' ' && s.letters != ['\\']

theorem sparesSpace_spellings : spellings.all Spelling.sparesSpace = true := by decide +kernel

/-- The only spelling with white space in it is a backslash and a space. -/
theorem letters_eq_of_mem_blank {s : Spelling} (hs : s ∈ spellings) (hc : c ∈ s.letters)
    (hb : isBlank c = true) : c = ' ' ∧ s.letters = ['\\', ' '] := by
  obtain rfl := eq_space_of_mem_letters hs hc hb
  have hspares := List.all_eq_true.1 sparesSpace_spellings s hs
  simp only [Spelling.sparesSpace, Bool.or_eq_true, decide_eq_true_eq, Bool.and_eq_true] at hspares
  rcases hspares with h | ⟨h, -⟩
  · exact ⟨rfl, h⟩
  · simp [hc] at h

/-- A backslash alone is no spelling. -/
theorem letters_ne_backslash {s : Spelling} (hs : s ∈ spellings) : s.letters ≠ ['\\'] := by
  intro h
  have hspares := List.all_eq_true.1 sparesSpace_spellings s hs
  simp [Spelling.sparesSpace, h] at hspares

/-- A spelling that starts a token and white space behind it starts the token, unless it is a backslash
and a space and so is the text. -/
theorem prefix_of_prefix_blank {s : Spelling} (hs : s ∈ spellings) (hc : isBlank c = true)
    (h : s.letters <+: written ++ c :: after) :
    s.letters <+: written ∨ written = ['\\'] ∧ c = ' ' := by
  by_cases hmem : c ∈ s.letters
  · obtain ⟨rfl, hletters⟩ := letters_eq_of_mem_blank hs hmem hc
    rw [hletters] at h ⊢
    obtain ⟨others, heq⟩ := h
    cases written with
    | nil => cases heq
    | cons d written =>
      obtain ⟨rfl, hsecond⟩ := List.cons.inj heq
      cases written with
      | nil => exact .inr ⟨rfl, rfl⟩
      | cons e written =>
        obtain ⟨rfl, -⟩ := List.cons.inj hsecond
        exact .inl ⟨written, rfl⟩
  · exact .inl (prefix_of_prefix_append hmem h)

/-- **A token at the end of a text is read as it was before other text.** -/
theorem Reads.before_nil (h : Reads inBrackets t written rest) : Reads inBrackets t written [] := by
  have shorter : ∀ {s : Spelling}, s.letters <+: written ++ [] → s.letters <+: written ++ rest := by
    intro s hp
    rw [List.append_nil] at hp
    exact hp.trans (List.prefix_append _ _)
  have noDigit : ¬ StartsWithDigit [] := by simp [StartsWithDigit]
  have noFraction : ¬ StartsWithFraction [] := by simp [StartsWithFraction]
  cases h with
  | verbatim he hfree => exact .verbatim he hfree
  | whole hd _ _ => exact .whole hd noDigit noFraction
  | decimal hw hf _ => exact .decimal hw hf noDigit
  | symbol hmem hl hopens hlongest =>
    exact .symbol hmem hl hopens fun s' hs' hp => hlongest s' hs' (shorter hp)
  | letter hb hd hopens hnone =>
    exact .letter hb hd hopens fun s hs hp => hnone s hs (shorter hp)

/-- **A token before white space is read as it was before other text.** -/
theorem Reads.before_blank (h : Reads inBrackets t written rest) (hc : isBlank c = true)
    (hbackslash : t = .letter '\\' → c ≠ ' ') (after : List Char) :
    Reads inBrackets t written (c :: after) := by
  have hdigit : isDecimalDigit c = false := by
    refine eq_false_of_ne_true fun hd => ?_
    rw [not_isBlank_of_isDecimalDigit hd] at hc
    cases hc
  have noDigit : ¬ StartsWithDigit (c :: after) := by
    rintro ⟨d, hhead, hd⟩
    cases hhead
    rw [hdigit] at hd
    cases hd
  have noFraction : ¬ StartsWithFraction (c :: after) := by
    rintro ⟨fraction, heq, -⟩
    obtain ⟨rfl, -⟩ := List.cons.inj heq
    exact absurd hc (by decide)
  cases h with
  | verbatim he hfree => exact .verbatim he hfree
  | whole hd _ _ => exact .whole hd noDigit noFraction
  | decimal hw hf _ => exact .decimal hw hf noDigit
  | @symbol s d letters _ hmem hl hopens hlongest =>
    refine .symbol hmem hl hopens fun s' hs' hp => ?_
    rw [← List.cons_append] at hp
    rcases prefix_of_prefix_blank hs' hc hp with hp | ⟨hw, -⟩
    · exact hlongest s' hs' (hp.trans (List.prefix_append _ _))
    · rw [← hl] at hw
      exact absurd hw (letters_ne_backslash hmem)
  | @letter d _ hb hd hopens hnone =>
    refine .letter hb hd hopens fun s hs hp => ?_
    rw [← List.singleton_append] at hp
    rcases prefix_of_prefix_blank hs hc hp with hp | ⟨hw, hspace⟩
    · exact hnone s hs (hp.trans (List.prefix_append _ _))
    · obtain ⟨rfl, -⟩ := List.cons.inj hw
      exact hbackslash rfl hspace

/-- **What stands behind a gap changes no token.** Without a gap nothing may stand there. -/
theorem Reads.before_gap (h : Reads inBrackets t written rest) (hgap : IsGap t gap)
    (hafter : gap = [] → after = []) : Reads inBrackets t written (gap ++ after) := by
  cases gap with
  | nil =>
    rw [hafter rfl]
    exact h.before_nil
  | cons c gap =>
    refine h.before_blank (hgap.blank c List.mem_cons_self) ?_ (gap ++ after)
    rintro rfl rfl
    exact hgap.apart rfl rfl

/-! ## Other white space between the lexemes of a text -/

/-- The characters of a text in a span. -/
def Span.slice (span : Span) (text : List Char) : List Char :=
  (takeBytes span.stop text).drop (takeBytes span.start text).length

theorem slice_append (before written rest : List Char) :
    Span.slice ⟨byteLength before, byteLength before + byteLength written⟩
      (before ++ (written ++ rest)) = written := by
  have hstop : takeBytes (byteLength before + byteLength written) (before ++ (written ++ rest)) =
      before ++ written := by
    rw [← byteLength_append, ← List.append_assoc, takeBytes_append]
  rw [Span.slice, hstop, takeBytes_append, List.drop_left]

/-- Lexemes with the white space that is put behind them. There is some between any two of them. -/
structure Spacing (spaced : List (Lexeme × List Char)) : Prop where
  gap : ∀ entry ∈ spaced, IsGap entry.1.token entry.2
  between : ∀ entry ∈ spaced.dropLast, entry.2 ≠ []

/-- The slices of a text in which the lexemes stand, with other white space behind them. -/
def spacedText (text : List Char) : List (Lexeme × List Char) → List Char
  | [] => []
  | (lexeme, gap) :: rest => lexeme.span.slice text ++ (gap ++ spacedText text rest)

/-- The lexemes at the places of their slices. -/
def spacedLexemes (text : List Char) (start : Nat) : List (Lexeme × List Char) → List Lexeme
  | [] => []
  | (lexeme, gap) :: rest =>
    let stop := start + byteLength (lexeme.span.slice text)
    ⟨lexeme.token, ⟨start, stop⟩⟩ :: spacedLexemes text (stop + byteLength gap) rest

theorem tokens_spacedLexemes (text : List Char) (spaced : List (Lexeme × List Char)) (start : Nat) :
    (spacedLexemes text start spaced).map (·.token) = spaced.map (·.1.token) := by
  induction spaced generalizing start with
  | nil => rfl
  | cons entry spaced ih => simp [spacedLexemes, ih]

theorem Spacing.tail {entry : Lexeme × List Char} {spaced : List (Lexeme × List Char)}
    (h : Spacing (entry :: spaced)) : Spacing spaced := by
  refine ⟨fun other hmem => h.gap other (List.mem_cons_of_mem _ hmem), fun other hmem => ?_⟩
  refine h.between other ?_
  cases spaced with
  | nil => cases hmem
  | cons next spaced =>
    rw [List.dropLast_cons_of_ne_nil (List.cons_ne_nil _ _)]
    exact List.mem_cons_of_mem _ hmem

/-- Without white space behind it a lexeme is the last one. -/
theorem Spacing.eq_nil {entry : Lexeme × List Char} {spaced : List (Lexeme × List Char)}
    (h : Spacing (entry :: spaced)) (hgap : entry.2 = []) : spaced = [] := by
  cases spaced with
  | nil => rfl
  | cons next spaced =>
    refine absurd hgap (h.between entry ?_)
    rw [List.dropLast_cons_of_ne_nil (List.cons_ne_nil _ _)]
    exact List.mem_cons_self

/-- The slice in which a lexeme stands is what its token is read from. -/
theorem Tiles.reads_slice {lexemes earlier later : List Lexeme} {lexeme : Lexeme} {stop : Nat}
    (h : Tiles inBrackets 0 text stop lexemes) (heq : lexemes = earlier ++ lexeme :: later) :
    ∃ rest, Reads (bracketsAfter inBrackets earlier) lexeme.token (lexeme.span.slice text) rest := by
  obtain ⟨before, written, rest, htext, hspan, hreads⟩ := h.read earlier lexeme later heq
  rw [Nat.zero_add] at hspan
  refine ⟨rest, ?_⟩
  rw [hspan, htext, slice_append]
  exact hreads

/-- The slices of a text are scanned to the tokens they were read as. The induction is on the lexemes
that are left; those before them decide whether an argument in brackets may come next. -/
theorem scanFrom_spaced {stop : Nat} {lexemes : List Lexeme}
    (htiles : Tiles inBrackets 0 text stop lexemes) :
    ∀ (spaced : List (Lexeme × List Char)) (earlier : List Lexeme),
      lexemes = earlier ++ spaced.map Prod.fst → Spacing spaced → ∀ start,
        scanFrom (bracketsAfter inBrackets earlier) start (spacedText text spaced) =
          Scan.behind (spacedLexemes text start spaced)
            ⟨[⟨.endOfInput, Span.empty (start + byteLength (spacedText text spaced))⟩], none⟩
  | [], earlier, _, _, start => by
    rw [spacedText, scanFrom_end rfl]
    rfl
  | (lexeme, gap) :: rest, earlier, heq, hspacing, start => by
    have hgap : IsGap lexeme.token gap := hspacing.gap _ List.mem_cons_self
    rw [List.map_cons] at heq
    obtain ⟨behind, hreads⟩ := htiles.reads_slice heq
    have hend : gap = [] → spacedText text rest = [] := by
      intro hnil
      rw [hspacing.eq_nil hnil, spacedText]
    have hreads' := hreads.before_gap hgap hend
    -- the lexeme decides alone what may stand behind it
    have hbrackets : bracketsAfter inBrackets (earlier ++ [lexeme]) = lexeme.token.takesVerbatim := by
      unfold bracketsAfter
      rw [List.getLast?_concat]
      rfl
    have hlater : lexemes = (earlier ++ [lexeme]) ++ rest.map Prod.fst := by
      rw [heq, List.append_assoc, List.singleton_append]
    have ih := scanFrom_spaced htiles rest (earlier ++ [lexeme]) hlater hspacing.tail
    rw [hbrackets] at ih
    rw [spacedText, scanFrom_reads hreads', scanFrom_blanks hgap.blank, ih, spacedLexemes]
    simp only [byteLength_append, Nat.add_assoc, Scan.behind]
    rfl

/-- **With other white space between its lexemes a text has the same tokens**, at the places to which
their slices were moved. -/
theorem scan_spaced {source spread : String} {lead : List Char}
    {spaced : List (Lexeme × List Char)} (hfault : (scan source).fault = none)
    (hlexemes : spaced.map Prod.fst = (scan source).lexemes.dropLast)
    (hlead : ∀ c ∈ lead, isBlank c = true) (hspacing : Spacing spaced)
    (hspread : spread.toList = lead ++ spacedText source.toList spaced) :
    scan spread = Scan.behind (spacedLexemes source.toList (byteLength lead) spaced)
      ⟨[⟨.endOfInput, Span.empty (byteLength spread.toList)⟩], none⟩ := by
  rcases (scan_tiles source).1 with ⟨-, lexemes, heq, htiles⟩ | ⟨_, _, _, _, -, hsome, -⟩
  · rw [heq, List.dropLast_concat] at hlexemes
    have hscan := scanFrom_spaced htiles spaced [] hlexemes.symm hspacing (byteLength lead)
    rw [scan, hspread, scanFrom_blanks hlead, Nat.zero_add, byteLength_append]
    exact hscan
  · rw [hsome] at hfault
    cases hfault

end MathMarkup.Formula
