import MathMarkup.Proofs.Formula.LexicalSyntax

/-!
# Tokens tile their text

* `bracketsAfter` — whether a verbatim argument in brackets may stand behind some lexemes.
* `Tiles` — lexemes that lie one behind another in a text and leave only white space between them.

Principal results: `scanFrom_tiles` — what scanning a part of a text yields;
`scan_tiles` — the lexemes of a text tile it up to its end or up to a verbatim text without an end.
-/

namespace MathMarkup.Formula

open MathMarkup.Text

variable {inBrackets : Bool} {text : List Char} {start stop : Nat} {lexemes : List Lexeme}

/-- Whether a verbatim argument in brackets may stand behind the lexemes; behind none it may as
`inBrackets` says. -/
def bracketsAfter (inBrackets : Bool) (lexemes : List Lexeme) : Bool :=
  (lexemes.getLast?.map (·.token.takesVerbatim)).getD inBrackets

theorem bracketsAfter_cons (lexeme : Lexeme) (lexemes : List Lexeme) :
    bracketsAfter inBrackets (lexeme :: lexemes) =
      bracketsAfter lexeme.token.takesVerbatim lexemes := by
  unfold bracketsAfter
  rw [List.getLast?_cons]
  cases lexemes.getLast? <;> rfl

/-- The lexemes tile a text that starts at the byte `start`, up to the byte `stop`. -/
structure Tiles (inBrackets : Bool) (start : Nat) (text : List Char) (stop : Nat)
    (lexemes : List Lexeme) : Prop where
  /-- The characters in the span of a lexeme are those that its token is read from. -/
  read : ∀ earlier lexeme later, lexemes = earlier ++ lexeme :: later →
    ∃ before written rest, text = before ++ (written ++ rest) ∧
      lexeme.span = ⟨start + byteLength before,
        start + byteLength before + byteLength written⟩ ∧
      Reads (bracketsAfter inBrackets earlier) lexeme.token written rest
  nonempty : ∀ lexeme ∈ lexemes, lexeme.span.start < lexeme.span.stop
  inside : ∀ lexeme ∈ lexemes, start ≤ lexeme.span.start ∧ lexeme.span.stop ≤ stop
  ordered : lexemes.Pairwise fun a b => a.span.stop ≤ b.span.start
  /-- A character outside of all spans is white space. -/
  covered : ∀ before c after, text = before ++ c :: after → start + byteLength before < stop →
    isBlank c = false →
      ∃ lexeme ∈ lexemes, lexeme.span.start ≤ start + byteLength before ∧
        start + byteLength before + c.utf8Size ≤ lexeme.span.stop

/-! ## Places in a text -/

theorem byteLength_pos {written : List Char} (h : written ≠ []) : 0 < byteLength written := by
  obtain ⟨c, rest, rfl⟩ := List.exists_cons_of_ne_nil h
  have := c.utf8Size_pos
  rw [byteLength]
  omega

/-! ## One lexeme -/

/-- White space alone needs no lexeme. -/
theorem Tiles.blank {blanks : List Char} (hb : ∀ c ∈ blanks, isBlank c = true)
    (inBrackets : Bool) (start : Nat) (rest : List Char) :
    Tiles inBrackets start (blanks ++ rest) (start + byteLength blanks) [] := by
  refine ⟨by simp, by simp, by simp, .nil, ?_⟩
  intro before c after heq hlt hc
  rcases append_eq_append_cons heq with ⟨between, rfl, -⟩ | ⟨between, rfl, -⟩
  · rw [hb c (by simp)] at hc
    cases hc
  · rw [byteLength_append] at hlt
    omega

/-- White space and a token in front of a text that is tiled. -/
theorem Tiles.token {blanks written rest : List Char} {t : Token}
    (hb : ∀ c ∈ blanks, isBlank c = true) (hread : Reads inBrackets t written rest)
    (hlater : Tiles t.takesVerbatim (start + byteLength blanks + byteLength written) rest stop
      lexemes) (hstop : start + byteLength blanks + byteLength written ≤ stop) :
    Tiles inBrackets start (blanks ++ (written ++ rest)) stop
      (⟨t, ⟨start + byteLength blanks, start + byteLength blanks + byteLength written⟩⟩ ::
        lexemes) := by
  have hpos : 0 < byteLength written := by
    obtain ⟨c, following, rfl, -⟩ := hread.written_eq_cons
    exact byteLength_pos (by simp)
  constructor
  case read =>
    intro earlier lexeme later heq
    cases earlier with
    | nil =>
      obtain ⟨rfl, rfl⟩ := List.cons.inj heq
      exact ⟨blanks, written, rest, rfl, rfl, hread⟩
    | cons first earlier =>
      obtain ⟨hfirst, hothers⟩ := List.cons.inj heq
      subst hfirst
      obtain ⟨before, characters, after, rfl, hspan, hreads⟩ :=
        hlater.read earlier lexeme later hothers
      refine ⟨blanks ++ (written ++ before), characters, after, by simp, ?_, ?_⟩
      · rw [hspan]
        simp only [byteLength_append, Span.mk.injEq]
        omega
      · rw [bracketsAfter_cons]
        exact hreads
  case nonempty =>
    refine List.forall_mem_cons.2 ⟨?_, hlater.nonempty⟩
    show start + byteLength blanks < start + byteLength blanks + byteLength written
    omega
  case inside =>
    refine List.forall_mem_cons.2 ⟨⟨Nat.le_add_right _ _, hstop⟩, ?_⟩
    intro lexeme hmem
    have := hlater.inside lexeme hmem
    exact ⟨by omega, this.2⟩
  case ordered =>
    exact List.pairwise_cons.2 ⟨fun lexeme hmem => (hlater.inside lexeme hmem).1, hlater.ordered⟩
  case covered =>
    intro before c after heq hlt hc
    rcases append_eq_append_cons heq with ⟨between, rfl, -⟩ | ⟨between, rfl, heq'⟩
    · rw [hb c (by simp)] at hc
      cases hc
    rcases append_eq_append_cons heq' with ⟨between', rfl, -⟩ | ⟨between', rfl, rfl⟩
    · refine ⟨_, List.mem_cons_self, ?_, ?_⟩
      · simp only [byteLength_append]
        omega
      · simp only [byteLength_append, byteLength]
        omega
    · have hplace : start + byteLength (blanks ++ (written ++ between')) =
          start + byteLength blanks + byteLength written + byteLength between' := by
        simp only [byteLength_append]
        omega
      rw [hplace] at hlt ⊢
      obtain ⟨lexeme, hmem, hspan⟩ := hlater.covered between' c after rfl hlt hc
      exact ⟨lexeme, List.mem_cons_of_mem _ hmem, hspan⟩

/-! ## A whole text -/

/-- The white space at the start of a text, and what follows it. -/
theorem eq_blanks_append {rest : List Char} (h : text.dropWhile isBlank = rest) :
    text = text.takeWhile isBlank ++ rest ∧ ∀ c ∈ text.takeWhile isBlank, isBlank c = true :=
  ⟨by rw [← h, List.takeWhile_append_dropWhile], List.all_eq_true.1 List.all_takeWhile⟩

theorem not_isBlank_of_dropWhile {c : Char} {following : List Char}
    (h : text.dropWhile isBlank = c :: following) : isBlank c = false := by
  have := List.head?_dropWhile_not isBlank text
  rw [h] at this
  simpa using this

/-- **Scanning tiles what it reads**: up to the end of the text, which it marks, or up to a verbatim
text that has no end. -/
theorem scanFrom_tiles (inBrackets : Bool) (start : Nat) (text : List Char) :
    ((scanFrom inBrackets start text).fault = none ∧
      ∃ lexemes, (scanFrom inBrackets start text).lexemes =
          lexemes ++ [⟨.endOfInput, Span.empty (start + byteLength text)⟩] ∧
        Tiles inBrackets start text (start + byteLength text) lexemes) ∨
    ∃ before opener content closer, text = before ++ opener :: content ∧
      (scanFrom inBrackets start text).fault = some ⟨.unterminatedText,
        ⟨start + byteLength before, start + byteLength text⟩⟩ ∧
      Encloses (bracketsAfter inBrackets (scanFrom inBrackets start text).lexemes) opener closer ∧
      closer ∉ content ∧
      Tiles inBrackets start text (start + byteLength before)
        (scanFrom inBrackets start text).lexemes := by
  induction inBrackets, start, text using scanFrom.induct with
  | case1 inBrackets start text hend =>
    obtain ⟨htext, hb⟩ := eq_blanks_append hend
    rw [List.append_nil] at htext
    rw [scanFrom_end hend, ← htext]
    refine .inl ⟨rfl, [], rfl, ?_⟩
    rw [htext] at hb ⊢
    simpa [← htext] using Tiles.blank hb inBrackets start []
  | case2 inBrackets start text c following hc hm =>
    obtain ⟨htext, hb⟩ := eq_blanks_append hc
    obtain ⟨closer, he, hfree⟩ := munch_eq_none_iff.1 hm
    rw [scanFrom_unterminated hc hm]
    have htiles := Tiles.blank hb inBrackets start (c :: following)
    rw [← htext] at htiles
    refine .inr ⟨text.takeWhile isBlank, c, following, closer, htext, ?_, he, hfree, htiles⟩
    rw [Nat.add_assoc, ← byteLength_append, ← htext]
  | case3 inBrackets start text place c following hc m hm next ih =>
    obtain ⟨htext, hb⟩ := eq_blanks_append hc
    obtain ⟨hreads, hwritten⟩ := reads_of_munch (not_isBlank_of_dropWhile hc) hm
    rw [hwritten] at htext
    rw [scanFrom_munch hc hm]
    -- the places behind the token, counted from the start of the whole text
    have hplace : ∀ behind : List Char, start + byteLength
        (text.takeWhile isBlank ++ (m.written ++ behind)) = next + byteLength behind := by
      intro behind
      simp only [byteLength_append, next, place]
      omega
    have hend : start + byteLength text = next + byteLength m.rest := by
      rw [← hplace m.rest, ← htext]
    have hfirst : ∀ {stop : Nat} {lexemes : List Lexeme},
        Tiles m.token.takesVerbatim next m.rest stop lexemes → next ≤ stop →
          Tiles inBrackets start text stop (⟨m.token, ⟨place, next⟩⟩ :: lexemes) := by
      intro stop lexemes hlater hstop
      have := Tiles.token hb hreads hlater hstop
      rwa [← htext] at this
    rcases ih with ⟨hfault, lexemes, heq, hlater⟩ | ⟨before, opener, content, closer, hrest, hfault,
        he, hfree, hlater⟩
    · refine .inl ⟨hfault, ⟨m.token, ⟨place, next⟩⟩ :: lexemes, ?_, ?_⟩
      · rw [hend, List.cons_append, ← heq]
      · rw [hend]
        exact hfirst hlater (Nat.le_add_right _ _)
    · refine .inr ⟨text.takeWhile isBlank ++ (m.written ++ before), opener, content, closer, ?_, ?_,
        ?_, hfree, ?_⟩
      · rw [List.append_assoc, List.append_assoc, ← hrest]
        exact htext
      · rw [hplace before, hend]
        exact hfault
      · rw [bracketsAfter_cons]
        exact he
      · rw [hplace before]
        exact hfirst hlater (Nat.le_add_right _ _)

/-- A lexeme of a text marks its end, or its span holds the characters that its token is read from. -/
theorem reads_of_mem_scan {source : String} {lexeme : Lexeme} (h : lexeme ∈ (scan source).lexemes) :
    lexeme = ⟨.endOfInput, Span.empty (byteLength source.toList)⟩ ∨
      ∃ inBrackets before written rest, source.toList = before ++ (written ++ rest) ∧
        lexeme.span = ⟨byteLength before, byteLength before + byteLength written⟩ ∧
        Reads inBrackets lexeme.token written rest := by
  have hread : ∀ {stop : Nat} {lexemes : List Lexeme}, Tiles false 0 source.toList stop lexemes →
      lexeme ∈ lexemes → ∃ inBrackets before written rest,
        source.toList = before ++ (written ++ rest) ∧
          lexeme.span = ⟨byteLength before, byteLength before + byteLength written⟩ ∧
          Reads inBrackets lexeme.token written rest := by
    intro stop lexemes htiles hmem
    obtain ⟨earlier, later, hsplit⟩ := List.append_of_mem hmem
    obtain ⟨before, written, rest, htext, hspan, hreads⟩ := htiles.read earlier lexeme later hsplit
    rw [Nat.zero_add] at hspan
    exact ⟨_, before, written, rest, htext, hspan, hreads⟩
  change lexeme ∈ (scanFrom false 0 source.toList).lexemes at h
  rcases scanFrom_tiles false 0 source.toList with ⟨-, lexemes, heq, htiles⟩ |
    ⟨_, _, _, _, -, -, -, -, htiles⟩
  · rw [heq, List.mem_append, List.mem_singleton, Nat.zero_add] at h
    rcases h with hmem | hend
    · exact .inr (hread htiles hmem)
    · exact .inl hend
  · exact .inr (hread htiles h)

/-- No two lexemes of a text have the same span. -/
theorem scan_spans_pairwise {source : String} (h : (scan source).fault = none) :
    (scan source).lexemes.Pairwise fun a b => a.span ≠ b.span := by
  rcases scanFrom_tiles false 0 source.toList with ⟨-, lexemes, heq, htiles⟩ | ⟨_, _, _, _, -, hfault, -⟩
  · have hne : ∀ a ∈ lexemes, ∀ b : Lexeme, a.span.stop ≤ b.span.start → a.span ≠ b.span := by
      intro a ha b hle hspan
      have hlt := htiles.nonempty a ha
      rw [hspan] at hlt hle
      omega
    show (scanFrom false 0 source.toList).lexemes.Pairwise fun a b => a.span ≠ b.span
    rw [heq, List.pairwise_append]
    refine ⟨?_, List.pairwise_singleton _ _, ?_⟩
    · exact htiles.ordered.imp_of_mem fun ha _ hle => hne _ ha _ hle
    · intro a ha b hb
      rw [List.mem_singleton.1 hb]
      exact hne a ha _ (htiles.inside a ha).2
  · have hnone : (scanFrom false 0 source.toList).fault = none := h
    rw [hfault] at hnone
    cases hnone

/-- Every token takes a character. -/
theorem length_scanFrom_le (inBrackets : Bool) (start : Nat) (text : List Char) :
    (scanFrom inBrackets start text).lexemes.length ≤ text.length + 1 := by
  induction inBrackets, start, text using scanFrom.induct with
  | case1 inBrackets start text hend =>
    rw [scanFrom_end hend]
    simp
  | case2 inBrackets start text c following hc hm =>
    rw [scanFrom_unterminated hc hm]
    simp
  | case3 inBrackets start text place c following hc m hm next ih =>
    have hrest := length_rest_munch hm
    have hdrop := length_dropWhile_le isBlank text
    rw [hc, List.length_cons] at hdrop
    rw [scanFrom_munch hc hm]
    show (scanFrom m.token.takesVerbatim next m.rest).lexemes.length + 1 ≤ text.length + 1
    omega

/-- **The tokens of a text tile it.** Without a fault they reach to the end of the text, where its
mark stands. The only fault is a verbatim text without an end; it reaches to the end of the text, and
the tokens tile what is before it. In either case every token takes a character at least. -/
theorem scan_tiles (source : String) :
    (((scan source).fault = none ∧
      ∃ lexemes, (scan source).lexemes =
          lexemes ++ [⟨.endOfInput, Span.empty (byteLength source.toList)⟩] ∧
        Tiles false 0 source.toList (byteLength source.toList) lexemes) ∨
    ∃ before opener content closer, source.toList = before ++ opener :: content ∧
      (scan source).fault = some ⟨.unterminatedText,
        ⟨byteLength before, byteLength source.toList⟩⟩ ∧
      Encloses (bracketsAfter false (scan source).lexemes) opener closer ∧ closer ∉ content ∧
      Tiles false 0 source.toList (byteLength before) (scan source).lexemes) ∧
    (scan source).lexemes.length ≤ source.toList.length + 1 := by
  have htiles := scanFrom_tiles false 0 source.toList
  simp only [Nat.zero_add] at htiles
  exact ⟨htiles, length_scanFrom_le false 0 source.toList⟩

end MathMarkup.Formula
