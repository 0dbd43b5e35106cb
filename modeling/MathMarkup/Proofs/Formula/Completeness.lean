import MathMarkup.Proofs.Formula.Soundness

/-!
# What the readers refuse to miss

* `CompleteOperand`, `CompleteRatio` — a reader takes all that the grammar derives within a number of
  levels.
* `Sealed` — lexemes that end with the mark of the end, which stands nowhere else.

Principal results: `Level.complete_ofNat` — the readers with `n` levels left are complete for `n`
levels; `readExpression_eq_ok_iff` — the reader of whole expressions is sound and complete.
-/

namespace MathMarkup.Formula

variable {lexemes rest : List Lexeme} {lexeme finish : Lexeme} {n : Nat}

/-! ## Completeness -/

/-- The reader takes every operand of the grammar of at most `n` levels, whatever follows it. -/
def CompleteOperand (n : Nat) (operand : Reader Operand) : Prop :=
  ∀ (d : OperandSyntax) lexemes rest, Spells d.tokens lexemes rest → d.operand.levels ≤ n →
    operand lexemes = .ok (d.operand, rest)

/-- The reader takes every ratio of the grammar of at most `n` levels, where nothing follows that
could belong to it. -/
def CompleteRatio (n : Nat) (ratio : Reader Ratio) : Prop :=
  ∀ (d : RatioSyntax) lexemes rest, Spells d.tokens lexemes rest → d.ratio.levels ≤ n →
    NoScript (rest.map (·.token)) → NoSlash (rest.map (·.token)) →
    ratio lexemes = .ok (d.ratio, rest)

theorem readTerm_complete {operand : Reader Operand} (ho : CompleteOperand n operand)
    (d : TermSyntax) (hs : Spells d.tokens lexemes rest) (hl : d.term.levels ≤ n)
    (hr : NoScript (rest.map (·.token))) : readTerm operand lexemes = .ok (d.term, rest) := by
  have hstop := scriptSign_eq_none hr
  unfold readTerm
  cases d with
  | bare base =>
    rw [TermSyntax.tokens] at hs
    rw [TermSyntax.term, Term.levels] at hl
    rw [ho base _ _ hs hl]
    dsimp only
    rw [hstop, TermSyntax.term]
  | one base side script =>
    rw [TermSyntax.tokens] at hs
    rw [TermSyntax.term, Term.levels_withScript] at hl
    obtain ⟨l1, hbase, hs⟩ := hs.of_append
    obtain ⟨sign, l2, rfl, hsign, hscript⟩ := hs.of_cons
    rw [ho base _ _ hbase (by omega)]
    dsimp only
    rw [scriptSign_cons hsign]
    dsimp only
    rw [ho script _ _ hscript (by omega)]
    dsimp only
    rw [hstop, TermSyntax.term]
  | two base side first second =>
    rw [TermSyntax.tokens] at hs
    rw [TermSyntax.term, Term.levels_withScripts] at hl
    obtain ⟨l1, hbase, hs⟩ := hs.of_append
    obtain ⟨sign, l2, rfl, hsign, hs⟩ := hs.of_cons
    obtain ⟨l3, hfirst, hs⟩ := hs.of_append
    obtain ⟨sign', l4, rfl, hsign', hsecond⟩ := hs.of_cons
    have hne : side.other ≠ side := by cases side <;> simp [ScriptSide.other]
    rw [ho base _ _ hbase (by omega)]
    dsimp only
    rw [scriptSign_cons hsign]
    dsimp only
    rw [ho first _ _ hfirst (by omega)]
    dsimp only
    rw [scriptSign_cons hsign']
    dsimp only
    rw [if_neg hne, ho second _ _ hsecond (by omega)]
    dsimp only
    rw [hstop, TermSyntax.term]

theorem readRatio_complete {operand : Reader Operand} {denominator : Reader Ratio}
    (ho : CompleteOperand (n + 1) operand) (hd : CompleteRatio n denominator) :
    CompleteRatio (n + 1) (readRatio operand denominator) := by
  intro d lexemes rest hs hl hscript hslash
  unfold readRatio
  cases d with
  | term t =>
    rw [RatioSyntax.tokens] at hs
    rw [RatioSyntax.ratio, Ratio.levels] at hl
    rw [readTerm_complete ho t hs hl hscript]
    dsimp only
    rw [afterSlash?_eq_none hslash, RatioSyntax.ratio]
  | divided numerator denominator =>
    rw [RatioSyntax.tokens] at hs
    rw [RatioSyntax.ratio, Ratio.levels] at hl
    obtain ⟨l1, hnumerator, hs⟩ := hs.of_append
    obtain ⟨slash, l2, rfl, ht, hdenominator⟩ := hs.of_cons
    rw [readTerm_complete ho numerator hnumerator (by omega)
      (by rw [List.map_cons, ht]; exact noScript_slash _)]
    dsimp only
    rw [afterSlash?_cons ht]
    dsimp only
    rw [hd denominator _ _ hdenominator (by omega) hscript hslash, RatioSyntax.ratio]

/-- A budget of one for each ratio is enough. -/
theorem sequenceWithin_complete {ratio : Reader Ratio} (hr : CompleteRatio n ratio) :
    ∀ (d : List RatioSyntax) (budget : Nat) (lexemes : List Lexeme),
      Spells (sequenceTokens d) lexemes rest → expressionLevels (expressionOf d) ≤ n →
      NoOperand (rest.map (·.token)) → d.length ≤ budget →
      sequenceWithin ratio budget lexemes = .ok (expressionOf d, rest)
  | [], budget, lexemes, hs, _, hend, _ => by
    rw [sequenceTokens] at hs
    obtain rfl := hs.of_nil
    cases budget with
    | zero => rw [sequenceWithin, expressionOf]
    | succ budget => rw [sequenceWithin, if_pos (endsSequence_eq_true hend), expressionOf]
  | q :: d, budget + 1, lexemes, hs, hl, hend, hb => by
    rw [sequenceTokens] at hs
    rw [expressionOf, expressionLevels] at hl
    obtain ⟨middle, hq, hd⟩ := hs.of_append
    -- the ratio starts with a token that does not end the sequence
    have hgo : endsSequence lexemes = false := by
      obtain ⟨t, tokens, ht, hstart⟩ := q.tokens_eq_cons
      rw [ht] at hq
      obtain ⟨lexeme, l1, rfl, rfl, -⟩ := hq.of_cons
      exact endsSequence_eq_false hstart
    obtain ⟨hscript, hslash⟩ := noScript_sequence d hend
    rw [← hd.map_token] at hscript hslash
    rw [sequenceWithin, hgo, if_neg Bool.false_ne_true, hr q _ _ hq (by omega) hscript hslash]
    dsimp only
    rw [sequenceWithin_complete hr d budget middle hd (by omega) hend (by simpa using hb),
      expressionOf]
  | q :: d, 0, lexemes, _, _, _, hb => by simp at hb

theorem length_le_length_sequenceTokens (d : List RatioSyntax) :
    d.length ≤ (sequenceTokens d).length := by
  induction d with
  | nil => exact Nat.zero_le _
  | cons q d ih =>
    obtain ⟨t, tokens, ht, -⟩ := q.tokens_eq_cons
    rw [sequenceTokens, ht]
    simp only [List.length_cons, List.length_append]
    omega

theorem readSequence_complete {ratio : Reader Ratio} (hr : CompleteRatio n ratio)
    (d : List RatioSyntax) (hs : Spells (sequenceTokens d) lexemes rest)
    (hl : expressionLevels (expressionOf d) ≤ n) (hend : NoOperand (rest.map (·.token))) :
    readSequence ratio lexemes = .ok (expressionOf d, rest) := by
  refine sequenceWithin_complete hr d lexemes.length lexemes hs hl hend ?_
  have := length_le_length_sequenceTokens d
  have := hs.length_eq
  omega

theorem readVerbatim_complete {content : String} (h : lexeme.token = .text content)
    (rest : List Lexeme) : readVerbatim finish (lexeme :: rest) = .ok (content, rest) := by
  rw [readVerbatim, nextLexeme]
  dsimp only
  rw [h]

theorem readGroup_complete {inner : Level} (hr : CompleteRatio n inner.ratio)
    {opening closing : Fence} (d : List RatioSyntax)
    (hs : Spells (sequenceTokens d ++ [.symbol (.closing closing)]) lexemes rest)
    (hl : expressionLevels (expressionOf d) ≤ n) :
    readGroup finish inner opening lexemes =
      .ok (.group opening closing (expressionOf d), rest) := by
  obtain ⟨middle, hd, hs⟩ := hs.of_append
  obtain ⟨closer, after, rfl, ht, hs⟩ := hs.of_cons
  obtain rfl := hs.of_nil
  rw [readGroup, readSequence_complete hr d hd hl
    (by rw [List.map_cons, ht]; exact noOperand_closing _ _)]
  dsimp only [nextLexeme]
  rw [ht]

theorem readOperand_complete {inner : Level} (ho : CompleteOperand n inner.operand)
    (hr : CompleteRatio n inner.ratio) : CompleteOperand (n + 1) (readOperand finish inner) := by
  intro d lexemes rest hs hl
  unfold readOperand
  cases d with
  | leaf l =>
    rw [OperandSyntax.tokens] at hs
    obtain ⟨lexeme, middle, rfl, ht, hs⟩ := hs.of_cons
    obtain rfl := hs.of_nil
    dsimp only [nextLexeme]
    cases l <;> rw [ht, Leaf.token, OperandSyntax.operand]
    rfl
  | words content =>
    rw [OperandSyntax.tokens] at hs
    obtain ⟨lexeme, middle, rfl, ht, hs⟩ := hs.of_cons
    obtain ⟨text, middle, rfl, htext, hs⟩ := hs.of_cons
    obtain rfl := hs.of_nil
    dsimp only [nextLexeme]
    rw [ht]
    dsimp only [readSymbol]
    rw [readVerbatim_complete htext, OperandSyntax.operand]
  | group opening closing content =>
    rw [OperandSyntax.tokens] at hs
    rw [OperandSyntax.operand, Operand.levels] at hl
    obtain ⟨lexeme, middle, rfl, ht, hs⟩ := hs.of_cons
    dsimp only [nextLexeme]
    rw [ht]
    dsimp only [readSymbol]
    rw [readGroup_complete hr content hs (by omega), OperandSyntax.operand]
  | unary f operand =>
    rw [OperandSyntax.tokens] at hs
    rw [OperandSyntax.operand, Operand.levels] at hl
    obtain ⟨lexeme, middle, rfl, ht, hs⟩ := hs.of_cons
    dsimp only [nextLexeme]
    rw [ht]
    dsimp only [readSymbol]
    rw [ho operand _ _ hs (by omega), OperandSyntax.operand]
  | binary f first second =>
    rw [OperandSyntax.tokens] at hs
    rw [OperandSyntax.operand, Operand.levels] at hl
    obtain ⟨lexeme, middle, rfl, ht, hs⟩ := hs.of_cons
    obtain ⟨middle, hfirst, hsecond⟩ := hs.of_append
    dsimp only [nextLexeme]
    rw [ht]
    dsimp only [readSymbol]
    rw [ho first _ _ hfirst (by omega)]
    dsimp only
    rw [ho second _ _ hsecond (by omega), OperandSyntax.operand]
  | color name operand =>
    rw [OperandSyntax.tokens] at hs
    rw [OperandSyntax.operand, Operand.levels] at hl
    obtain ⟨lexeme, middle, rfl, ht, hs⟩ := hs.of_cons
    obtain ⟨text, middle, rfl, htext, hs⟩ := hs.of_cons
    dsimp only [nextLexeme]
    rw [ht]
    dsimp only [readSymbol]
    rw [readVerbatim_complete htext]
    dsimp only
    rw [ho operand _ _ hs (by omega), OperandSyntax.operand]

theorem Operand.levels_pos (o : Operand) : 0 < o.levels := by
  cases o <;> rw [levels] <;> omega

theorem Term.levels_pos (t : Term) : 0 < t.levels := by
  cases t with
  | bare base => rw [levels]; exact base.levels_pos
  | sub base script => rw [levels]; have := base.levels_pos; omega
  | sup base script => rw [levels]; have := base.levels_pos; omega
  | subSup base lower upper => rw [levels]; have := base.levels_pos; omega

theorem Ratio.levels_pos (q : Ratio) : 0 < q.levels := by
  cases q with
  | term t => rw [levels]; exact t.levels_pos
  | divided numerator denominator => rw [levels]; omega

/-- **The readers with `n` levels left take all that the grammar derives within `n` levels.** -/
theorem Level.complete_ofNat (finish : Lexeme) : ∀ n,
    CompleteOperand n (ofNat finish n).operand ∧ CompleteRatio n (ofNat finish n).ratio
  | 0 => by
    constructor
    · intro d lexemes rest _ hl
      have := d.operand.levels_pos
      omega
    · intro d lexemes rest _ hl
      have := d.ratio.levels_pos
      omega
  | n + 1 => by
    obtain ⟨ho, hr⟩ := complete_ofNat finish n
    have ho' : CompleteOperand (n + 1) (readOperand finish (ofNat finish n)) :=
      readOperand_complete ho hr
    exact ⟨ho', readRatio_complete ho' hr⟩

/-! ## Whole expressions -/

/-- The lexemes end with the mark of the end, which stands nowhere else. -/
structure Sealed (lexemes : List Lexeme) : Prop where
  endsWith : ∃ last, lexemes.getLast? = some last ∧ last.token = .endOfInput
  onlyThere : ∀ lexeme ∈ lexemes.dropLast, lexeme.token ≠ .endOfInput

/-- What stands before the mark of the end, and the mark. -/
theorem Sealed.eq_append (h : Sealed lexemes) :
    ∃ last, lexemes = lexemes.dropLast ++ [last] ∧ last.token = .endOfInput := by
  obtain ⟨last, hlast, ht⟩ := h.endsWith
  obtain ⟨body, rfl⟩ := List.getLast?_eq_some_iff.1 hlast
  exact ⟨last, by rw [List.dropLast_concat], ht⟩

/-- After the mark of the end nothing follows. -/
theorem Sealed.eq_nil (h : Sealed lexemes) {before after : List Lexeme}
    (heq : lexemes = before ++ lexeme :: after) (ht : lexeme.token = .endOfInput) : after = [] := by
  cases after with
  | nil => rfl
  | cons next after =>
    refine absurd ht (h.onlyThere lexeme ?_)
    rw [heq, List.dropLast_append_cons, List.dropLast_cons_cons]
    simp

/-- **The reader of expressions takes exactly what the grammar derives within the levels left.** -/
theorem readExpression_eq_ok_iff (h : Sealed lexemes) {e : Expression} :
    readExpression n lexemes = .ok e ↔
      ∃ d, sequenceTokens d = lexemes.dropLast.map (·.token) ∧ expressionOf d = e ∧
        expressionLevels e ≤ n := by
  obtain ⟨last, hlast, ht⟩ := h.eq_append
  have hf : (finishOf lexemes).token = .endOfInput := rfl
  constructor
  · intro hread
    obtain ⟨rest, hsequence, hend⟩ := readWith_eq_ok_iff.1 hread
    obtain ⟨d, sd, rfl, ld⟩ := readSequence_sound (Level.sound_ofNat hf n).2 hsequence
    refine ⟨d, ?_, rfl, ld⟩
    -- what is left of the lexemes is the mark alone
    cases rest with
    | nil =>
      have hmem := congrArg (Token.endOfInput ∈ ·) sd.map_token
      rw [hlast] at hmem
      simp [ht, endOfInput_notMem_sequence d] at hmem
    | cons mark after =>
      obtain ⟨used, heq, hu⟩ := sd
      obtain rfl := h.eq_nil heq hend
      rw [heq, List.dropLast_concat, hu]
  · rintro ⟨d, hd, rfl, ld⟩
    have sd : Spells (sequenceTokens d) lexemes [last] := ⟨_, hlast, hd.symm⟩
    have hend : NoOperand ([last].map (·.token)) := by
      intro t h'
      cases h'
      exact .inl ht
    exact readWith_of_end
      (readSequence_complete (Level.complete_ofNat (finishOf lexemes) n).2 d sd ld hend) ht

end MathMarkup.Formula
