import MathMarkup.Proofs.Formula.Unambiguity

/-!
# What the readers take

* `SoundOperand`, `SoundRatio` — what a reader takes is derived by the grammar, within a number of
  levels.

Principal result: `Level.sound_ofNat` — the readers with `n` levels left are sound for `n` levels.
-/

namespace MathMarkup.Formula

variable {lexemes rest : List Lexeme} {lexeme finish : Lexeme} {n : Nat}

/-! ## One token ahead -/

theorem Spells.map_token {tokens : List Token} (h : Spells tokens lexemes rest) :
    lexemes.map (·.token) = tokens ++ rest.map (·.token) := by
  obtain ⟨used, rfl, rfl⟩ := h
  rw [List.map_append]

theorem scriptSign_eq_some {side : ScriptSide} {span : Span}
    (h : scriptSign lexemes = some (side, span, rest)) : Spells [side.token] lexemes rest := by
  cases lexemes with
  | nil => cases h
  | cons lexeme lexemes =>
    rw [scriptSign] at h
    split at h
    · rename_i ht; cases h; exact .one ht _
    · rename_i ht; cases h; exact .one ht _
    · cases h

theorem scriptSign_cons {side : ScriptSide} (h : lexeme.token = side.token)
    (rest : List Lexeme) : scriptSign (lexeme :: rest) = some (side, lexeme.span, rest) := by
  cases side <;> rw [scriptSign, h] <;> rfl

theorem scriptSign_eq_none (h : NoScript (lexemes.map (·.token))) : scriptSign lexemes = none := by
  cases hs : scriptSign lexemes with
  | none => rfl
  | some p =>
    obtain ⟨side, span, rest⟩ := p
    rw [(scriptSign_eq_some hs).map_token] at h
    exact absurd h (not_noScript_side side _)

theorem afterSlash?_eq_some (h : afterSlash? lexemes = some rest) :
    Spells [.symbol .slash] lexemes rest := by
  cases lexemes with
  | nil => cases h
  | cons lexeme lexemes =>
    rw [afterSlash?] at h
    split at h
    · rename_i ht; cases h; exact .one ht _
    · cases h

theorem afterSlash?_cons (h : lexeme.token = .symbol .slash) (rest : List Lexeme) :
    afterSlash? (lexeme :: rest) = some rest := by
  rw [afterSlash?, h]

theorem afterSlash?_eq_none (h : NoSlash (lexemes.map (·.token))) : afterSlash? lexemes = none := by
  cases hs : afterSlash? lexemes with
  | none => rfl
  | some rest =>
    rw [(afterSlash?_eq_some hs).map_token] at h
    exact absurd rfl h

theorem endsSequence_eq_true (h : NoOperand (lexemes.map (·.token))) :
    endsSequence lexemes = true := by
  cases lexemes with
  | nil => rfl
  | cons lexeme lexemes =>
    have ht : lexeme.token = .endOfInput ∨ ∃ fence, lexeme.token = .symbol (.closing fence) :=
      h _ rfl
    rcases ht with ht | ⟨fence, ht⟩ <;> rw [endsSequence, ht]

theorem endsSequence_eq_false (h : lexeme.token.startsOperand = true) :
    endsSequence (lexeme :: rest) = false := by
  rw [endsSequence]
  split
  · rename_i ht; rw [ht] at h; cases h
  · rename_i ht; rw [ht] at h; cases h
  · rfl

/-! ## Soundness -/

/-- What the reader takes is an operand of the grammar, of at most `n` levels. -/
def SoundOperand (n : Nat) (operand : Reader Operand) : Prop :=
  ∀ lexemes o rest, operand lexemes = .ok (o, rest) →
    ∃ d : OperandSyntax, Spells d.tokens lexemes rest ∧ d.operand = o ∧ o.levels ≤ n

/-- What the reader takes is a ratio of the grammar, of at most `n` levels. -/
def SoundRatio (n : Nat) (ratio : Reader Ratio) : Prop :=
  ∀ lexemes q rest, ratio lexemes = .ok (q, rest) →
    ∃ d : RatioSyntax, Spells d.tokens lexemes rest ∧ d.ratio = q ∧ q.levels ≤ n

theorem readTerm_sound {operand : Reader Operand} (ho : SoundOperand n operand) {t : Term}
    (h : readTerm operand lexemes = .ok (t, rest)) :
    ∃ d : TermSyntax, Spells d.tokens lexemes rest ∧ d.term = t ∧ t.levels ≤ n := by
  unfold readTerm at h
  split at h
  · cases h
  rename_i base l1 hbase
  obtain ⟨db, sb, rfl, lb⟩ := ho _ _ _ hbase
  split at h
  · cases h
    exact ⟨.bare db, by rwa [TermSyntax.tokens], by rw [TermSyntax.term], by rwa [Term.levels]⟩
  rename_i side span l2 hsign
  have ssign := scriptSign_eq_some hsign
  split at h
  · cases h
  rename_i first l3 hfirst
  obtain ⟨df, sf, rfl, lf⟩ := ho _ _ _ hfirst
  split at h
  · cases h
    refine ⟨.one db side df, ?_, by rw [TermSyntax.term], ?_⟩
    · rw [TermSyntax.tokens]
      exact sb.append (ssign.append sf)
    · rw [Term.levels_withScript]
      omega
  rename_i side' span' l4 hsign'
  split at h
  · cases h
  rename_i hne
  split at h
  · cases h
  rename_i second l5 hsecond
  obtain ⟨ds, ss, rfl, ls⟩ := ho _ _ _ hsecond
  split at h
  · cases h
    have hother : side' = side.other := by cases side <;> cases side' <;> first | rfl | cases hne rfl
    refine ⟨.two db side df ds, ?_, by rw [TermSyntax.term], ?_⟩
    · rw [TermSyntax.tokens, ← hother]
      exact sb.append (ssign.append (sf.append ((scriptSign_eq_some hsign').append ss)))
    · rw [Term.levels_withScripts]
      omega
  · cases h

theorem readRatio_sound {operand : Reader Operand} {denominator : Reader Ratio}
    (ho : SoundOperand (n + 1) operand) (hd : SoundRatio n denominator) :
    SoundRatio (n + 1) (readRatio operand denominator) := by
  intro lexemes q rest h
  unfold readRatio at h
  split at h
  · cases h
  rename_i numerator l1 hnumerator
  obtain ⟨dn, sn, rfl, ln⟩ := readTerm_sound ho hnumerator
  split at h
  · cases h
    exact ⟨.term dn, by rwa [RatioSyntax.tokens], by rw [RatioSyntax.ratio], by rwa [Ratio.levels]⟩
  rename_i l2 hslash
  split at h
  · cases h
  rename_i below l3 hbelow
  cases h
  obtain ⟨db, sb, rfl, lb⟩ := hd _ _ _ hbelow
  refine ⟨.divided dn db, ?_, by rw [RatioSyntax.ratio], ?_⟩
  · rw [RatioSyntax.tokens]
    exact sn.append ((afterSlash?_eq_some hslash).append sb)
  · rw [Ratio.levels]
    omega

theorem sequenceWithin_sound {ratio : Reader Ratio} (hr : SoundRatio n ratio) :
    ∀ (budget : Nat) (lexemes : List Lexeme) {e rest},
      sequenceWithin ratio budget lexemes = .ok (e, rest) →
      ∃ d, Spells (sequenceTokens d) lexemes rest ∧ expressionOf d = e ∧ expressionLevels e ≤ n
  | 0, lexemes, e, rest, h => by
    cases h
    exact ⟨[], by rw [sequenceTokens]; exact .nil _, by rw [expressionOf],
      by rw [expressionLevels]; omega⟩
  | budget + 1, lexemes, e, rest, h => by
    rw [sequenceWithin] at h
    split at h
    · cases h
      exact ⟨[], by rw [sequenceTokens]; exact .nil _, by rw [expressionOf],
        by rw [expressionLevels]; omega⟩
    split at h
    · cases h
    rename_i first l1 hfirst
    split at h
    · cases h
    rename_i others l2 hothers
    cases h
    obtain ⟨dq, sq, rfl, lq⟩ := hr _ _ _ hfirst
    obtain ⟨d, sd, rfl, ld⟩ := sequenceWithin_sound hr budget l1 hothers
    refine ⟨dq :: d, ?_, by rw [expressionOf], ?_⟩
    · rw [sequenceTokens]
      exact sq.append sd
    · rw [expressionLevels]
      omega

theorem readSequence_sound {ratio : Reader Ratio} (hr : SoundRatio n ratio) {e : Expression}
    (h : readSequence ratio lexemes = .ok (e, rest)) :
    ∃ d, Spells (sequenceTokens d) lexemes rest ∧ expressionOf d = e ∧ expressionLevels e ≤ n :=
  sequenceWithin_sound hr lexemes.length lexemes h

/-- A token that can be read from the front, where the mark of the end is not the token. -/
theorem nextLexeme_spells {t : Token} (hf : finish.token = .endOfInput) (hne : t ≠ .endOfInput)
    (h : (nextLexeme finish lexemes).1.token = t) :
    Spells [t] lexemes (nextLexeme finish lexemes).2 := by
  cases lexemes with
  | nil => exact absurd (h.symm.trans hf) hne
  | cons lexeme lexemes => exact .one h _

theorem readVerbatim_sound (hf : finish.token = .endOfInput) {content : String}
    (h : readVerbatim finish lexemes = .ok (content, rest)) :
    Spells [.text content] lexemes rest := by
  unfold readVerbatim at h
  dsimp only at h
  split at h
  · rename_i ht
    cases h
    exact nextLexeme_spells hf (by simp) ht
  · cases h
  · cases h

theorem readGroup_sound (hf : finish.token = .endOfInput) {inner : Level}
    (hr : SoundRatio n inner.ratio) {opening : Fence} {o : Operand}
    (h : readGroup finish inner opening lexemes = .ok (o, rest)) :
    ∃ closing d, o = .group opening closing (expressionOf d) ∧
      Spells (sequenceTokens d ++ [.symbol (.closing closing)]) lexemes rest ∧
      expressionLevels (expressionOf d) ≤ n := by
  unfold readGroup at h
  split at h
  · cases h
  rename_i content l1 hcontent
  obtain ⟨d, sd, rfl, ld⟩ := readSequence_sound hr hcontent
  dsimp only at h
  split at h
  · rename_i closing ht
    cases h
    exact ⟨closing, d, rfl, sd.append (nextLexeme_spells hf (by simp) ht), ld⟩
  · cases h

theorem readSymbol_sound (hf : finish.token = .endOfInput) {inner : Level}
    (ho : SoundOperand n inner.operand) (hr : SoundRatio n inner.ratio) {symbol : Symbol}
    {span : Span} {o : Operand} (h : readSymbol finish inner symbol span lexemes = .ok (o, rest)) :
    ∃ d : OperandSyntax, (∀ {before}, Spells [.symbol symbol] before lexemes →
      Spells d.tokens before rest) ∧ d.operand = o ∧ o.levels ≤ n + 1 := by
  cases symbol with
  | sign s =>
    cases h
    exact ⟨.leaf (.sign s), fun hs => by rwa [OperandSyntax.tokens], by rw [OperandSyntax.operand],
      by rw [Operand.levels]; omega⟩
  | opening fence =>
    obtain ⟨closing, d, rfl, sd, ld⟩ := readGroup_sound hf hr h
    refine ⟨.group fence closing d, fun hs => ?_, by rw [OperandSyntax.operand], ?_⟩
    · rw [OperandSyntax.tokens]
      exact hs.append sd
    · rw [Operand.levels]
      omega
  | unary f =>
    rw [readSymbol] at h
    split at h
    · cases h
    rename_i operand l1 hoperand
    cases h
    obtain ⟨d, sd, rfl, ld⟩ := ho _ _ _ hoperand
    refine ⟨.unary f d, fun hs => ?_, by rw [OperandSyntax.operand], ?_⟩
    · rw [OperandSyntax.tokens]
      exact hs.append sd
    · rw [Operand.levels]
      omega
  | binary f =>
    rw [readSymbol] at h
    split at h
    · cases h
    rename_i first l1 hfirst
    split at h
    · cases h
    rename_i second l2 hsecond
    cases h
    obtain ⟨df, sf, rfl, lf⟩ := ho _ _ _ hfirst
    obtain ⟨ds, ss, rfl, ls⟩ := ho _ _ _ hsecond
    refine ⟨.binary f df ds, fun hs => ?_, by rw [OperandSyntax.operand], ?_⟩
    · rw [OperandSyntax.tokens]
      exact hs.append (sf.append ss)
    · rw [Operand.levels]
      omega
  | text =>
    rw [readSymbol] at h
    split at h
    · cases h
    rename_i content l1 hcontent
    cases h
    refine ⟨.words content, fun hs => ?_, by rw [OperandSyntax.operand], by rw [Operand.levels]; omega⟩
    rw [OperandSyntax.tokens]
    exact hs.append (readVerbatim_sound hf hcontent)
  | color =>
    rw [readSymbol] at h
    split at h
    · cases h
    rename_i name l1 hname
    split at h
    · cases h
    rename_i operand l2 hoperand
    cases h
    obtain ⟨d, sd, rfl, ld⟩ := ho _ _ _ hoperand
    refine ⟨.color name d, fun hs => ?_, by rw [OperandSyntax.operand], ?_⟩
    · rw [OperandSyntax.tokens]
      exact hs.append ((readVerbatim_sound hf hname).append sd)
    · rw [Operand.levels]
      omega
  | closing => cases h
  | superscript => cases h
  | subscript => cases h
  | slash => cases h

theorem readOperand_sound (hf : finish.token = .endOfInput) {inner : Level}
    (ho : SoundOperand n inner.operand) (hr : SoundRatio n inner.ratio) :
    SoundOperand (n + 1) (readOperand finish inner) := by
  intro lexemes o rest h
  have leaf : ∀ l : Leaf, (nextLexeme finish lexemes).1.token = l.token →
      o = .leaf l → rest = (nextLexeme finish lexemes).2 →
      ∃ d : OperandSyntax, Spells d.tokens lexemes rest ∧ d.operand = o ∧ o.levels ≤ n + 1 := by
    rintro l ht rfl rfl
    refine ⟨.leaf l, ?_, by rw [OperandSyntax.operand], by rw [Operand.levels]; omega⟩
    rw [OperandSyntax.tokens]
    exact nextLexeme_spells hf (by cases l <;> simp [Leaf.token]) ht
  unfold readOperand at h
  dsimp only at h
  split at h
  · cases h
  · rename_i digits ht; cases h; exact leaf (.number digits) ht rfl rfl
  · rename_i c ht; cases h; exact leaf (.letter c) ht rfl rfl
  · rename_i content ht; cases h; exact leaf (.text content) ht rfl rfl
  · rename_i symbol ht
    obtain ⟨d, sd, hd, ld⟩ := readSymbol_sound hf ho hr h
    exact ⟨d, sd (nextLexeme_spells hf (by simp) ht), hd, ld⟩

/-- **The readers with `n` levels left take what the grammar derives, within `n` levels.** -/
theorem Level.sound_ofNat (hf : finish.token = .endOfInput) : ∀ n,
    SoundOperand n (ofNat finish n).operand ∧ SoundRatio n (ofNat finish n).ratio
  | 0 => ⟨fun _ _ _ h => (nomatch h), fun _ _ _ h => (nomatch h)⟩
  | n + 1 => by
    obtain ⟨ho, hr⟩ := sound_ofNat hf n
    have ho' := readOperand_sound hf ho hr
    exact ⟨ho', readRatio_sound ho' hr⟩

/-- What is read as a whole expression stands at the front of the lexemes. -/
theorem readExpression_sound {e : Expression} (h : readExpression n lexemes = .ok e) :
    ∃ d rest, Spells (sequenceTokens d) lexemes rest ∧ expressionOf d = e ∧
      expressionLevels e ≤ n := by
  have hf : (finishOf lexemes).token = .endOfInput := rfl
  obtain ⟨rest, hsequence, -⟩ := readWith_eq_ok_iff.1 h
  obtain ⟨d, sd, rfl, ld⟩ := readSequence_sound (Level.sound_ofNat hf n).2 hsequence
  exact ⟨d, rest, sd, rfl, ld⟩

end MathMarkup.Formula
