import MathMarkup.Presentation.Typeset
import MathMarkup.Proofs.Formula.Stopping

/-!
# The two ways to write a fraction

A fraction is written with the symbol that takes numerator and denominator as its operands, or with a
slash between them. Behind the symbol both stand one level deeper than the fraction. Around the slash
only the denominator does.

* `Level.operand_eq_ok_iff`, `Level.ratio_eq_ok_iff` — what the readers of a level take, in terms of the
  grammar.

Principal result: `ratio_slash_of_frac` — a fraction that is read with the symbol is read with the slash,
looks the same and leaves the same lexemes.
-/

namespace MathMarkup.Formula

open MathMarkup.Presentation

variable {lexemes rest rest' : List Lexeme} {finish : Lexeme} {n : Nat}

/-! ## Readers and the grammar -/

/-- An operand is read just where the grammar derives one within the levels left. -/
theorem Level.operand_eq_ok_iff (hf : finish.token = .endOfInput) {o : Operand} :
    (ofNat finish n).operand lexemes = .ok (o, rest) ↔
      ∃ d : OperandSyntax, Spells d.tokens lexemes rest ∧ d.operand = o ∧ o.levels ≤ n := by
  constructor
  · exact (sound_ofNat hf n).1 lexemes o rest
  · rintro ⟨d, sd, rfl, hl⟩
    exact (complete_ofNat finish n).1 d lexemes rest sd hl

/-- A ratio is read just where the grammar derives one within the levels left, and where nothing
follows that could belong to it. -/
theorem Level.ratio_eq_ok_iff (hf : finish.token = .endOfInput) {q : Ratio} :
    (ofNat finish n).ratio lexemes = .ok (q, rest) ↔
      ∃ d : RatioSyntax, Spells d.tokens lexemes rest ∧ d.ratio = q ∧ q.levels ≤ n ∧
        NoScript (rest.map (·.token)) ∧ NoSlash (rest.map (·.token)) := by
  constructor
  · intro h
    obtain ⟨d, sd, hd, hl⟩ := (sound_ofNat hf n).2 lexemes q rest h
    exact ⟨d, sd, hd, hl, greedy_ofNat finish n lexemes q rest h⟩
  · rintro ⟨d, sd, rfl, hl, hscript, hslash⟩
    exact (complete_ofNat finish n).2 d lexemes rest sd hl hscript hslash

theorem Spells.append_right {tokens : List Token} (h : Spells tokens lexemes []) (rest : List Lexeme) :
    Spells tokens (lexemes ++ rest) rest := by
  obtain ⟨used, rfl, rfl⟩ := h
  exact ⟨used, by rw [List.append_nil], rfl⟩

/-- The same tokens leave the same lexemes. -/
theorem Spells.rest_unique {tokens : List Token} (h : Spells tokens lexemes rest)
    (h' : Spells tokens lexemes rest') : rest = rest' := by
  obtain ⟨used, rfl, hu⟩ := h
  obtain ⟨used', heq, hu'⟩ := h'
  have hlength : used.length = used'.length := by
    rw [← List.length_map (f := (·.token)), hu, ← hu', List.length_map]
  exact (List.append_inj heq hlength).2

/-- What is read as a ratio depends on its derivation alone. -/
theorem RatioSyntax.eq_of_spells {d d' : RatioSyntax} (sd : Spells d.tokens lexemes rest)
    (sd' : Spells d'.tokens lexemes rest')
    (hscript : NoScript (rest.map (·.token))) (hslash : NoSlash (rest.map (·.token)))
    (hscript' : NoScript (rest'.map (·.token))) (hslash' : NoSlash (rest'.map (·.token))) :
    d = d' ∧ rest = rest' := by
  have htokens : d.tokens ++ rest.map (·.token) = d'.tokens ++ rest'.map (·.token) := by
    rw [← sd.map_token, ← sd'.map_token]
  obtain ⟨rfl, -⟩ := d.tokens_append_inj d' hscript hscript' hslash hslash' htokens
  exact ⟨rfl, sd.rest_unique sd'⟩

/-! ## Fractions -/

/-- The derivation of a fraction that is written with the symbol. -/
def RatioSyntax.frac (numerator denominator : OperandSyntax) : RatioSyntax :=
  .term (.bare (.binary .fraction numerator denominator))

/-- The derivation of a fraction that is written with a slash. -/
def RatioSyntax.slash (numerator denominator : OperandSyntax) : RatioSyntax :=
  .divided (.bare numerator) (.term (.bare denominator))

theorem RatioSyntax.node_slash (numerator denominator : OperandSyntax) :
    (slash numerator denominator).ratio.node = (frac numerator denominator).ratio.node := by
  simp only [slash, frac, ratio, TermSyntax.term, OperandSyntax.operand, Ratio.node, Term.node,
    Operand.node, Binary.node]

/-- The numerator before a slash stands on the level of the fraction. -/
theorem RatioSyntax.levels_slash_le (numerator denominator : OperandSyntax) :
    (slash numerator denominator).ratio.levels ≤ (frac numerator denominator).ratio.levels := by
  simp only [slash, frac, ratio, TermSyntax.term, OperandSyntax.operand, Ratio.levels, Term.levels,
    Operand.levels]
  omega

section

variable {numerator denominator : List Lexeme} {sign : Lexeme} {da db : OperandSyntax}

theorem RatioSyntax.spells_frac (hsign : sign.token = .symbol (.binary .fraction))
    (sa : Spells da.tokens numerator []) (sb : Spells db.tokens denominator []) (rest : List Lexeme) :
    Spells (frac da db).tokens (sign :: (numerator ++ (denominator ++ rest))) rest := by
  simp only [frac, tokens, TermSyntax.tokens, OperandSyntax.tokens]
  exact .cons hsign ((sa.append_right _).append (sb.append_right rest))

theorem RatioSyntax.spells_slash (hsign : sign.token = .symbol .slash)
    (sa : Spells da.tokens numerator []) (sb : Spells db.tokens denominator []) (rest : List Lexeme) :
    Spells (slash da db).tokens (numerator ++ sign :: (denominator ++ rest)) rest := by
  simp only [slash, tokens, TermSyntax.tokens]
  exact (sa.append_right _).append (.cons hsign (sb.append_right rest))

end

/-- **The two ways to write a fraction agree.** Let two lists of lexemes each be read completely as one
operand, with whatever number of levels left. If the symbol for a fraction, the two lists and a rest that
starts with no sign for a script and no slash are read as a ratio, then so are the two lists with a slash
between them and the rest, with as many levels left. Both are shown as the same fraction of the two
operands, and both leave the rest. -/
theorem ratio_slash_of_frac {finish' finish'' frac slash : Lexeme} {m m' : Nat}
    {numerator denominator : List Lexeme} {a b : Operand} {q : Ratio}
    (hfrac : frac.token = .symbol (.binary .fraction)) (hslash : slash.token = .symbol .slash)
    (hf : finish.token = .endOfInput) (hf' : finish'.token = .endOfInput)
    (hf'' : finish''.token = .endOfInput)
    (ha : (Level.ofNat finish' m).operand numerator = .ok (a, []))
    (hb : (Level.ofNat finish'' m').operand denominator = .ok (b, []))
    (hrest : NoScript (rest.map (·.token))) (hrest' : NoSlash (rest.map (·.token)))
    (h : (Level.ofNat finish n).ratio (frac :: (numerator ++ (denominator ++ rest))) =
      .ok (q, rest')) :
    ∃ q', (Level.ofNat finish n).ratio (numerator ++ slash :: (denominator ++ rest)) =
        .ok (q', rest') ∧
      q'.node = q.node ∧ q.node = .fraction a.node.unfenced b.node.unfenced ∧ rest' = rest := by
  obtain ⟨da, sa, rfl, -⟩ := (Level.operand_eq_ok_iff hf').1 ha
  obtain ⟨db, sb, rfl, -⟩ := (Level.operand_eq_ok_iff hf'').1 hb
  obtain ⟨d, sd, rfl, hl, hscript, hnoslash⟩ := (Level.ratio_eq_ok_iff hf).1 h
  -- the grammar is unambiguous, so the ratio that was read is the fraction
  obtain ⟨rfl, rfl⟩ := RatioSyntax.eq_of_spells (RatioSyntax.spells_frac hfrac sa sb rest) sd
    hrest hrest' hscript hnoslash
  refine ⟨(RatioSyntax.slash da db).ratio, ?_, RatioSyntax.node_slash da db, ?_, rfl⟩
  · exact (Level.ratio_eq_ok_iff hf).2 ⟨_, RatioSyntax.spells_slash hslash sa sb rest, rfl,
      Nat.le_trans (RatioSyntax.levels_slash_le da db) hl, hrest, hrest'⟩
  · simp only [RatioSyntax.frac, RatioSyntax.ratio, TermSyntax.term, OperandSyntax.operand, Ratio.node,
      Term.node, Operand.node, Binary.node]

/-- The formulas `frac(x)sqrt y z` and `(x)/sqrt y z`, of which a letter is left. -/
theorem ratio_slash_of_frac_group :
    ∃ q q', (Level.ofNat (finishOf []) nestingLimit).ratio
        [⟨.symbol (.binary .fraction), ⟨0, 4⟩⟩, ⟨.symbol (.opening .paren), ⟨4, 5⟩⟩,
          ⟨.letter 'x', ⟨5, 6⟩⟩, ⟨.symbol (.closing .paren), ⟨6, 7⟩⟩,
          ⟨.symbol (.unary .squareRoot), ⟨7, 11⟩⟩, ⟨.letter 'y', ⟨12, 13⟩⟩, ⟨.letter 'z', ⟨14, 15⟩⟩] =
        .ok (q, [⟨.letter 'z', ⟨14, 15⟩⟩]) ∧
      (Level.ofNat (finishOf []) nestingLimit).ratio
        [⟨.symbol (.opening .paren), ⟨4, 5⟩⟩, ⟨.letter 'x', ⟨5, 6⟩⟩,
          ⟨.symbol (.closing .paren), ⟨6, 7⟩⟩, ⟨.symbol .slash, ⟨7, 8⟩⟩,
          ⟨.symbol (.unary .squareRoot), ⟨7, 11⟩⟩, ⟨.letter 'y', ⟨12, 13⟩⟩, ⟨.letter 'z', ⟨14, 15⟩⟩] =
        .ok (q', [⟨.letter 'z', ⟨14, 15⟩⟩]) ∧
      q'.node = q.node ∧
      q.node = .fraction (.row [.identifier "x"]) (.root none (.identifier "y")) := by
  have ha : (Level.ofNat (finishOf []) 2).operand [⟨.symbol (.opening .paren), ⟨4, 5⟩⟩,
      ⟨.letter 'x', ⟨5, 6⟩⟩, ⟨.symbol (.closing .paren), ⟨6, 7⟩⟩] =
      .ok (.group .paren .paren [.term (.bare (.leaf (.letter 'x')))], []) := rfl
  have hb : (Level.ofNat (finishOf []) 2).operand [⟨.symbol (.unary .squareRoot), ⟨7, 11⟩⟩,
      ⟨.letter 'y', ⟨12, 13⟩⟩] = .ok (.unary .squareRoot (.leaf (.letter 'y')), []) := rfl
  have hrest : NoScript (List.map (·.token) [(⟨.letter 'z', ⟨14, 15⟩⟩ : Lexeme)]) :=
    noScript_of_startsOperand rfl []
  have hrest' : NoSlash (List.map (·.token) [(⟨.letter 'z', ⟨14, 15⟩⟩ : Lexeme)]) :=
    noSlash_of_startsOperand rfl []
  have hread : (Level.ofNat (finishOf []) nestingLimit).ratio
      [⟨.symbol (.binary .fraction), ⟨0, 4⟩⟩, ⟨.symbol (.opening .paren), ⟨4, 5⟩⟩,
        ⟨.letter 'x', ⟨5, 6⟩⟩, ⟨.symbol (.closing .paren), ⟨6, 7⟩⟩,
        ⟨.symbol (.unary .squareRoot), ⟨7, 11⟩⟩, ⟨.letter 'y', ⟨12, 13⟩⟩, ⟨.letter 'z', ⟨14, 15⟩⟩] =
      .ok (.term (.bare (.binary .fraction
          (.group .paren .paren [.term (.bare (.leaf (.letter 'x')))])
          (.unary .squareRoot (.leaf (.letter 'y'))))), [⟨.letter 'z', ⟨14, 15⟩⟩]) := rfl
  have hsign : (⟨.symbol .slash, ⟨7, 8⟩⟩ : Lexeme).token = .symbol .slash := rfl
  obtain ⟨q', hslash, hnode, hshown, -⟩ :=
    ratio_slash_of_frac rfl hsign rfl rfl rfl ha hb hrest hrest' hread
  exact ⟨_, q', hread, hslash, hnode, hshown⟩

end MathMarkup.Formula
