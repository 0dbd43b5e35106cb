import MathMarkup.Conversion
import MathMarkup.Proofs.Formula.Grammar

/-!
# Who tells that brackets are unbalanced

The parser closes groups without comparing the kinds of brackets, and it can find a bracket missing.
After the bracket check neither matters: what the readers call unbalanced, the check has refused.

* `Unfollowable` — lexemes that the check accepts after no lexemes whatsoever.
* `Honest` — a reader tells of an unbalanced bracket only in such lexemes.

Principal results: `Level.honest_ofNat` — the readers are honest; `readExpression_cause_ne` — after the
check no bracket is told to be unbalanced; `convert_unbalancedBracket` — when and where a
conversion tells of an unbalanced bracket.
-/

namespace MathMarkup.Formula

open MathMarkup.Markup

variable {lexemes rest : List Lexeme} {lexeme finish : Lexeme} {n : Nat}

/-- The bracket check does not end with an empty stack, whatever it starts with. -/
def Unfollowable (lexemes : List Lexeme) : Prop :=
  ∀ stack, followBrackets stack lexemes ≠ .ok []

theorem Unfollowable.of_spells {tokens : List Token} (hs : Spells tokens lexemes rest)
    (h : Unfollowable rest) : Unfollowable lexemes := by
  obtain ⟨used, rfl, -⟩ := hs
  intro stack hf
  obtain ⟨middle, -, hf⟩ := followBrackets_append_eq_ok_iff.1 hf
  exact h middle hf

/-- Nothing follows the mark of the end. -/
def EndsOnce (lexemes : List Lexeme) : Prop :=
  ∀ before lexeme after, lexemes = before ++ lexeme :: after → lexeme.token = .endOfInput →
    after = []

theorem Sealed.endsOnce (h : Sealed lexemes) : EndsOnce lexemes :=
  fun _ _ _ heq ht => h.eq_nil heq ht

theorem EndsOnce.of_spells {tokens : List Token} (h : EndsOnce lexemes)
    (hs : Spells tokens lexemes rest) : EndsOnce rest := by
  obtain ⟨used, rfl, -⟩ := hs
  intro before lexeme after heq ht
  exact h (used ++ before) lexeme after (by rw [heq, List.append_assoc]) ht

theorem EndsOnce.of_cons (h : EndsOnce (lexeme :: lexemes)) : EndsOnce lexemes :=
  h.of_spells (.one rfl lexemes)

/-! ## The end of a sequence -/

theorem sequenceWithin_endsSequence {ratio : Reader Ratio} (hr : SoundRatio n ratio) :
    ∀ (budget : Nat) (lexemes : List Lexeme) {e rest}, lexemes.length ≤ budget →
      sequenceWithin ratio budget lexemes = .ok (e, rest) → endsSequence rest = true
  | 0, lexemes, e, rest, hb, h => by
    obtain rfl := List.length_eq_zero_iff.1 (Nat.le_zero.1 hb)
    cases h
    rfl
  | budget + 1, lexemes, e, rest, hb, h => by
    rw [sequenceWithin] at h
    split at h
    · rename_i hend
      cases h
      exact hend
    split at h
    · cases h
    rename_i first l1 hfirst
    split at h
    · cases h
    rename_i others l2 hothers
    cases h
    obtain ⟨d, sd, -, -⟩ := hr _ _ _ hfirst
    refine sequenceWithin_endsSequence hr budget l1 ?_ hothers
    obtain ⟨t, tokens, ht, -⟩ := d.tokens_eq_cons
    have hlength := sd.length_eq
    rw [ht, List.length_cons] at hlength
    omega

/-- Behind a sequence stands a closing bracket, or the end. -/
theorem readSequence_followed {ratio : Reader Ratio} (hr : SoundRatio n ratio) {e : Expression}
    (ho : EndsOnce lexemes) (h : readSequence ratio lexemes = .ok (e, rest)) :
    (∃ closer after fence, rest = closer :: after ∧ closer.token = .symbol (.closing fence)) ∨
      rest = [] ∨ ∃ mark, rest = [mark] ∧ mark.token = .endOfInput := by
  obtain ⟨d, sd, -, -⟩ := readSequence_sound hr h
  have hend := sequenceWithin_endsSequence hr _ lexemes (Nat.le_refl _) h
  cases rest with
  | nil => exact .inr (.inl rfl)
  | cons lexeme after =>
    rw [endsSequence] at hend
    split at hend
    · rename_i ht
      obtain rfl := ho.of_spells sd [] lexeme after rfl ht
      exact .inr (.inr ⟨lexeme, rfl, ht⟩)
    · rename_i fence ht
      exact .inl ⟨lexeme, after, fence, rfl, ht⟩
    · cases hend

/-! ## Honest readers -/

/-- Where the reader tells of an unbalanced bracket, the check does as well. -/
def Honest {α : Type} (reader : Reader α) : Prop :=
  ∀ lexemes fault, EndsOnce lexemes → reader lexemes = .error fault →
    fault.cause = .unbalancedBracket → Unfollowable lexemes

/-- A reader stays honest behind lexemes that were read before it. -/
theorem Honest.behind {α : Type} {reader : Reader α} (hh : Honest reader) {tokens : List Token}
    (hs : Spells tokens lexemes rest) (ho : EndsOnce lexemes) {fault : Fault}
    (h : reader rest = .error fault) (hc : fault.cause = .unbalancedBracket) :
    Unfollowable lexemes :=
  .of_spells hs (hh rest fault (ho.of_spells hs) h hc)

theorem readTerm_honest {operand : Reader Operand} (hs : SoundOperand n operand)
    (hh : Honest operand) : Honest (readTerm operand) := by
  intro lexemes fault ho h hc
  unfold readTerm at h
  split at h
  · rename_i hbase
    cases h
    exact hh _ _ ho hbase hc
  rename_i base l1 hbase
  obtain ⟨db, sb, -, -⟩ := hs _ _ _ hbase
  split at h
  · cases h
  rename_i side span l2 hsign
  have s2 := sb.append (scriptSign_eq_some hsign)
  split at h
  · rename_i hfirst
    cases h
    exact hh.behind s2 ho hfirst hc
  rename_i first l3 hfirst
  obtain ⟨df, sf, -, -⟩ := hs _ _ _ hfirst
  split at h
  · cases h
  rename_i side' span' l4 hsign'
  split at h
  · cases h
    cases hc
  split at h
  · rename_i hsecond
    cases h
    exact hh.behind (s2.append (sf.append (scriptSign_eq_some hsign'))) ho hsecond hc
  split at h
  · cases h
  · cases h
    cases hc

theorem readRatio_honest {operand : Reader Operand} {denominator : Reader Ratio}
    (hs : SoundOperand n operand) (hh : Honest operand) (hd : Honest denominator) :
    Honest (readRatio operand denominator) := by
  intro lexemes fault ho h hc
  unfold readRatio at h
  split at h
  · rename_i hnumerator
    cases h
    exact readTerm_honest hs hh _ _ ho hnumerator hc
  rename_i numerator l1 hnumerator
  obtain ⟨dn, sn, -, -⟩ := readTerm_sound hs hnumerator
  split at h
  · cases h
  rename_i l2 hslash
  have s2 := sn.append (afterSlash?_eq_some hslash)
  split at h
  · rename_i hbelow
    cases h
    exact hd.behind s2 ho hbelow hc
  · cases h

theorem sequenceWithin_honest {ratio : Reader Ratio} (hs : SoundRatio n ratio)
    (hh : Honest ratio) : ∀ budget : Nat, Honest (sequenceWithin ratio budget)
  | 0, lexemes, fault, _, h, _ => by cases h
  | budget + 1, lexemes, fault, ho, h, hc => by
    rw [sequenceWithin] at h
    split at h
    · cases h
    split at h
    · rename_i hfirst
      cases h
      exact hh _ _ ho hfirst hc
    rename_i first l1 hfirst
    obtain ⟨d, sd, -, -⟩ := hs _ _ _ hfirst
    split at h
    · rename_i hothers
      cases h
      exact (sequenceWithin_honest hs hh budget).behind sd ho hothers hc
    · cases h

theorem readSequence_honest {ratio : Reader Ratio} (hs : SoundRatio n ratio)
    (hh : Honest ratio) : Honest (readSequence ratio) :=
  fun lexemes => sequenceWithin_honest hs hh lexemes.length lexemes

theorem readVerbatim_cause_ne {fault : Fault} (h : readVerbatim finish lexemes = .error fault) :
    fault.cause ≠ .unbalancedBracket := by
  unfold readVerbatim at h
  dsimp only at h
  split at h
  · cases h
  · cases h
    simp
  · cases h
    simp

/-- A group without an end leaves its opening bracket on the stack. -/
theorem readGroup_honest {inner : Level} (hs : SoundRatio n inner.ratio)
    (hh : Honest inner.ratio) {opening : Fence} {fault : Fault} (ho : EndsOnce lexemes)
    (h : readGroup finish inner opening lexemes = .error fault)
    (hc : fault.cause = .unbalancedBracket) (bracket : Bracket) (stack : List Bracket) :
    followBrackets (bracket :: stack) lexemes ≠ .ok [] := by
  unfold readGroup at h
  split at h
  · rename_i hcontent
    cases h
    exact readSequence_honest hs hh _ _ ho hcontent hc _
  rename_i content l1 hcontent
  intro hf
  obtain ⟨d, sd, -, -⟩ := readSequence_sound hs hcontent
  have hrest := ((sd.followBrackets_sequence d _ _).1 hf).2
  rcases readSequence_followed hs ho hcontent with ⟨closer, after, fence, rfl, ht⟩ | rfl | ⟨mark, rfl, ht⟩
  · simp [nextLexeme, ht] at h
  · cases hrest
  · rw [followBrackets_plain (by rw [ht]; rfl)] at hrest
    cases hrest

theorem readSymbol_honest {inner : Level} (hso : SoundOperand n inner.operand)
    (hsr : SoundRatio n inner.ratio) (hho : Honest inner.operand)
    (hhr : Honest inner.ratio) (hf : finish.token = .endOfInput) {symbol : Symbol}
    {span : Span} {fault : Fault} (ho : EndsOnce lexemes)
    (h : readSymbol finish inner symbol span lexemes = .error fault)
    (hc : fault.cause = .unbalancedBracket) :
    (∃ fence, symbol = .opening fence ∧
        ∀ bracket stack, followBrackets (bracket :: stack) lexemes ≠ .ok []) ∨
      Unfollowable lexemes := by
  cases symbol with
  | sign s => cases h
  | opening fence => exact .inl ⟨fence, rfl, fun _ _ => readGroup_honest hsr hhr ho h hc _ _⟩
  | closing fence => cases h; cases hc
  | superscript => cases h; cases hc
  | subscript => cases h; cases hc
  | slash => cases h; cases hc
  | unary f =>
    rw [readSymbol] at h
    split at h
    · rename_i hoperand
      cases h
      exact .inr (hho _ _ ho hoperand hc)
    · cases h
  | binary f =>
    rw [readSymbol] at h
    split at h
    · rename_i hfirst
      cases h
      exact .inr (hho _ _ ho hfirst hc)
    rename_i first l1 hfirst
    obtain ⟨d, sd, -, -⟩ := hso _ _ _ hfirst
    split at h
    · rename_i hsecond
      cases h
      exact .inr (hho.behind sd ho hsecond hc)
    · cases h
  | text =>
    rw [readSymbol] at h
    split at h
    · rename_i hcontent
      cases h
      exact absurd hc (readVerbatim_cause_ne hcontent)
    · cases h
  | color =>
    rw [readSymbol] at h
    split at h
    · rename_i hname
      cases h
      exact absurd hc (readVerbatim_cause_ne hname)
    rename_i name l1 hname
    have sn := readVerbatim_sound hf hname
    split at h
    · rename_i hoperand
      cases h
      exact .inr (hho.behind sn ho hoperand hc)
    · cases h

theorem readOperand_honest {inner : Level} (hso : SoundOperand n inner.operand)
    (hsr : SoundRatio n inner.ratio) (hho : Honest inner.operand)
    (hhr : Honest inner.ratio) (hf : finish.token = .endOfInput) :
    Honest (readOperand finish inner) := by
  intro lexemes fault ho h hc
  unfold readOperand at h
  dsimp only at h
  split at h
  · cases h
    cases hc
  · cases h
  · cases h
  · cases h
  · rename_i symbol ht
    have st := nextLexeme_spells hf (by simp) ht
    rcases readSymbol_honest hso hsr hho hhr hf (ho.of_spells st) h hc with ⟨fence, rfl, hopen⟩ | hu
    · obtain ⟨lexeme, after, rfl, hlexeme, hafter⟩ := st.of_cons
      intro stack
      rw [hafter.of_nil] at *
      rw [followBrackets_opening hlexeme]
      exact hopen _ _
    · exact .of_spells st hu

/-- **What a reader calls unbalanced, the bracket check refuses.** -/
theorem Level.honest_ofNat (hf : finish.token = .endOfInput) : ∀ n,
    Honest (ofNat finish n).operand ∧ Honest (ofNat finish n).ratio
  | 0 => by
    constructor
    · intro lexemes fault _ h hc
      cases h
      cases hc
    · intro lexemes fault _ h hc
      cases h
      cases hc
  | n + 1 => by
    obtain ⟨hso, hsr⟩ := sound_ofNat hf n
    obtain ⟨hho, hhr⟩ := honest_ofNat hf n
    have ho := readOperand_honest hso hsr hho hhr hf
    exact ⟨ho, readRatio_honest (readOperand_sound hf hso hsr) ho hhr⟩

/-- **After the bracket check, the parser finds no bracket unbalanced.** -/
theorem readExpression_cause_ne (h : Sealed lexemes) (hcheck : checkBrackets lexemes = .ok ())
    {fault : Fault} (hread : readExpression n lexemes = .error fault) :
    fault.cause ≠ .unbalancedBracket := by
  intro hc
  have hf : (finishOf lexemes).token = .endOfInput := rfl
  have hok := checkBrackets_eq_ok_iff.1 hcheck
  have hs := (Level.sound_ofNat hf n).2
  obtain hsequence | ⟨e, rest, hsequence, hend, -⟩ := readWith_eq_error_iff.1 hread
  · exact readSequence_honest hs (Level.honest_ofNat hf n).2 _ _ h.endsOnce hsequence hc [] hok
  obtain ⟨d, sd, -, -⟩ := readSequence_sound hs hsequence
  rcases readSequence_followed hs h.endsOnce hsequence with
    ⟨closer, after, fence, rfl, ht⟩ | rfl | ⟨mark, rfl, ht⟩
  · -- the closing bracket has no partner among the lexemes before it
    have hrest := ((sd.followBrackets_sequence d _ _).1 hok).2
    rw [followBrackets_stranded ht (by simp)] at hrest
    cases hrest
  · exact hend rfl
  · exact hend ht

/-- **After the bracket check, every group that a reader builds is closed by a bracket that
matches**, also where the formula turns out to be faulty later on. -/
theorem closedBy_of_checkBrackets (hcheck : checkBrackets lexemes = .ok ()) {before l : List Lexeme}
    (hl : lexemes = before ++ l) (hf : finish.token = .endOfInput) {opening closing : Fence}
    {content : Expression}
    (hread : (Level.ofNat finish n).operand l = .ok (.group opening closing content, rest)) :
    opening.closedBy closing = true := by
  have hok := checkBrackets_eq_ok_iff.1 hcheck
  rw [hl] at hok
  obtain ⟨middle, -, hok⟩ := followBrackets_append_eq_ok_iff.1 hok
  obtain ⟨d, sd, hd, -⟩ := (Level.sound_ofNat hf n).1 _ _ _ hread
  have hm := ((sd.followBrackets_operand d _ _).1 hok).1
  rw [hd, Operand.Matched] at hm
  exact hm.1

/-! ## Conversion -/

theorem readFormula_scan_fault {source : String} {fault : Fault}
    (hf : (scan source).fault = some fault) (h : ¬ SomeOutOfPlace (scan source).lexemes) :
    readFormula source = .error fault := by
  unfold readFormula
  dsimp only
  rw [hf]
  dsimp only
  split
  · rename_i earlier he
    obtain ⟨closing, hc, -⟩ := openBrackets_eq_error_iff.1 he
    exact absurd (someOutOfPlace_iff.2 ⟨closing, hc⟩) h
  · rfl

/-- A closing bracket out of place is told whatever else is wrong. -/
theorem readFormula_outOfPlace {source : String} {closing : Lexeme}
    (h : FirstOutOfPlace (scan source).lexemes closing) :
    readFormula source = .error (unbalanced closing.span) := by
  cases hf : (scan source).fault with
  | none => rw [readFormula_eq_parse hf, parse_of_checkBrackets_error (checkBrackets_outOfPlace h)]
  | some fault =>
    unfold readFormula
    dsimp only
    rw [hf]
    dsimp only
    rw [openBrackets_eq_error_iff.2 ⟨closing, h, rfl⟩]

theorem readFormula_leftOpen {source : String} (hf : (scan source).fault = none)
    {outer : List Bracket} {innermost : Bracket}
    (h : LeavesOpen (scan source).lexemes (outer ++ [innermost])) :
    readFormula source = .error (unbalanced innermost.span) := by
  rw [readFormula_eq_parse hf, parse_of_checkBrackets_error (checkBrackets_leftOpen h)]

/-- A text whose brackets pair up is left to the parser. -/
theorem readFormula_of_paired {source : String} (hf : (scan source).fault = none)
    (hcheck : checkBrackets (scan source).lexemes = .ok ()) :
    readFormula source = readExpression nestingLimit (scan source).lexemes := by
  rw [readFormula_eq_parse hf, parse_of_checkBrackets_ok hcheck]

theorem convert_eq_error_iff {settings : Settings} {display : Display} {source : String}
    {fault : Fault} :
    convert settings display source = .error fault ↔ readFormula source = .error fault := by
  unfold convert
  cases readFormula source with
  | error earlier => simp
  | ok e => simp

/-- **Unbalanced brackets are told exactly where they are.** A conversion fails for an unbalanced
bracket if and only if a closing bracket is out of place or, in a text without another fault, an
opening one is never closed. The fault is told at the first bracket out of place, else at the
innermost one left open. In all other cases a verbatim text without an end is told, or else the text
is left to the parser, which then finds no bracket unbalanced at any nesting limit and closes every
group that it builds by a bracket that matches. -/
theorem convert_unbalancedBracket (settings : Settings) (display : Display) (source : String) :
    ((∃ span, convert settings display source = .error ⟨.unbalancedBracket, span⟩) ↔
      SomeOutOfPlace (scan source).lexemes ∨
        (scan source).fault = none ∧ SomeLeftOpen (scan source).lexemes) ∧
    (∀ closing, FirstOutOfPlace (scan source).lexemes closing →
      convert settings display source = .error ⟨.unbalancedBracket, closing.span⟩) ∧
    (¬ SomeOutOfPlace (scan source).lexemes → (scan source).fault = none →
      ∀ outer innermost, LeavesOpen (scan source).lexemes (outer ++ [innermost]) →
        convert settings display source = .error ⟨.unbalancedBracket, innermost.span⟩) ∧
    (¬ SomeOutOfPlace (scan source).lexemes → ∀ fault, (scan source).fault = some fault →
      fault.cause = .unterminatedText ∧ convert settings display source = .error fault) ∧
    (¬ SomeOutOfPlace (scan source).lexemes → (scan source).fault = none →
      ¬ SomeLeftOpen (scan source).lexemes →
        readFormula source = readExpression nestingLimit (scan source).lexemes ∧
        (∀ levels fault, readExpression levels (scan source).lexemes = .error fault →
          fault.cause ≠ .unbalancedBracket) ∧
        (∀ levels before l rest opening closing content, (scan source).lexemes = before ++ l →
          (Level.ofNat (finishOf (scan source).lexemes) levels).operand l =
            .ok (.group opening closing content, rest) →
          opening.closedBy closing = true)) := by
  refine ⟨⟨?_, ?_⟩, ?_, ?_, ?_, ?_⟩
  · rintro ⟨span, h⟩
    rw [convert_eq_error_iff] at h
    by_cases hout : SomeOutOfPlace (scan source).lexemes
    · exact .inl hout
    cases hf : (scan source).fault with
    | some fault =>
      rw [readFormula_scan_fault hf hout] at h
      cases h
      exact absurd (scan_fault hf) (by simp)
    | none =>
      refine .inr ⟨rfl, Classical.byContradiction fun hopen => ?_⟩
      have hcheck := checkBrackets_eq_ok hout hopen
      rw [readFormula_of_paired hf hcheck] at h
      exact readExpression_cause_ne (scan_sealed hf) hcheck h rfl
  · rintro (hout | ⟨hf, outer, innermost, hopen⟩)
    · obtain ⟨closing, hc⟩ := someOutOfPlace_iff.1 hout
      exact ⟨closing.span, convert_eq_error_iff.2 (readFormula_outOfPlace hc)⟩
    · exact ⟨innermost.span, convert_eq_error_iff.2 (readFormula_leftOpen hf hopen)⟩
  · intro closing hc
    exact convert_eq_error_iff.2 (readFormula_outOfPlace hc)
  · intro _ hf outer innermost hopen
    exact convert_eq_error_iff.2 (readFormula_leftOpen hf hopen)
  · intro hout fault hf
    exact ⟨scan_fault hf, convert_eq_error_iff.2 (readFormula_scan_fault hf hout)⟩
  · intro hout hf hopen
    have hcheck := checkBrackets_eq_ok hout hopen
    refine ⟨readFormula_of_paired hf hcheck, ?_, ?_⟩
    · intro levels fault h
      exact readExpression_cause_ne (scan_sealed hf) hcheck h
    · intro levels before l rest opening closing content hl hread
      exact closedBy_of_checkBrackets hcheck hl rfl hread

/-- A bracket by itself. -/
theorem convert_unbalancedBracket_single :
    convert {} .block ")" = .error ⟨.unbalancedBracket, ⟨0, 1⟩⟩ ∧
      convert {} .block "(" = .error ⟨.unbalancedBracket, ⟨0, 1⟩⟩ := by
  obtain ⟨-, hstray, -⟩ := convert_unbalancedBracket {} .block ")"
  obtain ⟨-, -, hopen, -⟩ := convert_unbalancedBracket {} .block "("
  constructor
  · have hscan : (scan ")").lexemes =
        [⟨.symbol (.closing .paren), ⟨0, 1⟩⟩, ⟨.endOfInput, ⟨1, 1⟩⟩] := by decide +kernel
    refine hstray ⟨.symbol (.closing .paren), ⟨0, 1⟩⟩ ⟨[], _, hscan, ?_, ?_⟩
    · exact ⟨.paren, [], rfl, .none .nil, by simp⟩
    · intro before' closing' after' _ _
      exact Nat.zero_le _
  · have hscan : scan "(" =
        ⟨[⟨.symbol (.opening .paren), ⟨0, 1⟩⟩, ⟨.endOfInput, ⟨1, 1⟩⟩], none⟩ := by decide +kernel
    rw [hscan] at hopen
    refine hopen ?_ rfl [] ⟨.paren, ⟨0, 1⟩⟩ ?_
    · intro hout
      obtain ⟨closing, hc⟩ := someOutOfPlace_iff.1 hout
      cases openBrackets_eq_error_iff.2 ⟨closing, hc, rfl⟩
    · have hnone : LeavesOpen [] [] := .none .nil
      have hend : Balanced [Token.endOfInput] := .plain rfl
      exact LeavesOpen.more (v := [⟨.endOfInput, ⟨1, 1⟩⟩]) hnone hend

end MathMarkup.Formula
