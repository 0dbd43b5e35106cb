import MathMarkup.Proofs.Formula.Rewording

/-!
# Formulas with other texts at other places

The readers of expressions hand the verbatim texts and the spans of the lexemes on and never look into
them. So whatever is done with the texts of the lexemes is done with those of the expression, whatever is
done with the spans is done with the span of the fault, and nothing else is changed.

* `Lexeme.relocate`, `Fault.relocate` — a lexeme and a fault with another span.
* `Rewording`, `Lexeme.reword` — a lexeme with another text and another span.
* `Rewords` — two readers of which one does at the new lexemes what the other does at the old ones.

Principal results: `Level.rewords_ofNat` — the readers of all levels do so; `parse_reword` — and so does
the parser; `parse_relocate` — what is read depends on the tokens alone; `exists_lexeme_of_parse_error` —
a fault is told at a lexeme.
-/

namespace MathMarkup.Formula

/-! ## Other spans -/

section Spans

variable {place : Span → Span} {lexemes : List Lexeme}

def Lexeme.relocate (place : Span → Span) (lexeme : Lexeme) : Lexeme :=
  ⟨lexeme.token, place lexeme.span⟩

def Fault.relocate (place : Span → Span) (fault : Fault) : Fault := ⟨fault.cause, place fault.span⟩

def Bracket.relocate (place : Span → Span) (bracket : Bracket) : Bracket :=
  ⟨bracket.fence, place bracket.span⟩

/-- Lexemes of which no two have one span can be given all other spans. -/
theorem exists_relocate {lexemes' : List Lexeme}
    (htokens : lexemes'.map (·.token) = lexemes.map (·.token))
    (hspans : lexemes.Pairwise fun a b => a.span ≠ b.span) :
    ∃ place, lexemes' = lexemes.map (Lexeme.relocate place) := by
  induction lexemes generalizing lexemes' with
  | nil =>
    rw [List.map_nil, List.map_eq_nil_iff] at htokens
    exact ⟨id, htokens⟩
  | cons first others ih =>
    cases lexemes' with
    | nil => cases htokens
    | cons first' others' =>
      obtain ⟨htoken, htokens⟩ := List.cons.inj htokens
      obtain ⟨hfirst, hothers⟩ := List.pairwise_cons.1 hspans
      obtain ⟨place, hplace⟩ := ih htokens hothers
      refine ⟨fun span => if span = first.span then first'.span else place span, ?_⟩
      have htail : others.map (Lexeme.relocate place) = others.map (Lexeme.relocate fun span =>
          if span = first.span then first'.span else place span) := by
        refine List.map_congr_left fun lexeme hmem => ?_
        rw [Lexeme.relocate, Lexeme.relocate, if_neg (Ne.symm (hfirst lexeme hmem))]
      have hhead : first' = ⟨first.token, first'.span⟩ := congrArg (Lexeme.mk · first'.span) htoken
      rw [List.map_cons, Lexeme.relocate, if_pos rfl, ← htail, ← hplace, ← hhead]

/-- The lexeme behind the last one, where that is the mark of the end. -/
theorem finishOf_concat (body : List Lexeme) (offset : Nat) :
    finishOf (body ++ [⟨.endOfInput, Span.empty offset⟩]) = ⟨.endOfInput, Span.empty offset⟩ := by
  rw [finishOf, List.getLast?_concat]
  rfl

end Spans

/-! ## Other texts at other places -/

/-- A text for every verbatim text, and a place for every span. -/
structure Rewording where
  text : String → String
  place : Span → Span

def Lexeme.reword (w : Rewording) (lexeme : Lexeme) : Lexeme :=
  ⟨lexeme.token.mapText w.text, w.place lexeme.span⟩

variable {α : Type} {w : Rewording} {lexemes : List Lexeme} {finish : Lexeme}

/-- What a reader yields, with other texts in the value and in the lexemes that are left. -/
def rewordRead (w : Rewording) (g : α → α) :
    Except Fault (α × List Lexeme) → Except Fault (α × List Lexeme)
  | .error fault => .error (fault.relocate w.place)
  | .ok (value, rest) => .ok (g value, rest.map (Lexeme.reword w))

/-- The reader `reader'` does with the new lexemes what `reader` does with the old ones. -/
def Rewords (w : Rewording) (g : α → α) (reader reader' : Reader α) : Prop :=
  ∀ lexemes, reader' (lexemes.map (Lexeme.reword w)) = rewordRead w g (reader lexemes)

/-! ## The front of the lexemes -/

theorem nextLexeme_reword (w : Rewording) (finish : Lexeme) (lexemes : List Lexeme) :
    nextLexeme (finish.reword w) (lexemes.map (Lexeme.reword w)) =
      ((nextLexeme finish lexemes).1.reword w,
        (nextLexeme finish lexemes).2.map (Lexeme.reword w)) := by
  cases lexemes <;> rfl

theorem endsSequence_reword (w : Rewording) (lexemes : List Lexeme) :
    endsSequence (lexemes.map (Lexeme.reword w)) = endsSequence lexemes := by
  cases lexemes with
  | nil => rfl
  | cons lexeme rest =>
    rw [List.map_cons, endsSequence, endsSequence, Lexeme.reword]
    cases lexeme.token <;> rfl

theorem scriptSign_reword (w : Rewording) (lexemes : List Lexeme) :
    scriptSign (lexemes.map (Lexeme.reword w)) =
      (scriptSign lexemes).map fun (side, span, rest) =>
        (side, w.place span, rest.map (Lexeme.reword w)) := by
  cases lexemes with
  | nil => rfl
  | cons lexeme rest =>
    rw [List.map_cons, scriptSign, scriptSign, Lexeme.reword]
    cases lexeme.token with
    | symbol s => cases s <;> rfl
    | _ => rfl

theorem afterSlash?_reword (w : Rewording) (lexemes : List Lexeme) :
    afterSlash? (lexemes.map (Lexeme.reword w)) =
      (afterSlash? lexemes).map (List.map (Lexeme.reword w)) := by
  cases lexemes with
  | nil => rfl
  | cons lexeme rest =>
    rw [List.map_cons, afterSlash?, afterSlash?, Lexeme.reword]
    cases lexeme.token with
    | symbol s => cases s <;> rfl
    | _ => rfl

/-! ## Readers -/

section Readers

variable {operand operand' : Reader Operand} {ratio ratio' : Reader Ratio}

theorem rewords_sequenceWithin (h : Rewords w (Ratio.mapTexts w.text) ratio ratio') :
    ∀ budget, Rewords w (expressionMapTexts w.text) (sequenceWithin ratio budget)
      (sequenceWithin ratio' budget)
  | 0, lexemes => rfl
  | budget + 1, lexemes => by
    rw [sequenceWithin, sequenceWithin, endsSequence_reword, h lexemes]
    split
    · rfl
    cases ratio lexemes with
    | error fault => rfl
    | ok read =>
      obtain ⟨first, lexemes⟩ := read
      dsimp only [rewordRead]
      rw [rewords_sequenceWithin h budget lexemes]
      cases sequenceWithin ratio budget lexemes <;> rfl

theorem rewords_readSequence (h : Rewords w (Ratio.mapTexts w.text) ratio ratio') :
    Rewords w (expressionMapTexts w.text) (readSequence ratio) (readSequence ratio') := by
  intro lexemes
  rw [readSequence, readSequence, List.length_map]
  exact rewords_sequenceWithin h lexemes.length lexemes

theorem rewords_readTerm (h : Rewords w (Operand.mapTexts w.text) operand operand') :
    Rewords w (Term.mapTexts w.text) (readTerm operand) (readTerm operand') := by
  intro lexemes
  rw [readTerm, readTerm, h lexemes]
  cases operand lexemes with
  | error fault => rfl
  | ok read =>
    obtain ⟨base, lexemes⟩ := read
    dsimp only [rewordRead]
    rw [scriptSign_reword]
    cases scriptSign lexemes with
    | none => rfl
    | some sign =>
      obtain ⟨side, span, lexemes⟩ := sign
      dsimp only [Option.map_some]
      rw [h lexemes]
      cases operand lexemes with
      | error fault => rfl
      | ok read =>
        obtain ⟨first, lexemes⟩ := read
        dsimp only [rewordRead]
        rw [scriptSign_reword]
        cases scriptSign lexemes with
        | none =>
          dsimp only [Option.map_none]
          rw [Term.mapTexts_withScript]
        | some sign =>
          obtain ⟨otherSide, span, lexemes⟩ := sign
          dsimp only [Option.map_some]
          split
          · rfl
          rw [h lexemes]
          cases operand lexemes with
          | error fault => rfl
          | ok read =>
            obtain ⟨second, lexemes⟩ := read
            dsimp only [rewordRead]
            rw [scriptSign_reword]
            cases scriptSign lexemes with
            | none =>
              dsimp only [Option.map_none]
              rw [Term.mapTexts_withScripts]
            | some sign => rfl

theorem rewords_readRatio (h : Rewords w (Operand.mapTexts w.text) operand operand')
    (hd : Rewords w (Ratio.mapTexts w.text) ratio ratio') :
    Rewords w (Ratio.mapTexts w.text) (readRatio operand ratio) (readRatio operand' ratio') := by
  intro lexemes
  rw [readRatio, readRatio, rewords_readTerm h lexemes]
  cases readTerm operand lexemes with
  | error fault => rfl
  | ok read =>
    obtain ⟨numerator, lexemes⟩ := read
    dsimp only [rewordRead]
    rw [afterSlash?_reword]
    cases afterSlash? lexemes with
    | none => rfl
    | some lexemes =>
      dsimp only [Option.map_some]
      rw [hd lexemes]
      cases ratio lexemes <;> rfl

theorem rewords_readWhole (h : Rewords w (Ratio.mapTexts w.text) ratio ratio') (finish : Lexeme) :
    Rewords w (expressionMapTexts w.text) (readWhole finish ratio)
      (readWhole (finish.reword w) ratio') := by
  intro lexemes
  rw [readWhole, readWhole, rewords_readSequence h lexemes]
  cases readSequence ratio lexemes with
  | error fault => rfl
  | ok read =>
    obtain ⟨expression, lexemes⟩ := read
    dsimp only [rewordRead]
    rw [nextLexeme_reword]
    dsimp only [Lexeme.reword]
    cases (nextLexeme finish lexemes).1.token <;> rfl

theorem rewords_readVerbatim (w : Rewording) (finish : Lexeme) :
    Rewords w w.text (readVerbatim finish) (readVerbatim (finish.reword w)) := by
  intro lexemes
  rw [readVerbatim, readVerbatim, nextLexeme_reword]
  dsimp only [Lexeme.reword]
  cases (nextLexeme finish lexemes).1.token <;> rfl

end Readers

/-- The readers of a level do with the new lexemes what those of the other level do with the old ones. -/
structure Level.Rewords (w : Rewording) (level level' : Level) : Prop where
  operand : Formula.Rewords w (Operand.mapTexts w.text) level.operand level'.operand
  ratio : Formula.Rewords w (Ratio.mapTexts w.text) level.ratio level'.ratio

section Levels

variable {inner inner' : Level}

theorem rewords_readGroup (h : inner.Rewords w inner') (finish : Lexeme) (opening : Fence) :
    Rewords w (Operand.mapTexts w.text) (readGroup finish inner opening)
      (readGroup (finish.reword w) inner' opening) := by
  intro lexemes
  rw [readGroup, readGroup, rewords_readSequence h.ratio lexemes]
  cases readSequence inner.ratio lexemes with
  | error fault => rfl
  | ok read =>
    obtain ⟨content, lexemes⟩ := read
    dsimp only [rewordRead]
    rw [nextLexeme_reword]
    dsimp only [Lexeme.reword]
    cases (nextLexeme finish lexemes).1.token with
    | symbol s => cases s <;> rfl
    | _ => rfl

/-- Behind a symbol. The symbol itself stands at a place, too. -/
theorem rewords_readSymbol (h : inner.Rewords w inner') (finish : Lexeme) (symbol : Symbol)
    (span : Span) :
    Rewords w (Operand.mapTexts w.text) (readSymbol finish inner symbol span)
      (readSymbol (finish.reword w) inner' symbol (w.place span)) := by
  intro lexemes
  cases symbol with
  | sign s => rfl
  | closing fence => rfl
  | superscript => rfl
  | subscript => rfl
  | slash => rfl
  | opening fence => exact rewords_readGroup h finish fence lexemes
  | unary f =>
    dsimp only [readSymbol]
    rw [h.operand lexemes]
    cases inner.operand lexemes <;> rfl
  | binary f =>
    dsimp only [readSymbol]
    rw [h.operand lexemes]
    cases inner.operand lexemes with
    | error fault => rfl
    | ok read =>
      obtain ⟨first, lexemes⟩ := read
      dsimp only [rewordRead]
      rw [h.operand lexemes]
      cases inner.operand lexemes <;> rfl
  | text =>
    dsimp only [readSymbol]
    rw [rewords_readVerbatim w finish lexemes]
    cases readVerbatim finish lexemes <;> rfl
  | color =>
    dsimp only [readSymbol]
    rw [rewords_readVerbatim w finish lexemes]
    cases readVerbatim finish lexemes with
    | error fault => rfl
    | ok read =>
      obtain ⟨name, lexemes⟩ := read
      dsimp only [rewordRead]
      rw [h.operand lexemes]
      cases inner.operand lexemes <;> rfl

theorem rewords_readOperand (h : inner.Rewords w inner') (finish : Lexeme) :
    Rewords w (Operand.mapTexts w.text) (readOperand finish inner)
      (readOperand (finish.reword w) inner') := by
  intro lexemes
  rw [readOperand, readOperand, nextLexeme_reword]
  dsimp only [Lexeme.reword]
  cases (nextLexeme finish lexemes).1.token with
  | symbol s => exact rewords_readSymbol h finish s _ _
  | _ => rfl

/-- **The readers of all levels treat texts and spans as opaque.** -/
theorem Level.rewords_ofNat (w : Rewording) (finish : Lexeme) :
    ∀ n, (Level.ofNat finish n).Rewords w (Level.ofNat (finish.reword w) n)
  | 0 => by
    constructor <;> intro lexemes
    all_goals
      show Except.error _ = _
      rw [nextLexeme_reword]
      rfl
  | n + 1 => by
    have ih := Level.rewords_ofNat w finish n
    have hoperand := rewords_readOperand ih finish
    exact ⟨hoperand, rewords_readRatio hoperand ih.ratio⟩

end Levels

/-! ## Whole formulas -/

theorem readExpression_reword (levels : Nat)
    (hfinish : finishOf (lexemes.map (Lexeme.reword w)) = (finishOf lexemes).reword w) :
    readExpression levels (lexemes.map (Lexeme.reword w)) =
      ((readExpression levels lexemes).map (expressionMapTexts w.text)).mapError
        (Fault.relocate w.place) := by
  have hlevel := Level.rewords_ofNat w (finishOf lexemes) levels
  have hwhole := rewords_readWhole hlevel.ratio (finishOf lexemes) lexemes
  rw [readExpression, readExpression, hfinish, readWith, readWith, hfinish, hwhole]
  cases readWhole (finishOf lexemes) (Level.ofNat (finishOf lexemes) levels).ratio lexemes <;> rfl

theorem followBrackets_reword (w : Rewording) (lexemes : List Lexeme) :
    ∀ stack : List Bracket,
      followBrackets (stack.map (Bracket.relocate w.place)) (lexemes.map (Lexeme.reword w)) =
        ((followBrackets stack lexemes).map (List.map (Bracket.relocate w.place))).mapError
          (Fault.relocate w.place) := by
  induction lexemes with
  | nil => intro stack; rfl
  | cons lexeme rest ih =>
    intro stack
    rw [List.map_cons, followBrackets, followBrackets, Lexeme.reword]
    cases lexeme.token with
    | symbol s =>
      cases s with
      | opening fence => exact ih (⟨fence, lexeme.span⟩ :: stack)
      | closing fence =>
        cases stack with
        | nil => rfl
        | cons innermost outer =>
          simp only [Token.mapText, List.map_cons, Bracket.relocate]
          by_cases hclosed : innermost.fence.closedBy fence = true
          · rw [if_pos hclosed, if_pos hclosed]
            exact ih outer
          · rw [if_neg hclosed, if_neg hclosed]
            rfl
      | _ => exact ih stack
    | _ => exact ih stack

theorem openBrackets_reword (w : Rewording) (lexemes : List Lexeme) :
    openBrackets (lexemes.map (Lexeme.reword w)) =
      ((openBrackets lexemes).map (List.map (Bracket.relocate w.place))).mapError
        (Fault.relocate w.place) := by
  have hfollow := followBrackets_reword w lexemes []
  rw [List.map_nil] at hfollow
  rw [openBrackets, openBrackets, hfollow]
  cases followBrackets [] lexemes with
  | error fault => rfl
  | ok stack =>
    dsimp only [Except.map, Except.mapError]
    rw [List.map_reverse]

theorem checkBrackets_reword (w : Rewording) (lexemes : List Lexeme) :
    checkBrackets (lexemes.map (Lexeme.reword w)) =
      (checkBrackets lexemes).mapError (Fault.relocate w.place) := by
  rw [checkBrackets, checkBrackets, openBrackets_reword]
  cases openBrackets lexemes with
  | error fault => rfl
  | ok brackets =>
    dsimp only [Except.map, Except.mapError]
    rw [List.getLast?_map]
    cases brackets.getLast? <;> rfl

/-- **The parser treats texts and spans as opaque.** With other texts at other places the expression has
the other texts, or the same fault is told at the new place. -/
theorem parse_reword
    (hfinish : finishOf (lexemes.map (Lexeme.reword w)) = (finishOf lexemes).reword w) :
    parse (lexemes.map (Lexeme.reword w)) =
      ((parse lexemes).map (expressionMapTexts w.text)).mapError (Fault.relocate w.place) := by
  rw [parse, parse, parseWith, parseWith, checkBrackets_reword]
  cases checkBrackets lexemes with
  | error fault => rfl
  | ok _ => exact readExpression_reword nestingLimit hfinish

/-! ## The same texts -/

variable {place : Span → Span} {fault : Fault}

theorem Lexeme.reword_id (place : Span → Span) : Lexeme.reword ⟨id, place⟩ = Lexeme.relocate place := by
  funext lexeme
  rw [reword, lexeme.token.mapText_id]
  rfl

/-- **What is read depends on the tokens alone.** At other places the same expression is read, or the
same fault is told at the new place. -/
theorem parse_relocate
    (hfinish : finishOf (lexemes.map (Lexeme.relocate place)) = (finishOf lexemes).relocate place) :
    parse (lexemes.map (Lexeme.relocate place)) =
      (parse lexemes).mapError (Fault.relocate place) := by
  rw [← Lexeme.reword_id] at hfinish ⊢
  rw [parse_reword hfinish]
  cases parse lexemes with
  | error fault => rfl
  | ok expression => exact congrArg Except.ok (expressionMapTexts_id expression)

/-- **A fault is told at a lexeme.** If all spans but those of the lexemes are changed, the lexemes and
so the fault stay what they are. -/
theorem exists_lexeme_of_parse_error (hfinish : finishOf lexemes ∈ lexemes)
    (h : parse lexemes = .error fault) : ∃ lexeme ∈ lexemes, lexeme.span = fault.span := by
  refine Classical.byContradiction fun hno => ?_
  let place : Span → Span := fun span =>
    if span ∈ lexemes.map (·.span) then span else ⟨span.start + 1, span.stop⟩
  have hkept : ∀ lexeme ∈ lexemes, lexeme.relocate place = lexeme := by
    intro lexeme hmem
    have hspan : lexeme.span ∈ lexemes.map (·.span) := List.mem_map.2 ⟨lexeme, hmem, rfl⟩
    rw [Lexeme.relocate]
    simp only [place, if_pos hspan]
  have hmap : lexemes.map (Lexeme.relocate place) = lexemes := by
    rw [List.map_congr_left hkept, List.map_id']
  have hfixed : finishOf (lexemes.map (Lexeme.relocate place)) = (finishOf lexemes).relocate place := by
    rw [hmap, hkept _ hfinish]
  have hsame := parse_relocate hfixed
  rw [hmap, h] at hsame
  have hspan : fault.span = place fault.span := congrArg Fault.span (Except.error.inj hsame)
  have houtside : fault.span ∉ lexemes.map (·.span) := by
    intro hmem
    obtain ⟨lexeme, hlexeme, heq⟩ := List.mem_map.1 hmem
    exact hno ⟨lexeme, hlexeme, heq⟩
  simp only [place, if_neg houtside] at hspan
  have hstart : fault.span.start = fault.span.start + 1 := congrArg Span.start hspan
  omega

end MathMarkup.Formula
