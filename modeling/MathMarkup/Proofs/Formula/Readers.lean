import MathMarkup.Formula.Expression.Counting

/-!
# Readers one behind the other

* `Reader.bind` — a reader and, from what it leaves, the next one.
* `Reader.behind` — the first lexeme and, from those after it, the next reader.

The readers of the parser are put together from these.
-/

namespace MathMarkup.Formula

variable {α β : Type} {lexemes rest : List Lexeme}

namespace Reader

/-- Reads on with `next` from where `read` stopped. -/
def bind (read : Reader α) (next : α → Reader β) : Reader β := fun lexemes =>
  match read lexemes with
  | .error fault => .error fault
  | .ok (value, rest) => next value rest

/-- Takes the first lexeme and reads on behind it. -/
def behind (finish : Lexeme) (next : Lexeme → Reader β) : Reader β := fun lexemes =>
  next (nextLexeme finish lexemes).1 (nextLexeme finish lexemes).2

variable {read : Reader α} {next : α → Reader β}

theorem bind_ok {value : α} (h : read lexemes = .ok (value, rest)) :
    read.bind next lexemes = next value rest := by
  rw [bind, h]

theorem bind_error {fault : Fault} (h : read lexemes = .error fault) :
    read.bind next lexemes = .error fault := by
  rw [bind, h]

theorem bind_pure (read : Reader α) : (read.bind fun value rest => .ok (value, rest)) = read := by
  funext lexemes
  cases h : read lexemes with
  | error fault => rw [bind_error h]
  | ok _ => rw [bind_ok h]

end Reader

theorem sequenceWithin_succ (ratio : Reader Ratio) (budget : Nat) :
    sequenceWithin ratio (budget + 1) = fun lexemes =>
      if endsSequence lexemes then .ok ([], lexemes)
      else (ratio.bind fun first => (sequenceWithin ratio budget).bind fun others lexemes =>
        .ok (first :: others, lexemes)) lexemes := by
  funext lexemes
  rw [sequenceWithin]
  cases hfirst : ratio lexemes with
  | error fault => rw [Reader.bind_error hfirst]
  | ok read =>
    rw [Reader.bind_ok hfirst]
    dsimp only
    cases hothers : sequenceWithin ratio budget read.2 with
    | error fault => rw [Reader.bind_error hothers]
    | ok read => rw [Reader.bind_ok hothers]

theorem readTerm_eq (operand : Reader Operand) :
    readTerm operand = operand.bind fun base lexemes =>
      match scriptSign lexemes with
      | none => .ok (.bare base, lexemes)
      | some (side, _, lexemes) =>
        (operand.bind fun first lexemes =>
          match scriptSign lexemes with
          | none => .ok (.withScript base first side, lexemes)
          | some (otherSide, span, lexemes) =>
            if otherSide = side then .error ⟨.duplicateScript, span⟩
            else
              (operand.bind fun second lexemes =>
                match scriptSign lexemes with
                | none => .ok (.withScripts base first second side, lexemes)
                | some (_, span, _) => .error ⟨.duplicateScript, span⟩) lexemes) lexemes := by
  funext lexemes
  rw [readTerm]
  cases hbase : operand lexemes with
  | error fault => rw [Reader.bind_error hbase]
  | ok read =>
    rw [Reader.bind_ok hbase]
    dsimp only
    cases scriptSign read.2 with
    | none => rfl
    | some sign =>
      dsimp only
      cases hfirst : operand sign.2.2 with
      | error fault => rw [Reader.bind_error hfirst]
      | ok read =>
        rw [Reader.bind_ok hfirst]
        dsimp only
        cases scriptSign read.2 with
        | none => rfl
        | some sign =>
          dsimp only
          split
          · rfl
          cases hsecond : operand sign.2.2 with
          | error fault => rw [Reader.bind_error hsecond]
          | ok read => cases hthird : scriptSign read.2 <;> simp only [Reader.bind_ok hsecond, hthird]

theorem readRatio_eq (operand : Reader Operand) (denominator : Reader Ratio) :
    readRatio operand denominator = (readTerm operand).bind fun numerator lexemes =>
      match afterSlash? lexemes with
      | none => .ok (.term numerator, lexemes)
      | some lexemes =>
        (denominator.bind fun below lexemes => .ok (.divided numerator below, lexemes)) lexemes := by
  funext lexemes
  rw [readRatio]
  cases hnumerator : readTerm operand lexemes with
  | error fault => rw [Reader.bind_error hnumerator]
  | ok read =>
    rw [Reader.bind_ok hnumerator]
    dsimp only
    cases afterSlash? read.2 with
    | none => rfl
    | some lexemes =>
      dsimp only
      cases hbelow : denominator lexemes with
      | error fault => rw [Reader.bind_error hbelow]
      | ok read => rw [Reader.bind_ok hbelow]

theorem readVerbatim_eq (finish : Lexeme) :
    readVerbatim finish = Reader.behind finish fun lexeme lexemes =>
      match lexeme.token with
      | .text content => .ok (content, lexemes)
      | .endOfInput => .error ⟨.unexpectedEnd, lexeme.span⟩
      | _ => .error ⟨.missingOperand, lexeme.span⟩ := by
  rfl

theorem readGroup_eq (finish : Lexeme) (inner : Level) (opening : Fence) :
    readGroup finish inner opening = (readSequence inner.ratio).bind fun content =>
      Reader.behind finish fun lexeme lexemes =>
        match lexeme.token with
        | .symbol (.closing closing) => .ok (.group opening closing content, lexemes)
        | _ => .error (unbalanced lexeme.span) := by
  funext lexemes
  rw [readGroup]
  cases hcontent : readSequence inner.ratio lexemes with
  | error fault => rw [Reader.bind_error hcontent]
  | ok read =>
    rw [Reader.bind_ok hcontent]
    rfl

theorem readWhole_eq (finish : Lexeme) (ratio : Reader Ratio) :
    readWhole finish ratio = (readSequence ratio).bind fun expression =>
      Reader.behind finish fun lexeme lexemes =>
        match lexeme.token with
        | .endOfInput => .ok (expression, lexemes)
        | _ => .error (unbalanced lexeme.span) := by
  funext lexemes
  rw [readWhole]
  cases hsequence : readSequence ratio lexemes with
  | error fault => rw [Reader.bind_error hsequence]
  | ok read =>
    rw [Reader.bind_ok hsequence]
    rfl

theorem readOperand_eq (finish : Lexeme) (inner : Level) :
    readOperand finish inner = Reader.behind finish fun lexeme lexemes =>
      readOperand finish inner (lexeme :: lexemes) := by
  funext lexemes
  cases lexemes <;> rfl

section Symbols

variable (finish : Lexeme) (inner : Level) (span : Span)

theorem readSymbol_unary (f : Unary) :
    readSymbol finish inner (.unary f) span = inner.operand.bind fun operand lexemes =>
      .ok (.unary f operand, lexemes) := by
  funext lexemes
  rw [readSymbol]
  cases hoperand : inner.operand lexemes with
  | error fault => rw [Reader.bind_error hoperand]
  | ok read => rw [Reader.bind_ok hoperand]

theorem readSymbol_binary (f : Binary) :
    readSymbol finish inner (.binary f) span = inner.operand.bind fun first =>
      inner.operand.bind fun second lexemes => .ok (.binary f first second, lexemes) := by
  funext lexemes
  rw [readSymbol]
  cases hfirst : inner.operand lexemes with
  | error fault => rw [Reader.bind_error hfirst]
  | ok read =>
    rw [Reader.bind_ok hfirst]
    dsimp only
    cases hsecond : inner.operand read.2 with
    | error fault => rw [Reader.bind_error hsecond]
    | ok read => rw [Reader.bind_ok hsecond]

theorem readSymbol_text :
    readSymbol finish inner .text span = (readVerbatim finish).bind fun content lexemes =>
      .ok (.words content, lexemes) := by
  funext lexemes
  rw [readSymbol]
  cases hcontent : readVerbatim finish lexemes with
  | error fault => rw [Reader.bind_error hcontent]
  | ok read => rw [Reader.bind_ok hcontent]

theorem readSymbol_color :
    readSymbol finish inner .color span = (readVerbatim finish).bind fun name =>
      inner.operand.bind fun operand lexemes => .ok (.color name operand, lexemes) := by
  funext lexemes
  rw [readSymbol]
  cases hname : readVerbatim finish lexemes with
  | error fault => rw [Reader.bind_error hname]
  | ok read =>
    rw [Reader.bind_ok hname]
    dsimp only
    cases hoperand : inner.operand read.2 with
    | error fault => rw [Reader.bind_error hoperand]
    | ok read => rw [Reader.bind_ok hoperand]

end Symbols

end MathMarkup.Formula
