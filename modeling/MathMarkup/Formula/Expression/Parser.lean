import MathMarkup.Formula.Brackets
import MathMarkup.Formula.Expression

/-!
# Reading expressions

A reader takes a part of an expression from the front of a list of lexemes. The readers of one
nesting level are built from those of the level inside it, so that the recursion follows the levels
that are left.

* `Reader` — takes a part of an expression, or tells the fault that is in its way.
* `Level` — the readers that are at hand with a given number of levels left.
* `readWith`, `parseWith` — whole expressions, read by the readers of a level.
* `parse` — the expression that a list of lexemes spells.
-/

namespace MathMarkup.Formula

/-- Takes a value from the front of the lexemes and leaves the others. -/
abbrev Reader (α : Type) := List Lexeme → Except Fault (α × List Lexeme)

/-- The first lexeme, and those after it. Behind the last one stands the mark `finish`. -/
def nextLexeme (finish : Lexeme) : List Lexeme → Lexeme × List Lexeme
  | [] => (finish, [])
  | lexeme :: rest => (lexeme, rest)

/-- A sequence ends at a closing bracket and at the end of the formula. -/
def endsSequence : List Lexeme → Bool
  | [] => true
  | lexeme :: _ =>
    match lexeme.token with
    | .endOfInput => true
    | .symbol (.closing _) => true
    | _ => false

/-- Reads at most `budget` ratios. Every ratio takes a lexeme, so a budget of one for each
lexeme does not run out before the lexemes do. -/
def sequenceWithin (ratio : Reader Ratio) : Nat → Reader Expression
  | 0, lexemes => .ok ([], lexemes)
  | budget + 1, lexemes =>
    if endsSequence lexemes then .ok ([], lexemes)
    else
      match ratio lexemes with
      | .error fault => .error fault
      | .ok (first, lexemes) =>
        match sequenceWithin ratio budget lexemes with
        | .error fault => .error fault
        | .ok (others, lexemes) => .ok (first :: others, lexemes)

/-- Reads ratios as long as the sequence does not end. -/
def readSequence (ratio : Reader Ratio) : Reader Expression := fun lexemes =>
  sequenceWithin ratio lexemes.length lexemes

/-- Whether a script sits below or above its base. -/
inductive ScriptSide where
  | lower
  | upper
  deriving DecidableEq, Repr

/-- The sign for a script at the front of the lexemes, if there is one. -/
def scriptSign : List Lexeme → Option (ScriptSide × Span × List Lexeme)
  | [] => none
  | lexeme :: rest =>
    match lexeme.token with
    | .symbol .subscript => some (.lower, lexeme.span, rest)
    | .symbol .superscript => some (.upper, lexeme.span, rest)
    | _ => none

/-- A base with one script. -/
def Term.withScript (base script : Operand) : ScriptSide → Term
  | .lower => .sub base script
  | .upper => .sup base script

/-- A base with two scripts, the first of which sits on the given side. -/
def Term.withScripts (base first second : Operand) : ScriptSide → Term
  | .lower => .subSup base first second
  | .upper => .subSup base second first

/-- Reads an operand and its scripts. Each side takes one script at most. -/
def readTerm (operand : Reader Operand) : Reader Term := fun lexemes =>
  match operand lexemes with
  | .error fault => .error fault
  | .ok (base, lexemes) =>
    match scriptSign lexemes with
    | none => .ok (.bare base, lexemes)
    | some (side, _, lexemes) =>
      match operand lexemes with
      | .error fault => .error fault
      | .ok (first, lexemes) =>
        match scriptSign lexemes with
        | none => .ok (.withScript base first side, lexemes)
        | some (otherSide, span, lexemes) =>
          if otherSide = side then .error ⟨.duplicateScript, span⟩
          else
            match operand lexemes with
            | .error fault => .error fault
            | .ok (second, lexemes) =>
              match scriptSign lexemes with
              | none => .ok (.withScripts base first second side, lexemes)
              | some (_, span, _) => .error ⟨.duplicateScript, span⟩

/-- The lexemes after a slash, if one stands at the front. -/
def afterSlash? : List Lexeme → Option (List Lexeme)
  | [] => none
  | lexeme :: rest =>
    match lexeme.token with
    | .symbol .slash => some rest
    | _ => none

/-- Reads a term and, after a slash, the denominator that belongs to it. -/
def readRatio (operand : Reader Operand) (denominator : Reader Ratio) : Reader Ratio :=
  fun lexemes =>
    match readTerm operand lexemes with
    | .error fault => .error fault
    | .ok (numerator, lexemes) =>
      match afterSlash? lexemes with
      | none => .ok (.term numerator, lexemes)
      | some lexemes =>
        match denominator lexemes with
        | .error fault => .error fault
        | .ok (below, lexemes) => .ok (.divided numerator below, lexemes)

/-- Reads a verbatim argument. -/
def readVerbatim (finish : Lexeme) : Reader String := fun lexemes =>
  let (lexeme, rest) := nextLexeme finish lexemes
  match lexeme.token with
  | .text content => .ok (content, rest)
  | .endOfInput => .error ⟨.unexpectedEnd, lexeme.span⟩
  | _ => .error ⟨.missingOperand, lexeme.span⟩

/-- The readers that are at hand with a given number of nesting levels left. -/
structure Level where
  operand : Reader Operand
  ratio : Reader Ratio

/-- Reads the content of a group and the bracket that closes it. -/
def readGroup (finish : Lexeme) (inner : Level) (opening : Fence) : Reader Operand :=
  fun lexemes =>
    match readSequence inner.ratio lexemes with
    | .error fault => .error fault
    | .ok (content, lexemes) =>
      let (lexeme, rest) := nextLexeme finish lexemes
      match lexeme.token with
      | .symbol (.closing closing) => .ok (.group opening closing content, rest)
      | _ => .error (unbalanced lexeme.span)

/-- Reads the operands of a symbol that stands at `span`. -/
def readSymbol (finish : Lexeme) (inner : Level) (symbol : Symbol) (span : Span) :
    Reader Operand := fun lexemes =>
  match symbol with
  | .sign s => .ok (.leaf (.sign s), lexemes)
  | .opening fence => readGroup finish inner fence lexemes
  | .closing _ => .error ⟨.missingOperand, span⟩
  | .superscript => .error ⟨.missingOperand, span⟩
  | .subscript => .error ⟨.missingOperand, span⟩
  | .slash => .error ⟨.missingOperand, span⟩
  | .unary f =>
    match inner.operand lexemes with
    | .error fault => .error fault
    | .ok (operand, lexemes) => .ok (.unary f operand, lexemes)
  | .binary f =>
    match inner.operand lexemes with
    | .error fault => .error fault
    | .ok (first, lexemes) =>
      match inner.operand lexemes with
      | .error fault => .error fault
      | .ok (second, lexemes) => .ok (.binary f first second, lexemes)
  | .text =>
    match readVerbatim finish lexemes with
    | .error fault => .error fault
    | .ok (content, lexemes) => .ok (.words content, lexemes)
  | .color =>
    match readVerbatim finish lexemes with
    | .error fault => .error fault
    | .ok (name, lexemes) =>
      match inner.operand lexemes with
      | .error fault => .error fault
      | .ok (operand, lexemes) => .ok (.color name operand, lexemes)

/-- Reads an operand, with the readers of the level inside it. -/
def readOperand (finish : Lexeme) (inner : Level) : Reader Operand := fun lexemes =>
  let (lexeme, rest) := nextLexeme finish lexemes
  match lexeme.token with
  | .endOfInput => .error ⟨.unexpectedEnd, lexeme.span⟩
  | .number digits => .ok (.leaf (.number digits), rest)
  | .letter c => .ok (.leaf (.letter c), rest)
  | .text content => .ok (.leaf (.text content), rest)
  | .symbol s => readSymbol finish inner s lexeme.span rest

namespace Level

/-- Without a level left, every lexeme is one too deep. -/
def exhausted (finish : Lexeme) : Level :=
  ⟨fun lexemes => .error ⟨.nestingLimit, (nextLexeme finish lexemes).1.span⟩,
   fun lexemes => .error ⟨.nestingLimit, (nextLexeme finish lexemes).1.span⟩⟩

/-- The level around another one. -/
def around (finish : Lexeme) (inner : Level) : Level :=
  ⟨readOperand finish inner, readRatio (readOperand finish inner) inner.ratio⟩

/-- The readers with `n` levels left. -/
def ofNat (finish : Lexeme) : Nat → Level
  | 0 => exhausted finish
  | n + 1 => around finish (ofNat finish n)

end Level

/-- How many operands and denominators may stand inside one another. -/
def nestingLimit : Nat := 128

/-- The empty lexeme that stands behind the last one. -/
def finishOf (lexemes : List Lexeme) : Lexeme :=
  ⟨.endOfInput, Span.empty ((lexemes.getLast?.map (·.span.stop)).getD 0)⟩

/-- Reads a whole expression, up to the mark of the end. -/
def readWhole (finish : Lexeme) (ratio : Reader Ratio) : Reader Expression := fun lexemes =>
  match readSequence ratio lexemes with
  | .error fault => .error fault
  | .ok (expression, lexemes) =>
    let (lexeme, rest) := nextLexeme finish lexemes
    match lexeme.token with
    | .endOfInput => .ok (expression, rest)
    | _ => .error (unbalanced lexeme.span)

/-- The expression that the lexemes spell, where the readers of `level` are at hand. -/
def readWith (level : Level) (lexemes : List Lexeme) : Except Fault Expression :=
  (readWhole (finishOf lexemes) level.ratio lexemes).map Prod.fst

/-- Reads a whole expression with `levels` levels left. -/
def readExpression (levels : Nat) (lexemes : List Lexeme) : Except Fault Expression :=
  readWith (.ofNat (finishOf lexemes) levels) lexemes

/-- Reads a whole expression with the readers of `level`. Brackets are checked first, so that a bracket
out of place is the fault that is told, whatever else is wrong. -/
def parseWith (level : Level) (lexemes : List Lexeme) : Except Fault Expression :=
  match checkBrackets lexemes with
  | .error fault => .error fault
  | .ok () => readWith level lexemes

/-- The expression that the lexemes spell. -/
def parse (lexemes : List Lexeme) : Except Fault Expression :=
  parseWith (.ofNat (finishOf lexemes) nestingLimit) lexemes

/-! ## What is read -/

section Reading

variable {lexemes rest : List Lexeme} {level : Level} {expression : Expression} {fault : Fault}

theorem readWith_of_error (h : readSequence level.ratio lexemes = .error fault) :
    readWith level lexemes = .error fault := by
  rw [readWith, readWhole, h]
  rfl

theorem readWith_of_end (h : readSequence level.ratio lexemes = .ok (expression, rest))
    (hend : (nextLexeme (finishOf lexemes) rest).1.token = .endOfInput) :
    readWith level lexemes = .ok expression := by
  rw [readWith, readWhole, h]
  dsimp only
  rw [hend]
  rfl

theorem readWith_of_ne_end (h : readSequence level.ratio lexemes = .ok (expression, rest))
    (hend : (nextLexeme (finishOf lexemes) rest).1.token ≠ .endOfInput) :
    readWith level lexemes = .error (unbalanced (nextLexeme (finishOf lexemes) rest).1.span) := by
  rw [readWith, readWhole, h]
  dsimp only
  split
  · rename_i htoken
    exact absurd htoken hend
  · rfl

/-- An expression is a sequence with the mark of the end behind it. -/
theorem readWith_eq_ok_iff : readWith level lexemes = .ok expression ↔
    ∃ rest, readSequence level.ratio lexemes = .ok (expression, rest) ∧
      (nextLexeme (finishOf lexemes) rest).1.token = .endOfInput := by
  constructor
  · intro h
    cases hread : readSequence level.ratio lexemes with
    | error earlier =>
      rw [readWith_of_error hread] at h
      cases h
    | ok read =>
      obtain ⟨found, rest⟩ := read
      by_cases hend : (nextLexeme (finishOf lexemes) rest).1.token = .endOfInput
      · rw [readWith_of_end hread hend] at h
        cases h
        exact ⟨rest, rfl, hend⟩
      · rw [readWith_of_ne_end hread hend] at h
        cases h
  · rintro ⟨rest, hread, hend⟩
    exact readWith_of_end hread hend

/-- A fault is in the sequence, or else something other than the mark of the end stands behind it. -/
theorem readWith_eq_error_iff : readWith level lexemes = .error fault ↔
    readSequence level.ratio lexemes = .error fault ∨
      ∃ expression rest, readSequence level.ratio lexemes = .ok (expression, rest) ∧
        (nextLexeme (finishOf lexemes) rest).1.token ≠ .endOfInput ∧
        unbalanced (nextLexeme (finishOf lexemes) rest).1.span = fault := by
  constructor
  · intro h
    cases hread : readSequence level.ratio lexemes with
    | error earlier =>
      rw [readWith_of_error hread] at h
      exact .inl (congrArg _ (Except.error.inj h))
    | ok read =>
      obtain ⟨found, rest⟩ := read
      by_cases hend : (nextLexeme (finishOf lexemes) rest).1.token = .endOfInput
      · rw [readWith_of_end hread hend] at h
        cases h
      · rw [readWith_of_ne_end hread hend] at h
        exact .inr ⟨found, rest, rfl, hend, Except.error.inj h⟩
  · rintro (hread | ⟨expression, rest, hread, hend, rfl⟩)
    · exact readWith_of_error hread
    · exact readWith_of_ne_end hread hend

theorem parse_of_checkBrackets_ok (h : checkBrackets lexemes = .ok ()) :
    parse lexemes = readExpression nestingLimit lexemes := by
  rw [parse, parseWith, h, readExpression]

theorem parse_of_checkBrackets_error (h : checkBrackets lexemes = .error fault) :
    parse lexemes = .error fault := by
  rw [parse, parseWith, h]

/-- What is parsed has passed the bracket check. -/
theorem parse_eq_ok (h : parse lexemes = .ok expression) :
    checkBrackets lexemes = .ok () ∧ readExpression nestingLimit lexemes = .ok expression := by
  cases hcheck : checkBrackets lexemes with
  | error earlier =>
    rw [parse_of_checkBrackets_error hcheck] at h
    cases h
  | ok _ =>
    rw [parse_of_checkBrackets_ok hcheck] at h
    exact ⟨rfl, h⟩

end Reading

end MathMarkup.Formula
