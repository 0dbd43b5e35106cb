import MathMarkup.Formula.Expression.Parser

/-!
# Reading expressions and keeping count

The readers as one machine. Its state holds the lexemes that are left, the depth of the operand that is
being read, and the number of operands of the symbol that is being read. The readers of all levels are the
same here: the depth of the state tells how many levels are left.

* `Progress` — the state of the machine.
* `CountingReader.nested` — a reader one level deeper, where the limit allows it.
* `CountingLevel.unrolled` — the readers, which call one another inside of operands and denominators.
* `Routine` — the functions of the parser, with `Routine.run` and `Routine.read`, what they are in the
  machine and among the readers of a level.
* `parseFrom` — the expression that a list of lexemes spells, read by the machine from a depth on.
-/

namespace MathMarkup.Formula

/-- The state of the parser. -/
structure Progress where
  /-- The lexemes that are left. -/
  lexemes : List Lexeme
  /-- How many operands and denominators are being read. -/
  depth : Nat
  /-- The operands that were read for the symbol that is being read. -/
  operandsRead : Nat
  /-- The greatest depth that there was. -/
  deepest : Nat
  /-- The symbols that were read with all they take, each with the number of operands counted for it. -/
  tallies : List (Symbol × Nat)

namespace Progress

/-- One level deeper. -/
def enter (progress : Progress) : Progress :=
  { progress with
    depth := progress.depth + 1
    deepest := max progress.deepest (progress.depth + 1) }

/-- Back from one level deeper. -/
def leave (progress : Progress) : Progress :=
  { progress with depth := progress.depth - 1 }

/-- Before anything is read. -/
def start (depth : Nat) (lexemes : List Lexeme) : Progress := ⟨lexemes, depth, 0, depth, []⟩

end Progress

/-- Reads a part of an expression and keeps count. -/
abbrev CountingReader := EStateM Fault Progress

namespace CountingReader

variable {α : Type}

/-- Takes the first lexeme. -/
def take (finish : Lexeme) : CountingReader Lexeme := fun progress =>
  let (lexeme, rest) := nextLexeme finish progress.lexemes
  .ok lexeme { progress with lexemes := rest }

/-- Takes the sign for a script, if there is one. -/
def takeScriptSign : CountingReader (Option (ScriptSide × Span)) := fun progress =>
  match scriptSign progress.lexemes with
  | none => .ok none progress
  | some (side, span, rest) => .ok (some (side, span)) { progress with lexemes := rest }

/-- Takes a slash, if there is one. -/
def takeSlash (finish : Lexeme) : CountingReader (Option Span) := fun progress =>
  match afterSlash? progress.lexemes with
  | none => .ok none progress
  | some rest =>
    .ok (some (nextLexeme finish progress.lexemes).1.span) { progress with lexemes := rest }

/-- Reads one level deeper. At the limit the lexeme that asks for it, which stands at `span`, is told. -/
def nested (limit : Nat) (span : Span) (body : CountingReader α) : CountingReader α :=
  fun progress =>
    if limit ≤ progress.depth then .error ⟨.nestingLimit, span⟩ progress
    else
      match body progress.enter with
      | .ok value progress => .ok value progress.leave
      | .error fault progress => .error fault progress.leave

/-- Counts an operand. -/
def countOperand : CountingReader Unit := fun progress =>
  .ok () { progress with operandsRead := progress.operandsRead + 1 }

/-- Reads what a symbol takes, and counts its operands from zero. Behind them the count goes on for the
symbol around this one. -/
def tallied (symbol : Symbol) (body : CountingReader α) : CountingReader α := fun outer =>
  match body { outer with operandsRead := 0 } with
  | .ok value progress =>
    .ok value
      { progress with
        operandsRead := outer.operandsRead
        tallies := (symbol, progress.operandsRead) :: progress.tallies }
  | .error fault progress => .error fault { progress with operandsRead := outer.operandsRead }

/-- Reads at most `budget` ratios. -/
def sequenceWithin (ratio : CountingReader Ratio) : Nat → CountingReader Expression
  | 0 => pure []
  | budget + 1 => do
    if endsSequence (← get).lexemes then pure []
    else
      let first ← ratio
      let others ← sequenceWithin ratio budget
      pure (first :: others)

/-- Reads ratios as long as the sequence does not end. -/
def sequence (ratio : CountingReader Ratio) : CountingReader Expression := do
  sequenceWithin ratio (← get).lexemes.length

/-- Reads an operand and its scripts. -/
def term (operand : CountingReader Operand) : CountingReader Term := do
  let base ← operand
  match ← takeScriptSign with
  | none => pure (.bare base)
  | some (side, _) =>
    let first ← operand
    match ← takeScriptSign with
    | none => pure (.withScript base first side)
    | some (otherSide, span) =>
      if otherSide = side then throw ⟨.duplicateScript, span⟩
      else
        let second ← operand
        match ← takeScriptSign with
        | none => pure (.withScripts base first second side)
        | some (_, span) => throw ⟨.duplicateScript, span⟩

/-- Reads a term and, after a slash, the denominator, which is one level deeper. -/
def ratio (finish : Lexeme) (limit : Nat) (operand : CountingReader Operand)
    (denominator : CountingReader Ratio) : CountingReader Ratio := do
  let numerator ← term operand
  match ← takeSlash finish with
  | none => pure (.term numerator)
  | some span =>
    let below ← nested limit span denominator
    pure (.divided numerator below)

/-- Reads a verbatim argument and counts it. -/
def verbatim (finish : Lexeme) : CountingReader String := do
  let lexeme ← take finish
  match lexeme.token with
  | .text content =>
    countOperand
    pure content
  | .endOfInput => throw ⟨.unexpectedEnd, lexeme.span⟩
  | _ => throw ⟨.missingOperand, lexeme.span⟩

/-- Reads the content of a group and the bracket that closes it. -/
def group (finish : Lexeme) (ratio : CountingReader Ratio) (opening : Fence) :
    CountingReader Operand := do
  let content ← sequence ratio
  let lexeme ← take finish
  match lexeme.token with
  | .symbol (.closing closing) => pure (.group opening closing content)
  | _ => throw (unbalanced lexeme.span)

/-- Reads an operand and counts it. -/
def counted (operand : CountingReader Operand) : CountingReader Operand := do
  let value ← operand
  countOperand
  pure value

end CountingReader

open CountingReader

/-- The readers of operands and ratios. -/
structure CountingLevel where
  operand : CountingReader Operand
  ratio : CountingReader Ratio

namespace CountingLevel

/-- Reads the operands of a symbol that stands at `span`. -/
def symbol (finish : Lexeme) (inner : CountingLevel) (symbol : Symbol) (span : Span) :
    CountingReader Operand :=
  match symbol with
  | .sign s => pure (.leaf (.sign s))
  | .opening fence => group finish inner.ratio fence
  | .closing _ => throw ⟨.missingOperand, span⟩
  | .superscript => throw ⟨.missingOperand, span⟩
  | .subscript => throw ⟨.missingOperand, span⟩
  | .slash => throw ⟨.missingOperand, span⟩
  | .unary f => do
    let operand ← counted inner.operand
    pure (.unary f operand)
  | .binary f => do
    let first ← counted inner.operand
    let second ← counted inner.operand
    pure (.binary f first second)
  | .text => do
    let content ← verbatim finish
    pure (.words content)
  | .color => do
    let name ← verbatim finish
    let operand ← counted inner.operand
    pure (.color name operand)

/-- Reads the operand that a lexeme starts. -/
def token (finish : Lexeme) (inner : CountingLevel) (lexeme : Lexeme) : CountingReader Operand :=
  match lexeme.token with
  | .endOfInput => throw ⟨.unexpectedEnd, lexeme.span⟩
  | .number digits => pure (.leaf (.number digits))
  | .letter c => pure (.leaf (.letter c))
  | .text content => pure (.leaf (.text content))
  | .symbol s => tallied s (inner.symbol finish s lexeme.span)

/-- Takes a lexeme and reads, one level deeper, the operand that it starts. -/
def simple (finish : Lexeme) (limit : Nat) (inner : CountingLevel) : CountingReader Operand := do
  let lexeme ← take finish
  nested limit lexeme.span (inner.token finish lexeme)

/-- The readers that call others inside of operands and denominators. -/
def around (finish : Lexeme) (limit : Nat) (inner : CountingLevel) : CountingLevel :=
  ⟨inner.simple finish limit,
   CountingReader.ratio finish limit (inner.simple finish limit) inner.ratio⟩

/-- The readers that call themselves inside of operands and denominators, written out `n` times. What would
be called next is `innermost`. -/
def unrolled (finish : Lexeme) (limit : Nat) (innermost : CountingLevel) : Nat → CountingLevel
  | 0 => innermost
  | n + 1 => around finish limit (unrolled finish limit innermost n)

end CountingLevel

/-! ## The functions of the parser -/

/-- Reads a whole expression, up to the mark of the end. -/
def CountingReader.whole (finish : Lexeme) (ratio : CountingReader Ratio) :
    CountingReader Expression := do
  let expression ← sequence ratio
  let lexeme ← take finish
  match lexeme.token with
  | .endOfInput => pure expression
  | _ => throw (unbalanced lexeme.span)

/-- The functions of the parser, each with what it reads. -/
inductive Routine : Type → Type where
  | whole : Routine Expression
  | sequence : Routine Expression
  | ratio : Routine Ratio
  | term : Routine Term
  | simple : Routine Operand
  | operand : Routine Operand
  | token (lexeme : Lexeme) : Routine Operand
  | symbol (symbol : Symbol) (span : Span) : Routine Operand
  | verbatim : Routine String
  | group (opening : Fence) : Routine Operand

namespace Routine

variable {α : Type}

/-- What a function of the parser is in the machine. -/
def run (finish : Lexeme) (level : CountingLevel) : Routine α → CountingReader α
  | whole => CountingReader.whole finish level.ratio
  | sequence => CountingReader.sequence level.ratio
  | ratio => level.ratio
  | term => CountingReader.term level.operand
  | simple => level.operand
  | operand => counted level.operand
  | token lexeme => level.token finish lexeme
  | symbol s span => level.symbol finish s span
  | verbatim => CountingReader.verbatim finish
  | group opening => CountingReader.group finish level.ratio opening

/-- What a function of the parser is among the readers of a level. -/
def read (finish : Lexeme) (level : Level) : Routine α → Reader α
  | whole => readWhole finish level.ratio
  | sequence => readSequence level.ratio
  | ratio => level.ratio
  | term => readTerm level.operand
  | simple => level.operand
  | operand => level.operand
  | token lexeme => fun lexemes => readOperand finish level (lexeme :: lexemes)
  | symbol s span => readSymbol finish level s span
  | verbatim => readVerbatim finish
  | group opening => readGroup finish level opening

/-- The operands that a function of the parser counts for the symbol that is being read. -/
def operands : Routine α → Nat
  | whole => 0
  | sequence => 0
  | ratio => 0
  | term => 0
  | simple => 0
  | operand => 1
  | token _ => 0
  | symbol s _ => s.arity
  | verbatim => 1
  | group _ => 0

end Routine

/-- What comes of a run, apart from the counts. -/
def outcome {α : Type} : EStateM.Result Fault Progress α → Except Fault (α × List Lexeme)
  | .ok value progress => .ok (value, progress.lexemes)
  | .error fault _ => .error fault

/-- The state in which a run ends. -/
def finalState {α : Type} : EStateM.Result Fault Progress α → Progress
  | .ok _ progress => progress
  | .error _ progress => progress

/-- The machine with the limit of the parser. Every call that is written out is one level deeper, so that
`innermost` is out of reach. -/
def machine (finish : Lexeme) (innermost : CountingLevel) : CountingLevel :=
  .unrolled finish nestingLimit innermost (nestingLimit + 1)

/-- The expression that the lexemes spell, where `depth` operands are being read already. -/
def parseFrom (innermost : CountingLevel) (depth : Nat) (lexemes : List Lexeme) :
    Except Fault Expression :=
  match checkBrackets lexemes with
  | .error fault => .error fault
  | .ok () =>
    let finish := finishOf lexemes
    (outcome (Routine.whole.run finish (machine finish innermost) (.start depth lexemes))).map
      Prod.fst

end MathMarkup.Formula
