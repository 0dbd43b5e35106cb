import MathMarkup.Markup.Writer
import MathMarkup.Presentation.Elements

/-!
# Writing nodes

* `newLine`, `nestedIndent` — line breaks, and the indent of what an element holds.
* `Node.emit` — the text of a node at an indent, one case for each kind of node.

An indent of zero stands for text on one line. Every case says itself at which indent the parts of its node
are written and before which tags a line is broken. Indents are natural numbers, none of which is the last.
-/

namespace MathMarkup.Presentation

open MathMarkup.Formula MathMarkup.Markup MathMarkup.Text

/-! ## Line breaks -/

def indentUnit : List Char := "    ".toList

/-- A new line, indented. -/
def newLine (indent : Nat) : List Char :=
  (if 0 < indent then ['\n'] else []) ++ (List.replicate indent indentUnit).flatten

/-- The indent of what an element holds. -/
def nestedIndent (indent : Nat) : Nat := if 0 < indent then indent + 1 else 0

/-- Markup on a line of its own. -/
def onLine (indent : Nat) (markup : List Char) : List Char := newLine indent ++ markup

/-! ## Elements -/

/-- What writes a part of a formula at an indent. -/
abbrev Emitter := Nat → List Char

def emitAll (emitters : List Emitter) : Emitter := fun indent =>
  emitters.flatMap fun emitter => emitter indent

/-- An element that holds text. -/
def textElement (tag : Tag) (text : List Char) : List Char :=
  startTag tag [] ++ text ++ endTag tag

/-- An element whose children are all nodes, without the line break before it. -/
def emitElement (tag : Tag) (children : List Emitter) : Emitter := fun baseIndent =>
  let childIndent := nestedIndent baseIndent
  startTag tag [] ++ emitAll children childIndent ++ onLine baseIndent (endTag tag)

/-- The bracket of a group, unless it is invisible. -/
def emitFence (fence : Option String) : Emitter := fun indent =>
  match fence with
  | none => []
  | some glyph => onLine indent (textElement .mo glyph.toList)

/-- A stacked script has its base in an element of its own. -/
def emitBase (base : Emitter) (placement : Placement) : Emitter := fun indent =>
  match placement with
  | .stacked side =>
    onLine indent (startTag (Side.tag side) [] ++ base (nestedIndent indent) ++
      onLine indent (endTag (Side.tag side)))
  | _ => base indent

/-- A base with scripts, without the line break before it. -/
def emitScripts (base : Emitter) (sub sup : Option Emitter) (placement : Placement) : Emitter :=
  fun baseIndent =>
    if sub.isNone && sup.isNone then emitElement .mrow [base] baseIndent
    else
      let tag := scriptsTag sub.isSome sup.isSome placement
      let childIndent := nestedIndent baseIndent
      startTag tag [] ++
        (emitBase base placement childIndent ++
          (emitAll sub.toList childIndent ++ emitAll sup.toList childIndent)) ++
        onLine baseIndent (endTag tag)

/-! ## Matrices -/

def emitCell (cellIndent contentIndent : Nat) (cell : List Emitter) : List Char :=
  onLine cellIndent (startTag .mtd [] ++ emitAll cell contentIndent ++
    onLine cellIndent (endTag .mtd))

def emitRow (rowIndent cellIndent contentIndent : Nat) (row : List (List Emitter)) : List Char :=
  onLine rowIndent (startTag .mtr [] ++ row.flatMap (emitCell cellIndent contentIndent) ++
    onLine rowIndent (endTag .mtr))

/-- Brackets around a table, without the line break before them. -/
def emitMatrix (opening closing : Option String) (rows : List (List (List Emitter)))
    (lines : List ColumnLine) : Emitter := fun baseIndent =>
  let childIndent := nestedIndent baseIndent
  let rowIndent := nestedIndent childIndent
  let cellIndent := nestedIndent rowIndent
  let contentIndent := nestedIndent cellIndent
  startTag .mrow [] ++
    (emitFence opening childIndent ++
      (onLine childIndent (startTag .mtable [.columnLines (lines.map (· = .solid))] ++
          rows.flatMap (emitRow rowIndent cellIndent contentIndent) ++
          onLine childIndent (endTag .mtable)) ++
        emitFence closing childIndent)) ++
    onLine baseIndent (endTag .mrow)

/-! ## Nodes -/

mutual

/-- The text of a node, with the line break before it. -/
def Node.emit (node : Node) (baseIndent : Nat) : List Char :=
  newLine baseIndent ++
    match node with
    | .number text => textElement .mn text.toList
    | .identifier text => textElement .mi text.toList
    | .operator text => textElement .mo text.toList
    | .text content => textElement .mtext (escapeContent content.toList)
    | .spacedText text =>
      let childIndent := nestedIndent baseIndent
      startTag .mrow [] ++
        (onLine childIndent spaceTag ++
          (onLine childIndent (textElement .mtext text.toList) ++ onLine childIndent spaceTag)) ++
        onLine baseIndent (endTag .mrow)
    | .row content => emitElement .mrow (emitters content) baseIndent
    | .fenced opening closing content =>
      let childIndent := nestedIndent baseIndent
      startTag .mrow [] ++
        (emitFence opening childIndent ++
          (emitAll (emitters content) childIndent ++ emitFence closing childIndent)) ++
        onLine baseIndent (endTag .mrow)
    | .delimited opening closing content =>
      textElement .mo opening.toList ++
        (content.emit baseIndent ++ onLine baseIndent (textElement .mo closing.toList))
    | .scripts base sub sup placement =>
      emitScripts base.emit (emitter? sub) (emitter? sup) placement baseIndent
    | .fraction numerator denominator =>
      emitElement .mfrac [numerator.emit, denominator.emit] baseIndent
    | .root none radicand => emitElement .msqrt [radicand.emit] baseIndent
    | .root (some index) radicand => emitElement .mroot [radicand.emit, index.emit] baseIndent
    | .decorated base above below =>
      match emitter? below, emitter? above with
      | some below, some above => emitElement .munderover [base.emit, below, above] baseIndent
      | some below, none => emitElement .munder [base.emit, below] baseIndent
      | none, some above => emitElement .mover [base.emit, above] baseIndent
      | none, none => emitElement .mrow [base.emit] baseIndent
    | .struck content =>
      startTag .menclose [.upDiagonalStrike] ++ content.emit (nestedIndent baseIndent) ++
        onLine baseIndent (endTag .menclose)
    | .styled variant content =>
      startTag .mstyle [.mathVariant variant] ++ content.emit (nestedIndent baseIndent) ++
        onLine baseIndent (endTag .mstyle)
    | .colored color content =>
      startTag .mstyle [.mathColor color] ++ content.emit (nestedIndent baseIndent) ++
        onLine baseIndent (endTag .mstyle)
    | .matrix opening closing rows lines =>
      emitMatrix opening closing (rowEmitters rows) lines baseIndent

def emitter? : Option Node → Option Emitter
  | none => none
  | some node => some node.emit

def emitters : List Node → List Emitter
  | [] => []
  | node :: rest => node.emit :: emitters rest

def cellEmitters : List (List Node) → List (List Emitter)
  | [] => []
  | cell :: rest => emitters cell :: cellEmitters rest

def rowEmitters : List (List (List Node)) → List (List (List Emitter))
  | [] => []
  | row :: rest => cellEmitters row :: rowEmitters rest

end

end MathMarkup.Presentation
