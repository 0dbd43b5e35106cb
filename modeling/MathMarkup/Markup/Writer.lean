import MathMarkup.Markup.Element

/-!
# Writing markup

* `Layout` — everything on one line, or every element on a line of its own.
* `Element.write`, `writeElements` — the text of elements in a layout.
-/

namespace MathMarkup.Markup

/-- How markup is spread over lines. -/
inductive Layout where
  /-- Everything on one line. -/
  | compact
  /-- Every element on a line of its own, indented by a number of levels. -/
  | indented (level : Nat)
  deriving DecidableEq, Repr

namespace Layout

/-- The layout of the content of an element. -/
def nested : Layout → Layout
  | compact => compact
  | indented level => indented (level + 1)

/-- What stands before an element: a new line and four spaces for each level. -/
def lineBreak : Layout → List Char
  | compact => []
  | indented level => '\n' :: List.replicate (4 * level) ' '

/-- An indentation of zero stands for the compact layout. -/
def ofIndentation : Nat → Layout
  | 0 => compact
  | n + 1 => indented (n + 1)

/-- The indentation of a layout. -/
def indentation : Layout → Nat
  | compact => 0
  | indented level => level

end Layout

/-- An attribute with the space before it. -/
def Attribute.write (a : Attribute) : List Char :=
  ' ' :: a.name.toList ++ "=\"".toList ++ a.value ++ "\"".toList

/-- The tag that opens an element. -/
def startTag (tag : Tag) (attributes : List Attribute) : List Char :=
  '<' :: tag.name.toList ++ attributes.flatMap Attribute.write ++ ">".toList

/-- The tag that closes an element. -/
def endTag (tag : Tag) : List Char := "</".toList ++ tag.name.toList ++ ">".toList

/-- A space one ex wide. -/
def spaceTag : List Char := "<mspace width=\"1ex\"/>".toList

mutual

/-- An element without the line break before it. Its end tag stands on a line of its own, except
after text. -/
def Element.write (layout : Layout) : Element → List Char
  | .leaf tag attributes content =>
    startTag tag attributes ++ content.toChars ++ endTag tag
  | .node tag attributes children =>
    startTag tag attributes ++
      (writeElements layout.nested children ++ (layout.lineBreak ++ endTag tag))
  | .space => spaceTag

/-- Elements one after another, each with the line break before it. -/
def writeElements (layout : Layout) : List Element → List Char
  | [] => []
  | element :: rest => layout.lineBreak ++ (element.write layout ++ writeElements layout rest)

end

theorem writeElements_append (layout : Layout) (a b : List Element) :
    writeElements layout (a ++ b) = writeElements layout a ++ writeElements layout b := by
  induction a with
  | nil => simp [writeElements]
  | cons element rest ih => simp [writeElements, ih]

end MathMarkup.Markup
