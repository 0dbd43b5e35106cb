import MathMarkup.Formula.Symbol
import MathMarkup.Text.Escape

/-!
# Elements of markup

* `Tag`, `Attribute` — the fixed vocabulary of the elements and their attributes.
* `CharacterData` — the content of a leaf, written as it stands or escaped.
* `Element` — a tree of elements.
-/

namespace MathMarkup.Markup

open MathMarkup.Formula MathMarkup.Text

/-- Whether a formula stands in the running text or on lines of its own. -/
inductive Display where
  | inline
  | block
  deriving DecidableEq, Repr

/-- The names of elements. -/
inductive Tag where
  | math | semantics | sourceText
  | mrow | mi | mn | mo | mtext
  | mfrac | msqrt | mroot
  | msub | msup | msubsup | munder | mover | munderover
  | menclose | mstyle
  | mtable | mtr | mtd
  deriving DecidableEq, Repr

def Tag.name : Tag → String
  | math => "math"
  | semantics => "semantics"
  | sourceText => "annotation"
  | mrow => "mrow"
  | mi => "mi"
  | mn => "mn"
  | mo => "mo"
  | mtext => "mtext"
  | mfrac => "mfrac"
  | msqrt => "msqrt"
  | mroot => "mroot"
  | msub => "msub"
  | msup => "msup"
  | msubsup => "msubsup"
  | munder => "munder"
  | mover => "mover"
  | munderover => "munderover"
  | menclose => "menclose"
  | mstyle => "mstyle"
  | mtable => "mtable"
  | mtr => "mtr"
  | mtd => "mtd"

/-- The attributes of elements. -/
inductive Attribute where
  | mathNamespace
  | display (mode : Display)
  | encoding
  | upDiagonalStrike
  | mathVariant (variant : Variant)
  | mathColor (color : String)
  /-- For each boundary between columns, whether a line is drawn there. -/
  | columnLines (drawn : List Bool)
  deriving DecidableEq, Repr

namespace Attribute

def name : Attribute → String
  | mathNamespace => "xmlns"
  | display _ => "display"
  | encoding => "encoding"
  | upDiagonalStrike => "notation"
  | mathVariant _ => "mathvariant"
  | mathColor _ => "mathcolor"
  | columnLines _ => "columnlines"

def displayValue : Display → String
  | .inline => "inline"
  | .block => "block"

def variantValue : Variant → String
  | .bold => "bold"
  | .doubleStruck => "double-struck"
  | .script => "script"
  | .monospace => "monospace"
  | .fraktur => "fraktur"
  | .sansSerif => "sans-serif"

def lineValue (drawn : Bool) : String := if drawn then "solid" else "none"

/-- The value as it is written between double quotes. Only a colour comes from the formula, so only
a colour is escaped. -/
def value : Attribute → List Char
  | mathNamespace => "http://www.w3.org/1998/Math/MathML".toList
  | display mode => (displayValue mode).toList
  | encoding => "text/x-asciimath".toList
  | upDiagonalStrike => "updiagonalstrike".toList
  | mathVariant variant => (variantValue variant).toList
  | mathColor color => escapeAttribute color.toList
  | columnLines drawn => (" ".intercalate (drawn.map lineValue)).toList

end Attribute

/-- The content of an element that holds no other elements. -/
inductive CharacterData where
  /-- A text in its written form. -/
  | written (text : String)
  /-- A text that is escaped when it is written. -/
  | plain (text : String)
  deriving DecidableEq, Repr

def CharacterData.toChars : CharacterData → List Char
  | written text => text.toList
  | plain text => escapeContent text.toList

/-- A tree of elements. -/
inductive Element where
  /-- An element that holds text. -/
  | leaf (tag : Tag) (attributes : List Attribute) (content : CharacterData)
  /-- An element that holds elements. -/
  | node (tag : Tag) (attributes : List Attribute) (children : List Element)
  /-- A space of a fixed width. -/
  | space

end MathMarkup.Markup
