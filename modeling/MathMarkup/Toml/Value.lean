/-!
# Values of a TOML document

* `Value` — what a key of a document can stand for.
* `Reader` — takes a value from the front of a text, if one stands there.
-/

namespace MathMarkup.Toml

/-- A value of a TOML document. Numbers with a fraction and times are kept as they are written. -/
inductive Value where
  | string (s : String)
  | integer (n : Int)
  | float (written : String)
  | boolean (b : Bool)
  | time (written : String)
  | array (items : List Value)
  | table (entries : List (String × Value))

/-- Takes a value from the front of a text and leaves the rest; `none` if the text is malformed. -/
abbrev Reader (α : Type) := List Char → Option (α × List Char)

/-- The value of a key of a table. -/
def Value.get? (key : String) : List (String × Value) → Option Value :=
  List.lookup key

end MathMarkup.Toml
