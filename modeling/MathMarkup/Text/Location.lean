/-!
# Places in a text

Offsets count UTF-8 bytes; lines and columns count from one, and columns count characters.

* `byteLength` — the length of a text in bytes.
* `Location.atOffset` — the line and column of an offset, with lines ended by the newline
  character alone.
* `Location.inReport` — the same for an error report, which knows every kind of line end.
-/

namespace MathMarkup.Text

/-- The number of bytes of a text in UTF-8. -/
def byteLength : List Char → Nat
  | [] => 0
  | c :: cs => c.utf8Size + byteLength cs

/-- The characters that lie in the first `n` bytes of a text. -/
def takeBytes : Nat → List Char → List Char
  | _, [] => []
  | n, c :: cs => if c.utf8Size ≤ n then c :: takeBytes (n - c.utf8Size) cs else []

theorem byteLength_append (a b : List Char) :
    byteLength (a ++ b) = byteLength a + byteLength b := by
  induction a with
  | nil => simp [byteLength]
  | cons c cs ih => simp [byteLength, ih, Nat.add_assoc]

theorem takeBytes_append (a b : List Char) : takeBytes (byteLength a) (a ++ b) = a := by
  induction a with
  | nil =>
    cases b with
    | nil => rfl
    | cons c cs => simp [byteLength, takeBytes, Nat.not_le.2 c.utf8Size_pos]
  | cons c cs ih => simp [byteLength, takeBytes, ih]

/-- A line and a column, both counted from one. -/
structure Location where
  line : Nat
  column : Nat
  deriving DecidableEq, Repr

namespace Location

/-- Where every text starts. -/
def start : Location := ⟨1, 1⟩

/-- The place one column further. -/
def nextColumn (place : Location) : Location := ⟨place.line, place.column + 1⟩

/-- The start of the next line. -/
def nextLine (place : Location) : Location := ⟨place.line + 1, 1⟩

/-- The place after a character that stands at the given place. -/
def advance (place : Location) (c : Char) : Location :=
  if c = '\n' then place.nextLine else place.nextColumn

/-- The place right after a text. -/
def after (before : List Char) : Location := before.foldl advance start

/-- The place of a byte offset; an offset past the end is the place after the text. -/
def atOffset (source : List Char) (offset : Nat) : Location := after (takeBytes offset source)

/-- The characters that end a line in a report: line feed, carriage return, vertical tab, form
feed, next line, line separator and paragraph separator. -/
def isLineEnd (c : Char) : Bool :=
  c = '\n' || c = '\r' || c = '\x0B' || c = '\x0C' || c = '\u0085' || c = '\u2028' ||
    c = '\u2029'

/-- Whether a new line starts after `c`: a carriage return before a line feed leaves that to the
line feed, and a line end at the end of the text starts no further line. -/
def startsLine (c : Char) (rest : List Char) : Bool :=
  isLineEnd c && !rest.isEmpty && !(c = '\r' && rest.head? = some '\n')

/-- Walks over the first `n` characters of a text. -/
def walk (place : Location) : Nat → List Char → Location
  | 0, _ => place
  | _, [] => place
  | n + 1, c :: rest => walk (if startsLine c rest then place.nextLine else place.nextColumn) n rest

/-- The place of a byte offset in an error report. -/
def inReport (source : List Char) (offset : Nat) : Location :=
  walk start (takeBytes offset source).length source

end Location

end MathMarkup.Text
