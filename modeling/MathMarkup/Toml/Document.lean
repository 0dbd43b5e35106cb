import MathMarkup.Toml.Scalar

/-!
# TOML documents

* `readValue` — a value of any kind, with bounded nesting.
* `Statement`, `readStatements` — the lines of a document, one after another.
* `Tree` — a document while its statements are carried out: it knows how each table came about,
  because that decides how the table may grow.
* `document?` — the entries of a document, if the text is one.
-/

namespace MathMarkup.Toml

/-! ## Trees -/

/-- How a table came about. -/
inductive Origin where
  /-- It was needed as a parent of another one. -/
  | implied
  /-- A dotted key runs through it. -/
  | dotted
  /-- It has a header. -/
  | headed
  deriving DecidableEq, Repr

/-- A part of a document that may still grow, or a value that may not. -/
inductive Tree where
  | value (v : Value)
  | table (origin : Origin) (entries : List (String × Tree))
  /-- Tables that share a header, the latest one last. -/
  | tables (elements : List (List (String × Tree)))

/-- The entries of a table that may still grow. -/
abbrev Entries := List (String × Tree)

mutual

/-- What a part of a document stands for in the end. -/
def Tree.toValue : Tree → Value
  | .value v => v
  | .table _ entries => .table (entryValues entries)
  | .tables elements => .array (elementValues elements)

def entryValues : List (String × Tree) → List (String × Value)
  | [] => []
  | (key, tree) :: rest => (key, tree.toValue) :: entryValues rest

def elementValues : List (List (String × Tree)) → List Value
  | [] => []
  | entries :: rest => .table (entryValues entries) :: elementValues rest

end

/-- Puts a tree in the place of the entry with its key, or after all entries. -/
def putEntry (key : String) (tree : Tree) : Entries → Entries
  | [] => [(key, tree)]
  | (k, t) :: rest => if k = key then (k, tree) :: rest else (k, t) :: putEntry key tree rest

/-- Changes the table that a path of headers leads to. Missing tables are implied, and a header
with several tables leads to the latest one. -/
def atHeader (change : Entries → Option Entries) : List String → Entries → Option Entries
  | [], entries => change entries
  | key :: path, entries =>
    match entries.lookup key with
    | none =>
      match atHeader change path [] with
      | none => none
      | some inner => some (putEntry key (.table .implied inner) entries)
    | some (.table origin inner) =>
      match atHeader change path inner with
      | none => none
      | some inner => some (putEntry key (.table origin inner) entries)
    | some (.tables elements) =>
      match atHeader change path (elements.getLastD []) with
      | none => none
      | some inner => some (putEntry key (.tables (elements.dropLast ++ [inner])) entries)
    | some (.value _) => none

/-- Gives a value to a key for the first time. -/
def assignKey (key : String) (value : Value) (entries : Entries) : Option Entries :=
  match entries.lookup key with
  | none => some (putEntry key (.value value) entries)
  | some _ => none

/-- Gives a value to a dotted key. Its path passes tables without a header and, on the way to such a
table, the latest of several tables that share a header. The table that gets the key has no header
itself. -/
def assignDotted (last : String) (value : Value) : List String → Entries → Option Entries
  | [], entries => assignKey last value entries
  | key :: path, entries =>
    match entries.lookup key with
    | none =>
      match assignDotted last value path [] with
      | none => none
      | some inner => some (putEntry key (.table .dotted inner) entries)
    | some (.table .headed _) => none
    | some (.table origin inner) =>
      match assignDotted last value path inner with
      | none => none
      | some inner => some (putEntry key (.table origin inner) entries)
    | some (.tables elements) =>
      if path.isEmpty then none
      else
        match assignDotted last value path (elements.getLastD []) with
        | none => none
        | some inner => some (putEntry key (.tables (elements.dropLast ++ [inner])) entries)
    | some (.value _) => none

/-- Opens a table by its header. Only a table that was implied so far may have been there. -/
def openTable (key : String) (entries : Entries) : Option Entries :=
  match entries.lookup key with
  | none => some (putEntry key (.table .headed []) entries)
  | some (.table .implied inner) => some (putEntry key (.table .headed inner) entries)
  | some _ => none

/-- Opens another table under a header that several tables share. -/
def openElement (key : String) (entries : Entries) : Option Entries :=
  match entries.lookup key with
  | none => some (putEntry key (.tables [[]]) entries)
  | some (.tables elements) => some (putEntry key (.tables (elements ++ [[]])) entries)
  | some _ => none

/-! ## Values -/

/-- Items of an array up to its closing bracket, at most `budget` of them. -/
def readItems (value : Reader Value) : Nat → Reader (List Value)
  | 0, _ => none
  | budget + 1, text =>
    match skipLines text with
    | ']' :: rest => some ([], rest)
    | text =>
      match value text with
      | none => none
      | some (first, text) =>
        match skipLines text with
        | ']' :: rest => some ([first], rest)
        | ',' :: rest =>
          match readItems value budget rest with
          | none => none
          | some (others, rest) => some (first :: others, rest)
        | _ => none

/-- A key with its value; `skip` passes over what may stand around the equals sign. -/
def readAssignment (skip : List Char → List Char) (value : Reader Value) :
    Reader ((List String × String) × Value) := fun text =>
  match readPath text with
  | none => none
  | some (path, text) =>
    match skip text with
    | '=' :: text =>
      match value (skip text) with
      | none => none
      | some (v, text) => some ((path, v), text)
    | _ => none

/-- Members of a table in braces up to its closing brace, at most `budget` of them. A line may end
anywhere between them and around their equals signs. -/
def readMembers (value : Reader Value) (entries : Entries) : Nat → Reader Entries
  | 0, _ => none
  | budget + 1, text =>
    match skipLines text with
    | '\x7d' :: rest => some (entries, rest)
    | text =>
      match readAssignment skipLines value text with
      | none => none
      | some (((path, key), v), text) =>
        match assignDotted key v path entries with
        | none => none
        | some entries =>
          match skipLines text with
          | '\x7d' :: rest => some (entries, rest)
          | ',' :: rest => readMembers value entries budget rest
          | _ => none

/-- A value with at most `depth` arrays and tables inside one another. -/
def readValue : Nat → Reader Value
  | 0, text =>
    match text with
    | '"' :: _ => (readString text).map fun (s, rest) => (.string s, rest)
    | '\'' :: _ => (readString text).map fun (s, rest) => (.string s, rest)
    | _ => readScalar text
  | depth + 1, text =>
    match text with
    | '[' :: text =>
      (readItems (readValue depth) (text.length + 1) text).map fun (items, rest) =>
        (.array items, rest)
    | '\x7b' :: text =>
      (readMembers (readValue depth) [] (text.length + 1) text).map fun (entries, rest) =>
        (.table (entryValues entries), rest)
    | _ => readValue 0 text

/-- How many arrays and tables may stand inside one another. -/
def depthLimit : Nat := 80

/-! ## Statements -/

/-- A line of a document. -/
inductive Statement where
  | assign (path : List String) (key : String) (value : Value)
  | header (path : List String) (key : String)
  | elementHeader (path : List String) (key : String)

/-- A line with a key or a header. -/
def readStatement : Reader Statement
  | '[' :: '[' :: text =>
    match readPath (skipBlanks text) with
    | some ((path, key), ']' :: ']' :: rest) => some (.elementHeader path key, rest)
    | _ => none
  | '[' :: text =>
    match readPath (skipBlanks text) with
    | some ((path, key), ']' :: rest) => some (.header path key, rest)
    | _ => none
  | text =>
    (readAssignment skipBlanks (readValue depthLimit) text).map fun (((path, key), value), rest) =>
      (.assign path key value, rest)

/-- The statements of a text, at most `budget` of them. Each has a line of its own. -/
def readStatementsWithin : Nat → List Char → Option (List Statement)
  | 0, _ => none
  | budget + 1, text =>
    match skipLines text with
    | [] => some []
    | text =>
      match readStatement text with
      | none => none
      | some (first, text) =>
        match skipComment (skipBlanks text) with
        | [] => some [first]
        | text =>
          match skipLineEnd text with
          | none => none
          | some text =>
            match readStatementsWithin budget text with
            | none => none
            | some others => some (first :: others)

/-- The statements of a text. A byte order mark may stand before them. -/
def readStatements (text : List Char) : Option (List Statement) :=
  match text with
  | '\ufeff' :: text => readStatementsWithin (text.length + 1) text
  | text => readStatementsWithin (text.length + 1) text

/-! ## Documents -/

/-- Carries out statements; those without a header belong to the table at the path `current`. -/
def carryOut (current : List String) (root : Entries) : List Statement → Option Entries
  | [] => some root
  | .assign path key value :: rest =>
    match atHeader (assignDotted key value path) current root with
    | none => none
    | some root => carryOut current root rest
  | .header path key :: rest =>
    match atHeader (openTable key) path root with
    | none => none
    | some root => carryOut (path ++ [key]) root rest
  | .elementHeader path key :: rest =>
    match atHeader (openElement key) path root with
    | none => none
    | some root => carryOut (path ++ [key]) root rest

/-- The entries of a TOML document; `none` if the text is not one. -/
def document? (text : String) : Option (List (String × Value)) :=
  match readStatements text.toList with
  | none => none
  | some statements =>
    match carryOut [] [] statements with
    | none => none
    | some root => some (entryValues root)

end MathMarkup.Toml
