import MathMarkup.Toml.Value

/-!
# Blanks, strings and keys of TOML

* `skipBlanks`, `skipLines` — white space on a line, and over lines with their comments.
* `readString` — the four kinds of strings.
* `readKey`, `readPath` — a key, and a dotted path of keys.
-/

namespace MathMarkup.Toml

/-! ## Blanks and comments -/

/-- White space within a line. -/
def isBlank (c : Char) : Bool := c = ' ' || c = '\t'

/-- Characters that may stand in a comment or a string: the tab and all but control characters. -/
def isPlain (c : Char) : Bool := c = '\t' || (' ' ≤ c && c ≠ '\x7f')

def skipBlanks (text : List Char) : List Char := text.dropWhile isBlank

/-- A line ends with a line feed, with or without a carriage return before it. -/
def skipLineEnd : List Char → Option (List Char)
  | '\n' :: rest => some rest
  | '\r' :: '\n' :: rest => some rest
  | _ => none

/-- Passes over a comment, if one stands here; the end of its line stays. -/
def skipComment : List Char → List Char
  | '#' :: rest => rest.dropWhile isPlain
  | text => text

/-- Passes over blanks, line ends and comments, at most `budget` lines of them. -/
def skipLinesWithin : Nat → List Char → List Char
  | 0, text => text
  | budget + 1, text =>
    let text := skipComment (skipBlanks text)
    match skipLineEnd text with
    | none => text
    | some rest => skipLinesWithin budget rest

/-- Passes over blanks, line ends and comments. -/
def skipLines (text : List Char) : List Char := skipLinesWithin (text.length + 1) text

/-! ## Strings -/

/-- The value of a hexadecimal digit. -/
def hexDigit (c : Char) : Option Nat :=
  if '0' ≤ c && c ≤ '9' then some (c.toNat - '0'.toNat)
  else if 'a' ≤ c && c ≤ 'f' then some (c.toNat - 'a'.toNat + 10)
  else if 'A' ≤ c && c ≤ 'F' then some (c.toNat - 'A'.toNat + 10)
  else none

/-- A character by its code in the given number of hexadecimal digits. -/
def readCode : Nat → Nat → Reader Char
  | 0, code, text => if code.isValidChar then some (Char.ofNat code, text) else none
  | digits + 1, code, c :: text =>
    match hexDigit c with
    | none => none
    | some d => readCode digits (16 * code + d) text
  | _ + 1, _, [] => none

/-- The character that an escape stands for, after its backslash. -/
def readEscape : Reader Char
  | [] => none
  | c :: text =>
    if c = 'b' then some ('\x08', text)
    else if c = 't' then some ('\t', text)
    else if c = 'n' then some ('\n', text)
    else if c = 'f' then some ('\x0c', text)
    else if c = 'r' then some ('\r', text)
    else if c = 'e' then some ('\x1b', text)
    else if c = '"' then some ('"', text)
    else if c = '\\' then some ('\\', text)
    else if c = 'x' then readCode 2 0 text
    else if c = 'u' then readCode 4 0 text
    else if c = 'U' then readCode 8 0 text
    else none

/-- The rest of a string on one line: basic strings have escapes, literal ones have none. -/
def readLineString (quote : Char) (budget : Nat) : Reader (List Char) := fun text =>
  match budget, text with
  | 0, _ => none
  | _, [] => none
  | budget + 1, c :: text =>
    if c = quote then some ([], text)
    else if c = '\\' && quote = '"' then
      match readEscape text with
      | none => none
      | some (escaped, text) =>
        match readLineString quote budget text with
        | none => none
        | some (content, text) => some (escaped :: content, text)
    else if isPlain c then
      match readLineString quote budget text with
      | none => none
      | some (content, text) => some (c :: content, text)
    else none

/-- Whether only blanks stand before the end of the line. -/
def endsLine (text : List Char) : Bool := (skipLineEnd (skipBlanks text)).isSome

/-- Passes over blanks and line ends, at most `budget` lines of them. -/
def trimLines : Nat → List Char → List Char
  | 0, text => text
  | budget + 1, text =>
    match skipLineEnd (skipBlanks text) with
    | none => skipBlanks text
    | some rest => trimLines budget rest

/-- The end of a string over several lines: three quotes, and up to two more that belong to the
string. -/
def readClosing (quote : Char) (text : List Char) : Option (List Char × List Char) :=
  let quotes := (text.takeWhile (· = quote)).length
  if quotes < 3 then none
  else
    let inside := min (quotes - 3) 2
    some (List.replicate inside quote, text.drop (inside + 3))

/-- The rest of a string over several lines. In a basic string, a backslash at the end of a line
joins it to the next text. -/
def readBlockString (quote : Char) (budget : Nat) : Reader (List Char) := fun text =>
  match budget with
  | 0 => none
  | budget + 1 =>
    match readClosing quote text with
    | some closed => some closed
    | none =>
      let step : Option (List Char × List Char) :=
        match skipLineEnd text, text with
        | some rest, _ => some (['\n'], rest)
        | none, [] => none
        | none, c :: rest =>
          if c = '\\' && quote = '"' then
            if endsLine rest then some ([], trimLines (rest.length + 1) rest)
            else (readEscape rest).map fun (escaped, rest) => ([escaped], rest)
          else if isPlain c then some ([c], rest)
          else none
      match step with
      | none => none
      | some (first, rest) =>
        match readBlockString quote budget rest with
        | none => none
        | some (content, rest) => some (first ++ content, rest)

/-- A string without its opening quotes; a line end right after three quotes is dropped. -/
def readStringAfter (quote : Char) : Reader String := fun text =>
  let found :=
    match text with
    | q :: r :: block =>
      if q = quote && r = quote then
        readBlockString quote (block.length + 1) ((skipLineEnd block).getD block)
      else readLineString quote (text.length + 1) text
    | _ => readLineString quote (text.length + 1) text
  found.map fun (content, rest) => (String.ofList content, rest)

/-- A string of any kind. -/
def readString : Reader String
  | '"' :: text => readStringAfter '"' text
  | '\'' :: text => readStringAfter '\'' text
  | _ => none

/-! ## Keys -/

/-- Characters of a key without quotes. -/
def isKeyChar (c : Char) : Bool := c.isAlphanum || c = '_' || c = '-'

/-- A key, in quotes on one line or without quotes. -/
def readKey : Reader String := fun text =>
  let quoted (quote : Char) (text : List Char) : Option (String × List Char) :=
    (readLineString quote (text.length + 1) text).map fun (content, rest) =>
      (String.ofList content, rest)
  match text with
  | '"' :: text => quoted '"' text
  | '\'' :: text => quoted '\'' text
  | text =>
    let name := text.takeWhile isKeyChar
    if name.isEmpty then none else some (String.ofList name, text.dropWhile isKeyChar)

/-- A path of at most `budget` keys with dots between them: all keys but the last, and the last. -/
def readPathWithin : Nat → Reader (List String × String)
  | 0, _ => none
  | budget + 1, text =>
    match readKey text with
    | none => none
    | some (key, text) =>
      match skipBlanks text with
      | '.' :: text =>
        match readPathWithin budget (skipBlanks text) with
        | none => none
        | some ((parents, last), text) => some ((key :: parents, last), text)
      | text => some (([], key), text)

/-- A path of keys; blanks may stand around its dots and after it. -/
def readPath : Reader (List String × String) := fun text =>
  readPathWithin (text.length + 1) text

end MathMarkup.Toml
