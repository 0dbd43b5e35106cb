import MathMarkup.Toml.Strings

/-!
# Numbers, times and truth values of TOML

* `readInteger`, `isFloat`, `isTime` — the forms and ranges of numbers and times.
* `readScalar` — a value that is written without quotes and brackets.
-/

namespace MathMarkup.Toml

/-! ## Numbers -/

/-- Digits in which single underscores may stand between two digits. -/
def isDigitRun (isDigit : Char → Bool) : List Char → Bool
  | [] => false
  | [c] => isDigit c
  | c :: d :: rest =>
    isDigit c &&
      (if d = '_' then isDigitRun isDigit rest else isDigitRun isDigit (d :: rest))

/-- The number that digits of a base spell, underscores aside. -/
def digitsValue (base : Nat) (digits : List Char) : Nat :=
  digits.foldl (fun n c => if c = '_' then n else base * n + (hexDigit c).getD 0) 0

def isDecimal (c : Char) : Bool := '0' ≤ c && c ≤ '9'

/-- A decimal number starts with a zero only if it is zero. -/
def isWholeNumber (digits : List Char) : Bool :=
  isDigitRun isDecimal digits && (digits.head? ≠ some '0' || digits.length = 1)

/-- A text without its sign. -/
def unsigned : List Char → List Char
  | '+' :: rest => rest
  | '-' :: rest => rest
  | text => text

/-- The digits of a base after its mark. -/
def readBase (base : Nat) (isDigit : Char → Bool) (digits : List Char) : Option Nat :=
  if isDigitRun isDigit digits then some (digitsValue base digits) else none

/-- A whole number in any notation. -/
def readWhole (text : List Char) : Option Int :=
  match text with
  | '0' :: 'x' :: digits => (readBase 16 (fun c => (hexDigit c).isSome) digits).map Int.ofNat
  | '0' :: 'o' :: digits => (readBase 8 (fun c => '0' ≤ c && c ≤ '7') digits).map Int.ofNat
  | '0' :: 'b' :: digits => (readBase 2 (fun c => c = '0' || c = '1') digits).map Int.ofNat
  | _ =>
    let digits := unsigned text
    if isWholeNumber digits then
      let n : Int := digitsValue 10 digits
      some (if text.head? = some '-' then -n else n)
    else none

/-- The least number of a word of 64 bits with a sign. -/
def leastInteger : Int := -9223372036854775808

/-- The greatest number of a word of 64 bits without a sign. -/
def greatestInteger : Int := 18446744073709551615

/-- A whole number that fits a word of 64 bits, with or without a sign. -/
def readInteger (text : List Char) : Option Int :=
  match readWhole text with
  | none => none
  | some n => if leastInteger ≤ n && n ≤ greatestInteger then some n else none

/-- The parts of a number with a fraction, an exponent or both, without its sign. -/
structure Decimal where
  whole : List Char
  /-- The digits after the point. -/
  fraction : List Char
  /-- The exponent with its sign. -/
  exponent : List Char
  deriving DecidableEq, Repr

/-- The parts of a number without its sign. -/
def decimal? (number : List Char) : Option Decimal :=
  let isMark (c : Char) : Bool := c = 'e' || c = 'E'
  let mantissa := number.takeWhile fun c => !isMark c
  let exponent := number.dropWhile fun c => !isMark c
  let whole := mantissa.takeWhile (· ≠ '.')
  let fraction := mantissa.dropWhile (· ≠ '.')
  if isWholeNumber whole && !(exponent.isEmpty && fraction.isEmpty) &&
      (fraction.isEmpty || isDigitRun isDecimal (fraction.drop 1)) &&
      (exponent.isEmpty || isDigitRun isDecimal (unsigned (exponent.drop 1))) then
    some ⟨whole, fraction.drop 1, exponent.drop 1⟩
  else none

/-- The least number that no finite number of double precision is nearest to: half a step above the
greatest one. -/
def doubleBound : Nat := Nat.pow 2 1024 - Nat.pow 2 970

/-- The number of digits in front of the point of the numbers around `doubleBound`. -/
def doubleDigits : Nat := 309

/-- Whether a number of double precision is near enough to be its value. The number is its digits
times a power of ten; the number of its digits in front of the point decides in all but one case,
so that no great power is ever needed. -/
def Decimal.isFinite (d : Decimal) : Bool :=
  let fraction := d.fraction.filter (· ≠ '_')
  let digits := (d.whole ++ fraction).dropWhile fun c => c = '0' || c = '_'
  let length := (digits.filter (· ≠ '_')).length
  let power := digitsValue 10 (unsigned d.exponent)
  let value := digitsValue 10 digits
  if digits.isEmpty then true
  else if d.exponent.head? = some '-' then
    let places := fraction.length + power
    length < doubleDigits + places ||
      (length = doubleDigits + places && value < doubleBound * Nat.pow 10 places)
  else if length + power = doubleDigits + fraction.length then
    value * Nat.pow 10 (power - fraction.length) <
      doubleBound * Nat.pow 10 (fraction.length - power)
  else length + power < doubleDigits + fraction.length

/-- A number with a fraction or an exponent within the range of double precision, or one of the
special numbers. -/
def isFloat (text : List Char) : Bool :=
  let number := unsigned text
  number = "inf".toList || number = "nan".toList || (decimal? number).any Decimal.isFinite

/-! ## Times -/

/-- A number of exactly `width` digits that lies between two bounds. -/
def readField (width low high : Nat) : Reader Nat := fun text =>
  let digits := text.take width
  if digits.length = width && digits.all isDecimal then
    let n := digitsValue 10 digits
    if low ≤ n && n ≤ high then some (n, text.drop width) else none
  else none

/-- The number of days of a month. -/
def daysIn (year month : Nat) : Nat :=
  if month = 2 then
    if year % 4 = 0 && (year % 100 ≠ 0 || year % 400 = 0) then 29 else 28
  else if month = 4 || month = 6 || month = 9 || month = 11 then 30
  else 31

/-- The text after a day of the calendar. -/
def skipDate (text : List Char) : Option (List Char) :=
  match readField 4 0 9999 text with
  | some (year, '-' :: text) =>
    match readField 2 1 12 text with
    | some (month, '-' :: text) => (readField 2 1 (daysIn year month) text).map (·.2)
    | _ => none
  | _ => none

/-- The text after a fraction of a second, which may be missing. -/
def skipFraction : List Char → Option (List Char)
  | '.' :: text =>
    if text.head?.any isDecimal then some (text.dropWhile isDecimal) else none
  | text => some text

/-- The text after a time of day; seconds may be missing. -/
def skipTime (text : List Char) : Option (List Char) :=
  match readField 2 0 23 text with
  | some (_, ':' :: text) =>
    match readField 2 0 59 text with
    | some (_, ':' :: text) =>
      match readField 2 0 60 text with
      | some (_, text) => skipFraction text
      | none => none
    | some (_, text) => some text
    | none => none
  | _ => none

/-- An offset from universal time, which may be missing, ends the text. -/
def isOffset : List Char → Bool
  | [] => true
  | ['Z'] => true
  | ['z'] => true
  | sign :: text =>
    if sign = '+' || sign = '-' then
      match readField 2 0 23 text with
      | some (_, ':' :: text) =>
        match readField 2 0 59 text with
        | some (_, []) => true
        | _ => false
      | _ => false
    else false

/-- A day, a time of day, or both with an offset. -/
def isTime (text : List Char) : Bool :=
  match skipDate text with
  | some [] => true
  | some (separator :: text) =>
    if separator = 'T' || separator = 't' || separator = ' ' then
      match skipTime text with
      | some text => isOffset text
      | none => false
    else false
  | none =>
    match skipTime text with
    | some [] => true
    | _ => false

/-! ## Scalars -/

/-- Characters of numbers, times and truth values. -/
def isScalarChar (c : Char) : Bool :=
  c.isAlphanum || c = '_' || c = '-' || c = '+' || c = '.' || c = ':'

/-- The characters of a scalar. A blank may stand between a day and a time of day. -/
def scalarChars (text : List Char) : List Char :=
  let first := text.takeWhile isScalarChar
  match skipDate first, text.dropWhile isScalarChar with
  | some [], ' ' :: rest =>
    if rest.head?.any isDecimal then first ++ ' ' :: rest.takeWhile isScalarChar else first
  | _, _ => first

/-- The value that the characters of a scalar spell. -/
def scalarValue (text : List Char) : Option Value :=
  if text = "true".toList then some (.boolean true)
  else if text = "false".toList then some (.boolean false)
  else
    match readInteger text with
    | some n => some (.integer n)
    | none =>
      if isFloat text then some (.float (String.ofList text))
      else if isTime text then some (.time (String.ofList text))
      else none

/-- A truth value, a number or a time. -/
def readScalar : Reader Value := fun text =>
  let characters := scalarChars text
  match scalarValue characters with
  | none => none
  | some value => some (value, text.drop characters.length)

end MathMarkup.Toml
