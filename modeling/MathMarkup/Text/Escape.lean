/-!
# Escaping

* `escapeMarked` — one character, where some characters are marks.
* `escapeContent` — character data between tags.
* `escapeAttribute` — the value of an attribute in double quotes.
* `appendEscaped` — both of them as they are written to the end of a buffer.
-/

namespace MathMarkup.Text

/-- What may not stand between tags as it is. -/
def contentMarks : List Char := ['&', '<', '>']

/-- What may not stand in an attribute value as it is. -/
def attributeMarks : List Char := ['&', '"', '<']

/-- The reference that is written for a mark. -/
def referenceTo (mark : Char) : List Char :=
  if mark = '&' then "&amp;".toList
  else if mark = '<' then "&lt;".toList
  else if mark = '>' then "&gt;".toList
  else "&quot;".toList

/-- A mark is written as a reference, every other character as it is. -/
def escapeMarked (marks : List Char) (c : Char) : List Char :=
  if c ∈ marks then referenceTo c else [c]

theorem escapeMarked_of_mem {marks : List Char} {c : Char} (h : c ∈ marks) :
    escapeMarked marks c = referenceTo c := if_pos h

theorem escapeMarked_of_notMem {marks : List Char} {c : Char} (h : c ∉ marks) :
    escapeMarked marks c = [c] := if_neg h

def escapeContent (text : List Char) : List Char := text.flatMap (escapeMarked contentMarks)

def escapeAttribute (text : List Char) : List Char := text.flatMap (escapeMarked attributeMarks)

/-! ## Buffers -/

/-- A text is appended to what the buffer holds. Each round copies the text up to the next mark. -/
def appendEscaped (marks output text : List Char) : List Char :=
  match _split : text.dropWhile (· ∉ marks) with
  | [] => output ++ text
  | mark :: after =>
    appendEscaped marks (output ++ text.takeWhile (· ∉ marks) ++ referenceTo mark) after
termination_by text.length
decreasing_by
  have := (List.dropWhile_suffix (l := text) (· ∉ marks)).length_le
  rw [_split, List.length_cons] at this
  exact this

def appendContent (output text : List Char) : List Char := appendEscaped contentMarks output text

def appendAttribute (output text : List Char) : List Char := appendEscaped attributeMarks output text

end MathMarkup.Text
