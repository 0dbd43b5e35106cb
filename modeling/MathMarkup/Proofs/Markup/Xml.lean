import MathMarkup.Markup.Writer

/-!
# Reading markup

A reader of markup that knows nothing of the writer. It takes one character after another and keeps
the elements that are open on a stack.

* `Xml` — a tree of elements as it is read; character data is checked and not kept.
* `isReference` — the references that the reader knows.
* `State`, `step`, `run` — what has been read, and how a character continues it.
* `Xml.read` — the root of a text that holds one element and nothing beside it.

Principal result: `run_data` — character data and the values of attributes are read to their ends if
every `&` in them starts a reference and the characters that end them are missing.
-/

namespace MathMarkup.Markup

/-- An element with its attributes as they are written, and the elements in it. -/
inductive Xml where
  | element (name : String) (attributes : List (String × String)) (content : List Xml)

namespace Xml

def name : Xml → String
  | .element name _ _ => name

def content : Xml → List Xml
  | .element _ _ content => content

mutual

/-- The names of all elements in a tree. -/
def names : Xml → List String
  | .element name _ content => name :: namesOf content

def namesOf : List Xml → List String
  | [] => []
  | first :: rest => first.names ++ namesOf rest

end

/-! ## References -/

def isHexDigit (c : Char) : Bool :=
  c.isDigit || 'a' ≤ c && c ≤ 'f' || 'A' ≤ c && c ≤ 'F'

/-- What stands between the `&` and the `;` of a reference: one of four names, or a number in
hexadecimal digits. -/
def isReference : List Char → Bool
  | '#' :: 'x' :: digits => !digits.isEmpty && digits.all isHexDigit
  | name => name ∈ ["amp".toList, "lt".toList, "gt".toList, "quot".toList]

/-! ## The reader -/

/-- An element of which the end has not been read. -/
structure Frame where
  name : String
  attributes : List (String × String)
  content : List Xml

def Frame.element (frame : Frame) : Xml := .element frame.name frame.attributes frame.content

/-- Where character data stands. -/
inductive Place where
  | content
  /-- In the value of an attribute of a start tag. -/
  | value (start : Frame) (name : String) (written : List Char)

/-- What is named by a name. -/
inductive Named where
  | startTag
  | endTag
  | attribute (start : Frame)

/-- What stands before the next character. -/
inductive Mode where
  /-- Nothing. -/
  | start
  | data (place : Place)
  /-- An `&` and a part of a reference. -/
  | reference (place : Place) (name : List Char)
  /-- A `<`. -/
  | tag
  /-- A part of a name. -/
  | name (named : Named) (read : List Char)
  /-- The `=` behind the name of an attribute. -/
  | equals (start : Frame) (name : String)
  /-- An attribute. -/
  | attribute (start : Frame)
  /-- The `/` at the end of a tag. -/
  | slash (start : Frame)
  /-- All of the markup. -/
  | finished (root : Xml)

structure State where
  /-- The open elements, the innermost one first. -/
  frames : List Frame
  mode : Mode

/-- Whether a character stands for itself between tags. -/
def isContentCharacter (c : Char) : Bool := c ≠ '<' && c ≠ '>' && c ≠ '&'

/-- Whether a character stands for itself in the value of an attribute. -/
def isValueCharacter (c : Char) : Bool := c ≠ '"' && c ≠ '<' && c ≠ '&'

def Place.isPlain : Place → Char → Bool
  | content => isContentCharacter
  | value _ _ _ => isValueCharacter

/-- The place behind more character data. Only that of a value is kept. -/
def Place.extend : Place → List Char → Place
  | content, _ => content
  | value start name written, more => value start name (written ++ more)

/-- A `<` starts a tag and a quotation mark ends a value. -/
def endData (frames : List Frame) : Place → Char → Option State
  | .content, '<' => some ⟨frames, .tag⟩
  | .value start name written, '"' =>
    some ⟨frames, .attribute
      { start with attributes := start.attributes ++ [(name, String.ofList written)] }⟩
  | _, _ => none

/-- A character between the parts of a start tag. -/
def continueTag (frames : List Frame) (start : Frame) (c : Char) : Option State :=
  if c = ' ' then some ⟨frames, .name (.attribute start) []⟩
  else if c = '>' then some ⟨start :: frames, .data .content⟩
  else if c = '/' then some ⟨frames, .slash start⟩
  else none

/-- An element that has been read stands in the innermost open element, or is the root. -/
def close (element : Xml) : List Frame → State
  | [] => ⟨[], .finished element⟩
  | frame :: outer =>
    ⟨{ frame with content := frame.content ++ [element] } :: outer, .data .content⟩

/-- A character behind a name. An end tag names the innermost open element, and an element has no
two attributes of one name. -/
def endName (frames : List Frame) (name : String) : Named → Char → Option State
  | .startTag, c => continueTag frames ⟨name, [], []⟩ c
  | .attribute start, '=' =>
    if name ∈ start.attributes.map Prod.fst then none else some ⟨frames, .equals start name⟩
  | .endTag, '>' =>
    match frames with
    | [] => none
    | frame :: outer => if frame.name = name then some (close frame.element outer) else none
  | _, _ => none

/-- What one more character makes of a state, unless it may not stand there. -/
def step (s : State) (c : Char) : Option State :=
  match s.mode with
  | .start => if c = '<' then some ⟨s.frames, .tag⟩ else none
  | .data place =>
    if place.isPlain c then some ⟨s.frames, .data (place.extend [c])⟩
    else if c = '&' then some ⟨s.frames, .reference place []⟩
    else endData s.frames place c
  | .reference place name =>
    if c = ';' then
      if isReference name then some ⟨s.frames, .data (place.extend ('&' :: (name ++ [';'])))⟩
      else none
    else some ⟨s.frames, .reference place (name ++ [c])⟩
  | .tag =>
    if c = '/' then some ⟨s.frames, .name .endTag []⟩
    else if c.isAlpha then some ⟨s.frames, .name .startTag [c]⟩
    else none
  | .name named read =>
    if c.isAlpha then some ⟨s.frames, .name named (read ++ [c])⟩
    else if read.isEmpty then none
    else endName s.frames (String.ofList read) named c
  | .equals start name => if c = '"' then some ⟨s.frames, .data (.value start name [])⟩ else none
  | .attribute start => continueTag s.frames start c
  | .slash start => if c = '>' then some (close start.element s.frames) else none
  | .finished _ => none

def run (s : State) (text : List Char) : Option State := text.foldlM step s

/-- **The root of a text that holds one element and nothing beside it.** -/
def read (text : List Char) : Option Xml :=
  match run ⟨[], .start⟩ text with
  | some ⟨[], .finished root⟩ => some root
  | _ => none

theorem run_nil (s : State) : run s [] = some s := rfl

theorem run_cons (s : State) (c : Char) (text : List Char) :
    run s (c :: text) = (step s c).bind fun t => run t text := by
  rw [run, List.foldlM_cons]
  rfl

theorem run_append (s : State) (a b : List Char) :
    run s (a ++ b) = (run s a).bind fun t => run t b := by
  rw [run, List.foldlM_append]
  rfl

theorem run_cons_of_step {s t : State} {c : Char} (h : step s c = some t) (text : List Char) :
    run s (c :: text) = run t text := by
  rw [run_cons, h, Option.bind_some]

theorem run_append_of_run {s t : State} {a : List Char} (h : run s a = some t) (b : List Char) :
    run s (a ++ b) = run t b := by
  rw [run_append, h, Option.bind_some]

/-! ## Character data -/

/-- Whether a text is character data, given the characters that stand for themselves, and behind an
`&` and a part of a reference if there is one. -/
def isDataAfter (plain : Char → Bool) : Option (List Char) → List Char → Bool
  | none, [] => true
  | some _, [] => false
  | none, c :: rest =>
    if c = '&' then isDataAfter plain (some []) rest else plain c && isDataAfter plain none rest
  | some name, c :: rest =>
    if c = ';' then isReference name && isDataAfter plain none rest
    else isDataAfter plain (some (name ++ [c])) rest

/-- Whether every `&` in a text starts a reference and all other characters stand for themselves. -/
def isData (plain : Char → Bool) (text : List Char) : Bool := isDataAfter plain none text

variable {plain : Char → Bool} {a b text name : List Char}

theorem isDataAfter_append : ∀ (before : Option (List Char)) (a : List Char),
    isDataAfter plain before a = true → isDataAfter plain before (a ++ b) = isDataAfter plain none b
  | none, [], _ => by rw [List.nil_append]
  | none, c :: rest, h => by
    rw [isDataAfter] at h
    rw [List.cons_append, isDataAfter]
    split at h
    · rename_i hc
      rw [if_pos hc, isDataAfter_append _ rest h]
    · rename_i hc
      rw [Bool.and_eq_true] at h
      rw [if_neg hc, h.1, Bool.true_and, isDataAfter_append _ rest h.2]
  | some name, c :: rest, h => by
    rw [isDataAfter] at h
    rw [List.cons_append, isDataAfter]
    split at h
    · rename_i hc
      rw [Bool.and_eq_true] at h
      rw [if_pos hc, h.1, Bool.true_and, isDataAfter_append _ rest h.2]
    · rename_i hc
      rw [if_neg hc, isDataAfter_append _ rest h]

theorem isData_append (ha : isData plain a = true) (hb : isData plain b = true) :
    isData plain (a ++ b) = true := by
  rw [isData, isDataAfter_append none a ha]
  exact hb

theorem isData_flatMap {f : Char → List Char} (hf : ∀ c, isData plain (f c) = true)
    (text : List Char) : isData plain (text.flatMap f) = true := by
  induction text with
  | nil => rfl
  | cons c rest ih =>
    rw [List.flatMap_cons]
    exact isData_append (hf c) ih

theorem isData_of_plain (hp : plain '&' = false) (h : ∀ c ∈ text, plain c = true) :
    isData plain text = true := by
  induction text with
  | nil => rfl
  | cons c rest ih =>
    have hc := h c List.mem_cons_self
    have hne : c ≠ '&' := by
      rintro rfl
      rw [hp] at hc
      cases hc
    rw [isData, isDataAfter, if_neg hne, hc, Bool.true_and]
    exact ih fun d hd => h d (List.mem_cons_of_mem _ hd)

theorem Place.isPlain_extend (place : Place) (more : List Char) :
    (place.extend more).isPlain = place.isPlain := by
  cases place <;> rfl

theorem Place.extend_extend (place : Place) (a b : List Char) :
    (place.extend a).extend b = place.extend (a ++ b) := by
  cases place <;> simp [extend]

theorem Place.extend_nil (place : Place) : place.extend [] = place := by
  cases place <;> simp [extend]

theorem Place.isPlain_ampersand (place : Place) : place.isPlain '&' = false := by
  cases place <;> rfl

theorem run_data_after (frames : List Frame) : ∀ (place : Place) (text : List Char),
    (isDataAfter place.isPlain none text = true →
      run ⟨frames, .data place⟩ text = some ⟨frames, .data (place.extend text)⟩) ∧
    (∀ name, isDataAfter place.isPlain (some name) text = true →
      run ⟨frames, .reference place name⟩ text =
        some ⟨frames, .data (place.extend ('&' :: (name ++ text)))⟩)
  | place, [] => by
    constructor
    · intro _
      rw [place.extend_nil, run_nil]
    · intro name h
      cases h
  | place, c :: rest => by
    constructor
    · intro h
      rw [isDataAfter] at h
      split at h
      · rename_i hc
        subst hc
        have hs : step ⟨frames, .data place⟩ '&' = some ⟨frames, .reference place []⟩ := by
          simp [step, place.isPlain_ampersand]
        rw [run_cons_of_step hs, (run_data_after frames place rest).2 [] h, List.nil_append]
      · rw [Bool.and_eq_true] at h
        have hs : step ⟨frames, .data place⟩ c = some ⟨frames, .data (place.extend [c])⟩ := by
          simp [step, h.1]
        have hrest := (run_data_after frames (place.extend [c]) rest).1
        rw [place.isPlain_extend] at hrest
        rw [run_cons_of_step hs, hrest h.2, place.extend_extend, List.singleton_append]
    · intro name h
      rw [isDataAfter] at h
      split at h
      · rename_i hc
        subst hc
        rw [Bool.and_eq_true] at h
        have hs : step ⟨frames, .reference place name⟩ ';' =
            some ⟨frames, .data (place.extend ('&' :: (name ++ [';'])))⟩ := by
          simp [step, h.1]
        have hrest := (run_data_after frames (place.extend ('&' :: (name ++ [';']))) rest).1
        rw [place.isPlain_extend] at hrest
        rw [run_cons_of_step hs, hrest h.2, place.extend_extend]
        simp
      · rename_i hc
        have hs : step ⟨frames, .reference place name⟩ c =
            some ⟨frames, .reference place (name ++ [c])⟩ := by
          simp [step, hc]
        rw [run_cons_of_step hs, (run_data_after frames place rest).2 _ h]
        simp

/-- **Character data is read to its end.** -/
theorem run_data {place : Place} (h : isData place.isPlain text = true) (frames : List Frame) :
    run ⟨frames, .data place⟩ text = some ⟨frames, .data (place.extend text)⟩ :=
  (run_data_after frames place text).1 h

theorem run_content (h : isData isContentCharacter text = true) (frames : List Frame) :
    run ⟨frames, .data .content⟩ text = some ⟨frames, .data .content⟩ := by
  have hp : isData (Place.isPlain .content) text = true := h
  rw [run_data hp, Place.extend]

theorem run_value (h : isData isValueCharacter text = true) (frames : List Frame) (start : Frame)
    (name : String) :
    run ⟨frames, .data (.value start name [])⟩ text =
      some ⟨frames, .data (.value start name text)⟩ := by
  have hp : isData (Place.isPlain (.value start name [])) text = true := h
  rw [run_data hp, Place.extend, List.nil_append]

end Xml

end MathMarkup.Markup
