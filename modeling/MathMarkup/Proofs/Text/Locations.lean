import MathMarkup.Proofs.Text.Utf8

/-!
# Places identify offsets

* `Location.Before` — the order in which places are read.
* `Location.offset?` — the way back from a place to its offset, by the lines of the text.
* `endLines` — lines with a newline behind each of them. Every text is such lines and a last one, and
  the place behind it counts them and the characters of the last one.

Principal result: `Location.ofBytes_identifies` — the place counted in the bytes of a text is the one
counted in its characters, later offsets have later places, and a place leads back to its offset.
-/

namespace MathMarkup.Text

variable {lines : List (List Char)} {onLine source before behind : List Char} {place : Location}
  {offset : Nat}

/-- The lines, each with a newline behind it. -/
def endLines (lines : List (List Char)) : List Char := lines.flatMap (· ++ ['\n'])

theorem endLines_cons (line : List Char) (lines : List (List Char)) :
    endLines (line :: lines) = line ++ '\n' :: endLines lines := by
  simp [endLines]

theorem count_endLines (hlines : ∀ line ∈ lines, '\n' ∉ line) :
    (endLines lines).count '\n' = lines.length := by
  induction lines with
  | nil => rfl
  | cons line lines ih =>
    rw [List.forall_mem_cons] at hlines
    rw [endLines_cons, List.count_append, List.count_cons_self, ih hlines.2,
      List.count_eq_zero.2 hlines.1, Nat.zero_add, List.length_cons]

theorem endLines_eq_nil_or (lines : List (List Char)) :
    endLines lines = [] ∨ (endLines lines).getLast? = some '\n' := by
  rcases List.eq_nil_or_concat lines with rfl | ⟨front, line, rfl⟩
  · exact .inl rfl
  · right
    simp [endLines]

/-- Every text is some lines that are ended and one that is not. -/
theorem exists_endLines (text : List Char) :
    ∃ lines onLine, text = endLines lines ++ onLine ∧ (∀ line ∈ lines, '\n' ∉ line) ∧
      '\n' ∉ onLine := by
  induction text with
  | nil => exact ⟨[], [], rfl, by simp, by simp⟩
  | cons c text ih =>
    obtain ⟨lines, onLine, rfl, hlines, honLine⟩ := ih
    by_cases hc : c = '\n'
    · subst hc
      exact ⟨[] :: lines, onLine, by rw [endLines_cons]; rfl, by simpa using hlines, honLine⟩
    · have hc' : '\n' ≠ c := Ne.symm hc
      cases lines with
      | nil => exact ⟨[], c :: onLine, rfl, by simp, by simp [hc', honLine]⟩
      | cons line lines =>
        rw [List.forall_mem_cons] at hlines
        refine ⟨(c :: line) :: lines, onLine, by simp only [endLines_cons, List.cons_append], ?_,
          honLine⟩
        exact List.forall_mem_cons.2 ⟨by simp [hc', hlines.1], hlines.2⟩

/-! ## Lines of a text -/

theorem splitOn_endLines_append (hlines : ∀ line ∈ lines, '\n' ∉ line) (rest : List Char) :
    (endLines lines ++ rest).splitOn '\n' = lines ++ rest.splitOn '\n' := by
  induction lines with
  | nil => rfl
  | cons line lines ih =>
    rw [List.forall_mem_cons] at hlines
    rw [endLines_cons, List.append_assoc, List.cons_append,
      List.splitOn_append_cons_self_of_not_mem hlines.1, ih hlines.2, List.cons_append]

theorem splitOn_append_of_not_mem (honLine : '\n' ∉ onLine) (rest : List Char) :
    (onLine ++ rest).splitOn '\n' = (rest.splitOn '\n').modifyHead (onLine ++ ·) := by
  induction onLine with
  | nil =>
    cases hrest : rest.splitOn '\n' <;> simp [hrest]
  | cons c onLine ih =>
    simp only [List.mem_cons, not_or] at honLine
    rw [List.cons_append, List.splitOn_cons_eq_if_modifyHead, ih honLine.2]
    rw [if_neg (by simpa using Ne.symm honLine.1)]
    cases rest.splitOn '\n' <;> simp

/-- No line has a newline in it. -/
theorem not_mem_of_mem_splitOn {line : List Char} (h : line ∈ source.splitOn '\n') :
    '\n' ∉ line := by
  obtain ⟨lines, onLine, rfl, hlines, honLine⟩ := exists_endLines source
  rw [splitOn_endLines_append hlines, List.splitOn_eq_singleton honLine, List.mem_append,
    List.mem_singleton] at h
  rcases h with hmem | rfl
  · exact hlines line hmem
  · exact honLine

/-- The lines of a text, with one of them taken out. -/
theorem eq_endLines_append {line : List Char} {index : Nat}
    (h : (source.splitOn '\n')[index]? = some line) :
    ∃ rest, source = endLines ((source.splitOn '\n').take index) ++ line ++ rest := by
  have hjoin : ['\n'].intercalate (source.splitOn '\n') = source := List.intercalate_splitOn '\n'
  generalize source.splitOn '\n' = lines at h hjoin
  subst hjoin
  induction lines generalizing index with
  | nil => cases h
  | cons first lines ih =>
    cases lines with
    | nil =>
      cases index with
      | zero =>
        obtain rfl := Option.some.inj h
        exact ⟨[], by simp [endLines]⟩
      | succ index => simp at h
    | cons second lines =>
      cases index with
      | zero =>
        obtain rfl := Option.some.inj h
        exact ⟨_, by rw [List.intercalate_cons_cons, List.append_assoc]; rfl⟩
      | succ index =>
        obtain ⟨rest, hrest⟩ := ih h
        refine ⟨rest, ?_⟩
        rw [List.intercalate_cons_cons, hrest, List.take_succ_cons, endLines_cons]
        simp

namespace Location

/-! ## Places behind a text -/

theorem foldl_advance_of_not_mem (honLine : '\n' ∉ onLine) (place : Location) :
    onLine.foldl advance place = ⟨place.line, place.column + onLine.length⟩ := by
  induction onLine generalizing place with
  | nil => rfl
  | cons c onLine ih =>
    simp only [List.mem_cons, not_or] at honLine
    rw [List.foldl_cons, ih honLine.2, advance, if_neg (Ne.symm honLine.1)]
    simp only [nextColumn, List.length_cons, mk.injEq, true_and]
    omega

/-- The place behind lines counts them, and the characters of the last one. -/
theorem after_endLines_append (hlines : ∀ line ∈ lines, '\n' ∉ line) (honLine : '\n' ∉ onLine) :
    after (endLines lines ++ onLine) = ⟨lines.length + 1, onLine.length + 1⟩ := by
  have hline : ∀ place : Location, place.column = 1 →
      (endLines lines).foldl advance place = ⟨place.line + lines.length, 1⟩ := by
    induction lines with
    | nil =>
      intro place hplace
      rw [show place = ⟨place.line, 1⟩ by rw [← hplace]]
      rfl
    | cons line lines ih =>
      intro place hplace
      rw [List.forall_mem_cons] at hlines
      rw [endLines_cons, List.foldl_append, List.foldl_cons, foldl_advance_of_not_mem hlines.1,
        ih hlines.2 _ rfl]
      simp only [advance, if_true, nextLine, List.length_cons, mk.injEq, and_true]
      omega
  rw [after, List.foldl_append, hline _ rfl, foldl_advance_of_not_mem honLine]
  simp only [start, mk.injEq]
  omega

theorem atOffset_byteLength (before behind : List Char) :
    atOffset (before ++ behind) (byteLength before) = after before := by
  rw [atOffset, takeBytes_append]

/-! ## Counting in the bytes -/

/-- The last line of some bytes starts behind their last newline. -/
theorem lastLineStart_append {front last : List UInt8}
    (hfront : front = [] ∨ front.getLast? = some newlineByte) (hlast : newlineByte ∉ last) :
    lastLineStart (front ++ last) = front.length := by
  have hreverse : last.reverse.findIdx? (· = newlineByte) = none := by
    rw [List.findIdx?_eq_none_iff]
    intro b hb
    rw [List.mem_reverse] at hb
    exact decide_eq_false fun h => hlast (h ▸ hb)
  rw [lastLineStart, List.reverse_append, List.findIdx?_append, hreverse, Option.none_or]
  rcases hfront with rfl | hnewline
  · rfl
  · obtain ⟨lines, rfl⟩ := List.getLast?_eq_some_iff.1 hnewline
    simp only [List.reverse_append, List.reverse_singleton, List.singleton_append,
      List.findIdx?_cons, decide_true, if_true, Option.map_some, List.length_reverse,
      List.length_append, List.length_singleton, Nat.zero_add]
    omega

theorem utf8EncodeChar_newline : String.utf8EncodeChar '\n' = [newlineByte] := by decide

/-- **The place counted in the bytes** is the one behind the characters. -/
theorem ofBytes_byteLength (before behind : List Char) :
    ofBytes (utf8 (before ++ behind)) (byteLength before) = after before := by
  have hascii : newlineByte < 0x80 := by decide
  obtain ⟨lines, onLine, rfl, hlines, honLine⟩ := exists_endLines before
  have hle : byteLength (endLines lines ++ onLine) ≤
      (utf8 (endLines lines ++ onLine ++ behind)).length := by
    rw [length_utf8, byteLength_append _ behind]
    exact Nat.le_add_right _ _
  have hcount : (utf8 (endLines lines ++ onLine)).count newlineByte = lines.length := by
    rw [count_utf8 utf8EncodeChar_newline hascii, List.count_append, List.count_eq_zero.2 honLine,
      count_endLines hlines, Nat.add_zero]
  have hstart : lastLineStart (utf8 (endLines lines ++ onLine)) = byteLength (endLines lines) := by
    rw [utf8_append, lastLineStart_append, length_utf8]
    · rcases endLines_eq_nil_or lines with hnil | hlast
      · exact .inl (by rw [hnil, utf8_nil])
      · exact .inr ((getLast?_utf8_eq_some_iff utf8EncodeChar_newline hascii).2 hlast)
    · rw [← List.count_eq_zero, count_utf8 utf8EncodeChar_newline hascii, List.count_eq_zero]
      exact honLine
  rw [ofBytes, Nat.min_eq_left hle, take_utf8_append, hcount, hstart, drop_utf8_append, lossyText_utf8,
    after_endLines_append hlines honLine]

/-! ## The order of places -/

/-- Earlier in reading order: on an earlier line, or further to the left on the same line. -/
def Before (a b : Location) : Prop := a.line < b.line ∨ a.line = b.line ∧ a.column < b.column

theorem Before.trans {a b c : Location} (hab : Before a b) (hbc : Before b c) : Before a c := by
  unfold Before at *
  omega

theorem before_advance (place : Location) (c : Char) : Before place (place.advance c) := by
  unfold advance
  split
  · exact .inl (Nat.lt_succ_self _)
  · exact .inr ⟨rfl, Nat.lt_succ_self _⟩

/-- Behind more characters is later. -/
theorem before_after_append (before : List Char) (hbehind : behind ≠ []) :
    Before (after before) (after (before ++ behind)) := by
  induction behind generalizing before with
  | nil => exact absurd rfl hbehind
  | cons c behind ih =>
    have hstep : Before (after before) (after (before ++ [c])) := by
      rw [after, after, List.foldl_append]
      exact before_advance _ c
    by_cases hnil : behind = []
    · rw [hnil]
      exact hstep
    · have hlater := ih (before ++ [c]) hnil
      rw [List.append_assoc, List.singleton_append] at hlater
      exact hstep.trans hlater

/-! ## The way back -/

/-- The offset of a place: the lines above it, each with its newline, and the characters to the left of
it on its own line. Lines and columns count from one. There may be no such line or character. -/
def offset? (source : List Char) : Location → Option Nat
  | ⟨line + 1, column + 1⟩ =>
    let lines := source.splitOn '\n'
    match lines[line]? with
    | some onLine =>
      if column ≤ onLine.length then
        some (byteLength (endLines (lines.take line)) + byteLength (onLine.take column))
      else none
    | none => none
  | _ => none

/-- The place behind a text leads back to the end of that text. -/
theorem offset?_after (before behind : List Char) :
    offset? (before ++ behind) (after before) = some (byteLength before) := by
  obtain ⟨lines, onLine, rfl, hlines, honLine⟩ := exists_endLines before
  obtain ⟨rest, more, hrest⟩ := List.exists_cons_of_ne_nil (List.splitOn_ne_nil '\n' behind)
  have hsplit : (endLines lines ++ onLine ++ behind).splitOn '\n' =
      lines ++ (onLine ++ rest) :: more := by
    rw [List.append_assoc, splitOn_endLines_append hlines, splitOn_append_of_not_mem honLine, hrest,
      List.modifyHead_cons]
  have hget : (lines ++ (onLine ++ rest) :: more)[lines.length]? = some (onLine ++ rest) := by
    rw [List.getElem?_append_right (Nat.le_refl _), Nat.sub_self, List.getElem?_cons_zero]
  rw [after_endLines_append hlines honLine, offset?, hsplit, hget]
  simp only
  rw [if_pos (by simp), List.take_left, List.take_left, byteLength_append]

/-- A place that leads to an offset is the one behind the text before this offset. -/
theorem eq_after_of_offset?_eq_some (h : offset? source place = some offset) :
    ∃ before behind, source = before ++ behind ∧ byteLength before = offset ∧
      after before = place := by
  unfold offset? at h
  split at h
  · next line column =>
    dsimp only at h
    split at h
    · next onLine hget =>
      split at h
      · next hcolumn =>
        obtain ⟨rest, hsource⟩ := eq_endLines_append hget
        refine ⟨endLines ((source.splitOn '\n').take line) ++ onLine.take column,
          onLine.drop column ++ rest, ?_, ?_, ?_⟩
        · rw [List.append_assoc, ← List.append_assoc (onLine.take column), List.take_append_drop,
            ← List.append_assoc, ← hsource]
        · rw [byteLength_append]
          exact Option.some.inj h
        · have hline : line ≤ (source.splitOn '\n').length := by
            obtain ⟨hlt, -⟩ := List.getElem?_eq_some_iff.1 hget
            exact Nat.le_of_lt hlt
          rw [after_endLines_append, List.length_take_of_le hline, List.length_take_of_le hcolumn]
          · intro l hl
            exact not_mem_of_mem_splitOn (List.mem_of_mem_take hl)
          · intro hmem
            exact not_mem_of_mem_splitOn (List.mem_of_getElem? hget) (List.mem_of_mem_take hmem)
      · cases h
    · cases h
  · cases h

/-! ## Places and offsets -/

/-- **Places identify offsets.** At the offsets between characters the place that is counted in the
bytes is the one counted in the characters. A later offset has a later place. The place of an offset
leads back to it, and no other place does. -/
theorem ofBytes_identifies (source : List Char) :
    (∀ offset, IsBoundary source offset →
      ofBytes (utf8 source) offset = atOffset source offset) ∧
    (∀ a b, IsBoundary source a → IsBoundary source b → a < b →
      Before (ofBytes (utf8 source) a) (ofBytes (utf8 source) b)) ∧
    (∀ offset, IsBoundary source offset →
      offset? source (ofBytes (utf8 source) offset) = some offset) ∧
    ∀ place offset, offset? source place = some offset →
      IsBoundary source offset ∧ place = ofBytes (utf8 source) offset := by
  refine ⟨?_, ?_, ?_, ?_⟩
  · rintro _ ⟨before, behind, rfl, rfl⟩
    rw [ofBytes_byteLength, atOffset_byteLength]
  · rintro _ _ ⟨before, behind, rfl, rfl⟩ ⟨farther, rest, hsource, rfl⟩ hlt
    rcases List.append_eq_append_iff.1 hsource with ⟨between, rfl, rfl⟩ | ⟨between, rfl, rfl⟩
    · have hbetween : between ≠ [] := by
        rintro rfl
        rw [List.append_nil] at hlt
        exact Nat.lt_irrefl _ hlt
      rw [ofBytes_byteLength, ← List.append_assoc, ofBytes_byteLength]
      exact before_after_append before hbetween
    · rw [byteLength_append] at hlt
      omega
  · rintro _ ⟨before, behind, rfl, rfl⟩
    rw [ofBytes_byteLength, offset?_after]
  · intro place offset h
    obtain ⟨before, behind, rfl, rfl, rfl⟩ := eq_after_of_offset?_eq_some h
    exact ⟨isBoundary_byteLength before behind, (ofBytes_byteLength before behind).symm⟩

end Location

end MathMarkup.Text
