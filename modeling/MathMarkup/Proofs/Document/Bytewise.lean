import MathMarkup.Proofs.Document.ByteSearch
import MathMarkup.Proofs.Document.Splitting

/-!
# The replacement byte by byte

* `replaceRound_spec` — what one round of the replacement does behind a part of the document that ends
  between two characters.

Principal results: `Replacer.replaceBytewise_eq` — the loops of the replacement come to their end and
give what is read off the characters; `replaceBytewise_total`.
-/

namespace MathMarkup.Document

open MathMarkup.Markup MathMarkup.Text

variable {σ : Type} {searcher : Searcher} {rules : Rules} {callback : Callback σ}
  {progress : Progress σ} {display : Display} {found : Found} {passage : Passage}
  {before text rest : List Char}

/-! ## One formula -/

/-- The formula behind an opening delimiter, with its places in the document. -/
theorem findPassage_append (searcher : Searcher) (rules : Rules) (display : Display)
    (front tail : List Char) :
    findPassage searcher rules (front ++ rules.mark .opening display ++ tail) display
        (byteLength front) =
      some ((readPassage rules display (byteLength front) tail).map fun (passage, _) =>
        (passage.content, byteLength front + byteLength passage.source)) := by
  have hcontentAt : byteLength front + byteLength (rules.mark .opening display) =
      byteLength (front ++ rules.mark .opening display) := (byteLength_append _ _).symm
  unfold findPassage readPassage
  dsimp only
  rw [hcontentAt, findMark_append]
  cases hclosed : rules.findFirst .closing tail with
  | none => rfl
  | some closed =>
    have htail := findFirst_eq_some hclosed
    have hslice := slice?_append (front ++ rules.mark .opening display) closed.before
      (rules.mark .closing closed.display ++ closed.after)
    have hnested := findMark_append searcher rules .opening [] closed.before
    rw [List.append_assoc _ closed.before, ← List.append_assoc closed.before, ← htail] at hslice
    simp only [Option.map_some, Option.bind_eq_bind, Option.bind_some, hslice]
    split
    · rfl
    · rw [show findMark searcher rules .opening closed.before 0 = _ from hnested]
      cases hinner : rules.findFirst .opening closed.before with
      | some inner =>
        simp [byteLength, Except.map]
      | none =>
        simp [Except.map, Passage.source, byteLength_append, Nat.add_assoc]

/-- A formula is replaced as it stands in the document. -/
theorem convertBetween_append (callback : Callback σ) (progress : Progress σ) (front rest : List Char)
    (hopening : passage.opening = rules.mark .opening passage.display) :
    convertBetween rules callback (front ++ passage.source ++ rest) progress passage.display
        passage.content (byteLength front) (byteLength front + byteLength passage.source) =
      some (match progress.convert rules callback passage
          (byteLength front + byteLength passage.opening) with
        | (later, none) => .next ⟨byteLength front + byteLength passage.source, later⟩
        | (later, some failure) => .done (later, some failure)) := by
  unfold convertBetween Progress.convert
  dsimp only
  rw [← hopening]
  cases (callback progress.memory progress.output
    (String.ofList (decodeReferences passage.content)) passage.display).fault with
  | none => rfl
  | some fault =>
    cases rules.keepFailed with
    | false => rfl
    | true =>
      simp only [if_true, slice?_append]
      rfl

/-! ## One round -/

theorem replaceRound_of_none (hfound : rules.findFirst .opening text = none) :
    replaceRound searcher rules callback (before ++ text) ⟨byteLength before, progress⟩ =
      some (.done (progress.copy text, none)) := by
  have hslice := slice?_append before text []
  rw [List.append_nil, ← byteLength_append] at hslice
  unfold replaceRound
  rw [findMark_append, hfound]
  simp only [Option.map_none, Option.bind_eq_bind, Option.bind_some, hslice]

theorem replaceRound_of_some (hfound : rules.findFirst .opening text = some found) :
    replaceRound searcher rules callback (before ++ text) ⟨byteLength before, progress⟩ =
      (match readPassage rules found.display (byteLength before + byteLength found.before)
          found.after with
        | .error failure => some (.done (progress.copy found.before, some failure))
        | .ok (passage, _) =>
          convertBetween rules callback (before ++ text) (progress.copy found.before) found.display
            passage.content (byteLength before + byteLength found.before)
            (byteLength before + byteLength found.before + byteLength passage.source)) := by
  have htext : before ++ text =
      before ++ found.before ++ rules.mark .opening found.display ++ found.after := by
    rw [findFirst_eq_some hfound]
    simp only [List.append_assoc]
  have hslice := slice?_append before found.before
    (rules.mark .opening found.display ++ found.after)
  rw [← List.append_assoc, ← htext] at hslice
  have hpassage := findPassage_append searcher rules found.display (before ++ found.before)
    found.after
  rw [← htext, byteLength_append] at hpassage
  unfold replaceRound
  rw [findMark_append, hfound]
  simp only [Option.map_some, Option.bind_eq_bind, Option.bind_some, hslice, hpassage]
  cases readPassage rules found.display (byteLength before + byteLength found.before)
    found.after <;> rfl

/-- **One round of the replacement.** It is done with what is read off the characters, or it leaves a
rest of the document that starts further to the right, between two characters, and nothing else is
left to do. -/
theorem replaceRound_step (searcher : Searcher) (rules : Rules) (callback : Callback σ)
    (progress : Progress σ) (before text : List Char) :
    replaceRound searcher rules callback (before ++ text) ⟨byteLength before, progress⟩ =
        some (.done (replaceFrom rules callback progress (byteLength before) text)) ∨
      ∃ passed rest later, text = passed ++ rest ∧ passed ≠ [] ∧
        replaceRound searcher rules callback (before ++ text) ⟨byteLength before, progress⟩ =
          some (.next ⟨byteLength (before ++ passed), later⟩) ∧
        replaceFrom rules callback later (byteLength (before ++ passed)) rest =
          replaceFrom rules callback progress (byteLength before) text := by
  rw [replaceFrom]
  split
  · next hfound => exact .inl (replaceRound_of_none hfound)
  next found hfound =>
  rw [replaceRound_of_some hfound]
  dsimp only
  split
  · next failure hread =>
    rw [hread]
    exact .inl rfl
  next passage rest hread =>
  have hfirst : FirstPassage rules text found.before passage rest :=
    (firstPassage_iff _).2 ⟨found, hfound, rfl, hread⟩
  have htext := hfirst.split
  have hdisplay : passage.display = found.display := (readPassage_eq_ok_iff.1 hread).1
  have hne : passage.opening ≠ [] := (readPassage_eq_ok hread).2.1
  have hconvert := convertBetween_append callback (progress.copy found.before)
    (before ++ found.before) rest hfirst.opening
  rw [byteLength_append, List.append_assoc (before ++ found.before), List.append_assoc before,
    ← List.append_assoc found.before, ← htext] at hconvert
  rw [hread]
  dsimp only
  rw [← hdisplay, hconvert]
  cases (progress.copy found.before).convert rules callback passage
    (byteLength before + byteLength found.before + byteLength passage.opening) with
  | mk later failure =>
    cases failure with
    | some failure => exact .inl rfl
    | none =>
      have hstop : byteLength (before ++ (found.before ++ passage.source)) =
          byteLength before + byteLength found.before + byteLength passage.source := by
        simp only [byteLength_append]
        omega
      refine .inr ⟨found.before ++ passage.source, rest, later, htext, ?_, ?_, ?_⟩
      · intro hnil
        rw [List.append_eq_nil_iff, Passage.source, List.append_eq_nil_iff,
          List.append_eq_nil_iff] at hnil
        exact hne hnil.2.1.1
      · rw [hstop]
      · rw [hstop]

/-! ## All rounds -/

/-- Where the replacement of a document can be: between two characters, with `whole` still to be read
off the rest of the document. -/
def Continues (rules : Rules) (callback : Callback σ) (document : List Char)
    (whole : Progress σ × Option Failure) (reading : Reading σ) : Prop :=
  ∃ before text, document = before ++ text ∧ reading.restStart = byteLength before ∧
    replaceFrom rules callback reading.progress reading.restStart text = whole

variable {document : List Char} {whole : Progress σ × Option Failure} {reading later : Reading σ}

theorem Continues.isBoundary (h : Continues rules callback document whole reading) :
    IsBoundary document reading.restStart := by
  obtain ⟨before, text, rfl, hstart, -⟩ := h
  rw [hstart]
  exact isBoundary_byteLength before text

/-- A round is done with the result, or the rest starts further to the right. -/
theorem Continues.round (searcher : Searcher)
    (h : Continues rules callback document whole reading) :
    replaceRound searcher rules callback document reading = some (.done whole) ∨
      ∃ later, replaceRound searcher rules callback document reading = some (.next later) ∧
        reading.restStart < later.restStart ∧ Continues rules callback document whole later := by
  obtain ⟨before, text, rfl, hstart, hwhole⟩ := h
  obtain ⟨restStart, progress⟩ := reading
  dsimp only at hstart hwhole
  subst hstart
  rcases replaceRound_step searcher rules callback progress before text with hdone |
    ⟨passed, rest, later, rfl, hne, hnext, hrest⟩
  · rw [hwhole] at hdone
    exact .inl hdone
  · refine .inr ⟨_, hnext, ?_, before ++ passed, rest, (List.append_assoc _ _ _).symm, rfl,
      hrest.trans hwhole⟩
    have hpos : 0 < byteLength passed := by
      obtain ⟨c, more, rfl⟩ := List.exists_cons_of_ne_nil hne
      exact Nat.lt_of_lt_of_le c.utf8Size_pos (Nat.le_add_right _ _)
    show byteLength before < byteLength (before ++ passed)
    rw [byteLength_append]
    omega

/-- What holds where the replacement continues holds in every round that it comes to. -/
theorem Continues.of_reaches {first : Reading σ}
    (h : Continues rules callback document whole first)
    (hreaches : Reaches (replaceRound searcher rules callback document) first reading) :
    Continues rules callback document whole reading := by
  refine hreaches.invariant (fun reading later hreading hround => ?_) h
  rcases hreading.round searcher with hdone | ⟨other, hnext, -, hother⟩
  · rw [hdone] at hround
    cases hround
  · rw [hnext] at hround
    cases hround
    exact hother

/-- **The rounds of the replacement come to an end**, with what is read off the characters. -/
theorem Continues.endsWith (searcher : Searcher)
    (h : Continues rules callback document whole reading) :
    EndsWith (replaceRound searcher rules callback document) reading whole := by
  have hrounds : ∀ reading, Continues rules callback document whole reading →
      (∃ result, replaceRound searcher rules callback document reading = some (.done result) ∧
        result = whole) ∨
      ∃ later, replaceRound searcher rules callback document reading = some (.next later) ∧
        Continues rules callback document whole later ∧
        byteLength document - later.restStart < byteLength document - reading.restStart := by
    intro reading hreading
    rcases hreading.round searcher with hdone | ⟨later, hnext, hlt, hlater⟩
    · exact .inl ⟨whole, hdone, rfl⟩
    · have hle := hlater.isBoundary.le
      exact .inr ⟨later, hnext, hlater, by omega⟩
  obtain ⟨result, hend, rfl⟩ := endsWith_of_step _ hrounds h
  exact hend

theorem continues_start (rules : Rules) (callback : Callback σ) (progress : Progress σ)
    (document : List Char) :
    Continues rules callback document (replaceFrom rules callback progress 0 document)
      ⟨0, progress⟩ :=
  ⟨[], document, rfl, rfl, rfl⟩

/-! ## Failures -/

/-- The offsets that a failure tells lie between characters of the document. -/
structure Failure.Within (document : List Char) (failure : Failure) : Prop where
  offset : IsBoundary document failure.offset
  closing : ∀ closing, failure.cause = .mismatched closing → IsBoundary document closing

theorem within_of_readPassage {front tail : List Char} {failure : Failure}
    (h : readPassage rules display (byteLength front) tail = .error failure) :
    failure.Within (front ++ rules.mark .opening display ++ tail) := by
  have hopening : IsBoundary (front ++ rules.mark .opening display ++ tail) (byteLength front) := by
    rw [List.append_assoc]
    exact isBoundary_byteLength _ _
  have hcontent : ∀ {part after : List Char}, tail = part ++ after →
      IsBoundary (front ++ rules.mark .opening display ++ tail)
        (byteLength front + byteLength (rules.mark .opening display) + byteLength part) := by
    rintro part after rfl
    rw [← byteLength_append, ← byteLength_append, ← List.append_assoc]
    exact isBoundary_byteLength _ _
  unfold readPassage at h
  dsimp only at h
  split at h
  · cases h
    exact ⟨hopening, fun closing h => by cases h⟩
  next closed hclosed =>
  have htail := findFirst_eq_some hclosed
  rw [List.append_assoc] at htail
  split at h
  · cases h
    refine ⟨hopening, fun closing h => ?_⟩
    cases h
    exact hcontent htail
  split at h
  · next inner hinner =>
    cases h
    have hcut : tail = inner.before ++ (rules.mark .opening inner.display ++ inner.after ++
        (rules.mark .closing closed.display ++ closed.after)) := by
      rw [htail, findFirst_eq_some hinner, List.append_assoc, List.append_assoc, List.append_assoc]
    exact ⟨hcontent hcut, fun closing h => by cases h⟩
  · cases h

/-- A formula fails where it starts. -/
theorem eq_of_convert_eq_some {contentAt : Nat} {later : Progress σ} {failure : Failure}
    (h : progress.convert rules callback passage contentAt = (later, some failure)) :
    ∃ fault source, failure = ⟨contentAt, .formula fault source⟩ := by
  unfold Progress.convert at h
  dsimp only at h
  split at h
  · cases h
  split at h
  · cases h
  · cases h
    exact ⟨_, _, rfl⟩

/-- A failure of the replacement tells offsets of the document. The induction is on the rounds; the
document in front of the text that is left only grows. -/
theorem within_of_replaceFrom {offset : Nat} {failure : Failure}
    (h : (replaceFrom rules callback progress offset text).2 = some failure) :
    ∀ before, offset = byteLength before → failure.Within (before ++ text) := by
  fun_induction replaceFrom rules callback progress offset text with
  | case1 progress offset text hnone => cases h
  | case2 progress offset text found hfound openingAt failed hread =>
    intro before hoffset
    obtain rfl : failed = failure := by simpa using h
    have hopeningAt : openingAt = byteLength (before ++ found.before) := by
      rw [byteLength_append, ← hoffset]
    rw [hopeningAt] at hread
    have hwithin := within_of_readPassage hread
    rw [findFirst_eq_some hfound]
    rwa [← List.append_assoc, ← List.append_assoc]
  | case3 progress offset text found hfound openingAt passage rest hread later failed hconvert =>
    intro before hoffset
    obtain rfl : failed = failure := by simpa using h
    obtain ⟨fault, source, rfl⟩ := eq_of_convert_eq_some hconvert
    have hfirst : FirstPassage rules text found.before passage rest :=
      (firstPassage_iff _).2 ⟨found, hfound, rfl, hread⟩
    refine ⟨?_, fun closing h => by cases h⟩
    refine ⟨before ++ found.before ++ passage.opening, passage.content ++ passage.closing ++ rest,
      ?_, ?_⟩
    · rw [hfirst.split, Passage.source]
      simp only [List.append_assoc]
    · rw [byteLength_append, byteLength_append, ← hoffset]
  | case4 progress offset text found hfound openingAt passage rest hread later hconvert ih =>
    intro before hoffset
    have hfirst : FirstPassage rules text found.before passage rest :=
      (firstPassage_iff _).2 ⟨found, hfound, rfl, hread⟩
    have hrest : openingAt + byteLength passage.source =
        byteLength (before ++ found.before ++ passage.source) := by
      rw [byteLength_append, byteLength_append, ← hoffset]
    have hwithin := ih h _ hrest
    rw [hfirst.split]
    simpa only [List.append_assoc] using hwithin

/-- An opening delimiter without a character is found again in its own formula. -/
theorem exists_readPassage_eq_error {other : Display} (hnil : rules.mark .opening other = [])
    (display : Display) (openingAt : Nat) (tail : List Char) :
    ∃ failure, readPassage rules display openingAt tail = .error failure := by
  cases hread : readPassage rules display openingAt tail with
  | error failure => exact ⟨failure, rfl⟩
  | ok pair =>
    obtain ⟨-, -, -, -, hunmarked⟩ := readPassage_eq_ok_iff.1 (show readPassage rules display
      openingAt tail = .ok (pair.1, pair.2) from hread)
    exact absurd hnil (mark_ne_nil_of_findFirst_eq_none (findFirst_eq_none_iff.2 hunmarked) other)

/-- **An opening delimiter without a character ends every replacement with a failure.** -/
theorem exists_failure_of_mark_eq_nil {other : Display} (hnil : rules.mark .opening other = [])
    (callback : Callback σ) (progress : Progress σ) (offset : Nat) (text : List Char) :
    ∃ failure, (replaceFrom rules callback progress offset text).2 = some failure := by
  rw [replaceFrom]
  split
  · next hfound => exact absurd hnil (mark_ne_nil_of_findFirst_eq_none hfound other)
  next found hfound =>
  obtain ⟨failure, hread⟩ := exists_readPassage_eq_error hnil found.display
    (offset + byteLength found.before) found.after
  refine ⟨failure, ?_⟩
  dsimp only
  split
  · next failed hfailed =>
    rw [hread] at hfailed
    cases hfailed
    rfl
  · next hpassage =>
    rw [hread] at hpassage
    cases hpassage

theorem replace_eq_error_iff {replacer : Replacer} {memory : σ} {failure : Failure} :
    (replacer.replace callback memory document).1 = .error failure ↔
      (replaceFrom replacer.rules callback ⟨memory, replacer.decoded, []⟩ 0 document).2 =
        some failure := by
  unfold Replacer.replace
  dsimp only
  cases (replaceFrom replacer.rules callback ⟨memory, replacer.decoded, []⟩ 0 document).2 with
  | none => simp
  | some failed => simp

/-- **The replacement byte by byte is the replacement.** -/
theorem replaceBytewise_eq (replacer : Replacer) (searcher : Searcher) (callback : Callback σ)
    (memory : σ) (document : List Char) :
    replacer.replaceBytewise searcher callback memory document =
      some (replacer.replace callback memory document) := by
  have : Nonempty (Progress σ) := ⟨⟨memory, replacer.decoded, []⟩⟩
  unfold Replacer.replaceBytewise Replacer.replace
  rw [((continues_start replacer.rules callback _ document).endsWith searcher).repeatRounds_eq]
  rfl

/-- **The replacement of formulas is total.** For any delimiters and flags, any callback and any
document, the loops come to an end, no round reads outside of the document or cuts a character in two,
and the result is the one read off the characters. Every round of the replacement is done or leaves a
rest that starts further to the right, between two characters; every round of a search is done or goes
on further to the right, also where the mark is empty. An empty opening delimiter ends in a failure,
and a failure tells offsets between characters of the document. -/
theorem replaceBytewise_total (searcher : Searcher) (replacer : Replacer) (callback : Callback σ)
    (memory : σ) (document : List Char) :
    replacer.replaceBytewise searcher callback memory document =
        some (replacer.replace callback memory document) ∧
    (∃ result, EndsWith (replaceRound searcher replacer.rules callback document)
        ⟨0, ⟨memory, replacer.decoded, []⟩⟩ result) ∧
    (∀ reading, Reaches (replaceRound searcher replacer.rules callback document)
        ⟨0, ⟨memory, replacer.decoded, []⟩⟩ reading →
      IsBoundary document reading.restStart ∧
        ∃ outcome, replaceRound searcher replacer.rules callback document reading = some outcome ∧
          ∀ later, outcome = .next later → reading.restStart < later.restStart) ∧
    (∀ needle haystack,
      (∃ place, EndsWith (searchRound searcher replacer.rules.skipEscaped needle haystack) 0 place ∧
          findUnescaped searcher replacer.rules.skipEscaped needle haystack = some place) ∧
        ∀ offset, Reaches (searchRound searcher replacer.rules.skipEscaped needle haystack) 0 offset →
          ∃ outcome, searchRound searcher replacer.rules.skipEscaped needle haystack offset =
              some outcome ∧
            ∀ later, outcome = .next later → offset < later) ∧
    (∀ display, replacer.rules.mark .opening display = [] →
      ∃ failure, (replacer.replace callback memory document).1 = .error failure) ∧
    ∀ failure, (replacer.replace callback memory document).1 = .error failure →
      failure.Within document := by
  have hstart := continues_start replacer.rules callback ⟨memory, replacer.decoded, []⟩ document
  refine ⟨replaceBytewise_eq replacer searcher callback memory document,
    ⟨_, hstart.endsWith searcher⟩, ?_, ?_, ?_, ?_⟩
  · intro reading hreaches
    have hcontinues := hstart.of_reaches hreaches
    refine ⟨hcontinues.isBoundary, ?_⟩
    rcases hcontinues.round searcher with hdone | ⟨later, hnext, hlt, -⟩
    · exact ⟨_, hdone, fun later h => by cases h⟩
    · refine ⟨_, hnext, fun other h => ?_⟩
      cases h
      exact hlt
  · intro needle haystack
    obtain ⟨place, hend⟩ :=
      exists_endsWith_searchRound searcher replacer.rules.skipEscaped needle haystack
    exact ⟨⟨place, hend, hend.repeatRounds_eq⟩, fun offset h => searchRound_advances h⟩
  · intro display hnil
    obtain ⟨failure, hfailure⟩ := exists_failure_of_mark_eq_nil hnil callback
      ⟨memory, replacer.decoded, []⟩ 0 document
    exact ⟨failure, replace_eq_error_iff.2 hfailure⟩
  · intro failure hfailure
    exact within_of_replaceFrom (replace_eq_error_iff.1 hfailure) [] rfl

/-- Delimiters of several bytes, and a mark that is left empty. -/
theorem replaceBytewise_multibyte :
    ((Replacer.new ⟨⟨"ü(".toList, "ü)".toList⟩, ⟨"ü[".toList, "ü]".toList⟩, false,
        false⟩).replaceBytewise .placeByPlace
        (.ofConverter fun _ formula => .ok ("<i>" ++ formula ++ "</i>")) ()
        "größe ü(a^2ü).".toList).map (·.1) = some (.ok "größe <i>a^2</i>.".toList) ∧
      ∃ failure, ((Replacer.new ⟨⟨[], "ü".toList⟩, ⟨"ü[".toList, []⟩, true, true⟩).replace
        (.ofConverter fun _ formula => .ok formula) () "größe".toList).1 = .error failure := by
  constructor
  · rw [(replaceBytewise_total .placeByPlace _ _ () _).1]
    decide +kernel
  · exact (replaceBytewise_total .placeByPlace _ _ () _).2.2.2.2.1 .inline rfl

end MathMarkup.Document
