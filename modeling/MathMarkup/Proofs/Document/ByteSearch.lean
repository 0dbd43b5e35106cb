import MathMarkup.Document.Bytewise
import MathMarkup.Proofs.Document.Occurrences
import MathMarkup.Proofs.Text.Utf8

/-!
# Searching marks among bytes

* `offsetOf` — the offset of a character.
* `bytesOccur_utf8_iff` — the bytes of a mark stand exactly where the mark stands: no other place is
  met in between.
* `searchRound_advances` — a search for a mark, even an empty one, goes on further to the right or is
  done.

Principal results: `findUnescaped_utf8` and `findMark_append` — a search among the bytes finds what
the search among the characters finds.
-/

namespace MathMarkup.Document

open MathMarkup.Markup MathMarkup.Text

variable {searcher : Searcher} {skipEscaped : Bool} {mark text before : List Char}
  {needle haystack : List UInt8} {start offset n m : Nat}

/-! ## Offsets of characters -/

/-- The offset behind the first `n` characters. -/
def offsetOf (text : List Char) (n : Nat) : Nat := byteLength (text.take n)

theorem offsetOf_add (text : List Char) (n m : Nat) :
    offsetOf text (n + m) = offsetOf text n + offsetOf (text.drop n) m := by
  unfold offsetOf
  rw [List.take_add, byteLength_append]

theorem offsetOf_lt (hm : m ≤ text.length) (h : n < m) : offsetOf text n < offsetOf text m := by
  obtain ⟨k, rfl⟩ := Nat.exists_eq_add_of_lt h
  rw [Nat.add_assoc, offsetOf_add]
  cases hdrop : text.drop n with
  | nil =>
    rw [List.drop_eq_nil_iff] at hdrop
    omega
  | cons c rest =>
    have := c.utf8Size_pos
    rw [offsetOf, offsetOf, List.take_succ_cons, byteLength]
    omega

theorem offsetOf_lt_iff (hn : n ≤ text.length) (hm : m ≤ text.length) :
    offsetOf text n < offsetOf text m ↔ n < m := by
  constructor
  · intro h
    rcases Nat.lt_trichotomy n m with hlt | heq | hgt
    · exact hlt
    · rw [heq] at h
      exact absurd h (Nat.lt_irrefl _)
    · exact absurd h (Nat.lt_asymm (offsetOf_lt hn hgt))
  · exact offsetOf_lt hm

theorem offsetOf_le (text : List Char) (n : Nat) : offsetOf text n ≤ byteLength text := by
  have hsplit := byteLength_append (text.take n) (text.drop n)
  rw [List.take_append_drop] at hsplit
  unfold offsetOf
  omega

theorem drop_utf8_offsetOf (text : List Char) (n : Nat) :
    (utf8 text).drop (offsetOf text n) = utf8 (text.drop n) := by
  have hdrop := drop_utf8_append (text.take n) (text.drop n)
  rwa [List.take_append_drop] at hdrop

theorem take_utf8_offsetOf (text : List Char) (n : Nat) :
    (utf8 text).take (offsetOf text n) = utf8 (text.take n) := by
  have htake := take_utf8_append (text.take n) (text.drop n)
  rwa [List.take_append_drop] at htake

/-! ## Places of a mark -/

/-- **The bytes of a mark stand exactly where the mark stands.** -/
theorem bytesOccur_utf8_iff (hmark : mark ≠ []) :
    BytesOccur (utf8 mark) (utf8 text) offset ↔ ∃ n, Occurs mark text n ∧ offsetOf text n = offset := by
  constructor
  · rintro ⟨-, hprefix⟩
    obtain ⟨before, after, rfl, rfl⟩ := (utf8_prefix_drop_iff hmark).1 hprefix
    refine ⟨before.length, ⟨by simp, ?_⟩, ?_⟩
    · rw [List.append_assoc, List.drop_left]
      exact List.prefix_append mark after
    · rw [offsetOf, List.append_assoc, List.take_left]
  · rintro ⟨n, ⟨-, hprefix⟩, rfl⟩
    refine ⟨?_, ?_⟩
    · rw [length_utf8]
      exact offsetOf_le text n
    · rw [drop_utf8_offsetOf, utf8_prefix_iff]
      exact hprefix

theorem IsFirst.eq {p : Nat → Prop} {a b : Option Nat} (ha : IsFirst p a) (hb : IsFirst p b) :
    a = b := by
  cases a with
  | none =>
    cases b with
    | none => rfl
    | some m => exact absurd hb.1 (ha m)
  | some n =>
    cases b with
    | none => exact absurd ha.1 (hb n)
    | some m => rw [Nat.le_antisymm (ha.2 m hb.1) (hb.2 n ha.1)]

/-- A search for the bytes of a mark finds the first place where the mark stands. -/
theorem Searcher.find_utf8 (searcher : Searcher) (hmark : mark ≠ []) (text : List Char) :
    ∃ place, searcher.find (utf8 mark) (utf8 text) = place.map (offsetOf text) ∧
      IsFirst (Occurs mark text) place := by
  cases hfind : searcher.find (utf8 mark) (utf8 text) with
  | none =>
    refine ⟨none, rfl, fun n hn => ?_⟩
    exact searcher.absent hfind _ ((bytesOccur_utf8_iff hmark).2 ⟨n, hn, rfl⟩)
  | some offset =>
    obtain ⟨n, hn, rfl⟩ := (bytesOccur_utf8_iff hmark).1 (searcher.occurs hfind)
    refine ⟨some n, rfl, hn, fun m hm => ?_⟩
    have hle := searcher.leftmost hfind _ ((bytesOccur_utf8_iff hmark).2 ⟨m, hm, rfl⟩)
    rw [← Nat.not_lt] at hle ⊢
    exact fun hlt => hle ((offsetOf_lt_iff hm.1 hn.1).2 hlt)

theorem utf8EncodeChar_backslash : String.utf8EncodeChar '\\' = [backslashByte] := by decide

/-- The byte before a character is a backslash exactly where the character before it is one. -/
theorem escapedAt?_utf8 (skipEscaped : Bool) (hn : n ≤ text.length) : ∃ escaped,
    escapedAt? skipEscaped (utf8 text) (offsetOf text n) = some escaped ∧
      (escaped = true ↔ skipEscaped = true ∧ AfterBackslash text n) := by
  have hascii : backslashByte < 0x80 := by decide
  rcases Nat.eq_zero_or_pos n with rfl | hpos
  · exact ⟨false, by simp [escapedAt?, offsetOf, byteLength], by simp [AfterBackslash]⟩
  cases skipEscaped with
  | false => exact ⟨false, by simp [escapedAt?], by simp⟩
  | true =>
    have hoffset : 0 < offsetOf text n := offsetOf_lt hn hpos
    have hlength : (utf8 (text.take n)).length = offsetOf text n := length_utf8 _
    -- the last byte before the place is the last one of the text up to there
    have hlast : (utf8 text)[offsetOf text n - 1]? = (utf8 (text.take n)).getLast? := by
      rw [List.getLast?_eq_getElem?, hlength, ← take_utf8_offsetOf,
        List.getElem?_take_of_lt (by omega)]
    have hbefore : (text.take n).getLast? = text[n - 1]? := by
      rw [List.getLast?_eq_getElem?, List.length_take_of_le hn, List.getElem?_take_of_lt (by omega)]
    obtain ⟨b, hb⟩ : ∃ b, (utf8 (text.take n)).getLast? = some b := by
      refine Option.isSome_iff_exists.1 (List.getLast?_isSome.2 fun hnil => ?_)
      rw [hnil, List.length_nil] at hlength
      omega
    refine ⟨decide (b = backslashByte), ?_, ?_⟩
    · rw [escapedAt?, if_pos (by simpa using hoffset), hlast, hb]
      rfl
    · have hiff : (utf8 (text.take n)).getLast? = some backslashByte ↔
          (text.take n).getLast? = some '\\' :=
        getLast?_utf8_eq_some_iff utf8EncodeChar_backslash hascii
      rw [hb, hbefore, Option.some.injEq] at hiff
      rw [decide_eq_true_iff, hiff]
      exact ⟨fun h => ⟨rfl, hpos, h⟩, fun h => h.2.2⟩

/-! ## Rounds of a search -/

theorem exists_escapedAt? (skipEscaped : Bool) (h : offset ≤ haystack.length) : ∃ escaped,
    escapedAt? skipEscaped haystack offset = some escaped ∧ (escaped = true → 0 < offset) := by
  unfold escapedAt?
  split
  · next hskip =>
    have hpos : 0 < offset := by simpa using (Bool.and_eq_true_iff.1 hskip).2
    rw [List.getElem?_eq_getElem (show offset - 1 < haystack.length by omega)]
    exact ⟨_, rfl, fun _ => hpos⟩
  · exact ⟨false, rfl, fun h => by cases h⟩

theorem searchRound_of_find_none (hoffset : offset ≤ haystack.length)
    (hfind : searcher.find needle (haystack.drop offset) = none) :
    searchRound searcher skipEscaped needle haystack offset = some (.done none) := by
  simp [searchRound, behind?, hoffset, hfind]

theorem searchRound_of_find_some {further : Nat} {escaped : Bool}
    (hoffset : offset ≤ haystack.length)
    (hfind : searcher.find needle (haystack.drop offset) = some further)
    (hescaped : escapedAt? skipEscaped haystack (offset + further) = some escaped) :
    searchRound searcher skipEscaped needle haystack offset =
      some (if escaped then .next (offset + further + needle.length)
        else .done (some (offset + further))) := by
  simp [searchRound, behind?, hoffset, hfind, hescaped]

/-- Where a search can be: nothing is left to skip once it is at the end, and a search for nothing is
done where it starts. -/
def Searches (needle haystack : List UInt8) (offset : Nat) : Prop :=
  offset ≤ haystack.length ∧ (needle = [] → offset = 0)

/-- **A round of a search does not read outside of the bytes**, and a search that is not done goes on
further to the right. -/
theorem searchRound_step (searcher : Searcher) (skipEscaped : Bool)
    (h : Searches needle haystack offset) :
    ∃ outcome, searchRound searcher skipEscaped needle haystack offset = some outcome ∧
      ∀ later, outcome = .next later → offset < later ∧ Searches needle haystack later := by
  obtain ⟨hoffset, hempty⟩ := h
  cases hfind : searcher.find needle (haystack.drop offset) with
  | none =>
    exact ⟨_, searchRound_of_find_none hoffset hfind, fun later h => by cases h⟩
  | some further =>
    obtain ⟨hle, hprefix⟩ := searcher.occurs hfind
    have hlength := hprefix.length_le
    rw [List.length_drop] at hle
    rw [List.length_drop, List.length_drop] at hlength
    obtain ⟨escaped, hescaped, hpos⟩ := exists_escapedAt? skipEscaped
      (show offset + further ≤ haystack.length by omega)
    refine ⟨_, searchRound_of_find_some hoffset hfind hescaped, fun later hnext => ?_⟩
    cases escaped with
    | false => cases hnext
    | true =>
      cases hnext
      -- a search for nothing finds it where it starts, and no byte comes before
      have hne : needle ≠ [] := by
        rintro rfl
        have := searcher.leftmost hfind 0 ⟨Nat.zero_le _, List.nil_prefix⟩
        have := hpos rfl
        have := hempty rfl
        omega
      have := List.length_pos_iff.2 hne
      exact ⟨by omega, by omega, fun hnil => absurd hnil hne⟩

/-- Every round that a search comes to goes on to the right or is done. -/
theorem searchRound_advances
    (h : Reaches (searchRound searcher skipEscaped needle haystack) 0 offset) :
    ∃ outcome, searchRound searcher skipEscaped needle haystack offset = some outcome ∧
      ∀ later, outcome = .next later → offset < later := by
  have hsearches : Searches needle haystack offset := by
    refine h.invariant (fun offset later hoffset hround => ?_) ⟨Nat.zero_le _, fun _ => rfl⟩
    obtain ⟨outcome, houtcome, hlater⟩ := searchRound_step searcher skipEscaped hoffset
    rw [houtcome, Option.some.injEq] at hround
    exact (hlater later hround).2
  obtain ⟨outcome, hround, hlater⟩ := searchRound_step searcher skipEscaped hsearches
  exact ⟨outcome, hround, fun later hnext => (hlater later hnext).1⟩

/-- **A search among any bytes comes to its end.** -/
theorem exists_endsWith_searchRound (searcher : Searcher) (skipEscaped : Bool)
    (needle haystack : List UInt8) :
    ∃ place, EndsWith (searchRound searcher skipEscaped needle haystack) 0 place := by
  have hrounds : ∀ offset, Searches needle haystack offset →
      (∃ result, searchRound searcher skipEscaped needle haystack offset = some (.done result) ∧
        True) ∨
      ∃ later, searchRound searcher skipEscaped needle haystack offset = some (.next later) ∧
        Searches needle haystack later ∧
        haystack.length - later < haystack.length - offset := by
    intro offset hoffset
    obtain ⟨outcome, hround, hlater⟩ := searchRound_step searcher skipEscaped hoffset
    cases outcome with
    | done result => exact .inl ⟨result, hround, trivial⟩
    | next later =>
      obtain ⟨hlt, hsearches⟩ := hlater later rfl
      have := hsearches.1
      exact .inr ⟨later, hround, hsearches, by omega⟩
  obtain ⟨place, hend, -⟩ := endsWith_of_step _ hrounds ⟨Nat.zero_le _, fun _ => rfl⟩
  exact ⟨place, hend⟩

/-! ## The search for a mark -/

/-- A scan passes over the characters where the mark does not stand. -/
theorem acceptedFrom_of_absent (hle : start ≤ m)
    (habsent : ∀ a, start ≤ a → a < m → ¬Occurs mark text a) :
    AcceptedFrom skipEscaped mark text start n ↔ AcceptedFrom skipEscaped mark text m n := by
  obtain ⟨distance, rfl⟩ := Nat.exists_eq_add_of_le hle
  induction distance generalizing start with
  | zero => rfl
  | succ distance ih =>
    rw [acceptedFrom_of_not_occurs (habsent start (Nat.le_refl _) (by omega)),
      ih (by omega) (fun a ha hlt => habsent a (by omega) (by omega))]
    rw [show start + 1 + distance = start + (distance + 1) by omega]

theorem occurs_drop_iff (hstart : start ≤ text.length) :
    Occurs mark (text.drop start) n ↔ Occurs mark text (start + n) := by
  unfold Occurs
  rw [List.length_drop, List.drop_drop]
  constructor
  · rintro ⟨hle, hprefix⟩
    exact ⟨by omega, hprefix⟩
  · rintro ⟨hle, hprefix⟩
    exact ⟨by omega, hprefix⟩

/-- Where a search for a mark of a text is: between two characters, and what a scan from there accepts
is what counts. -/
def Scans (skipEscaped : Bool) (mark text : List Char) (offset : Nat) : Prop :=
  ∃ start, start ≤ text.length ∧ offset = offsetOf text start ∧
    ∀ n, AcceptedFrom skipEscaped mark text start n ↔ Accepted skipEscaped mark text n

/-- One round: the search is done with the first accepted place, or it goes on behind a place that
is skipped. -/
theorem searchRound_utf8 (searcher : Searcher) (hmark : mark ≠ [])
    (h : Scans skipEscaped mark text offset) :
    searchRound searcher skipEscaped (utf8 mark) (utf8 text) offset =
        some (.done ((find skipEscaped mark text).map (offsetOf text))) ∨
      ∃ later, searchRound searcher skipEscaped (utf8 mark) (utf8 text) offset =
        some (.next later) ∧ offset < later ∧ Scans skipEscaped mark text later := by
  obtain ⟨start, hstart, rfl, haccepted⟩ := h
  have hoffset : offsetOf text start ≤ (utf8 text).length := by
    rw [length_utf8]
    exact offsetOf_le text start
  have hfirst := find_isFirst skipEscaped mark text
  obtain ⟨place, hfind, hplace⟩ := searcher.find_utf8 hmark (text.drop start)
  rw [← drop_utf8_offsetOf] at hfind
  cases place with
  | none =>
    left
    have hnone : find skipEscaped mark text = none := by
      refine hfirst.eq fun n hn => ?_
      have hscan := (haccepted n).2 hn
      obtain ⟨further, rfl⟩ := Nat.exists_eq_add_of_le hscan.le
      exact hplace further ((occurs_drop_iff hstart).2 hscan.occurs)
    rw [searchRound_of_find_none hoffset hfind, hnone]
    rfl
  | some further =>
    obtain ⟨hoccurs, hleftmost⟩ := hplace
    rw [occurs_drop_iff hstart] at hoccurs
    have hscan : ∀ n, AcceptedFrom skipEscaped mark text start n ↔
        AcceptedFrom skipEscaped mark text (start + further) n := by
      intro n
      refine acceptedFrom_of_absent (Nat.le_add_right _ _) fun a ha hlt habsent => ?_
      obtain ⟨k, rfl⟩ := Nat.exists_eq_add_of_le ha
      have := hleftmost k ((occurs_drop_iff hstart).2 habsent)
      omega
    obtain ⟨escaped, hescaped, hiff⟩ := escapedAt?_utf8 skipEscaped hoccurs.1
    rw [offsetOf_add] at hescaped
    rw [searchRound_of_find_some hoffset hfind hescaped, ← offsetOf_add]
    cases escaped with
    | false =>
      left
      have hnot : ¬Skipped skipEscaped mark text (start + further) := by
        intro hskipped
        have := hiff.2 hskipped.2
        cases this
      have hsome : find skipEscaped mark text = some (start + further) := by
        refine hfirst.eq ⟨?_, fun n hn => ?_⟩
        · exact (haccepted _).1 ((hscan _).2 (.here hoccurs hnot))
        · exact ((hscan n).1 ((haccepted n).2 hn)).le
      rw [hsome]
      rfl
    | true =>
      right
      have hskipped : Skipped skipEscaped mark text (start + further) :=
        ⟨hoccurs, hiff.1 rfl⟩
      have hlength := List.length_pos_iff.2 hmark
      have hbehind : start + further + mark.length ≤ text.length := by
        have := hoccurs.2.length_le
        rw [List.length_drop] at this
        have := hoccurs.1
        omega
      refine ⟨offsetOf text (start + further + mark.length), ?_, ?_, _, hbehind, rfl, fun n => ?_⟩
      · obtain ⟨rest, hrest⟩ := hoccurs.2
        have hmarkLength : offsetOf (text.drop (start + further)) mark.length = byteLength mark := by
          rw [offsetOf, ← hrest, List.take_left]
        rw [offsetOf_add text (start + further), hmarkLength, length_utf8]
        rfl
      · exact offsetOf_lt hbehind (by omega)
      · rw [← haccepted, hscan, acceptedFrom_of_skipped hskipped]

/-- **A search among the bytes finds what a search among the characters finds.** -/
theorem findUnescaped_utf8 (searcher : Searcher) (skipEscaped : Bool) (mark text : List Char) :
    findUnescaped searcher skipEscaped (utf8 mark) (utf8 text) =
      some ((find skipEscaped mark text).map (offsetOf text)) := by
  by_cases hmark : mark = []
  · subst hmark
    have hfind : searcher.find [] ((utf8 text).drop 0) = some 0 := by
      cases hfind : searcher.find [] ((utf8 text).drop 0) with
      | none => exact absurd ⟨Nat.zero_le _, List.nil_prefix⟩ (searcher.absent hfind 0)
      | some n =>
        have := searcher.leftmost hfind 0 ⟨Nat.zero_le _, List.nil_prefix⟩
        rw [Nat.le_zero.1 this]
    have hescaped : escapedAt? skipEscaped (utf8 text) (0 + 0) = some false := by
      simp [escapedAt?]
    rw [find_nil]
    exact repeatRounds_done (searchRound_of_find_some (Nat.zero_le _) hfind hescaped)
  · have hrounds : ∀ offset, Scans skipEscaped mark text offset →
        (∃ result, searchRound searcher skipEscaped (utf8 mark) (utf8 text) offset =
            some (.done result) ∧ result = (find skipEscaped mark text).map (offsetOf text)) ∨
          ∃ later, searchRound searcher skipEscaped (utf8 mark) (utf8 text) offset =
            some (.next later) ∧ Scans skipEscaped mark text later ∧
            byteLength text - later < byteLength text - offset := by
      intro offset hscans
      rcases searchRound_utf8 searcher hmark hscans with hdone | ⟨later, hnext, hlt, hlater⟩
      · exact .inl ⟨_, hdone, rfl⟩
      · have hle : later ≤ byteLength text := by
          obtain ⟨start, -, rfl, -⟩ := hlater
          exact offsetOf_le text start
        exact .inr ⟨later, hnext, hlater, by omega⟩
    have hstart : Scans skipEscaped mark text 0 := ⟨0, Nat.zero_le _, rfl, fun n => Iff.rfl⟩
    obtain ⟨result, hend, rfl⟩ := endsWith_of_step _ hrounds hstart
    exact hend.repeatRounds_eq

/-! ## The first delimiter -/

theorem length_le_of_find (h : find skipEscaped mark text = some n) : n ≤ text.length := by
  have hfirst := find_isFirst skipEscaped mark text
  rw [h] at hfirst
  exact hfirst.1.occurs.1

/-- **The first delimiter behind a part of a document**, with its offset in the document. -/
theorem findMark_append (searcher : Searcher) (rules : Rules) (edge : Edge)
    (before text : List Char) :
    findMark searcher rules edge (before ++ text) (byteLength before) =
      some ((rules.findFirst edge text).map fun found =>
        (found.display, byteLength before + byteLength found.before)) := by
  have hbehind : behind? (byteLength before) (utf8 (before ++ text)) = some (utf8 text) := by
    rw [behind?, if_pos (by rw [length_utf8, byteLength_append]; exact Nat.le_add_right _ _),
      drop_utf8_append]
  rw [findMark, hbehind]
  simp only [Option.bind_eq_bind, Option.bind_some, findUnescaped_utf8]
  unfold Rules.findFirst
  cases hi : find rules.skipEscaped (rules.mark edge .inline) text with
  | none =>
    cases hb : find rules.skipEscaped (rules.mark edge .block) text with
    | none =>
      simp only [hi, hb]
      rfl
    | some b =>
      simp only [hi, hb]
      rfl
  | some i =>
    cases hb : find rules.skipEscaped (rules.mark edge .block) text with
    | none =>
      simp only [hi, hb]
      rfl
    | some b =>
      have hiff := offsetOf_lt_iff (length_le_of_find hi) (length_le_of_find hb)
      by_cases hlt : i < b
      · simp only [hi, hb, Option.map_some, hiff, hlt, if_true]
        rfl
      · simp only [hi, hb, Option.map_some, hiff, hlt, if_false]
        rfl

end MathMarkup.Document
