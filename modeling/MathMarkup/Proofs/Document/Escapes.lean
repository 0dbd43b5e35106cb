import MathMarkup.Proofs.Document.Splitting
import Mathlib.Tactic.ByContra

/-!
# Delimiters after a backslash

* `KeptWhole` — every escaped occurrence of a mark that begins in a text ends in it.
* `OpensApart` — no opening delimiter is found inside an escaped occurrence of a mark.

Principal results: `escaped_mark_kept` — under `OpensApart` no part of an escaped delimiter opens a formula,
and it is in the output as it stands; `accepted_inside` — without it a part can open one: the search for one
delimiter does not know what the search for the other one skips.
-/

namespace MathMarkup.Document

open MathMarkup.Markup

variable {rules : Rules} {mark other text before behind : List Char} {display : Display}
  {skipEscaped : Bool} {m n k : Nat}

/-! ## Overlapping occurrences -/

/-- Another mark can start at an inner place of a mark, with a character in common. -/
structure FitsInside (mark other : List Char) (k : Nat) : Prop where
  pos : 0 < k
  lt_length : k < mark.length
  nonempty : other ≠ []
  comparable : mark.drop k <+: other ∨ other <+: mark.drop k

/-- What stands at an inner place of an occurrence. -/
theorem Occurs.drop_prefix (h : Occurs mark text m) (hk : k ≤ mark.length) :
    mark.drop k <+: text.drop (m + k) := by
  obtain ⟨rest, hrest⟩ := h.2
  refine ⟨rest, ?_⟩
  rw [← List.drop_drop, ← hrest, List.drop_append_of_le_length hk]

/-- The character before an inner place of an occurrence is one of the mark. -/
theorem Occurs.afterBackslash_iff (h : Occurs mark text m) (hpos : 0 < k) (hk : k ≤ mark.length) :
    AfterBackslash text (m + k) ↔ mark[k - 1]? = some '\\' := by
  have hchar : mark[k - 1]? = text[m + k - 1]? := by
    have hlt : k - 1 < mark.length := by omega
    rw [show m + k - 1 = m + (k - 1) by omega, ← List.getElem?_drop, List.getElem?_eq_getElem hlt,
      List.prefix_iff_getElem?.1 h.2 (k - 1) hlt]
  rw [AfterBackslash, hchar]
  exact ⟨fun hafter => hafter.2, fun hafter => ⟨by omega, hafter⟩⟩

/-- Two occurrences that overlap. -/
theorem Occurs.fitsInside (h : Occurs mark text m) (hother : Occurs other text (m + k)) (hpos : 0 < k)
    (hk : k < mark.length) (hne : other ≠ []) : FitsInside mark other k :=
  ⟨hpos, hk, hne, List.prefix_or_prefix_of_prefix (h.drop_prefix (Nat.le_of_lt hk)) hother.2⟩

/-- The text of two occurrences that overlap. -/
theorem Occurs.take_append_prefix (h : Occurs mark text m) (hother : Occurs other text (m + k))
    (hk : k ≤ mark.length) : mark.take k ++ other <+: text.drop m := by
  obtain ⟨rest, hrest⟩ := h.2
  have hdrop : text.drop (m + k) = mark.drop k ++ rest := by
    rw [← List.drop_drop, ← hrest, List.drop_append_of_le_length hk]
  rw [← hrest, ← List.take_append_drop k mark, List.append_assoc, List.take_append_drop,
    List.prefix_append_right_inj, ← hdrop]
  exact hother.2

/-! ## Opening delimiters and escapes -/

/-- A mark that stands `k` places behind the start of another one stands at its start, too, and reaches over
the place. Two occurrences of it never overlap so that the second one is escaped by the first. -/
structure StartsToo (mark other : List Char) (k : Nat) : Prop where
  starts : other <+: mark.take k ++ other
  reaches : k < other.length
  unescaped : ∀ j, FitsInside other other j → other[j - 1]? ≠ some '\\'

/-- No opening delimiter is found inside an escaped occurrence of a mark: where one fits into the mark, a
backslash of the mark stands before it, or it is skipped because it is escaped at the start of the mark. -/
def OpensApart (rules : Rules) (mark : List Char) : Prop :=
  ∀ display k, FitsInside mark (rules.mark .opening display) k →
    mark[k - 1]? = some '\\' ∨ StartsToo mark (rules.mark .opening display) k

/-- Every occurrence of a mark after a backslash of a text ends in it, whatever stands behind the text. -/
def KeptWhole (mark before behind : List Char) : Prop :=
  ∀ m ≤ before.length, Occurs mark (before ++ behind) m → AfterBackslash (before ++ behind) m →
    m + mark.length ≤ before.length

/-- A mark that is escaped at the start of another one is not accepted in it. -/
theorem StartsToo.not_accepted (h : StartsToo mark other k) (hfits : FitsInside mark other k)
    (hoccurs : Occurs mark text m) (hescaped : AfterBackslash text m) :
    ¬Accepted true other text (m + k) := by
  intro haccepted
  have hstart : Occurs other text m := by
    refine ⟨hoccurs.1, h.starts.trans ?_⟩
    exact hoccurs.take_append_prefix haccepted.occurs (Nat.le_of_lt hfits.lt_length)
  have hclear : ∀ a, Skipped true other text a → a < m → a + other.length ≤ m := by
    intro a hskipped ha
    by_contra hoverlaps
    obtain ⟨j, rfl⟩ := Nat.exists_eq_add_of_le (Nat.le_of_lt ha)
    have hpos : 0 < j := by omega
    have hlength : j < other.length := by omega
    have hself := hskipped.1.fitsInside hstart hpos hlength hfits.nonempty
    exact h.unescaped j hself
      ((hskipped.1.afterBackslash_iff hpos (Nat.le_of_lt hlength)).1 hescaped)
  -- the scan comes to the start of the mark and goes on behind the place
  have hreached := haccepted.reaches hclear (Nat.zero_le m) (Nat.le_add_right m k)
  have hbehind := ((acceptedFrom_of_skipped ⟨hstart, rfl, hescaped⟩).1 hreached).le
  have hreaches := h.reaches
  omega

/-- The first opening delimiter does not start in an escaped occurrence. -/
theorem FirstMark.le_of_escaped (hskip : rules.skipEscaped = true) (hapart : OpensApart rules mark)
    (h : FirstMark rules .opening text display n) (hm : m ≤ n) (hoccurs : Occurs mark text m)
    (hescaped : AfterBackslash text m) : m + mark.length ≤ n := by
  have haccepted := h.accepted
  have hleftmost := h.leftmost display 0
  rw [hskip] at haccepted hleftmost
  have hopens := haccepted.occurs
  have hplain : ¬AfterBackslash text n := fun hafter => haccepted.not_skipped ⟨hopens, rfl, hafter⟩
  have hne : rules.mark .opening display ≠ [] := by
    intro hnil
    have hstart : Accepted true (rules.mark .opening display) text 0 :=
      .here (hnil ▸ ⟨Nat.zero_le _, List.nil_prefix⟩) fun hskipped => Nat.lt_irrefl 0 hskipped.2.2.1
    have hzero := hleftmost hstart
    have hpos := hescaped.1
    omega
  by_contra hover
  obtain ⟨k, rfl⟩ := Nat.exists_eq_add_of_le hm
  have hpos : 0 < k := Nat.pos_of_ne_zero fun hzero => hplain (by rwa [hzero])
  have hk : k < mark.length := by omega
  have hfits := hoccurs.fitsInside hopens hpos hk hne
  rcases hapart display k hfits with hbackslash | hstarts
  · exact hplain ((hoccurs.afterBackslash_iff hpos (Nat.le_of_lt hk)).2 hbackslash)
  · exact hstarts.not_accepted hfits hoccurs hescaped haccepted

theorem FirstMark.keptWhole (hskip : rules.skipEscaped = true) (hapart : OpensApart rules mark)
    (h : FirstMark rules .opening (before ++ behind) display before.length) :
    KeptWhole mark before behind :=
  fun _ hm hoccurs hescaped => h.le_of_escaped hskip hapart hm hoccurs hescaped

/-! ## Documents -/

/-- Every text before a passage is what stands before the first mark of a remainder. -/
theorem Splits.firstPassage {passages done others : List (List Char × Passage)} {last : List Char}
    {passage : Passage} (h : Splits rules text passages last)
    (hpassages : passages = done ++ (before, passage) :: others) :
    ∃ text rest, FirstPassage rules text before passage rest ∧ Splits rules rest others last := by
  induction h generalizing done with
  | last _ => simp at hpassages
  | @passage text before' rest last passage' passages hfirst hrest ih =>
    cases done with
    | nil =>
      obtain ⟨hhead, rfl⟩ := List.cons.inj hpassages
      obtain ⟨rfl, rfl⟩ := Prod.mk.inj hhead
      exact ⟨text, rest, hfirst, hrest⟩
    | cons _ done => exact ih (List.cons.inj hpassages).2

/-- The texts between the passages are copied. -/
theorem Renders.map_fst {σ : Type} {callback : Callback σ} {memory : σ} {output : List Char}
    {passages : List (List Char × Passage)} {replaced : List (List Char × List Char)}
    (h : Renders rules callback memory output passages replaced) :
    replaced.map Prod.fst = passages.map Prod.fst := by
  induction h with
  | nil => rfl
  | cons _ _ ih => rw [List.map_cons, List.map_cons, ih]

/-- **A delimiter after a backslash is plain text as a whole, if no opening delimiter fits into it.** Whatever
is left of the document when a formula is looked for, and whether the formula is closed later on or not, the
escaped delimiters before it end before it. If the replacement succeeds, the texts with the escaped delimiters
in them are the texts of the output. -/
theorem escaped_mark_kept (hskip : rules.skipEscaped = true) (edge : Edge) (display : Display)
    (hapart : OpensApart rules (rules.mark edge display)) (document : List Char) :
    (∀ text found, rules.findFirst .opening text = some found →
      KeptWhole (rules.mark edge display) found.before
        (rules.mark .opening found.display ++ found.after)) ∧
    ∀ (σ : Type) (callback : Callback σ) (memory : σ) (replacer : Replacer) (out : List Char),
      callback.Appends → Reached rules replacer →
      (replacer.replace callback memory document).1 = .ok out →
      ∃ passages last replaced, Splits rules document passages last ∧
        out = interleave replaced last ∧ replaced.map Prod.fst = passages.map Prod.fst ∧
        ∀ done before passage others, passages = done ++ (before, passage) :: others →
          KeptWhole (rules.mark edge display) before
            (passage.source ++ interleave (others.map fun p => (p.1, p.2.source)) last) := by
  refine ⟨fun text found hfound => ?_, ?_⟩
  · obtain ⟨hsplit, hfirst⟩ := findFirst_eq_some_iff.1 hfound
    rw [hsplit, List.append_assoc] at hfirst
    exact hfirst.keptWhole hskip hapart
  · intro σ callback memory replacer out happends hreached hok
    obtain ⟨passages, last, replaced, hsplits, hrenders, -, hout⟩ :=
      (replace_eq_ok_iff hreached happends memory document out).1 hok
    refine ⟨passages, last, replaced, hsplits, hout, hrenders.map_fst, ?_⟩
    intro done before passage others hpassages
    obtain ⟨text, rest, hfirst, hrest⟩ := hsplits.firstPassage hpassages
    have hopens := hfirst.opens
    rw [hfirst.split, List.append_assoc, hrest.eq_interleave] at hopens
    exact hopens.keptWhole hskip hapart

/-- Two backticks are a block delimiter and `\(` opens an inline formula. -/
theorem escaped_mark_kept_block :
    OpensApart ⟨⟨"\\(".toList, "\\)".toList⟩, .both "``".toList, true, false⟩ "``".toList ∧
      ∃ passages last replaced,
        Splits ⟨⟨"\\(".toList, "\\)".toList⟩, .both "``".toList, true, false⟩
          "\\``\\(a\\) and \\``b".toList passages last ∧
        "\\``(a) and \\``b".toList = interleave replaced last ∧
        replaced.map Prod.fst = passages.map Prod.fst ∧
        ∀ done before passage others, passages = done ++ (before, passage) :: others →
          KeptWhole "``".toList before
            (passage.source ++ interleave (others.map fun p => (p.1, p.2.source)) last) := by
  have hapart : OpensApart ⟨⟨"\\(".toList, "\\)".toList⟩, .both "``".toList, true, false⟩
      "``".toList := by
    have inner : ∀ {other k}, FitsInside "``".toList other k → k = 1 := by
      intro other k hfits
      have hpos := hfits.pos
      have hlt : k < 2 := hfits.lt_length
      omega
    intro display k hfits
    obtain rfl := inner hfits
    cases display with
    | inline => exact absurd hfits.comparable (by decide)
    | block =>
      refine .inr ⟨by decide, by decide, fun j hself => ?_⟩
      obtain rfl := inner hself
      decide
  exact ⟨hapart, (escaped_mark_kept rfl .opening .block hapart
    "\\``\\(a\\) and \\``b".toList).2 Unit (.ofConverter bracketed) () (.new _) _
    (ofConverter_appends _) .new (by decide +kernel)⟩

/-! ## Delimiters inside of others -/

/-- A delimiter of one character is accepted at every place inside of another delimiter that is not after a
backslash. It does not matter that the scan for the other one skips all of it. -/
theorem accepted_inside {c : Char} (hoccurs : Occurs mark text m) (hpos : 0 < k) (hchar : mark[k]? = some c)
    (hplain : mark[k - 1]? ≠ some '\\') : Accepted skipEscaped [c] text (m + k) := by
  obtain ⟨hk, rfl⟩ := List.getElem?_eq_some_iff.1 hchar
  have hdrop := hoccurs.drop_prefix (Nat.le_of_lt hk)
  rw [List.drop_eq_getElem_cons hk] at hdrop
  have hinside : Occurs [mark[k]] text (m + k) := by
    refine ⟨?_, (List.prefix_append [mark[k]] _).trans hdrop⟩
    have hlength := hdrop.length_le
    simp only [List.length_cons, List.length_drop] at hlength
    omega
  have hafter : ¬AfterBackslash text (m + k) :=
    fun h => hplain ((hoccurs.afterBackslash_iff hpos (Nat.le_of_lt hk)).1 h)
  exact acceptedFrom_of_clear (List.cons_ne_nil _ _) hinside (fun hskipped => hafter hskipped.2.2)
    (fun a ha _ => ha) (Nat.zero_le _)

/-- With the default delimiters the second backtick of an escaped block delimiter opens a formula. -/
theorem escaped_block_opens :
    Occurs "``".toList "\\``".toList 1 ∧ AfterBackslash "\\``".toList 1 ∧
      Accepted true "`".toList "\\``".toList 2 ∧
      replaceFormulas ⟨.both "`".toList, .both "``".toList, true, false⟩ bracketed "\\``".toList =
        .error ⟨2, .unclosed⟩ := by
  have hoccurs : Occurs "``".toList "\\``".toList 1 := ⟨by decide, by decide⟩
  exact ⟨hoccurs, ⟨by decide, by decide⟩, accepted_inside hoccurs Nat.one_pos rfl (by decide),
    by decide +kernel⟩

end MathMarkup.Document
