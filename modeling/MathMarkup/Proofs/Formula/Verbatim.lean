import MathMarkup.Proofs.Formula.Relocation
import MathMarkup.Proofs.Formula.Separation

/-!
# What stands in a verbatim text

A token in front of a verbatim text ends where it ends, whatever the text is, and the tokens behind it are
scanned from its closing character on.

* `Verbatim` — a text that stands between two others, with the characters that enclose it.
* `Verbatim.span`, `Verbatim.follow` — its place, and how the places behind it move with its length.
* `Scan.reword` — what was scanned, with other texts at other places.

Principal results: `exists_verbatim` — every token of a verbatim text is read from such a place;
`Verbatim.scan_reword` — another text there changes the token and the places behind it alone.
-/

namespace MathMarkup.Formula

open MathMarkup.Text

variable {inBrackets inBrackets' : Bool} {c opener closer : Char} {t : Token}
  {written rest behind content : List Char}

/-! ## In front of a verbatim text -/

theorem opener_mem (h : Encloses inBrackets opener closer) : opener ∈ ['"', '(', '[', '\x7b'] := by
  rcases h with h | ⟨-, h⟩
  · obtain ⟨rfl, rfl⟩ := Prod.mk.inj h
    exact List.mem_cons_self
  · simp only [List.mem_cons, Prod.mk.injEq, List.not_mem_nil, or_false] at h ⊢
    rcases h with ⟨rfl, rfl⟩ | ⟨rfl, rfl⟩ | ⟨rfl, rfl⟩ <;> simp

/-- No spelling goes on with a character that can open a verbatim text. -/
theorem opener_notMem_tail (h : Encloses inBrackets opener closer) {s : Spelling} (hs : s ∈ spellings) :
    opener ∉ s.letters.tail := by
  have hall : spellings.all (fun s => ['"', '(', '[', '\x7b'].all fun c => !s.letters.tail.contains c) =
      true := by decide +kernel
  have hspared := List.all_eq_true.1 (List.all_eq_true.1 hall s hs) opener (opener_mem h)
  simpa using hspared

/-- A spelling that starts at an earlier character ends in front of the opening character. -/
theorem prefix_of_prefix_opener (h : Encloses inBrackets opener closer) {s : Spelling}
    (hs : s ∈ spellings) (hp : s.letters <+: c :: (rest ++ opener :: behind)) :
    s.letters <+: c :: rest := by
  obtain ⟨first, letters, hletters, -⟩ := letters_eq_cons hs
  have htail := opener_notMem_tail h hs
  rw [hletters] at hp htail ⊢
  obtain ⟨rfl, hrest⟩ := List.cons_prefix_cons.1 hp
  exact List.cons_prefix_cons.2 ⟨rfl, prefix_of_prefix_append htail hrest⟩

theorem startsWithDigit_opener {behind' : List Char}
    (hd : StartsWithDigit (rest ++ opener :: behind)) : StartsWithDigit (rest ++ opener :: behind') := by
  cases rest with
  | nil => exact hd
  | cons c rest => exact hd

theorem startsWithFraction_opener (h : Encloses inBrackets opener closer) {behind' : List Char}
    (hf : StartsWithFraction (rest ++ opener :: behind)) :
    StartsWithFraction (rest ++ opener :: behind') := by
  obtain ⟨fraction, heq, hdigit⟩ := hf
  cases rest with
  | nil =>
    obtain ⟨rfl, -⟩ := List.cons.inj heq
    exact absurd (opener_mem h) (by decide)
  | cons c rest =>
    obtain ⟨rfl, rfl⟩ := List.cons.inj heq
    exact ⟨_, rfl, startsWithDigit_opener hdigit⟩

/-- **What stands behind an opening character changes no token in front of it.** -/
theorem Reads.before_opener (h : Reads inBrackets t written (rest ++ opener :: behind))
    (he : Encloses inBrackets' opener closer) (behind' : List Char) :
    Reads inBrackets t written (rest ++ opener :: behind') := by
  cases h with
  | verbatim he' hfree => exact .verbatim he' hfree
  | whole hd hr hf =>
    exact .whole hd (fun hr' => hr (startsWithDigit_opener hr'))
      fun hf' => hf (startsWithFraction_opener he hf')
  | decimal hw hf hr => exact .decimal hw hf fun hr' => hr (startsWithDigit_opener hr')
  | @symbol s c letters _ hmem hl hopens hlongest =>
    refine .symbol hmem hl hopens fun s' hs' hp => hlongest s' hs' ?_
    rw [← List.append_assoc] at hp ⊢
    exact (prefix_of_prefix_opener he hs' hp).trans ⟨opener :: behind, rfl⟩
  | @letter c _ hb hd hopens hnone =>
    refine .letter hb hd hopens fun s hs hp => hnone s hs ?_
    exact (prefix_of_prefix_opener he hs hp).trans ⟨opener :: behind, rfl⟩

/-- The lexemes in front of an opening character, whatever stands behind it. -/
structure Precedes (inBrackets : Bool) (start : Nat) (before : List Char) (earlier : List Lexeme)
    (opener : Char) : Prop where
  inside : ∀ lexeme ∈ earlier, lexeme.span.start ≤ start + byteLength before ∧
    lexeme.span.stop ≤ start + byteLength before
  scanned : ∀ rest, scanFrom inBrackets start (before ++ opener :: rest) =
    (scanFrom (bracketsAfter inBrackets earlier) (start + byteLength before) (opener :: rest)).behind
      earlier

section Precedes

variable {start : Nat} {blanks before text : List Char} {earlier later : List Lexeme} {lexeme : Lexeme}

theorem Precedes.blank (hb : ∀ c ∈ blanks, isBlank c = true) (inBrackets : Bool) (start : Nat)
    (opener : Char) : Precedes inBrackets start blanks [] opener :=
  ⟨nofun, fun rest => scanFrom_blanks hb inBrackets start (opener :: rest)⟩

theorem Precedes.token (hb : ∀ c ∈ blanks, isBlank c = true) (he : Encloses inBrackets' opener closer)
    (hread : Reads inBrackets t written (before ++ opener :: behind))
    (h : Precedes t.takesVerbatim (start + byteLength blanks + byteLength written) before earlier
      opener) :
    Precedes inBrackets start (blanks ++ (written ++ before))
      (⟨t, ⟨start + byteLength blanks, start + byteLength blanks + byteLength written⟩⟩ :: earlier)
      opener := by
  have hplace : start + byteLength (blanks ++ (written ++ before)) =
      start + byteLength blanks + byteLength written + byteLength before := by
    simp only [byteLength_append]
    omega
  constructor
  · rw [hplace, List.forall_mem_cons]
    refine ⟨?_, h.inside⟩
    dsimp only
    omega
  · intro rest
    have htext : blanks ++ (written ++ before) ++ opener :: rest =
        blanks ++ (written ++ (before ++ opener :: rest)) := by simp
    rw [htext, scanFrom_blanks hb, scanFrom_reads (hread.before_opener he rest), h.scanned, hplace,
      bracketsAfter_cons]
    rfl

/-- A verbatim text is read from characters that enclose it. -/
theorem Reads.verbatim_inv {content : String} (h : Reads inBrackets (.text content) written rest) :
    ∃ opener closer, Encloses inBrackets opener closer ∧ closer ∉ content.toList ∧
      written = opener :: (content.toList ++ [closer]) := by
  generalize ht : Token.text content = t at h
  cases h with
  | @verbatim opener closer content' _ he hfree =>
    obtain rfl := Token.text.inj ht
    rw [String.toList_ofList]
    exact ⟨opener, closer, he, hfree, rfl⟩
  | _ => cases ht

/-- **A verbatim text stands behind lexemes that do not depend on it.** The induction is on the lexemes. -/
theorem scanFrom_precedes {content : String} (htoken : lexeme.token = .text content) :
    ∀ (earlier : List Lexeme) (inBrackets : Bool) (start : Nat) (text : List Char),
      (scanFrom inBrackets start text).lexemes = earlier ++ lexeme :: later →
      ∃ before opener closer behind, text = before ++ opener :: (content.toList ++ closer :: behind) ∧
        Encloses (bracketsAfter inBrackets earlier) opener closer ∧ closer ∉ content.toList ∧
        lexeme.span = ⟨start + byteLength before,
          start + byteLength before + byteLength (opener :: (content.toList ++ [closer]))⟩ ∧
        Precedes inBrackets start before earlier opener := by
  intro earlier
  induction earlier with
  | nil =>
    intro inBrackets start text heq
    cases hdrop : text.dropWhile isBlank with
    | nil =>
      rw [scanFrom_end hdrop] at heq
      obtain ⟨rfl, -⟩ := List.cons.inj heq
      cases htoken
    | cons c following =>
      obtain ⟨htext, hb⟩ := eq_blanks_append hdrop
      cases hm : munch inBrackets c following with
      | none =>
        rw [scanFrom_unterminated hdrop hm] at heq
        cases heq
      | some m =>
        obtain ⟨hreads, hwritten⟩ := reads_of_munch (not_isBlank_of_dropWhile hdrop) hm
        rw [scanFrom_munch hdrop hm] at heq
        obtain ⟨rfl, -⟩ := List.cons.inj heq
        have hm' : m.token = .text content := htoken
        rw [hm'] at hreads
        obtain ⟨opener, closer, he, hfree, hw⟩ := hreads.verbatim_inv
        refine ⟨text.takeWhile isBlank, opener, closer, m.rest, ?_, he, hfree, ?_, .blank hb _ _ _⟩
        · rw [hwritten, hw] at htext
          simpa using htext
        · rw [← hw]
  | cons first earlier ih =>
    intro inBrackets start text heq
    cases hdrop : text.dropWhile isBlank with
    | nil =>
      rw [scanFrom_end hdrop] at heq
      simp at heq
    | cons c following =>
      obtain ⟨htext, hb⟩ := eq_blanks_append hdrop
      cases hm : munch inBrackets c following with
      | none =>
        rw [scanFrom_unterminated hdrop hm] at heq
        cases heq
      | some m =>
        obtain ⟨hreads, hwritten⟩ := reads_of_munch (not_isBlank_of_dropWhile hdrop) hm
        rw [scanFrom_munch hdrop hm] at heq
        obtain ⟨rfl, hlater⟩ := List.cons.inj heq
        obtain ⟨before, opener, closer, behind, hrest, he, hfree, hspan, hprecedes⟩ := ih _ _ _ hlater
        rw [hrest] at hreads
        have htoken' := Precedes.token hb he hreads hprecedes
        refine ⟨text.takeWhile isBlank ++ (m.written ++ before), opener, closer, behind, ?_, ?_, hfree,
          ?_, htoken'⟩
        · rw [hwritten, hrest] at htext
          simpa using htext
        · rw [bracketsAfter_cons]
          exact he
        · rw [hspan]
          simp only [byteLength_append, Span.mk.injEq]
          omega

end Precedes

/-! ## Verbatim texts in a formula -/

/-- A place for a verbatim text in a formula: what stands before it, the characters that enclose it, and
what stands behind it. The lexemes in front of it do not depend on it. -/
structure Verbatim where
  before : List Char
  opener : Char
  closer : Char
  behind : List Char
  earlier : List Lexeme
  encloses : Encloses (bracketsAfter false earlier) opener closer
  precedes : Precedes false 0 before earlier opener

namespace Verbatim

/-- The formula with a text at the place. -/
def fill (v : Verbatim) (content : String) : String :=
  String.ofList (v.before ++ v.opener :: (content.toList ++ v.closer :: v.behind))

/-- Where the text stands, with the characters that enclose it. -/
def span (v : Verbatim) (content : String) : Span :=
  ⟨byteLength v.before,
    byteLength v.before + byteLength (v.opener :: (content.toList ++ [v.closer]))⟩

/-- The same offset with another text at the place: offsets behind the one text are offsets behind the
other. -/
def follow (v : Verbatim) (content content' : String) (n : Nat) : Nat :=
  if n ≤ byteLength v.before then n else n - (v.span content).stop + (v.span content').stop

/-- The same span with another text at the place. -/
def followSpan (v : Verbatim) (content content' : String) (span : Span) : Span :=
  ⟨v.follow content content' span.start, v.follow content content' span.stop⟩

/-- The lexemes behind the place, and the fault there. -/
def later (v : Verbatim) : Scan := scanFrom false 0 v.behind

end Verbatim

/-- **Every token of a verbatim text is read from a place for one.** -/
theorem exists_verbatim {source content : String} {lexeme : Lexeme}
    (hmem : lexeme ∈ (scan source).lexemes) (htoken : lexeme.token = .text content) :
    ∃ v : Verbatim, source = v.fill content ∧ v.closer ∉ content.toList ∧
      lexeme.span = v.span content := by
  obtain ⟨earlier, later, heq⟩ := List.append_of_mem hmem
  obtain ⟨before, opener, closer, behind, htext, he, hfree, hspan, hprecedes⟩ :=
    scanFrom_precedes htoken earlier false 0 source.toList heq
  refine ⟨⟨before, opener, closer, behind, earlier, he, hprecedes⟩, ?_, hfree, ?_⟩
  · rw [Verbatim.fill, ← htext, String.ofList_toList]
  · rw [hspan, Verbatim.span]
    simp only [Nat.zero_add]

namespace Verbatim

variable {v : Verbatim} {content content' : String}

/-- What is scanned with a text at the place. -/
theorem scan_fill (hfree : v.closer ∉ content.toList) :
    scan (v.fill content) =
      ((v.later.shift (v.span content).stop).behind [⟨.text content, v.span content⟩]).behind
        v.earlier := by
  have hreads : Reads (bracketsAfter false v.earlier) (.text content)
      (v.opener :: (content.toList ++ [v.closer])) v.behind := by
    have h : Reads (bracketsAfter false v.earlier) (.text (String.ofList content.toList))
        (v.opener :: (content.toList ++ [v.closer])) v.behind := .verbatim v.encloses hfree
    rwa [String.ofList_toList] at h
  have htext : v.opener :: (content.toList ++ v.closer :: v.behind) =
      v.opener :: (content.toList ++ [v.closer]) ++ v.behind := by simp
  rw [scan, fill, String.toList_ofList, v.precedes.scanned, htext, scanFrom_reads hreads, Nat.zero_add,
    later, ← scanFrom_shift]
  rfl

theorem byteLength_before_lt (v : Verbatim) (content : String) :
    byteLength v.before < (v.span content).stop := by
  have := v.opener.utf8Size_pos
  rw [span]
  dsimp only
  rw [byteLength]
  omega

theorem follow_of_le {n : Nat} (h : n ≤ byteLength v.before) : v.follow content content' n = n :=
  if_pos h

theorem follow_add (v : Verbatim) (content content' : String) (n : Nat) :
    v.follow content content' ((v.span content).stop + n) = (v.span content').stop + n := by
  have := v.byteLength_before_lt content
  rw [follow, if_neg (by omega)]
  omega

theorem follow_follow (v : Verbatim) (first second third : String) (n : Nat) :
    v.follow second third (v.follow first second n) = v.follow first third n := by
  have := v.byteLength_before_lt second
  by_cases hn : n ≤ byteLength v.before
  · rw [follow_of_le hn, follow_of_le hn, follow_of_le hn]
  · rw [follow, follow, follow, if_neg hn, if_neg hn, if_neg (by omega), Nat.add_sub_cancel]

theorem followSpan_followSpan (v : Verbatim) (first second third : String) (span : Span) :
    v.followSpan second third (v.followSpan first second span) = v.followSpan first third span := by
  rw [followSpan, followSpan, followSpan, follow_follow, follow_follow]

theorem followSpan_shift (v : Verbatim) (content content' : String) (span : Span) :
    v.followSpan content content' (span.shift (v.span content).stop) =
      span.shift (v.span content').stop := by
  rw [followSpan, Span.shift, Span.shift, follow_add, follow_add]

theorem followSpan_span (v : Verbatim) (content content' : String) :
    v.followSpan content content' (v.span content) = v.span content' := by
  have hstop := v.follow_add content content' 0
  rw [Nat.add_zero, Nat.add_zero] at hstop
  have hstart : v.follow content content' (v.span content).start = (v.span content).start :=
    follow_of_le (Nat.le_refl _)
  rw [followSpan, hstart, hstop]
  rfl

end Verbatim

/-! ## Other texts at the place -/

/-- What was scanned, with other texts at other places. -/
def Scan.reword (w : Rewording) (scanned : Scan) : Scan where
  lexemes := scanned.lexemes.map (Lexeme.reword w)
  fault := scanned.fault.map (Fault.relocate w.place)

theorem Lexeme.reword_eq {w : Rewording} {lexeme : Lexeme} {t : Token} {span : Span}
    (htoken : lexeme.token.mapText w.text = t) (hspan : w.place lexeme.span = span) :
    lexeme.reword w = ⟨t, span⟩ := by
  rw [reword, htoken, hspan]

theorem Scan.reword_behind (w : Rewording) (earlier : List Lexeme) (scanned : Scan) :
    (scanned.behind earlier).reword w = (scanned.reword w).behind (earlier.map (Lexeme.reword w)) := by
  rw [behind, reword, List.map_append]
  rfl

namespace Verbatim

variable {v : Verbatim} {content content' : String}

/-- One text for another one, and the places behind it. -/
def rewording (v : Verbatim) (content content' : String) : Rewording where
  text := putFor content content'
  place := v.followSpan content content'

/-- The text is no other verbatim text of the formula. -/
def Fresh (v : Verbatim) (content : String) : Prop :=
  ∀ lexeme ∈ v.earlier ++ v.later.lexemes, content ∉ lexeme.token.texts

theorem mapText_of_notMem {t : Token} (h : content ∉ t.texts) :
    t.mapText (v.rewording content content').text = t := by
  cases t with
  | text other => exact congrArg Token.text (putFor_of_notMem h content' other (List.mem_singleton_self _))
  | _ => rfl

theorem reword_earlier (hfresh : v.Fresh content) :
    v.earlier.map (Lexeme.reword (v.rewording content content')) = v.earlier := by
  refine (List.map_congr_left fun lexeme hmem => ?_).trans (List.map_id _)
  obtain ⟨hstart, hstop⟩ := v.precedes.inside lexeme hmem
  rw [Nat.zero_add] at hstart hstop
  have htoken : lexeme.token.mapText (v.rewording content content').text = lexeme.token :=
    mapText_of_notMem (hfresh lexeme (List.mem_append_left _ hmem))
  have hspan : v.followSpan content content' lexeme.span = lexeme.span :=
    congr (congrArg Span.mk (follow_of_le hstart)) (follow_of_le hstop)
  exact Lexeme.reword_eq htoken hspan

theorem reword_later (hfresh : v.Fresh content) :
    (v.later.shift (v.span content).stop).reword (v.rewording content content') =
      v.later.shift (v.span content').stop := by
  rw [Scan.shift, Scan.shift, Scan.reword, List.map_map, Option.map_map]
  congr 1
  · refine List.map_congr_left fun lexeme hmem => ?_
    have htoken : lexeme.token.mapText (v.rewording content content').text = lexeme.token :=
      mapText_of_notMem (hfresh lexeme (List.mem_append_right _ hmem))
    exact Lexeme.reword_eq htoken (v.followSpan_shift content content' lexeme.span)
  · refine Option.map_congr fun fault _ => ?_
    exact congrArg (Fault.mk fault.cause) (v.followSpan_shift content content' fault.span)

/-- **Another text at the place changes its token and the places behind it alone.** -/
theorem scan_reword (hfresh : v.Fresh content) (hfree : v.closer ∉ content.toList)
    (hfree' : v.closer ∉ content'.toList) :
    scan (v.fill content') = (scan (v.fill content)).reword (v.rewording content content') := by
  have htext : (v.rewording content content').text content = content' := putFor_self content content'
  have hlexeme : Lexeme.reword (v.rewording content content') ⟨.text content, v.span content⟩ =
      ⟨.text content', v.span content'⟩ :=
    Lexeme.reword_eq (congrArg Token.text htext) (v.followSpan_span content content')
  rw [scan_fill hfree, scan_fill hfree', Scan.reword_behind, Scan.reword_behind, reword_earlier hfresh,
    reword_later hfresh, List.map_singleton, hlexeme]

/-- There are texts that a formula does not have, because its texts are not longer than all others. -/
theorem exists_fresh (v : Verbatim) : ∃ content, v.closer ∉ content.toList ∧ v.Fresh content := by
  have hlong : ∀ texts : List String, ∃ n, ∀ text ∈ texts, text.toList.length < n := by
    intro texts
    induction texts with
    | nil => exact ⟨0, nofun⟩
    | cons text texts ih =>
      obtain ⟨n, hn⟩ := ih
      refine ⟨n + text.toList.length + 1, List.forall_mem_cons.2 ⟨by omega, fun other hmem => ?_⟩⟩
      have := hn other hmem
      omega
  obtain ⟨n, hn⟩ := hlong ((v.earlier ++ v.later.lexemes).flatMap fun lexeme => lexeme.token.texts)
  refine ⟨String.ofList (List.replicate n 'x'), ?_, fun lexeme hmem htext => ?_⟩
  · rw [String.toList_ofList]
    intro hmem
    have hcloser := v.encloses
    rw [List.eq_of_mem_replicate hmem] at hcloser
    simp [Encloses] at hcloser
  · have hlt := hn _ (List.mem_flatMap.2 ⟨lexeme, hmem, htext⟩)
    rw [String.toList_ofList, List.length_replicate] at hlt
    exact Nat.lt_irrefl n hlt

/-- A text that is no other text of the formula is one of its texts once. -/
theorem count_texts (hfresh : v.Fresh content) (hfree : v.closer ∉ content.toList) :
    ((scan (v.fill content)).lexemes.flatMap fun lexeme => lexeme.token.texts).count content = 1 := by
  have hothers : ∀ lexemes : List Lexeme, (∀ lexeme ∈ lexemes, content ∉ lexeme.token.texts) →
      (lexemes.flatMap fun lexeme => lexeme.token.texts).count content = 0 := by
    intro lexemes h
    rw [List.count_eq_zero, List.mem_flatMap]
    rintro ⟨lexeme, hmem, htext⟩
    exact h lexeme hmem htext
  obtain ⟨hearlier, hlater⟩ := List.forall_mem_append.1 hfresh
  have htext : (Token.text content).texts.count content = 1 := List.count_singleton_self
  have hlater' : ((v.later.shift (v.span content).stop).lexemes.flatMap fun lexeme =>
      lexeme.token.texts).count content = 0 := by
    refine hothers _ fun lexeme hmem => ?_
    obtain ⟨original, horiginal, rfl⟩ := List.mem_map.1 hmem
    exact hlater original horiginal
  rw [scan_fill hfree, Scan.behind, Scan.behind]
  simp only [List.flatMap_append, List.flatMap_singleton, List.count_append, hothers _ hearlier, hlater',
    htext]

end Verbatim

end MathMarkup.Formula
