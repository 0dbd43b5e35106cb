import Mathlib.Data.List.Nodup
import Mathlib.Data.Nat.Bitwise
import MathMarkup.Proofs.Formula.Scanning

/-!
# The lexical syntax

Which characters a token is read from, said without the reader.

* `Encloses` — the characters around a verbatim text.
* `Reads` — a token, the characters it is read from, and the text behind them, which decides where
  a number ends and which of two spellings is meant.

Principal results: `munch_eq_some_iff` — the reader of tokens takes exactly what the lexical syntax
allows, so that a text starts with one token at most; `munch_eq_none_iff` — it fails exactly at a
verbatim text without an end; `Reads.extend` — behind a separator nothing changes a token.
-/

namespace MathMarkup.Formula

open MathMarkup.Text

variable {inBrackets : Bool} {c closer : Char} {text rest : List Char} {t : Token} {m : Munch}

/-! ## Facts about the spellings -/

/-- A number below `4528` for the letters of a spelling. No two spellings share theirs. -/
def letterCode (letters : List Char) : Nat :=
  letters.foldl (fun code c => 256 * code + c.toNat) 0 % 4528

/-- No number is a bit of `seen` or occurs twice in the list. -/
def allUnseen (seen : Nat) : List Nat → Bool
  | [] => true
  | n :: rest => !seen.testBit n && allUnseen (seen ||| 2 ^ n) rest

theorem nodup_of_allUnseen : ∀ (numbers : List Nat) (seen : Nat), allUnseen seen numbers = true →
    numbers.Nodup ∧ ∀ n ∈ numbers, seen.testBit n = false
  | [], _, _ => by simp
  | n :: numbers, seen, h => by
    simp only [allUnseen, Bool.and_eq_true, Bool.not_eq_true'] at h
    obtain ⟨hn, hrest⟩ := h
    obtain ⟨hnodup, hseen⟩ := nodup_of_allUnseen numbers _ hrest
    have later : ∀ k ∈ numbers, seen.testBit k = false ∧ n ≠ k := by
      intro k hk
      simpa [Nat.testBit_two_pow] using hseen k hk
    refine ⟨List.nodup_cons.2 ⟨fun hmem => (later n hmem).2 rfl, hnodup⟩, ?_⟩
    intro k hk
    rcases List.mem_cons.1 hk with rfl | hk
    · exact hn
    · exact (later k hk).1

/-- The codes are compared with a set of bits, which is much faster than comparing all pairs of
spellings. -/
theorem allUnseen_spellings : allUnseen 0 (spellings.map fun s => letterCode s.letters) = true := by
  decide +kernel

/-- **No two entries of the table are spelled alike.** -/
theorem eq_of_letters_eq {s s' : Spelling} (hs : s ∈ spellings) (hs' : s' ∈ spellings)
    (h : s.letters = s'.letters) : s = s' := by
  have hnodup := (nodup_of_allUnseen _ _ allUnseen_spellings).1
  refine List.inj_on_of_nodup_map hnodup hs hs' ?_
  show letterCode s.letters = letterCode s'.letters
  rw [h]

/-- A spelling starts with neither white space nor a digit nor a double quote, and the only white
space in it is a space. -/
def Spelling.isRegular (s : Spelling) : Bool :=
  s.letters.head?.any (fun c => !isBlank c && !isDecimalDigit c && c != '"') &&
    s.letters.all fun c => !isBlank c || c == ' '

theorem isRegular_spellings : spellings.all Spelling.isRegular = true := by decide +kernel

theorem eq_space_of_mem_letters {s : Spelling} (h : s ∈ spellings) (hc : c ∈ s.letters)
    (hb : isBlank c = true) : c = ' ' := by
  have hregular := List.all_eq_true.1 isRegular_spellings s h
  rw [Spelling.isRegular, Bool.and_eq_true] at hregular
  have := List.all_eq_true.1 hregular.2 c hc
  simpa [hb] using this

theorem letters_eq_cons {s : Spelling} (h : s ∈ spellings) :
    ∃ c letters, s.letters = c :: letters ∧ isBlank c = false ∧ isDecimalDigit c = false ∧ c ≠ '"' := by
  have hregular := List.all_eq_true.1 isRegular_spellings s h
  rw [Spelling.isRegular, Bool.and_eq_true] at hregular
  have hhead := hregular.1
  cases hl : s.letters with
  | nil => simp [hl] at hhead
  | cons c letters =>
    simp only [hl, List.head?_cons, Option.any_some, Bool.and_eq_true, Bool.not_eq_true',
      bne_iff_ne] at hhead
    exact ⟨c, letters, rfl, hhead.1.1, hhead.1.2, hhead.2⟩

/-! ## The syntax -/

/-- The characters around a verbatim text: double quotes or, where an argument in brackets may
stand, a pair of brackets. -/
def Encloses (inBrackets : Bool) (opener closer : Char) : Prop :=
  (opener, closer) = ('"', '"') ∨
    inBrackets = true ∧ (opener, closer) ∈ [('(', ')'), ('[', ']'), ('\x7b', '\x7d')]

/-- No verbatim text starts with the character. -/
def OpensNothing (inBrackets : Bool) (c : Char) : Prop := ∀ closer, ¬ Encloses inBrackets c closer

def StartsWithDigit (text : List Char) : Prop := ∃ d, text.head? = some d ∧ isDecimalDigit d = true

/-- The text starts with a decimal point and a digit. -/
def StartsWithFraction (text : List Char) : Prop :=
  ∃ fraction, text = '.' :: fraction ∧ StartsWithDigit fraction

/-- All characters of a run, of which there is at least one, are digits. -/
def IsDigitRun (digits : List Char) : Prop :=
  digits ≠ [] ∧ ∀ d ∈ digits, isDecimalDigit d = true

/-- `Reads inBrackets t written rest`: the token `t` is read from the characters `written` in front
of `rest`; `inBrackets` says whether a verbatim argument in brackets may stand there. -/
inductive Reads (inBrackets : Bool) : Token → List Char → List Char → Prop
  | verbatim {opener closer : Char} {content rest : List Char} :
      Encloses inBrackets opener closer → closer ∉ content →
      Reads inBrackets (.text (String.ofList content)) (opener :: (content ++ [closer])) rest
  | whole {digits rest : List Char} :
      IsDigitRun digits → ¬ StartsWithDigit rest → ¬ StartsWithFraction rest →
      Reads inBrackets (.number (String.ofList digits)) digits rest
  | decimal {whole fraction rest : List Char} :
      IsDigitRun whole → IsDigitRun fraction → ¬ StartsWithDigit rest →
      Reads inBrackets (.number (String.ofList (whole ++ '.' :: fraction)))
        (whole ++ '.' :: fraction) rest
  /-- The longest spelling that starts the text. -/
  | symbol {s : Spelling} {c : Char} {letters rest : List Char} :
      s ∈ spellings → s.letters = c :: letters → OpensNothing inBrackets c →
      (∀ s' ∈ spellings, s'.letters <+: c :: (letters ++ rest) →
        s'.letters.length ≤ s.letters.length) →
      Reads inBrackets (.symbol s.symbol) (c :: letters) rest
  /-- A character at which no spelling starts. -/
  | letter {c : Char} {rest : List Char} :
      isBlank c = false → isDecimalDigit c = false → OpensNothing inBrackets c →
      (∀ s ∈ spellings, ¬ s.letters <+: c :: rest) →
      Reads inBrackets (.letter c) [c] rest

/-! ## Characters with a role -/

theorem not_isBlank_of_isDecimalDigit (h : isDecimalDigit c = true) : isBlank c = false := by
  have hrange : 48 ≤ c.toNat ∧ c.toNat ≤ 57 := by
    simp only [isDecimalDigit, Bool.and_eq_true, decide_eq_true_eq, Char.le_def] at h
    exact ⟨h.1, h.2⟩
  simp [isBlank]
  omega

theorem verbatimCloser_eq_some_iff :
    verbatimCloser inBrackets c = some closer ↔ Encloses inBrackets c closer := by
  unfold verbatimCloser Encloses
  constructor
  · intro h
    split at h
    · rename_i hc
      cases h
      rw [hc]
      exact .inl rfl
    split at h
    · rename_i hb
      refine .inr ⟨hb, ?_⟩
      split at h
      · rename_i hc
        cases h
        simp [hc]
      split at h
      · rename_i hc
        cases h
        simp [hc]
      split at h
      · rename_i hc
        cases h
        simp [hc]
      · cases h
    · cases h
  · rintro (h | ⟨hb, h⟩)
    · obtain ⟨rfl, rfl⟩ := Prod.mk.inj h
      rfl
    · simp only [List.mem_cons, List.not_mem_nil, or_false, Prod.mk.injEq] at h
      rcases h with ⟨rfl, rfl⟩ | ⟨rfl, rfl⟩ | ⟨rfl, rfl⟩ <;> simp [hb]

theorem verbatimCloser_eq_none_iff :
    verbatimCloser inBrackets c = none ↔ OpensNothing inBrackets c := by
  rw [Option.eq_none_iff_forall_ne_some]
  exact forall_congr' fun closer => not_congr verbatimCloser_eq_some_iff

theorem not_isBlank_of_encloses (h : Encloses inBrackets c closer) : isBlank c = false := by
  rcases h with h | ⟨-, h⟩
  · obtain ⟨rfl, rfl⟩ := Prod.mk.inj h
    decide
  · simp only [List.mem_cons, List.not_mem_nil, or_false, Prod.mk.injEq] at h
    rcases h with ⟨rfl, rfl⟩ | ⟨rfl, rfl⟩ | ⟨rfl, rfl⟩ <;> decide

theorem opensNothing_of_isDecimalDigit (h : isDecimalDigit c = true) :
    OpensNothing inBrackets c := by
  rintro closer (he | ⟨-, he⟩)
  · obtain ⟨rfl, rfl⟩ := Prod.mk.inj he
    cases h
  · simp only [List.mem_cons, List.not_mem_nil, or_false, Prod.mk.injEq] at he
    rcases he with ⟨rfl, rfl⟩ | ⟨rfl, rfl⟩ | ⟨rfl, rfl⟩ <;> cases h

/-- **A token starts with a character that is no white space.** -/
theorem Reads.written_eq_cons {written : List Char} (h : Reads inBrackets t written rest) :
    ∃ c following, written = c :: following ∧ isBlank c = false := by
  have run : ∀ {digits : List Char}, IsDigitRun digits →
      ∃ c following, digits = c :: following ∧ isBlank c = false := by
    intro digits hd
    obtain ⟨c, following, rfl⟩ := List.exists_cons_of_ne_nil hd.1
    exact ⟨c, following, rfl, not_isBlank_of_isDecimalDigit (hd.2 c List.mem_cons_self)⟩
  cases h with
  | verbatim he _ => exact ⟨_, _, rfl, not_isBlank_of_encloses he⟩
  | whole hd _ _ => exact run hd
  | decimal hw _ _ =>
    obtain ⟨c, following, rfl, hc⟩ := run hw
    exact ⟨c, _, rfl, hc⟩
  | symbol hs hl _ _ =>
    obtain ⟨c', letters', hl', hb, -, -⟩ := letters_eq_cons hs
    rw [hl] at hl'
    obtain ⟨rfl, rfl⟩ := List.cons.inj hl'
    exact ⟨_, _, rfl, hb⟩
  | letter hb _ _ _ => exact ⟨_, _, rfl, hb⟩

/-! ## Numbers -/

theorem takeWhile_append_of_stop {p : Char → Bool} {a b : List Char} (ha : ∀ c ∈ a, p c = true)
    (hb : b.head?.any p = false) :
    (a ++ b).takeWhile p = a ∧ (a ++ b).dropWhile p = b := by
  rw [List.takeWhile_append_of_pos ha, List.dropWhile_append_of_pos ha]
  cases b with
  | nil => simp
  | cons c b =>
    have hc : p c = false := by simpa using hb
    simp [hc]

theorem head?_any_eq_false (h : ¬ StartsWithDigit text) : text.head?.any isDecimalDigit = false := by
  cases text with
  | nil => rfl
  | cons c text =>
    refine eq_false_of_ne_true fun hc => h ⟨c, rfl, ?_⟩
    simpa using hc

theorem not_startsWithDigit_dropWhile (text : List Char) :
    ¬ StartsWithDigit (text.dropWhile isDecimalDigit) := by
  rintro ⟨d, hhead, hd⟩
  have := List.head?_dropWhile_not isDecimalDigit text
  rw [hhead] at this
  simp [hd] at this

theorem isDigitRun_takeWhile (h : StartsWithDigit text) :
    IsDigitRun (text.takeWhile isDecimalDigit) := by
  refine ⟨?_, fun d hd => List.all_eq_true.1 List.all_takeWhile d hd⟩
  obtain ⟨d, hhead, hd⟩ := h
  cases text with
  | nil => cases hhead
  | cons c text =>
    cases hhead
    simp [hd]

theorem numeral_whole {digits : List Char} (hd : IsDigitRun digits) (hr : ¬ StartsWithDigit rest)
    (hf : ¬ StartsWithFraction rest) : numeral (digits ++ rest) = (digits, rest) := by
  obtain ⟨htake, hdrop⟩ := takeWhile_append_of_stop hd.2 (head?_any_eq_false hr)
  unfold numeral
  rw [htake, hdrop]
  dsimp only
  split
  · rename_i fraction
    have hno : fraction.head?.any isDecimalDigit = false :=
      head?_any_eq_false fun hs => hf ⟨fraction, rfl, hs⟩
    rw [hno, if_neg Bool.false_ne_true]
  · rfl

theorem numeral_decimal {whole fraction : List Char} (hw : IsDigitRun whole)
    (hf : IsDigitRun fraction) (hr : ¬ StartsWithDigit rest) :
    numeral (whole ++ '.' :: (fraction ++ rest)) = (whole ++ '.' :: fraction, rest) := by
  obtain ⟨htake, hdrop⟩ := takeWhile_append_of_stop (b := '.' :: (fraction ++ rest)) hw.2 rfl
  obtain ⟨htake', hdrop'⟩ := takeWhile_append_of_stop hf.2 (head?_any_eq_false hr)
  have hdigit : (fraction ++ rest).head?.any isDecimalDigit = true := by
    obtain ⟨d, digits, rfl⟩ := List.exists_cons_of_ne_nil hf.1
    simpa using hf.2 d List.mem_cons_self
  unfold numeral
  rw [htake, hdrop]
  show (if (fraction ++ rest).head?.any isDecimalDigit = true then _ else _) = _
  rw [if_pos hdigit, htake', hdrop']

/-- The number at the start of a text is of the lexical syntax. -/
theorem reads_numeral (inBrackets : Bool) (h : StartsWithDigit text) :
    text = (numeral text).1 ++ (numeral text).2 ∧
      Reads inBrackets (.number (String.ofList (numeral text).1)) (numeral text).1
        (numeral text).2 := by
  have hsplit := List.takeWhile_append_dropWhile (p := isDecimalDigit) (l := text)
  have hrun := isDigitRun_takeWhile h
  have hstop := not_startsWithDigit_dropWhile text
  by_cases hfraction : StartsWithFraction (text.dropWhile isDecimalDigit)
  · obtain ⟨after, hafter, hdigit⟩ := hfraction
    have hsplit' := List.takeWhile_append_dropWhile (p := isDecimalDigit) (l := after)
    have hread := numeral_decimal hrun (isDigitRun_takeWhile hdigit)
      (not_startsWithDigit_dropWhile after)
    rw [hsplit', ← hafter, hsplit] at hread
    rw [hread]
    refine ⟨?_, .decimal hrun (isDigitRun_takeWhile hdigit) (not_startsWithDigit_dropWhile after)⟩
    rw [List.append_assoc, List.cons_append, hsplit', ← hafter, hsplit]
  · have hread := numeral_whole hrun hstop hfraction
    rw [hsplit] at hread
    rw [hread]
    exact ⟨hsplit.symm, .whole hrun hstop hfraction⟩

/-! ## Symbols -/

theorem length_le_of_longestOf {table : List Spelling} {s : Spelling}
    (h : longestOf table text = some s) :
    ∀ s' ∈ table, s'.letters <+: text → s'.letters.length ≤ s.letters.length := by
  induction table generalizing s with
  | nil => cases h
  | cons first table ih =>
    intro s' hs' hp'
    rw [longestOf] at h
    by_cases hfirst : first.letters.isPrefixOf text = true
    · rw [if_pos hfirst] at h
      cases hbest : longestOf table text with
      | none =>
        rw [hbest] at h
        cases h
        rcases List.mem_cons.1 hs' with rfl | hs'
        · exact Nat.le_refl _
        · have := not_prefix_of_longestOf hbest s' hs'
          rw [List.isPrefixOf_iff_prefix.2 hp'] at this
          cases this
      | some best =>
        rw [hbest] at h
        have hle := ih hbest
        rcases List.mem_cons.1 hs' with rfl | hs'
        · dsimp only at h
          split at h
          · cases h
            exact Nat.le_refl _
          · cases h
            omega
        · have := hle s' hs' hp'
          dsimp only at h
          split at h
          · cases h
            omega
          · cases h
            exact this
    · rw [if_neg hfirst] at h
      rcases List.mem_cons.1 hs' with rfl | hs'
      · exact absurd (List.isPrefixOf_iff_prefix.2 hp') hfirst
      · exact ih h s' hs' hp'

/-- **The longest spelling that starts a text**, which is the only one of its length. -/
theorem longestMatch_eq_some_iff {s : Spelling} :
    longestMatch text = some s ↔
      s ∈ spellings ∧ s.letters <+: text ∧
        ∀ s' ∈ spellings, s'.letters <+: text → s'.letters.length ≤ s.letters.length := by
  unfold longestMatch
  constructor
  · intro h
    obtain ⟨hmem, hprefix⟩ := mem_of_longestOf h
    exact ⟨hmem, List.isPrefixOf_iff_prefix.1 hprefix, length_le_of_longestOf h⟩
  · rintro ⟨hmem, hprefix, hlongest⟩
    cases hbest : longestOf spellings text with
    | none =>
      have := not_prefix_of_longestOf hbest s hmem
      rw [List.isPrefixOf_iff_prefix.2 hprefix] at this
      cases this
    | some best =>
      obtain ⟨hmem', hprefix'⟩ := mem_of_longestOf hbest
      have hprefix' := List.isPrefixOf_iff_prefix.1 hprefix'
      have h1 := hlongest best hmem' hprefix'
      have h2 := length_le_of_longestOf hbest s hmem hprefix
      have hletters : best.letters = s.letters :=
        (List.prefix_of_prefix_length_le hprefix' hprefix h1).eq_of_length (by omega)
      rw [eq_of_letters_eq hmem' hmem hletters]

theorem longestMatch_eq_none_iff :
    longestMatch text = none ↔ ∀ s ∈ spellings, ¬ s.letters <+: text := by
  unfold longestMatch
  constructor
  · intro h s hs hp
    have := not_prefix_of_longestOf h s hs
    rw [List.isPrefixOf_iff_prefix.2 hp] at this
    cases this
  · intro h
    cases hbest : longestOf spellings text with
    | none => rfl
    | some best =>
      obtain ⟨hmem, hprefix⟩ := mem_of_longestOf hbest
      exact absurd (List.isPrefixOf_iff_prefix.1 hprefix) (h best hmem)

/-! ## The reader of tokens -/

/-- What the reader takes is of the lexical syntax, and nothing is lost. -/
theorem reads_of_munch (hc : isBlank c = false) (h : munch inBrackets c text = some m) :
    Reads inBrackets m.token m.written m.rest ∧ c :: text = m.written ++ m.rest := by
  unfold munch at h
  split at h
  · rename_i closer hcloser
    split at h
    · cases h
    rename_i content rest hsplit
    cases h
    obtain ⟨rfl, hfree⟩ := splitAtFirst_eq_some hsplit
    exact ⟨.verbatim (verbatimCloser_eq_some_iff.1 hcloser) hfree, by simp⟩
  rename_i hnone
  have hopens := verbatimCloser_eq_none_iff.1 hnone
  split at h
  · rename_i hdigit
    cases h
    have hstart : StartsWithDigit (c :: text) := ⟨c, rfl, hdigit⟩
    obtain ⟨hsplit, hreads⟩ := reads_numeral inBrackets hstart
    exact ⟨hreads, hsplit⟩
  rename_i hdigit
  split at h
  · rename_i s hs
    cases h
    obtain ⟨hmem, ⟨rest, hrest⟩, hlongest⟩ := longestMatch_eq_some_iff.1 hs
    obtain ⟨c', letters, hl, -, -, -⟩ := letters_eq_cons hmem
    rw [hl, List.cons_append] at hrest
    obtain ⟨rfl, rfl⟩ := List.cons.inj hrest
    have hdrop : (letters ++ rest).drop (s.letters.length - 1) = rest := by simp [hl]
    dsimp only
    rw [hdrop, hl]
    exact ⟨.symbol hmem hl hopens hlongest, rfl⟩
  · rename_i hs
    cases h
    exact ⟨.letter hc (eq_false_of_ne_true hdigit) hopens (longestMatch_eq_none_iff.1 hs), rfl⟩

/-- What the lexical syntax allows, the reader takes. -/
theorem munch_of_reads {written : List Char} (h : Reads inBrackets t written rest)
    (htext : c :: text = written ++ rest) : munch inBrackets c text = some ⟨t, written, rest⟩ := by
  have number : ∀ {digits : List Char}, isDecimalDigit c = true →
      numeral (c :: text) = (digits, rest) →
      munch inBrackets c text = some ⟨.number (String.ofList digits), digits, rest⟩ := by
    intro digits hdigit hnumeral
    unfold munch
    rw [verbatimCloser_eq_none_iff.2 (opensNothing_of_isDecimalDigit hdigit)]
    dsimp only
    rw [if_pos hdigit, hnumeral]
  have head : ∀ {digits : List Char} {after : List Char}, IsDigitRun digits →
      c :: text = digits ++ after → isDecimalDigit c = true := by
    intro digits after hd heq
    obtain ⟨d, digits, rfl⟩ := List.exists_cons_of_ne_nil hd.1
    obtain ⟨rfl, -⟩ := List.cons.inj heq
    exact hd.2 c List.mem_cons_self
  cases h with
  | verbatim he hfree =>
    rw [List.cons_append, List.append_assoc, List.singleton_append] at htext
    obtain ⟨rfl, rfl⟩ := List.cons.inj htext
    unfold munch
    rw [verbatimCloser_eq_some_iff.2 he]
    dsimp only
    rw [splitAtFirst_append hfree]
    rfl
  | whole hd hr hf =>
    exact number (head hd htext) (by rw [htext]; exact numeral_whole hd hr hf)
  | decimal hw hf hr =>
    rw [List.append_assoc, List.cons_append] at htext
    exact number (head hw htext) (by rw [htext]; exact numeral_decimal hw hf hr)
  | symbol hmem hl hopens hlongest =>
    rename_i s d letters
    rw [List.cons_append] at htext
    obtain ⟨rfl, rfl⟩ := List.cons.inj htext
    obtain ⟨d, letters', hl', -, hdigit, -⟩ := letters_eq_cons hmem
    obtain ⟨rfl, rfl⟩ := List.cons.inj (hl.symm.trans hl')
    have hbest : longestMatch (c :: (letters ++ rest)) = some s :=
      longestMatch_eq_some_iff.2 ⟨hmem, ⟨rest, by rw [hl]; rfl⟩, hlongest⟩
    unfold munch
    rw [verbatimCloser_eq_none_iff.2 hopens]
    dsimp only
    rw [hdigit, if_neg Bool.false_ne_true, hbest]
    simp [hl]
  | letter _ hdigit hopens hnone =>
    rw [List.singleton_append] at htext
    obtain ⟨rfl, rfl⟩ := List.cons.inj htext
    unfold munch
    rw [verbatimCloser_eq_none_iff.2 hopens]
    dsimp only
    rw [hdigit, if_neg Bool.false_ne_true, longestMatch_eq_none_iff.2 hnone]

/-- **The reader of tokens is the lexical syntax.** -/
theorem munch_eq_some_iff (hc : isBlank c = false) :
    munch inBrackets c text = some m ↔
      Reads inBrackets m.token m.written m.rest ∧ c :: text = m.written ++ m.rest :=
  ⟨reads_of_munch hc, fun h => munch_of_reads h.1 h.2⟩

/-- **The reader fails exactly at a verbatim text without an end.** -/
theorem munch_eq_none_iff :
    munch inBrackets c text = none ↔ ∃ closer, Encloses inBrackets c closer ∧ closer ∉ text := by
  constructor
  · intro h
    unfold munch at h
    split at h
    · rename_i closer hcloser
      split at h
      · rename_i hsplit
        exact ⟨closer, verbatimCloser_eq_some_iff.1 hcloser, splitAtFirst_eq_none_iff.1 hsplit⟩
      · cases h
    · split at h
      · cases h
      · split at h <;> cases h
  · rintro ⟨closer, he, hfree⟩
    unfold munch
    rw [verbatimCloser_eq_some_iff.2 he]
    dsimp only
    rw [splitAtFirst_eq_none_iff.2 hfree]

/-! ## Separators -/

/-- White space other than the space that a spelling ends with. -/
def IsSeparator (c : Char) : Prop := isBlank c = true ∧ c ≠ ' '

theorem IsSeparator.not_isDecimalDigit (h : IsSeparator c) : isDecimalDigit c = false := by
  refine eq_false_of_ne_true fun hd => ?_
  rw [IsSeparator, not_isBlank_of_isDecimalDigit hd] at h
  cases h.1

/-- A list without a character that starts a text in front of that character starts the part before
it. -/
theorem prefix_of_prefix_append {p a b : List Char} (hc : c ∉ p) (h : p <+: a ++ c :: b) :
    p <+: a := by
  rcases List.prefix_or_prefix_of_prefix h (List.prefix_append a (c :: b)) with hp | ⟨q, rfl⟩
  · exact hp
  · obtain ⟨r, hr⟩ := h
    rw [List.append_assoc, List.append_cancel_left_eq] at hr
    cases q with
    | nil => simp
    | cons d q =>
      obtain ⟨rfl, -⟩ := List.cons.inj hr
      simp at hc

theorem IsSeparator.notMem_letters (h : IsSeparator c) {s : Spelling} (hs : s ∈ spellings) :
    c ∉ s.letters :=
  fun hc => h.2 (eq_space_of_mem_letters hs hc h.1)

theorem IsSeparator.not_startsWithDigit (h : IsSeparator c) (hr : ¬ StartsWithDigit rest)
    (tail : List Char) : ¬ StartsWithDigit (rest ++ c :: tail) := by
  rintro ⟨d, hhead, hd⟩
  cases rest with
  | nil =>
    cases hhead
    rw [h.not_isDecimalDigit] at hd
    cases hd
  | cons e rest => exact hr ⟨d, hhead, hd⟩

theorem IsSeparator.not_startsWithFraction (h : IsSeparator c) (hr : ¬ StartsWithFraction rest)
    (tail : List Char) : ¬ StartsWithFraction (rest ++ c :: tail) := by
  rintro ⟨fraction, heq, hdigit⟩
  cases rest with
  | nil =>
    obtain ⟨rfl, -⟩ := List.cons.inj heq
    exact absurd h.1 (by decide)
  | cons e rest =>
    obtain ⟨rfl, rfl⟩ := List.cons.inj heq
    exact h.not_startsWithDigit (fun hs => hr ⟨rest, rfl, hs⟩) tail hdigit

/-- **Behind a separator nothing changes a token.** -/
theorem Reads.extend {written : List Char} (h : Reads inBrackets t written rest)
    (hc : IsSeparator c) (tail : List Char) : Reads inBrackets t written (rest ++ c :: tail) := by
  cases h with
  | verbatim he hfree => exact .verbatim he hfree
  | whole hd hr hf =>
    exact .whole hd (hc.not_startsWithDigit hr tail) (hc.not_startsWithFraction hf tail)
  | decimal hw hf hr => exact .decimal hw hf (hc.not_startsWithDigit hr tail)
  | symbol hmem hl hopens hlongest =>
    refine .symbol hmem hl hopens fun s' hs' hp => hlongest s' hs' ?_
    refine prefix_of_prefix_append (hc.notMem_letters hs') (b := tail) ?_
    simpa using hp
  | letter hb hd hopens hnone =>
    refine .letter hb hd hopens fun s hs hp => hnone s hs ?_
    refine prefix_of_prefix_append (hc.notMem_letters hs) (b := tail) ?_
    simpa using hp

end MathMarkup.Formula
