import MathMarkup.Formula.Spelling.Lookup
import MathMarkup.Proofs.Formula.Tiling

/-!
# Maximal munch

* `Starts` — a spelling of the table at the start of a text.
* `matchWithin_eq_some_iff`, `matchWithin_eq_none_iff` — what the search among the spellings of a
  bounded length finds.
* `matchByLength_eq_some_iff`, `matchByLength_eq_none_iff` — the bound that the search starts from
  hides no spelling.

Principal result: `matchByLength_maximal` — the search by length finds the longest spelling that
starts a text, as `longestMatch` does, and the tokens of a text follow it.
-/

namespace MathMarkup.Formula

open MathMarkup.Text

variable {text : List Char} {s : Spelling} {symbol : Symbol} {length bound : Nat}

/-- The spelling stands in the table and at the start of the text. -/
def Starts (s : Spelling) (text : List Char) : Prop := s ∈ spellings ∧ s.letters <+: text

/-! ## The table -/

theorem symbolOf?_eq_some_iff {letters : List Char} :
    symbolOf? letters = some symbol ↔ ⟨letters, symbol⟩ ∈ spellings := by
  unfold symbolOf?
  rw [Option.map_eq_some_iff]
  constructor
  · rintro ⟨s, hfind, rfl⟩
    have hletters : s.letters = letters := by simpa using List.find?_some hfind
    rw [← hletters]
    exact List.mem_of_find?_eq_some hfind
  · intro hmem
    cases hfind : spellings.find? fun s => s.letters = letters with
    | none =>
      have := List.find?_eq_none.1 hfind _ hmem
      simp at this
    | some s =>
      have hletters : s.letters = letters := by simpa using List.find?_some hfind
      rw [eq_of_letters_eq (List.mem_of_find?_eq_some hfind) hmem hletters]
      exact ⟨_, rfl, rfl⟩

/-- No spelling is longer than the search looks, and one is as long. -/
theorem maximum_byteLength_spellings :
    (spellings.map fun s => byteLength s.letters).max? = some maxSpellingLength := by
  decide +kernel

theorem byteLength_letters_le (h : s ∈ spellings) : byteLength s.letters ≤ maxSpellingLength :=
  (List.max?_eq_some_iff.1 maximum_byteLength_spellings).2 _ (List.mem_map_of_mem h)

theorem byteLength_letters_pos (h : s ∈ spellings) : 0 < byteLength s.letters := by
  obtain ⟨c, letters, hletters, -⟩ := letters_eq_cons h
  exact byteLength_pos (by rw [hletters]; simp)

theorem Starts.byteLength_le (h : Starts s text) : byteLength s.letters ≤ byteLength text := by
  obtain ⟨rest, rfl⟩ := h.2
  rw [byteLength_append]
  exact Nat.le_add_right _ _

/-- The text decides about all spellings of one length. -/
theorem Starts.eq_of_byteLength_eq {s' : Spelling} (h : Starts s text) (h' : Starts s' text)
    (hlength : byteLength s.letters = byteLength s'.letters) : s = s' := by
  obtain ⟨hmem, rest, rfl⟩ := h
  obtain ⟨hmem', rest', heq⟩ := h'
  exact eq_of_letters_eq hmem hmem' (append_inj_of_byteLength_eq heq.symm hlength).1

/-! ## The search -/

/-- The first bytes of a text spell a symbol where a spelling of this length starts the text. -/
theorem symbolOfBytes?_eq_some_iff :
    symbolOfBytes? length text = some symbol ↔
      ∃ s, Starts s text ∧ byteLength s.letters = length ∧ s.symbol = symbol := by
  simp only [symbolOfBytes?, Option.bind_eq_bind, Option.bind_eq_some_iff, Prod.exists,
    splitAtByte?_eq_some_iff, symbolOf?_eq_some_iff]
  constructor
  · rintro ⟨candidate, rest, ⟨rfl, hlength⟩, hmem⟩
    exact ⟨_, ⟨hmem, List.prefix_append candidate rest⟩, hlength, rfl⟩
  · rintro ⟨s, ⟨hmem, rest, rfl⟩, hlength, rfl⟩
    exact ⟨s.letters, rest, ⟨rfl, hlength⟩, hmem⟩

theorem symbolOfBytes?_eq_none_iff :
    symbolOfBytes? length text = none ↔ ∀ s, Starts s text → byteLength s.letters ≠ length := by
  rw [Option.eq_none_iff_forall_ne_some]
  constructor
  · intro h s hs hlength
    exact h s.symbol (symbolOfBytes?_eq_some_iff.2 ⟨s, hs, hlength, rfl⟩)
  · intro h symbol hsymbol
    obtain ⟨s, hs, hlength, -⟩ := symbolOfBytes?_eq_some_iff.1 hsymbol
    exact h s hs hlength

/-- Nothing is found where no spelling within the bound starts the text. -/
theorem matchWithin_eq_none_iff :
    matchWithin text bound = none ↔ ∀ s, Starts s text → bound < byteLength s.letters := by
  induction bound with
  | zero =>
    simp only [matchWithin, true_iff]
    exact fun s hs => byteLength_letters_pos hs.1
  | succ bound ih =>
    rw [matchWithin]
    cases hsymbol : symbolOfBytes? (bound + 1) text with
    | some symbol =>
      obtain ⟨s, hs, hlength, -⟩ := symbolOfBytes?_eq_some_iff.1 hsymbol
      simp only [reduceCtorEq, false_iff]
      intro h
      have := h s hs
      omega
    | none =>
      have hne := symbolOfBytes?_eq_none_iff.1 hsymbol
      dsimp only
      rw [ih]
      constructor
      · intro h s hs
        have := h s hs
        have := hne s hs
        omega
      · intro h s hs
        have := h s hs
        omega

/-- What is found is the longest spelling within the bound that starts the text. -/
theorem matchWithin_eq_some_iff :
    matchWithin text bound = some (symbol, length) ↔
      ∃ s, Starts s text ∧ s.symbol = symbol ∧ byteLength s.letters = length ∧ length ≤ bound ∧
        ∀ s', Starts s' text → byteLength s'.letters ≤ bound → byteLength s'.letters ≤ length := by
  induction bound with
  | zero =>
    simp only [matchWithin, reduceCtorEq, false_iff]
    rintro ⟨s, hs, -, hlength, hle, -⟩
    have := byteLength_letters_pos hs.1
    omega
  | succ bound ih =>
    rw [matchWithin]
    cases hsymbol : symbolOfBytes? (bound + 1) text with
    | some found =>
      obtain ⟨t, ht, htlength, rfl⟩ := symbolOfBytes?_eq_some_iff.1 hsymbol
      simp only [Option.some.injEq, Prod.mk.injEq]
      constructor
      · rintro ⟨rfl, rfl⟩
        exact ⟨t, ht, rfl, htlength, Nat.le_refl _, fun s' _ hle => hle⟩
      · rintro ⟨s, hs, rfl, rfl, hle, hlongest⟩
        have hge := hlongest t ht (by omega)
        rw [hs.eq_of_byteLength_eq ht (by omega)]
        exact ⟨rfl, htlength.symm⟩
    | none =>
      have hne := symbolOfBytes?_eq_none_iff.1 hsymbol
      dsimp only
      rw [ih]
      constructor
      · rintro ⟨s, hs, hname, hlength, hle, hlongest⟩
        refine ⟨s, hs, hname, hlength, by omega, fun s' hs' hle' => hlongest s' hs' ?_⟩
        have := hne s' hs'
        omega
      · rintro ⟨s, hs, hname, hlength, hle, hlongest⟩
        have := hne s hs
        exact ⟨s, hs, hname, hlength, by omega, fun s' hs' hle' => hlongest s' hs' (by omega)⟩

/-- No spelling that starts the text is beyond the bound of the whole search. -/
theorem Starts.byteLength_le_min (h : Starts s text) :
    byteLength s.letters ≤ min (byteLength text) maxSpellingLength :=
  Nat.le_min.2 ⟨h.byteLength_le, byteLength_letters_le h.1⟩

theorem matchByLength_eq_some_iff :
    matchByLength text = some (symbol, length) ↔
      ∃ s, Starts s text ∧ s.symbol = symbol ∧ byteLength s.letters = length ∧
        ∀ s', Starts s' text → byteLength s'.letters ≤ length := by
  unfold matchByLength
  rw [matchWithin_eq_some_iff]
  constructor
  · rintro ⟨s, hs, hname, hlength, -, hlongest⟩
    exact ⟨s, hs, hname, hlength, fun s' hs' => hlongest s' hs' hs'.byteLength_le_min⟩
  · rintro ⟨s, hs, hname, hlength, hlongest⟩
    have hle := hs.byteLength_le_min
    rw [hlength] at hle
    exact ⟨s, hs, hname, hlength, hle, fun s' hs' _ => hlongest s' hs'⟩

theorem matchByLength_eq_none_iff :
    matchByLength text = none ↔ ∀ s, ¬ Starts s text := by
  unfold matchByLength
  rw [matchWithin_eq_none_iff]
  constructor
  · intro h s hs
    have := h s hs
    have := hs.byteLength_le_min
    omega
  · intro h s hs
    exact absurd hs (h s)

/-! ## The reader of tokens -/

/-- A spelling with more characters has more bytes, where both start one text. -/
theorem Starts.byteLength_le_of_length_le {s' : Spelling} (h : Starts s text) (h' : Starts s' text)
    (hlength : s.letters.length ≤ s'.letters.length) :
    byteLength s.letters ≤ byteLength s'.letters := by
  obtain ⟨more, hmore⟩ := List.prefix_of_prefix_length_le h.2 h'.2 hlength
  rw [← hmore, byteLength_append]
  exact Nat.le_add_right _ _

/-- **The search by length finds the spelling that the tokens are read by.** -/
theorem matchByLength_eq_longestMatch (text : List Char) :
    matchByLength text = (longestMatch text).map fun s => (s.symbol, byteLength s.letters) := by
  cases hbest : longestMatch text with
  | none =>
    have hnone := longestMatch_eq_none_iff.1 hbest
    exact matchByLength_eq_none_iff.2 fun s hs => hnone s hs.1 hs.2
  | some s =>
    obtain ⟨hmem, hprefix, hlongest⟩ := longestMatch_eq_some_iff.1 hbest
    have hs : Starts s text := ⟨hmem, hprefix⟩
    refine matchByLength_eq_some_iff.2 ⟨s, hs, rfl, rfl, fun s' hs' => ?_⟩
    exact hs'.byteLength_le_of_length_le hs (hlongest s' hs'.1 hs'.2)

/-- The characters of a symbol are the longest spelling at its place. -/
theorem matchByLength_of_symbol {source : String} {span : Span}
    (h : ⟨.symbol symbol, span⟩ ∈ (scan source).lexemes) :
    ∃ before rest length, source.toList = before ++ rest ∧
      span = ⟨byteLength before, byteLength before + length⟩ ∧
      matchByLength rest = some (symbol, length) := by
  rcases reads_of_mem_scan h with hend | ⟨inBrackets, before, written, rest, htext, hspan, hreads⟩
  · cases hend
  · refine ⟨before, written ++ rest, byteLength written, htext, hspan, ?_⟩
    cases hreads with
    | @symbol s c letters _ hmem hletters _ hlongest =>
      rw [← hletters]
      have hs : Starts s (s.letters ++ rest) := ⟨hmem, List.prefix_append _ _⟩
      refine matchByLength_eq_some_iff.2 ⟨s, hs, rfl, rfl, fun s' hs' => ?_⟩
      refine hs'.byteLength_le_of_length_le hs (hlongest s' hs'.1 ?_)
      have hprefix := hs'.2
      rwa [hletters] at hprefix

/-- No spelling starts at the place of a letter. -/
theorem matchByLength_of_letter {source : String} {span : Span} {c : Char}
    (h : ⟨.letter c, span⟩ ∈ (scan source).lexemes) :
    ∃ before rest, source.toList = before ++ c :: rest ∧
      span = ⟨byteLength before, byteLength before + c.utf8Size⟩ ∧
      matchByLength (c :: rest) = none := by
  rcases reads_of_mem_scan h with hend | ⟨inBrackets, before, written, rest, htext, hspan, hreads⟩
  · cases hend
  · cases hreads with
    | letter _ _ _ hnone =>
      refine ⟨before, rest, htext, hspan, ?_⟩
      exact matchByLength_eq_none_iff.2 fun s hs => hnone s hs.1 hs.2

/-- **Maximal munch.** The search by length finds a symbol exactly with the longest spelling that
starts the text, and nothing exactly where no spelling starts it; the tokens are read by the same
choice. So a symbol in a text spans the longest spelling at its place, and no spelling at all starts
at the place of a letter. -/
theorem matchByLength_maximal :
    (∀ text symbol length, matchByLength text = some (symbol, length) ↔
      ∃ s ∈ spellings, s.letters <+: text ∧ s.symbol = symbol ∧ byteLength s.letters = length ∧
        ∀ s' ∈ spellings, s'.letters <+: text → byteLength s'.letters ≤ length) ∧
    (∀ text, matchByLength text = none ↔ ∀ s ∈ spellings, ¬ s.letters <+: text) ∧
    (∀ text, matchByLength text =
      (longestMatch text).map fun s => (s.symbol, byteLength s.letters)) ∧
    (∀ (source : String) symbol span, ⟨.symbol symbol, span⟩ ∈ (scan source).lexemes →
      ∃ before rest length, source.toList = before ++ rest ∧
        span = ⟨byteLength before, byteLength before + length⟩ ∧
        matchByLength rest = some (symbol, length)) ∧
    ∀ (source : String) c span, ⟨.letter c, span⟩ ∈ (scan source).lexemes →
      ∃ before rest, source.toList = before ++ c :: rest ∧
        span = ⟨byteLength before, byteLength before + c.utf8Size⟩ ∧
        matchByLength (c :: rest) = none := by
  refine ⟨?_, ?_, matchByLength_eq_longestMatch, ?_, ?_⟩
  · intro text symbol length
    rw [matchByLength_eq_some_iff]
    constructor
    · rintro ⟨s, ⟨hmem, hprefix⟩, hname, hlength, hlongest⟩
      exact ⟨s, hmem, hprefix, hname, hlength, fun s' hmem' hp => hlongest s' ⟨hmem', hp⟩⟩
    · rintro ⟨s, hmem, hprefix, hname, hlength, hlongest⟩
      exact ⟨s, ⟨hmem, hprefix⟩, hname, hlength, fun s' hs' => hlongest s' hs'.1 hs'.2⟩
  · intro text
    rw [matchByLength_eq_none_iff]
    constructor
    · intro h s hmem hprefix
      exact h s ⟨hmem, hprefix⟩
    · intro h s hs
      exact h s hs.1 hs.2
  · intro source symbol span h
    exact matchByLength_of_symbol h
  · intro source c span h
    exact matchByLength_of_letter h

end MathMarkup.Formula
