import MathMarkup.Formula.Token.Lexer
import MathMarkup.Proofs.Formula.Completeness

/-!
# What scanning yields

* `Munched` — the tokens that can be read at the start of a text.

Principal results: `scan_sealed` — a text without a fault ends in the mark of the end, which stands
nowhere else; `scan_fault` — a verbatim text without an end is the only fault; `munched_of_mem_scan`
— where the payloads of the tokens come from.
-/

namespace MathMarkup.Formula

open MathMarkup.Text

variable {text : List Char} {inBrackets : Bool} {c : Char} {m : Munch}

/-- What a token that was read from a text can hold. -/
def Munched : Token → Prop
  | .endOfInput => False
  | .number digits => ∀ d ∈ digits.toList, isDecimalDigit d = true ∨ d = '.'
  | .letter c => ∀ s ∈ spellings, s.letters ≠ [c]
  | .text _ => True
  | .symbol s => ∃ spelling ∈ spellings, spelling.symbol = s

/-! ## One token -/

theorem mem_of_longestOf {table : List Spelling} {s : Spelling}
    (h : longestOf table text = some s) : s ∈ table ∧ s.letters.isPrefixOf text = true := by
  induction table with
  | nil => cases h
  | cons first table ih =>
    rw [longestOf] at h
    split at h
    · rename_i hp
      split at h
      · cases h
        exact ⟨List.mem_cons_self, hp⟩
      · rename_i best hbest
        split at h
        · cases h
          exact ⟨List.mem_cons_self, hp⟩
        · cases h
          obtain ⟨hm, hp'⟩ := ih hbest
          exact ⟨List.mem_cons_of_mem _ hm, hp'⟩
    · obtain ⟨hm, hp⟩ := ih h
      exact ⟨List.mem_cons_of_mem _ hm, hp⟩

/-- Where nothing matches, no spelling of the table starts the text. -/
theorem not_prefix_of_longestOf {table : List Spelling} (h : longestOf table text = none) :
    ∀ s ∈ table, s.letters.isPrefixOf text = false := by
  induction table with
  | nil => intro s hs; cases hs
  | cons first table ih =>
    rw [longestOf] at h
    split at h
    · split at h
      · cases h
      · split at h <;> cases h
    · rename_i hp
      intro s hs
      rcases List.mem_cons.1 hs with rfl | hs
      · exact eq_false_of_ne_true hp
      · exact ih h s hs

theorem mem_numeral {d : Char} (h : d ∈ (numeral text).1) : isDecimalDigit d = true ∨ d = '.' := by
  have digits : ∀ l : List Char, d ∈ l.takeWhile isDecimalDigit → isDecimalDigit d = true :=
    fun l hd => List.all_eq_true.1 (List.all_takeWhile) d hd
  unfold numeral at h
  dsimp only at h
  split at h
  · split at h
    · rcases List.mem_append.1 h with h | h
      · exact .inl (digits _ h)
      · rcases List.mem_cons.1 h with rfl | h
        · exact .inr rfl
        · exact .inl (digits _ h)
    · exact .inl (digits _ h)
  · exact .inl (digits _ h)

theorem munched_of_munch (h : munch inBrackets c text = some m) : Munched m.token := by
  unfold munch at h
  split at h
  · split at h
    · cases h
    · cases h
      trivial
  split at h
  · cases h
    intro d hd
    rw [String.toList_ofList] at hd
    exact mem_numeral hd
  split at h
  · rename_i s hs
    cases h
    exact ⟨s, (mem_of_longestOf hs).1, rfl⟩
  · rename_i hs
    cases h
    intro s hm hl
    have hp := not_prefix_of_longestOf hs s hm
    rw [hl] at hp
    simp [List.isPrefixOf] at hp

/-! ## A whole text -/

section Equations

variable {offset : Nat} {following : List Char}

theorem scanFrom_end (h : text.dropWhile isBlank = []) :
    scanFrom inBrackets offset text =
      ⟨[⟨.endOfInput, Span.empty (offset + byteLength (text.takeWhile isBlank))⟩], none⟩ := by
  rw [scanFrom]
  split
  · rfl
  · rename_i hc; rw [h] at hc; cases hc

theorem scanFrom_unterminated (h : text.dropWhile isBlank = c :: following)
    (hm : munch inBrackets c following = none) :
    scanFrom inBrackets offset text =
      ⟨[], some ⟨.unterminatedText, ⟨offset + byteLength (text.takeWhile isBlank),
        offset + byteLength (text.takeWhile isBlank) + byteLength (c :: following)⟩⟩⟩ := by
  rw [scanFrom]
  split
  · rename_i hc; rw [h] at hc; cases hc
  · rename_i hc
    rw [h] at hc
    cases hc
    split
    · rfl
    · rename_i hm'; rw [hm] at hm'; cases hm'

theorem scanFrom_munch (h : text.dropWhile isBlank = c :: following)
    (hm : munch inBrackets c following = some m) :
    scanFrom inBrackets offset text =
      let start := offset + byteLength (text.takeWhile isBlank)
      let stop := start + byteLength m.written
      let later := scanFrom m.token.takesVerbatim stop m.rest
      ⟨⟨m.token, ⟨start, stop⟩⟩ :: later.lexemes, later.fault⟩ := by
  rw [scanFrom]
  split
  · rename_i hc; rw [h] at hc; cases hc
  · rename_i hc
    rw [h] at hc
    cases hc
    split
    · rename_i hm'; rw [hm] at hm'; cases hm'
    · rename_i hm'
      rw [hm] at hm'
      cases hm'
      rfl

end Equations

theorem ne_endOfInput_of_munched {t : Token} (h : Munched t) : t ≠ .endOfInput := by
  rintro rfl
  exact h

/-- Before the mark of the end there are only tokens that were read. -/
theorem scanFrom_lexemes (inBrackets : Bool) (offset : Nat) (text : List Char) :
    (∃ fault, (scanFrom inBrackets offset text).fault = some fault ∧
        fault.cause = .unterminatedText ∧
        ∀ lexeme ∈ (scanFrom inBrackets offset text).lexemes, Munched lexeme.token) ∨
      (scanFrom inBrackets offset text).fault = none ∧
        ∃ body last, (scanFrom inBrackets offset text).lexemes = body ++ [last] ∧
          last.token = .endOfInput ∧ ∀ lexeme ∈ body, Munched lexeme.token := by
  induction inBrackets, offset, text using scanFrom.induct with
  | case1 inBrackets offset text hend =>
    rw [scanFrom_end hend]
    exact .inr ⟨rfl, [], _, rfl, rfl, by simp⟩
  | case2 inBrackets offset text c following hc hm =>
    rw [scanFrom_unterminated hc hm]
    exact .inl ⟨_, rfl, rfl, by simp⟩
  | case3 inBrackets offset text start c following hc m hm stop ih =>
    have hmunched := munched_of_munch hm
    have further : ∀ {l : List Lexeme} {span : Span}, (∀ lexeme ∈ l, Munched lexeme.token) →
        ∀ lexeme ∈ ⟨m.token, span⟩ :: l, Munched lexeme.token := by
      intro l span hl lexeme hlexeme
      rcases List.mem_cons.1 hlexeme with rfl | hlexeme
      · exact hmunched
      · exact hl lexeme hlexeme
    rw [scanFrom_munch hc hm]
    rcases ih with ⟨fault, hf, hcause, hbody⟩ | ⟨hf, body, last, heq, ht, hbody⟩
    · exact .inl ⟨fault, hf, hcause, further hbody⟩
    · exact .inr ⟨hf, _ :: body, last, by rw [List.cons_append, ← heq], ht, further hbody⟩

/-- **A text without a fault ends in the mark of the end, which stands nowhere else.** -/
theorem scan_sealed {source : String} (h : (scan source).fault = none) :
    Sealed (scan source).lexemes := by
  rcases scanFrom_lexemes false 0 source.toList with ⟨fault, hf, -, -⟩ | ⟨-, body, last, heq, ht, hb⟩
  · rw [scan, hf] at h
    cases h
  · have heq' : (scan source).lexemes = body ++ [last] := heq
    constructor
    · exact ⟨last, by rw [heq', List.getLast?_concat], ht⟩
    · rw [heq', List.dropLast_concat]
      exact fun lexeme hl => ne_endOfInput_of_munched (hb lexeme hl)

/-- **A verbatim text without an end is the only fault.** -/
theorem scan_fault {source : String} {fault : Fault} (h : (scan source).fault = some fault) :
    fault.cause = .unterminatedText := by
  rcases scanFrom_lexemes false 0 source.toList with ⟨fault', hf, hc, -⟩ | ⟨hf, -⟩
  · rw [scan, hf] at h
    cases h
    exact hc
  · rw [scan, hf] at h
    cases h

theorem munched_of_mem_scan {source : String} {lexeme : Lexeme} (h : lexeme ∈ (scan source).lexemes)
    (ht : lexeme.token ≠ .endOfInput) : Munched lexeme.token := by
  rcases scanFrom_lexemes false 0 source.toList with ⟨fault, -, -, hb⟩ | ⟨-, body, last, heq, hl, hb⟩
  · exact hb lexeme h
  · rw [scan, heq] at h
    rcases List.mem_append.1 h with h | h
    · exact hb lexeme h
    · rw [List.mem_singleton.1 h] at ht
      exact absurd hl ht

end MathMarkup.Formula
