import MathMarkup.Proofs.Formula.Grammar
import MathMarkup.Proofs.Formula.Tiling

/-!
# Texts behind one another

Scanning a text behind a separator starts afresh, unless an argument in brackets is still to come.

* `Scan.behind` — what was scanned, with other lexemes in front of it.
* `Scan.shift` — what was scanned, at another place.
* `EndsPlainly` — token lists behind which no argument in brackets can stand.

Principal results: `scanFrom_shift` — a place is only added to the spans; `scan_append` — two texts with
a separator between them are scanned one after the other; `endsPlainly_sequence` — a whole formula
leaves nothing to come.
-/

namespace MathMarkup.Formula

open MathMarkup.Text

variable {inBrackets : Bool} {c : Char} {text : List Char} {start : Nat}

/-! ## Places -/

def Span.shift (distance : Nat) (span : Span) : Span :=
  ⟨distance + span.start, distance + span.stop⟩

def Lexeme.shift (distance : Nat) (lexeme : Lexeme) : Lexeme :=
  ⟨lexeme.token, lexeme.span.shift distance⟩

/-- The same lexemes and the same fault, further behind. -/
def Scan.shift (distance : Nat) (scanned : Scan) : Scan where
  lexemes := scanned.lexemes.map (Lexeme.shift distance)
  fault := scanned.fault.map fun fault => ⟨fault.cause, fault.span.shift distance⟩

/-- The lexemes with others in front of them, and the same fault. -/
def Scan.behind (earlier : List Lexeme) (scanned : Scan) : Scan :=
  ⟨earlier ++ scanned.lexemes, scanned.fault⟩

/-- A place changes no token. -/
theorem Scan.tokens_dropLast_shift (distance : Nat) (scanned : Scan) :
    (scanned.shift distance).lexemes.dropLast.map (·.token) =
      scanned.lexemes.dropLast.map (·.token) := by
  simp [shift, Lexeme.shift, ← List.map_dropLast]

/-- Lexemes with a mark at their end keep it behind others. -/
theorem Scan.tokens_dropLast_behind (earlier : List Lexeme) {scanned : Scan}
    (h : Sealed scanned.lexemes) :
    (scanned.behind earlier).lexemes.dropLast.map (·.token) =
      earlier.map (·.token) ++ scanned.lexemes.dropLast.map (·.token) := by
  obtain ⟨last, hlast, -⟩ := h.eq_append
  rw [behind, hlast, ← List.append_assoc, List.dropLast_concat, List.dropLast_concat,
    List.map_append]

theorem Sealed.shift {scanned : Scan} (h : Sealed scanned.lexemes) (distance : Nat) :
    Sealed (scanned.shift distance).lexemes := by
  obtain ⟨last, hlast, ht⟩ := h.eq_append
  refine ⟨⟨last.shift distance, ?_, ht⟩, ?_⟩
  · rw [Scan.shift, hlast, List.map_append, List.map_singleton, List.getLast?_concat]
  · intro lexeme hmem
    rw [Scan.shift, ← List.map_dropLast] at hmem
    obtain ⟨lexeme', hmem', rfl⟩ := List.mem_map.1 hmem
    exact h.onlyThere lexeme' hmem'

/-- **Scanning adds the place of a text to its spans and does nothing else with it.** -/
theorem scanFrom_shift (inBrackets : Bool) (distance start : Nat) (text : List Char) :
    scanFrom inBrackets (distance + start) text =
      (scanFrom inBrackets start text).shift distance := by
  induction inBrackets, start, text using scanFrom.induct with
  | case1 inBrackets start text hend =>
    rw [scanFrom_end hend, scanFrom_end hend]
    simp [Scan.shift, Lexeme.shift, Span.shift, Span.empty, Nat.add_assoc]
  | case2 inBrackets start text c following hc hm =>
    rw [scanFrom_unterminated hc hm, scanFrom_unterminated hc hm]
    simp [Scan.shift, Span.shift, Nat.add_assoc]
  | case3 inBrackets start text place c following hc m hm next ih =>
    have hnext : distance + start + byteLength (text.takeWhile isBlank) + byteLength m.written =
        distance + next := by
      simp only [next, place]
      omega
    rw [scanFrom_munch hc hm, scanFrom_munch hc hm]
    dsimp only
    rw [hnext, ih]
    simp [Scan.shift, Lexeme.shift, Span.shift, next, place, Nat.add_assoc]

/-! ## White space and tokens in front of a text -/

/-- White space moves what stands behind it. -/
theorem scanFrom_blanks {blanks : List Char} (hb : ∀ c ∈ blanks, isBlank c = true)
    (inBrackets : Bool) (start : Nat) (text : List Char) :
    scanFrom inBrackets start (blanks ++ text) =
      scanFrom inBrackets (start + byteLength blanks) text := by
  have htake : (blanks ++ text).takeWhile isBlank = blanks ++ text.takeWhile isBlank :=
    List.takeWhile_append_of_pos hb
  have hdrop : (blanks ++ text).dropWhile isBlank = text.dropWhile isBlank :=
    List.dropWhile_append_of_pos hb
  have hplace : start + byteLength ((blanks ++ text).takeWhile isBlank) =
      start + byteLength blanks + byteLength (text.takeWhile isBlank) := by
    rw [htake, byteLength_append, Nat.add_assoc]
  cases hrest : text.dropWhile isBlank with
  | nil => rw [scanFrom_end hrest, scanFrom_end (hdrop.trans hrest), hplace]
  | cons c following =>
    cases hm : munch inBrackets c following with
    | none =>
      rw [scanFrom_unterminated hrest hm, scanFrom_unterminated (hdrop.trans hrest) hm, hplace]
    | some m =>
      rw [scanFrom_munch hrest hm, scanFrom_munch (hdrop.trans hrest) hm, hplace]

/-- A token in front of a text. -/
theorem scanFrom_reads {t : Token} {written rest : List Char}
    (h : Reads inBrackets t written rest) (start : Nat) :
    scanFrom inBrackets start (written ++ rest) =
      (scanFrom t.takesVerbatim (start + byteLength written) rest).behind
        [⟨t, ⟨start, start + byteLength written⟩⟩] := by
  obtain ⟨c, following, rfl, hc⟩ := h.written_eq_cons
  have hdrop : (c :: following ++ rest).dropWhile isBlank = c :: (following ++ rest) := by
    simp [hc]
  have htake : (c :: following ++ rest).takeWhile isBlank = [] := by simp [hc]
  have hm : munch inBrackets c (following ++ rest) = some ⟨t, c :: following, rest⟩ :=
    munch_of_reads h rfl
  rw [scanFrom_munch hdrop hm, htake]
  rfl

/-! ## Separators -/

theorem Scan.behind_cons (lexeme : Lexeme) (earlier : List Lexeme) (scanned : Scan) :
    scanned.behind (lexeme :: earlier) = (scanned.behind earlier).behind [lexeme] := rfl

theorem isSeparator_newLine : IsSeparator '\n' := ⟨by decide, by decide⟩

/-- **A text behind a separator is scanned as if it stood alone**, at its place. -/
theorem scanFrom_append_separator (hc : IsSeparator c) (tail : List Char) (inBrackets : Bool)
    (start : Nat) (text : List Char) (h : (scanFrom inBrackets start text).fault = none) :
    scanFrom inBrackets start (text ++ c :: tail) =
      (scanFrom (bracketsAfter inBrackets (scanFrom inBrackets start text).lexemes.dropLast)
        (start + byteLength text + c.utf8Size) tail).behind
          (scanFrom inBrackets start text).lexemes.dropLast := by
  induction inBrackets, start, text using scanFrom.induct with
  | case1 inBrackets start text hend =>
    obtain ⟨htext, hb⟩ := eq_blanks_append hend
    rw [List.append_nil] at htext
    rw [← htext] at hb
    have hone : ∀ d ∈ [c], isBlank d = true := by
      intro d hd
      rw [List.mem_singleton.1 hd]
      exact hc.1
    rw [scanFrom_end hend, scanFrom_blanks hb, ← List.singleton_append, scanFrom_blanks hone]
    rfl
  | case2 inBrackets start text d following hd hm =>
    rw [scanFrom_unterminated hd hm] at h
    cases h
  | case3 inBrackets start text place d following hd m hm next ih =>
    obtain ⟨htext, hb⟩ := eq_blanks_append hd
    obtain ⟨hreads, hwritten⟩ := reads_of_munch (not_isBlank_of_dropWhile hd) hm
    rw [hwritten] at htext
    have hscan : scanFrom inBrackets start text =
        (scanFrom m.token.takesVerbatim next m.rest).behind [⟨m.token, ⟨place, next⟩⟩] :=
      scanFrom_munch hd hm
    have hfault : (scanFrom m.token.takesVerbatim next m.rest).fault = none := by
      rw [hscan] at h
      exact h
    -- the lexemes behind the first one end with a mark, so that dropping the last one spares it
    have hlast : (scanFrom inBrackets start text).lexemes.dropLast =
        ⟨m.token, ⟨place, next⟩⟩ ::
          (scanFrom m.token.takesVerbatim next m.rest).lexemes.dropLast := by
      rw [hscan]
      refine List.dropLast_cons_of_ne_nil ?_
      rcases scanFrom_tiles m.token.takesVerbatim next m.rest with ⟨-, lexemes, heq, -⟩ | hno
      · rw [heq]
        simp
      · obtain ⟨before, opener, content, closer, -, hsome, -⟩ := hno
        rw [hfault] at hsome
        cases hsome
    have hend : start + byteLength text = next + byteLength m.rest := by
      rw [htext]
      simp only [byteLength_append, next, place]
      omega
    have hextended : text ++ c :: tail =
        text.takeWhile isBlank ++ (m.written ++ (m.rest ++ c :: tail)) := by
      rw [← List.append_assoc m.written, ← List.append_assoc, ← htext]
    rw [hlast, bracketsAfter_cons, hend, Scan.behind_cons, ← ih hfault, hextended,
      scanFrom_blanks hb, scanFrom_reads (hreads.extend hc tail)]

/-- **Two texts with a separator between them are scanned one after the other**, unless the first one
leaves an argument in brackets to come. -/
theorem scan_append {u v : String} (hc : IsSeparator c) (hu : (scan u).fault = none)
    (hplain : bracketsAfter false (scan u).lexemes.dropLast = false) :
    scan (u ++ String.singleton c ++ v) =
      ((scan v).shift (byteLength u.toList + c.utf8Size)).behind (scan u).lexemes.dropLast := by
  have htext : (u ++ String.singleton c ++ v).toList = u.toList ++ c :: v.toList := by simp
  have happend := scanFrom_append_separator hc v.toList false 0 u.toList hu
  unfold scan at hplain ⊢
  rw [htext, happend, hplain, ← scanFrom_shift]
  simp

/-! ## Derivations behind one another -/

theorem sequenceTokens_append (a b : List RatioSyntax) :
    sequenceTokens (a ++ b) = sequenceTokens a ++ sequenceTokens b := by
  induction a with
  | nil => simp [sequenceTokens]
  | cons q a ih => simp [sequenceTokens, ih]

theorem expressionOf_append (a b : List RatioSyntax) :
    expressionOf (a ++ b) = expressionOf a ++ expressionOf b := by
  induction a with
  | nil => simp [expressionOf]
  | cons q a ih => simp [expressionOf, ih]

theorem expressionLevels_append (e e' : Expression) :
    expressionLevels (e ++ e') = max (expressionLevels e) (expressionLevels e') := by
  induction e with
  | nil => simp [expressionLevels]
  | cons q e ih => simp [expressionLevels, ih, Nat.max_assoc]

theorem expressionMatched_append (e e' : Expression) :
    ExpressionMatched (e ++ e') ↔ ExpressionMatched e ∧ ExpressionMatched e' := by
  induction e with
  | nil => simp [ExpressionMatched]
  | cons q e ih => simp [ExpressionMatched, ih, and_assoc]

/-- Derivations one behind the other. -/
theorem Derives.append {d d' : List RatioSyntax} {tokens tokens' : List Token}
    (h : Derives d tokens) (h' : Derives d' tokens') : Derives (d ++ d') (tokens ++ tokens') where
  tokens_eq := by rw [sequenceTokens_append, h.tokens_eq, h'.tokens_eq]
  matched := by
    rw [expressionOf_append]
    exact (expressionMatched_append _ _).2 ⟨h.matched, h'.matched⟩

/-! ## What a formula ends with -/

/-- The last token, if there is one, takes no argument. -/
def EndsPlainly (tokens : List Token) : Prop :=
  ∀ t, tokens.getLast? = some t → t.takesVerbatim = false

theorem EndsPlainly.append {a b : List Token} (ha : EndsPlainly a) (hb : EndsPlainly b) :
    EndsPlainly (a ++ b) := by
  intro t ht
  rw [List.getLast?_append] at ht
  cases hlast : b.getLast? with
  | none =>
    rw [hlast] at ht
    exact ha t ht
  | some last =>
    rw [hlast] at ht
    cases ht
    exact hb t hlast

theorem EndsPlainly.concat (tokens : List Token) {t : Token} (ht : t.takesVerbatim = false) :
    EndsPlainly (tokens ++ [t]) := by
  intro last hlast
  rw [List.getLast?_concat] at hlast
  cases hlast
  exact ht

theorem EndsPlainly.cons {t : Token} {tokens : List Token} (ht : t.takesVerbatim = false)
    (h : EndsPlainly tokens) : EndsPlainly (t :: tokens) :=
  (EndsPlainly.concat [] ht).append h

theorem Leaf.takesVerbatim_token (l : Leaf) : l.token.takesVerbatim = false := by cases l <;> rfl

theorem ScriptSide.takesVerbatim_token (side : ScriptSide) : side.token.takesVerbatim = false := by
  cases side <;> rfl

mutual

theorem OperandSyntax.endsPlainly : ∀ d : OperandSyntax, EndsPlainly d.tokens
  | .leaf l => by
    rw [OperandSyntax.tokens]
    exact .concat [] l.takesVerbatim_token
  | .words content => by
    rw [OperandSyntax.tokens]
    exact .concat [_] rfl
  | .group opening closing content => by
    rw [OperandSyntax.tokens, ← List.cons_append]
    exact .concat _ rfl
  | .unary f operand => by
    rw [OperandSyntax.tokens]
    exact .cons rfl operand.endsPlainly
  | .binary f first second => by
    rw [OperandSyntax.tokens]
    exact .cons rfl (first.endsPlainly.append second.endsPlainly)
  | .color name operand => by
    rw [OperandSyntax.tokens]
    exact (EndsPlainly.concat [_] rfl).append operand.endsPlainly

theorem TermSyntax.endsPlainly : ∀ d : TermSyntax, EndsPlainly d.tokens
  | .bare base => by
    rw [TermSyntax.tokens]
    exact base.endsPlainly
  | .one base side script => by
    rw [TermSyntax.tokens]
    exact base.endsPlainly.append (.cons side.takesVerbatim_token script.endsPlainly)
  | .two base side first second => by
    rw [TermSyntax.tokens]
    exact base.endsPlainly.append (.cons side.takesVerbatim_token
      (first.endsPlainly.append (.cons side.other.takesVerbatim_token second.endsPlainly)))

theorem RatioSyntax.endsPlainly : ∀ d : RatioSyntax, EndsPlainly d.tokens
  | .term t => by
    rw [RatioSyntax.tokens]
    exact t.endsPlainly
  | .divided numerator denominator => by
    rw [RatioSyntax.tokens]
    exact numerator.endsPlainly.append (.cons rfl denominator.endsPlainly)

/-- **A formula does not end with a symbol that takes an argument.** -/
theorem endsPlainly_sequence : ∀ d : List RatioSyntax, EndsPlainly (sequenceTokens d)
  | [] => by
    intro t ht
    rw [sequenceTokens] at ht
    cases ht
  | q :: d => by
    rw [sequenceTokens]
    exact q.endsPlainly.append (endsPlainly_sequence d)

end

theorem EndsPlainly.bracketsAfter {lexemes : List Lexeme}
    (h : EndsPlainly (lexemes.map (·.token))) : bracketsAfter false lexemes = false := by
  unfold Formula.bracketsAfter
  cases hlast : lexemes.getLast? with
  | none => rfl
  | some last => exact h last.token (by rw [List.getLast?_map, hlast]; rfl)

end MathMarkup.Formula
