import MathMarkup.Proofs.Formula.Exceeding
import MathMarkup.Proofs.Formula.Tiling
import MathMarkup.Text.Bytes

/-!
# The part of the text that a fault shows

* `Span.Cuts` — a text can be cut at both ends of a span.
* `Fault.Shows` — what the part of a text is that a fault shows, cause by cause.

Principal results: `readFormula_eq_error` — who tells the fault of a text; `convert_error_span` — the
span of a fault cuts the text and shows what its cause promises.
-/

namespace MathMarkup.Formula

open MathMarkup.Markup MathMarkup.Text

variable {source : String} {lexemes : List Lexeme} {lexeme : Lexeme} {fault : Fault}

/-- A text can be cut at both ends of the span. -/
structure Span.Cuts (span : Span) (text : List Char) : Prop where
  ordered : span.start ≤ span.stop
  inside : span.stop ≤ byteLength text
  start : IsBoundary text span.start
  stop : IsBoundary text span.stop

/-- With the lexeme one level more would begin than `nestingLimit` allows. -/
def BeginsTooDeep (lexemes : List Lexeme) (lexeme : Lexeme) : Prop :=
  ∃ before after, lexemes = before ++ lexeme :: after ∧
    SequenceExceeds lexeme.token nestingLimit (before.map (·.token))

/-- What the fault shows in the text. -/
def Fault.Shows (source : String) : Fault → Prop
  | ⟨.unterminatedText, span⟩ =>
    ∃ before opener content closer, source.toList = before ++ opener :: content ∧
      Encloses (bracketsAfter false (scan source).lexemes) opener closer ∧ closer ∉ content ∧
      span = ⟨byteLength before, byteLength source.toList⟩
  | ⟨.unexpectedEnd, span⟩ => span = Span.empty (byteLength source.toList)
  | ⟨.unbalancedBracket, span⟩ =>
    ∃ lexeme ∈ (scan source).lexemes, lexeme.span = span ∧
      ∃ fence, lexeme.token = .symbol (.opening fence) ∨ lexeme.token = .symbol (.closing fence)
  | ⟨.duplicateScript, span⟩ =>
    ∃ lexeme ∈ (scan source).lexemes, lexeme.span = span ∧
      (lexeme.token = .symbol .superscript ∨ lexeme.token = .symbol .subscript)
  | ⟨.missingOperand, span⟩ =>
    ∃ lexeme ∈ (scan source).lexemes, lexeme.span = span ∧ lexeme.token ≠ .endOfInput ∧
      span.start < span.stop
  | ⟨.nestingLimit, span⟩ =>
    ∃ lexeme, BeginsTooDeep (scan source).lexemes lexeme ∧ lexeme.span = span ∧
      ∀ other, BeginsTooDeep (scan source).lexemes other → other = lexeme

/-! ## Spans of lexemes -/

theorem Span.cuts_empty (text : List Char) : (Span.empty (byteLength text)).Cuts text :=
  ⟨Nat.le_refl _, Nat.le_refl _, isBoundary_end text, isBoundary_end text⟩

theorem Span.cuts_part (before written rest : List Char) :
    Span.Cuts ⟨byteLength before, byteLength before + byteLength written⟩
      (before ++ (written ++ rest)) := by
  refine ⟨Nat.le_add_right _ _, ?_, isBoundary_byteLength _ _, ?_⟩
  · show byteLength before + byteLength written ≤ _
    simp only [byteLength_append]
    omega
  · show IsBoundary _ (byteLength before + byteLength written)
    rw [← List.append_assoc, ← byteLength_append]
    exact isBoundary_byteLength _ _

/-- The end of a text is not read from any of its characters. -/
theorem Reads.token_ne_endOfInput {inBrackets : Bool} {t : Token} {written rest : List Char}
    (h : Reads inBrackets t written rest) : t ≠ .endOfInput := by
  cases h <;> simp

theorem cuts_of_mem_scan (h : lexeme ∈ (scan source).lexemes) :
    lexeme.span.Cuts source.toList := by
  rcases reads_of_mem_scan h with rfl | ⟨_, before, written, rest, htext, hspan, -⟩
  · exact Span.cuts_empty _
  · rw [htext, hspan]
    exact Span.cuts_part before written rest

theorem span_of_endOfInput (h : lexeme ∈ (scan source).lexemes) (ht : lexeme.token = .endOfInput) :
    lexeme.span = Span.empty (byteLength source.toList) := by
  rcases reads_of_mem_scan h with rfl | ⟨_, _, _, _, -, -, hreads⟩
  · rfl
  · exact absurd ht hreads.token_ne_endOfInput

theorem start_lt_stop_of_mem_scan (h : lexeme ∈ (scan source).lexemes)
    (ht : lexeme.token ≠ .endOfInput) : lexeme.span.start < lexeme.span.stop := by
  rcases reads_of_mem_scan h with rfl | ⟨_, before, written, rest, -, hspan, hreads⟩
  · exact absurd rfl ht
  · obtain ⟨c, following, rfl, -⟩ := hreads.written_eq_cons
    have hpos : 0 < byteLength (c :: following) := byteLength_pos (List.cons_ne_nil _ _)
    rw [hspan]
    show byteLength before < byteLength before + byteLength (c :: following)
    omega

/-! ## Who tells the fault -/

/-- A bracket that is left open stands among the lexemes. -/
theorem LeavesOpen.mem {brackets : List Bracket} (h : LeavesOpen lexemes brackets) :
    ∀ bracket ∈ brackets, ⟨.symbol (.opening bracket.fence), bracket.span⟩ ∈ lexemes := by
  induction h with
  | none _ => simp
  | @more w v brackets fence span _ _ ih =>
    intro bracket hmem
    rw [List.mem_append, List.mem_singleton] at hmem
    rcases hmem with hmem | rfl
    · exact List.mem_append_left _ (ih bracket hmem)
    · exact List.mem_append_cons_self

/-- **Who tells the fault of a text**: the bracket check, at a closing bracket out of place or at the
innermost bracket left open, the scanner, or the parser behind both. -/
theorem readFormula_eq_error (h : readFormula source = .error fault) :
    (∃ closing, FirstOutOfPlace (scan source).lexemes closing ∧ fault = unbalanced closing.span) ∨
    (scan source).fault = some fault ∨
    (∃ outer innermost, LeavesOpen (scan source).lexemes (outer ++ [innermost]) ∧
      fault = unbalanced innermost.span) ∨
    ((scan source).fault = none ∧ checkBrackets (scan source).lexemes = .ok () ∧
      readExpression nestingLimit (scan source).lexemes = .error fault) := by
  by_cases hout : SomeOutOfPlace (scan source).lexemes
  · obtain ⟨closing, hfirst⟩ := someOutOfPlace_iff.1 hout
    rw [readFormula_outOfPlace hfirst] at h
    cases h
    exact .inl ⟨closing, hfirst, rfl⟩
  refine .inr ?_
  cases hscan : (scan source).fault with
  | some earlier =>
    rw [readFormula_scan_fault hscan hout] at h
    cases h
    exact .inl rfl
  | none =>
    refine .inr ?_
    by_cases hopen : SomeLeftOpen (scan source).lexemes
    · obtain ⟨outer, innermost, hleft⟩ := hopen
      rw [readFormula_leftOpen hscan hleft] at h
      cases h
      exact .inl ⟨outer, innermost, hleft, rfl⟩
    · have hcheck := checkBrackets_eq_ok hout hopen
      rw [readFormula_of_paired hscan hcheck] at h
      exact .inr ⟨rfl, hcheck, h⟩

/-! ## What each of them shows -/

theorem shows_outOfPlace {closing : Lexeme} (h : FirstOutOfPlace (scan source).lexemes closing) :
    closing.span.Cuts source.toList ∧ (unbalanced closing.span).Shows source := by
  obtain ⟨before, after, hlexemes, ⟨fence, -, ht, -⟩, -⟩ := h
  have hmem : closing ∈ (scan source).lexemes := by
    rw [hlexemes]
    exact List.mem_append_cons_self
  exact ⟨cuts_of_mem_scan hmem, closing, hmem, rfl, fence, .inr ht⟩

theorem shows_leftOpen {outer : List Bracket} {innermost : Bracket}
    (h : LeavesOpen (scan source).lexemes (outer ++ [innermost])) :
    innermost.span.Cuts source.toList ∧ (unbalanced innermost.span).Shows source := by
  have hmem := h.mem innermost List.mem_append_cons_self
  exact ⟨cuts_of_mem_scan hmem, _, hmem, rfl, innermost.fence, .inl rfl⟩

theorem shows_scan_fault (h : (scan source).fault = some fault) :
    fault.span.Cuts source.toList ∧ fault.Shows source := by
  change (scanFrom false 0 source.toList).fault = some fault at h
  rcases scanFrom_tiles false 0 source.toList with ⟨hnone, -⟩ |
    ⟨before, opener, content, closer, htext, hfault, hencloses, hfree, -⟩
  · rw [hnone] at h
    cases h
  · rw [hfault, Nat.zero_add, Nat.zero_add] at h
    cases h
    refine ⟨?_, before, opener, content, closer, htext, hencloses, hfree, rfl⟩
    have hcuts := Span.cuts_part before (opener :: content) []
    rw [List.append_nil, ← byteLength_append, ← htext] at hcuts
    exact hcuts

theorem missingCause_eq {t : Token} (ht : t ≠ .endOfInput) : missingCause t = .missingOperand := by
  cases t with
  | endOfInput => exact absurd rfl ht
  | _ => rfl

/-- A fault in the order of the tokens shows the token at which reading stops. -/
theorem shows_stop {viable front : List Token → Prop} {cause : Fault.Cause} {before : List Token}
    (hmem : lexeme ∈ (scan source).lexemes) (h : Stop viable front cause before lexeme.token) :
    Fault.Shows source ⟨cause, lexeme.span⟩ := by
  rcases h.cause_eq with rfl | ⟨rfl, side, -, -, ht, -⟩
  · by_cases ht : lexeme.token = .endOfInput
    · rw [ht]
      exact span_of_endOfInput hmem ht
    · rw [missingCause_eq ht]
      exact ⟨lexeme, hmem, rfl, ht, start_lt_stop_of_mem_scan hmem ht⟩
  · refine ⟨lexeme, hmem, rfl, ?_⟩
    rw [ht]
    cases side with
    | lower => exact .inr rfl
    | upper => exact .inl rfl

theorem BeginsTooDeep.mem (h : BeginsTooDeep lexemes lexeme) : lexeme ∈ lexemes := by
  obtain ⟨before, after, rfl, -⟩ := h
  exact List.mem_append_cons_self

theorem limitsAt_iff : LimitsAt (SequenceExceeds · nestingLimit) fault lexemes ↔
    ∃ lexeme, BeginsTooDeep lexemes lexeme ∧ fault = ⟨.nestingLimit, lexeme.span⟩ := by
  constructor
  · rintro ⟨_, lexeme, after, ⟨before, hlexemes, rfl⟩, hfault, hexceeds⟩
    exact ⟨lexeme, ⟨before, after, hlexemes, hexceeds⟩, hfault⟩
  · rintro ⟨lexeme, ⟨before, after, hlexemes, hexceeds⟩, hfault⟩
    exact ⟨_, lexeme, after, ⟨before, hlexemes, rfl⟩, hfault, hexceeds⟩

/-- A lexeme of a text is known by its span. -/
theorem eq_of_span_eq (h : (scan source).fault = none) {other : Lexeme}
    (hmem : lexeme ∈ (scan source).lexemes) (hother : other ∈ (scan source).lexemes)
    (hspan : other.span = lexeme.span) : other = lexeme := by
  have hspans : ((scan source).lexemes.map (·.span)).Nodup :=
    List.pairwise_map.2 (scan_spans_pairwise h)
  exact List.inj_on_of_nodup_map hspans hother hmem hspan

/-- There is one place only where a level too many would begin, and the fault shows it. -/
theorem shows_tooDeep (hscan : (scan source).fault = none)
    (hcheck : checkBrackets (scan source).lexemes = .ok ())
    (hdeep : BeginsTooDeep (scan source).lexemes lexeme) :
    Fault.Shows source ⟨.nestingLimit, lexeme.span⟩ := by
  have hread : ∀ other, BeginsTooDeep (scan source).lexemes other →
      readExpression nestingLimit (scan source).lexemes = .error ⟨.nestingLimit, other.span⟩ := by
    intro other hother
    have hlimit := limitsAt_iff.2 ⟨other, hother, rfl⟩
    exact ((readExpression_limit_iff (scan_sealed hscan) hcheck _).2 hlimit).1
  refine ⟨lexeme, hdeep, rfl, fun other hother => ?_⟩
  have hfault := (hread other hother).symm.trans (hread lexeme hdeep)
  simp only [Except.error.injEq, Fault.mk.injEq, true_and] at hfault
  exact eq_of_span_eq hscan hdeep.mem hother.mem hfault

theorem shows_readExpression (hscan : (scan source).fault = none)
    (hcheck : checkBrackets (scan source).lexemes = .ok ())
    (h : readExpression nestingLimit (scan source).lexemes = .error fault) :
    fault.span.Cuts source.toList ∧ fault.Shows source := by
  have hsealed := scan_sealed hscan
  by_cases hcause : fault.cause.ConcernsOrder
  · obtain ⟨tokens, lexeme, after, ⟨before, hlexemes, -⟩, hspan, hstop⟩ :=
      readExpression_stopsAt hsealed hcheck h hcause
    have hmem : lexeme ∈ (scan source).lexemes := by
      rw [hlexemes]
      exact List.mem_append_cons_self
    obtain ⟨cause, span⟩ := fault
    cases hspan
    exact ⟨cuts_of_mem_scan hmem, shows_stop hmem hstop⟩
  · obtain ⟨lexeme, hdeep, rfl⟩ :=
      limitsAt_iff.1 ((readExpression_limit_iff hsealed hcheck fault).1 ⟨h, hcause⟩)
    exact ⟨cuts_of_mem_scan hdeep.mem, shows_tooDeep hscan hcheck hdeep⟩

/-! ## Conversion -/

/-- **The span of a fault can be cut out of the text, and it shows what the cause promises.** Both its
ends lie between characters of the text, in order. A verbatim text without an end is shown from the
character that opens it to the end of the text, an early end as the empty span there, an unbalanced
bracket at a token that is a bracket, a script too many at a sign for one, a missing operand at a
token that takes a character, and the limit on the nesting at the one token with which a level too
many would begin. -/
theorem convert_error_span {settings : Settings} {display : Display} {source : String}
    {fault : Fault} (h : convert settings display source = .error fault) :
    fault.span.start ≤ fault.span.stop ∧ fault.span.stop ≤ byteLength source.toList ∧
      IsBoundary source.toList fault.span.start ∧ IsBoundary source.toList fault.span.stop ∧
      fault.Shows source := by
  have htold : fault.span.Cuts source.toList ∧ fault.Shows source := by
    rcases readFormula_eq_error (convert_eq_error_iff.1 h) with ⟨closing, hout, rfl⟩ | hscan |
      ⟨outer, innermost, hopen, rfl⟩ | ⟨hscan, hcheck, hread⟩
    · exact shows_outOfPlace hout
    · exact shows_scan_fault hscan
    · exact shows_leftOpen hopen
    · exact shows_readExpression hscan hcheck hread
  obtain ⟨hcuts, hshows⟩ := htold
  exact ⟨hcuts.ordered, hcuts.inside, hcuts.start, hcuts.stop, hshows⟩

/-- A second subscript behind a character of two bytes. -/
theorem convert_error_span_multibyte :
    convert {} .block "ü_1_2" = .error ⟨.duplicateScript, ⟨4, 5⟩⟩ ∧
      IsBoundary "ü_1_2".toList 4 ∧ IsBoundary "ü_1_2".toList 5 ∧
      Fault.Shows "ü_1_2" ⟨.duplicateScript, ⟨4, 5⟩⟩ := by
  have hscan : scan "ü_1_2" = ⟨[⟨.letter 'ü', ⟨0, 2⟩⟩, ⟨.symbol .subscript, ⟨2, 3⟩⟩,
      ⟨.number "1", ⟨3, 4⟩⟩, ⟨.symbol .subscript, ⟨4, 5⟩⟩, ⟨.number "2", ⟨5, 6⟩⟩,
      ⟨.endOfInput, ⟨6, 6⟩⟩], none⟩ := by
    decide +kernel
  have hfault : (scan "ü_1_2").fault = none := by rw [hscan]
  have hcheck : checkBrackets (scan "ü_1_2").lexemes = .ok () := by rw [hscan]; rfl
  have hconvert : convert {} .block "ü_1_2" = .error ⟨.duplicateScript, ⟨4, 5⟩⟩ := by
    rw [convert_eq_error_iff, readFormula_of_paired hfault hcheck, hscan]
    rfl
  obtain ⟨-, -, hstart, hstop, hshows⟩ := convert_error_span hconvert
  exact ⟨hconvert, hstart, hstop, hshows⟩

end MathMarkup.Formula
