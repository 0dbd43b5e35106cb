import MathMarkup.Formula.Expression.Parser
import MathMarkup.Proofs.Formula.Bracketing

/-!
# The grammar of the notation

A derivation of the grammar is a tree of what was written: it keeps the order of two scripts, which
an `Expression` forgets.

* `OperandSyntax`, `TermSyntax`, `RatioSyntax` — the derivations.
* `OperandSyntax.tokens` and its like — the tokens that a derivation derives.
* `OperandSyntax.operand` and its like — the tree that the grammar prescribes.
* `Operand.Matched` and its like — every group is closed by a bracket that matches.
* `Spells` — tokens at the front of a list of lexemes.

Principal result: `Spells.followBrackets_operand` — the bracket check passes over an operand if and
only if the groups in it are matched, and leaves its stack as it is.
-/

namespace MathMarkup.Formula

mutual

/-- An operand as it is written. -/
inductive OperandSyntax where
  | leaf (l : Leaf)
  /-- The symbol for text, then a verbatim text. -/
  | words (content : String)
  | group (opening closing : Fence) (content : List RatioSyntax)
  | unary (f : Unary) (operand : OperandSyntax)
  | binary (f : Binary) (first second : OperandSyntax)
  /-- The symbol for a colour, its name as a verbatim text, then an operand. -/
  | color (name : String) (operand : OperandSyntax)

/-- An operand with at most one script on each side. -/
inductive TermSyntax where
  | bare (base : OperandSyntax)
  | one (base : OperandSyntax) (side : ScriptSide) (script : OperandSyntax)
  /-- The second script sits on the other side than the first one. -/
  | two (base : OperandSyntax) (side : ScriptSide) (first second : OperandSyntax)

/-- A term, or a term over a ratio. -/
inductive RatioSyntax where
  | term (t : TermSyntax)
  | divided (numerator : TermSyntax) (denominator : RatioSyntax)

end

/-! ## The tokens of a derivation -/

def Leaf.token : Leaf → Token
  | number digits => .number digits
  | letter c => .letter c
  | text content => .text content
  | sign s => .symbol (.sign s)

def ScriptSide.token : ScriptSide → Token
  | lower => .symbol .subscript
  | upper => .symbol .superscript

def ScriptSide.other : ScriptSide → ScriptSide
  | lower => upper
  | upper => lower

mutual

def OperandSyntax.tokens : OperandSyntax → List Token
  | .leaf l => [l.token]
  | .words content => [.symbol .text, .text content]
  | .group opening closing content =>
    .symbol (.opening opening) :: (sequenceTokens content ++ [.symbol (.closing closing)])
  | .unary f operand => .symbol (.unary f) :: operand.tokens
  | .binary f first second => .symbol (.binary f) :: (first.tokens ++ second.tokens)
  | .color name operand => .symbol .color :: .text name :: operand.tokens

def TermSyntax.tokens : TermSyntax → List Token
  | .bare base => base.tokens
  | .one base side script => base.tokens ++ side.token :: script.tokens
  | .two base side first second =>
    base.tokens ++ side.token :: (first.tokens ++ side.other.token :: second.tokens)

def RatioSyntax.tokens : RatioSyntax → List Token
  | .term t => t.tokens
  | .divided numerator denominator => numerator.tokens ++ .symbol .slash :: denominator.tokens

def sequenceTokens : List RatioSyntax → List Token
  | [] => []
  | q :: rest => q.tokens ++ sequenceTokens rest

end

/-! ## The tree of a derivation -/

mutual

def OperandSyntax.operand : OperandSyntax → Operand
  | .leaf l => .leaf l
  | .words content => .words content
  | .group opening closing content => .group opening closing (expressionOf content)
  | .unary f operand => .unary f operand.operand
  | .binary f first second => .binary f first.operand second.operand
  | .color name operand => .color name operand.operand

def TermSyntax.term : TermSyntax → Term
  | .bare base => .bare base.operand
  | .one base side script => .withScript base.operand script.operand side
  | .two base side first second => .withScripts base.operand first.operand second.operand side

def RatioSyntax.ratio : RatioSyntax → Ratio
  | .term t => .term t.term
  | .divided numerator denominator => .divided numerator.term denominator.ratio

/-- The expression that a sequence of ratios stands for. -/
def expressionOf : List RatioSyntax → Expression
  | [] => []
  | q :: rest => q.ratio :: expressionOf rest

end

/-! ## Matched groups -/

mutual

/-- Every group in the operand is closed by a bracket that matches. -/
def Operand.Matched : Operand → Prop
  | .leaf _ => True
  | .words _ => True
  | .group opening closing content => opening.closedBy closing = true ∧ ExpressionMatched content
  | .unary _ operand => operand.Matched
  | .binary _ first second => first.Matched ∧ second.Matched
  | .color _ operand => operand.Matched

def Term.Matched : Term → Prop
  | .bare base => base.Matched
  | .sub base script => base.Matched ∧ script.Matched
  | .sup base script => base.Matched ∧ script.Matched
  | .subSup base lower upper => base.Matched ∧ lower.Matched ∧ upper.Matched

def Ratio.Matched : Ratio → Prop
  | .term t => t.Matched
  | .divided numerator denominator => numerator.Matched ∧ denominator.Matched

def ExpressionMatched : List Ratio → Prop
  | [] => True
  | q :: rest => q.Matched ∧ ExpressionMatched rest

end

theorem Term.matched_withScript (base script : Operand) (side : ScriptSide) :
    (Term.withScript base script side).Matched ↔ base.Matched ∧ script.Matched := by
  cases side <;> simp [Term.withScript, Term.Matched]

theorem Term.matched_withScripts (base first second : Operand) (side : ScriptSide) :
    (Term.withScripts base first second side).Matched ↔
      base.Matched ∧ first.Matched ∧ second.Matched := by
  cases side <;> simp [Term.withScripts, Term.Matched, and_comm]

theorem Term.levels_withScript (base script : Operand) (side : ScriptSide) :
    (Term.withScript base script side).levels = max base.levels script.levels := by
  cases side <;> simp [Term.withScript, Term.levels]

theorem Term.levels_withScripts (base first second : Operand) (side : ScriptSide) :
    (Term.withScripts base first second side).levels =
      max base.levels (max first.levels second.levels) := by
  cases side <;> simp [Term.withScripts, Term.levels, Nat.max_comm]

/-! ## Where operands start -/

/-- The tokens with which an operand can start. -/
def Token.startsOperand : Token → Bool
  | endOfInput => false
  | symbol (.closing _) => false
  | symbol .superscript => false
  | symbol .subscript => false
  | symbol .slash => false
  | _ => true

theorem OperandSyntax.tokens_eq_cons (d : OperandSyntax) :
    ∃ t rest, d.tokens = t :: rest ∧ t.startsOperand = true := by
  cases d with
  | leaf l => exact ⟨l.token, [], by simp [tokens], by cases l <;> rfl⟩
  | words content => exact ⟨_, _, by rw [tokens], rfl⟩
  | group opening closing content => exact ⟨_, _, by rw [tokens], rfl⟩
  | unary f operand => exact ⟨_, _, by rw [tokens], rfl⟩
  | binary f first second => exact ⟨_, _, by rw [tokens], rfl⟩
  | color name operand => exact ⟨_, _, by rw [tokens], rfl⟩

theorem TermSyntax.tokens_eq_cons (d : TermSyntax) :
    ∃ t rest, d.tokens = t :: rest ∧ t.startsOperand = true := by
  cases d with
  | bare base =>
    rw [tokens]
    exact base.tokens_eq_cons
  | one base side script =>
    obtain ⟨t, rest, h, ht⟩ := base.tokens_eq_cons
    exact ⟨t, _, by rw [tokens, h, List.cons_append], ht⟩
  | two base side first second =>
    obtain ⟨t, rest, h, ht⟩ := base.tokens_eq_cons
    exact ⟨t, _, by rw [tokens, h, List.cons_append], ht⟩

theorem RatioSyntax.tokens_eq_cons (d : RatioSyntax) :
    ∃ t rest, d.tokens = t :: rest ∧ t.startsOperand = true := by
  cases d with
  | term t =>
    rw [tokens]
    exact t.tokens_eq_cons
  | divided numerator denominator =>
    obtain ⟨t, rest, h, ht⟩ := numerator.tokens_eq_cons
    exact ⟨t, _, by rw [tokens, h, List.cons_append], ht⟩

/-! ## The mark of the end -/

theorem Leaf.token_ne_endOfInput (l : Leaf) : l.token ≠ .endOfInput := by
  cases l <;> simp [token]

theorem ScriptSide.token_ne_endOfInput (side : ScriptSide) : side.token ≠ .endOfInput := by
  cases side <;> simp [token]

mutual

theorem OperandSyntax.endOfInput_notMem : ∀ d : OperandSyntax, .endOfInput ∉ d.tokens
  | .leaf l => by
    rw [OperandSyntax.tokens, List.mem_singleton]
    exact l.token_ne_endOfInput.symm
  | .words content => by simp [OperandSyntax.tokens]
  | .group opening closing content => by
    simp [OperandSyntax.tokens, endOfInput_notMem_sequence content]
  | .unary f operand => by simp [OperandSyntax.tokens, operand.endOfInput_notMem]
  | .binary f first second => by
    simp [OperandSyntax.tokens, first.endOfInput_notMem, second.endOfInput_notMem]
  | .color name operand => by simp [OperandSyntax.tokens, operand.endOfInput_notMem]

theorem TermSyntax.endOfInput_notMem : ∀ d : TermSyntax, .endOfInput ∉ d.tokens
  | .bare base => by simp [TermSyntax.tokens, base.endOfInput_notMem]
  | .one base side script => by
    simp [TermSyntax.tokens, base.endOfInput_notMem, script.endOfInput_notMem,
      side.token_ne_endOfInput.symm]
  | .two base side first second => by
    simp [TermSyntax.tokens, base.endOfInput_notMem, first.endOfInput_notMem,
      second.endOfInput_notMem, side.token_ne_endOfInput.symm,
      side.other.token_ne_endOfInput.symm]

theorem RatioSyntax.endOfInput_notMem : ∀ d : RatioSyntax, .endOfInput ∉ d.tokens
  | .term t => by simp [RatioSyntax.tokens, t.endOfInput_notMem]
  | .divided numerator denominator => by
    simp [RatioSyntax.tokens, numerator.endOfInput_notMem, denominator.endOfInput_notMem]

theorem endOfInput_notMem_sequence : ∀ d : List RatioSyntax, .endOfInput ∉ sequenceTokens d
  | [] => by simp [sequenceTokens]
  | q :: d => by
    simp [sequenceTokens, q.endOfInput_notMem, endOfInput_notMem_sequence d]

end

/-! ## Tokens at the front of lexemes -/

/-- An element of two lists one behind the other stands in the first or in the second. -/
theorem append_eq_append_cons {α : Type} {a b before after : List α} {x : α}
    (h : a ++ b = before ++ x :: after) :
    (∃ between, a = before ++ x :: between ∧ after = between ++ b) ∨
      ∃ between, before = a ++ between ∧ b = between ++ x :: after := by
  rcases List.append_eq_append_iff.1 h with ⟨between, hbefore, hb⟩ | ⟨between, ha, hx⟩
  · exact .inr ⟨between, hbefore, hb⟩
  · cases between with
    | nil => exact .inr ⟨[], by simpa using ha.symm, by simpa using hx.symm⟩
    | cons first between =>
      obtain ⟨rfl, rfl⟩ := List.cons.inj hx
      exact .inl ⟨between, ha, rfl⟩

/-- The lexemes start with the given tokens, and `rest` follows them. -/
def Spells (tokens : List Token) (lexemes rest : List Lexeme) : Prop :=
  ∃ used, lexemes = used ++ rest ∧ used.map (·.token) = tokens

namespace Spells

variable {a b tokens : List Token} {t : Token} {lexemes middle rest : List Lexeme} {lexeme : Lexeme}

theorem nil (lexemes : List Lexeme) : Spells [] lexemes lexemes := ⟨[], rfl, rfl⟩

theorem cons (ht : lexeme.token = t) (h : Spells tokens lexemes rest) :
    Spells (t :: tokens) (lexeme :: lexemes) rest := by
  obtain ⟨used, rfl, hu⟩ := h
  exact ⟨lexeme :: used, rfl, by rw [List.map_cons, ht, hu]⟩

theorem one (ht : lexeme.token = t) (rest : List Lexeme) : Spells [t] (lexeme :: rest) rest :=
  cons ht (nil rest)

theorem append (ha : Spells a lexemes middle) (hb : Spells b middle rest) :
    Spells (a ++ b) lexemes rest := by
  obtain ⟨u, rfl, hu⟩ := ha
  obtain ⟨v, rfl, hv⟩ := hb
  exact ⟨u ++ v, by rw [List.append_assoc], by rw [List.map_append, hu, hv]⟩

theorem of_nil (h : Spells [] lexemes rest) : lexemes = rest := by
  obtain ⟨used, rfl, hu⟩ := h
  rw [List.map_eq_nil_iff.1 hu]
  rfl

theorem of_cons (h : Spells (t :: tokens) lexemes rest) :
    ∃ lexeme middle, lexemes = lexeme :: middle ∧ lexeme.token = t ∧ Spells tokens middle rest := by
  obtain ⟨used, rfl, hu⟩ := h
  obtain ⟨lexeme, used, rfl, ht, hu⟩ := List.map_eq_cons_iff.1 hu
  exact ⟨lexeme, used ++ rest, rfl, ht, used, rfl, hu⟩

theorem of_append (h : Spells (a ++ b) lexemes rest) :
    ∃ middle, Spells a lexemes middle ∧ Spells b middle rest := by
  obtain ⟨used, rfl, hu⟩ := h
  obtain ⟨u, v, rfl, hu, hv⟩ := List.map_eq_append_iff.1 hu
  exact ⟨v ++ rest, ⟨u, by rw [List.append_assoc], hu⟩, v, rfl, hv⟩

theorem length_eq (h : Spells tokens lexemes rest) :
    lexemes.length = tokens.length + rest.length := by
  obtain ⟨used, rfl, rfl⟩ := h
  simp

/-! ### The bracket check on a derivation -/

theorem followBrackets_plain (h : Spells [t] lexemes rest) (ht : t.isPlain = true)
    (stack : List Bracket) : followBrackets stack lexemes = followBrackets stack rest := by
  obtain ⟨lexeme, middle, rfl, rfl, hm⟩ := h.of_cons
  obtain rfl := hm.of_nil
  exact Formula.followBrackets_plain ht stack middle

end Spells

theorem Leaf.isPlain_token (l : Leaf) : l.token.isPlain = true := by cases l <;> rfl

theorem ScriptSide.isPlain_token (side : ScriptSide) : side.token.isPlain = true := by
  cases side <;> rfl

mutual

/-- **The check passes over an operand if and only if its groups are matched.** -/
theorem Spells.followBrackets_operand : ∀ (d : OperandSyntax) {lexemes rest : List Lexeme},
    Spells d.tokens lexemes rest → ∀ stack last,
      followBrackets stack lexemes = .ok last ↔
        d.operand.Matched ∧ followBrackets stack rest = .ok last
  | .leaf l, lexemes, rest, h, stack, last => by
    rw [OperandSyntax.tokens] at h
    rw [h.followBrackets_plain l.isPlain_token, OperandSyntax.operand]
    simp [Operand.Matched]
  | .words content, lexemes, rest, h, stack, last => by
    rw [OperandSyntax.tokens] at h
    obtain ⟨lexeme, middle, rfl, ht, h⟩ := h.of_cons
    rw [Formula.followBrackets_plain (by rw [ht]; rfl), h.followBrackets_plain rfl,
      OperandSyntax.operand]
    simp [Operand.Matched]
  | .group opening closing content, lexemes, rest, h, stack, last => by
    rw [OperandSyntax.tokens] at h
    obtain ⟨first, inner, rfl, hfirst, h⟩ := h.of_cons
    obtain ⟨middle, hcontent, h⟩ := h.of_append
    obtain ⟨closer, after, rfl, hcloser, h⟩ := h.of_cons
    obtain rfl := h.of_nil
    rw [followBrackets_opening hfirst, hcontent.followBrackets_sequence content,
      OperandSyntax.operand, Operand.Matched]
    by_cases hf : opening.closedBy closing = true
    · rw [followBrackets_closing hcloser hf]
      simp [hf]
    · rw [followBrackets_stranded hcloser (by intro innermost hi; cases hi; simpa using hf)]
      simp [hf]
  | .unary f operand, lexemes, rest, h, stack, last => by
    rw [OperandSyntax.tokens] at h
    obtain ⟨lexeme, middle, rfl, ht, h⟩ := h.of_cons
    rw [Formula.followBrackets_plain (by rw [ht]; rfl), h.followBrackets_operand operand,
      OperandSyntax.operand, Operand.Matched]
  | .binary f first second, lexemes, rest, h, stack, last => by
    rw [OperandSyntax.tokens] at h
    obtain ⟨lexeme, middle, rfl, ht, h⟩ := h.of_cons
    obtain ⟨middle, hfirst, hsecond⟩ := h.of_append
    rw [Formula.followBrackets_plain (by rw [ht]; rfl), hfirst.followBrackets_operand first,
      hsecond.followBrackets_operand second, OperandSyntax.operand, Operand.Matched, and_assoc]
  | .color name operand, lexemes, rest, h, stack, last => by
    rw [OperandSyntax.tokens] at h
    obtain ⟨lexeme, middle, rfl, ht, h⟩ := h.of_cons
    obtain ⟨text, after, rfl, htext, h⟩ := h.of_cons
    rw [Formula.followBrackets_plain (by rw [ht]; rfl),
      Formula.followBrackets_plain (by rw [htext]; rfl), h.followBrackets_operand operand,
      OperandSyntax.operand, Operand.Matched]

theorem Spells.followBrackets_term : ∀ (d : TermSyntax) {lexemes rest : List Lexeme},
    Spells d.tokens lexemes rest → ∀ stack last,
      followBrackets stack lexemes = .ok last ↔
        d.term.Matched ∧ followBrackets stack rest = .ok last
  | .bare base, lexemes, rest, h, stack, last => by
    rw [TermSyntax.tokens] at h
    rw [h.followBrackets_operand base, TermSyntax.term, Term.Matched]
  | .one base side script, lexemes, rest, h, stack, last => by
    rw [TermSyntax.tokens] at h
    obtain ⟨middle, hbase, h⟩ := h.of_append
    obtain ⟨sign, after, rfl, hsign, h⟩ := h.of_cons
    rw [hbase.followBrackets_operand base,
      Formula.followBrackets_plain (by rw [hsign]; exact side.isPlain_token),
      h.followBrackets_operand script, TermSyntax.term, Term.matched_withScript, and_assoc]
  | .two base side first second, lexemes, rest, h, stack, last => by
    rw [TermSyntax.tokens] at h
    obtain ⟨middle, hbase, h⟩ := h.of_append
    obtain ⟨sign, after, rfl, hsign, h⟩ := h.of_cons
    obtain ⟨middle, hfirst, h⟩ := h.of_append
    obtain ⟨sign', after, rfl, hsign', h⟩ := h.of_cons
    rw [hbase.followBrackets_operand base,
      Formula.followBrackets_plain (by rw [hsign]; exact side.isPlain_token),
      hfirst.followBrackets_operand first,
      Formula.followBrackets_plain (by rw [hsign']; exact side.other.isPlain_token),
      h.followBrackets_operand second, TermSyntax.term, Term.matched_withScripts, and_assoc,
      and_assoc]

theorem Spells.followBrackets_ratio : ∀ (d : RatioSyntax) {lexemes rest : List Lexeme},
    Spells d.tokens lexemes rest → ∀ stack last,
      followBrackets stack lexemes = .ok last ↔
        d.ratio.Matched ∧ followBrackets stack rest = .ok last
  | .term t, lexemes, rest, h, stack, last => by
    rw [RatioSyntax.tokens] at h
    rw [h.followBrackets_term t, RatioSyntax.ratio, Ratio.Matched]
  | .divided numerator denominator, lexemes, rest, h, stack, last => by
    rw [RatioSyntax.tokens] at h
    obtain ⟨middle, hnumerator, h⟩ := h.of_append
    obtain ⟨slash, after, rfl, hslash, h⟩ := h.of_cons
    rw [hnumerator.followBrackets_term numerator,
      Formula.followBrackets_plain (by rw [hslash]; rfl), h.followBrackets_ratio denominator,
      RatioSyntax.ratio, Ratio.Matched, and_assoc]

theorem Spells.followBrackets_sequence : ∀ (d : List RatioSyntax) {lexemes rest : List Lexeme},
    Spells (sequenceTokens d) lexemes rest → ∀ stack last,
      followBrackets stack lexemes = .ok last ↔
        ExpressionMatched (expressionOf d) ∧ followBrackets stack rest = .ok last
  | [], lexemes, rest, h, stack, last => by
    rw [sequenceTokens] at h
    obtain rfl := h.of_nil
    simp [expressionOf, ExpressionMatched]
  | q :: d, lexemes, rest, h, stack, last => by
    rw [sequenceTokens] at h
    obtain ⟨middle, hq, h⟩ := h.of_append
    rw [hq.followBrackets_ratio q, h.followBrackets_sequence d, expressionOf, ExpressionMatched,
      and_assoc]

end

end MathMarkup.Formula
