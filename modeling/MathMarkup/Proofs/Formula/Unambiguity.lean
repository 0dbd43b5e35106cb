import MathMarkup.Proofs.Formula.Syntax

/-!
# The grammar is unambiguous

An operand ends where its last token says so, whatever follows. A term and a ratio end where no
script and no slash follows, a sequence where no operand can start. One token is enough to tell.

* `NoScript`, `NoSlash`, `NoOperand` — what a list of tokens does not start with.

Principal result: `sequenceTokens_injective` — a list of tokens has one derivation at most.
-/

namespace MathMarkup.Formula

/-- The tokens do not start with the sign for a script. -/
def NoScript (tokens : List Token) : Prop := ∀ side : ScriptSide, tokens.head? ≠ some side.token

/-- The tokens do not start with a slash. -/
def NoSlash (tokens : List Token) : Prop := tokens.head? ≠ some (.symbol .slash)

/-- The tokens start with a closing bracket or the mark of the end, or there are none. -/
def NoOperand (tokens : List Token) : Prop :=
  ∀ t, tokens.head? = some t → t = .endOfInput ∨ ∃ fence, t = .symbol (.closing fence)

variable {r r' : List Token}

theorem Token.startsOperand_side (side : ScriptSide) : side.token.startsOperand = false := by
  cases side <;> rfl

theorem ScriptSide.token_injective {side side' : ScriptSide} (h : side.token = side'.token) :
    side = side' := by
  cases side <;> cases side' <;> first | rfl | cases h

theorem Leaf.token_injective {l l' : Leaf} (h : l.token = l'.token) : l = l' := by
  cases l <;> cases l' <;> cases h <;> rfl

theorem noScript_of_startsOperand {t : Token} (h : t.startsOperand = true) (r : List Token) :
    NoScript (t :: r) := by
  intro side hs
  cases hs
  rw [Token.startsOperand_side] at h
  cases h

theorem noSlash_of_startsOperand {t : Token} (h : t.startsOperand = true) (r : List Token) :
    NoSlash (t :: r) := by
  intro hs
  cases hs
  cases h

theorem NoOperand.noScript (h : NoOperand r) : NoScript r := by
  intro side hs
  rcases h _ hs with he | ⟨fence, he⟩ <;> cases side <;> cases he

theorem NoOperand.noSlash (h : NoOperand r) : NoSlash r := by
  intro hs
  rcases h _ hs with he | ⟨fence, he⟩ <;> cases he

theorem NoOperand.not_startsOperand {t : Token} (h : NoOperand (t :: r)) :
    t.startsOperand = false := by
  rcases h t rfl with rfl | ⟨fence, rfl⟩ <;> rfl

theorem noOperand_nil : NoOperand [] := by
  intro t h
  cases h

theorem noOperand_closing (fence : Fence) (r : List Token) :
    NoOperand (.symbol (.closing fence) :: r) := by
  intro t h
  cases h
  exact .inr ⟨fence, rfl⟩

theorem not_noScript_side (side : ScriptSide) (r : List Token) : ¬ NoScript (side.token :: r) :=
  fun h => h side rfl

theorem noScript_slash (r : List Token) : NoScript (.symbol .slash :: r) := by
  intro side h
  cases side <;> cases h

theorem noScript_sequence (d : List RatioSyntax) (h : NoOperand r) :
    NoScript (sequenceTokens d ++ r) ∧ NoSlash (sequenceTokens d ++ r) := by
  cases d with
  | nil =>
    rw [sequenceTokens, List.nil_append]
    exact ⟨h.noScript, h.noSlash⟩
  | cons q d =>
    obtain ⟨t, rest, hq, ht⟩ := q.tokens_eq_cons
    rw [sequenceTokens, hq, List.cons_append, List.cons_append]
    exact ⟨noScript_of_startsOperand ht _, noSlash_of_startsOperand ht _⟩

mutual

theorem OperandSyntax.tokens_append_inj : ∀ (a b : OperandSyntax) {r r' : List Token},
    a.tokens ++ r = b.tokens ++ r' → a = b ∧ r = r'
  | .leaf l, b, r, r', h => by
    cases b with
    | leaf l' =>
      simp only [OperandSyntax.tokens, List.cons_append, List.nil_append, List.cons.injEq] at h
      exact ⟨by rw [Leaf.token_injective h.1], h.2⟩
    | _ => cases l <;> simp [OperandSyntax.tokens, Leaf.token] at h
  | .words content, b, r, r', h => by
    cases b with
    | leaf l => cases l <;> simp [OperandSyntax.tokens, Leaf.token] at h
    | words content' =>
      simp only [OperandSyntax.tokens, List.cons_append, List.nil_append, List.cons.injEq,
        Token.text.injEq] at h
      obtain ⟨-, rfl, rfl⟩ := h
      exact ⟨rfl, rfl⟩
    | _ => simp [OperandSyntax.tokens] at h
  | .group opening closing content, b, r, r', h => by
    cases b with
    | leaf l => cases l <;> simp [OperandSyntax.tokens, Leaf.token] at h
    | group opening' closing' content' =>
      simp only [OperandSyntax.tokens, List.cons_append, List.append_assoc, List.nil_append,
        List.cons.injEq, Token.symbol.injEq, Symbol.opening.injEq] at h
      obtain ⟨rfl, hcontent⟩ := h
      obtain ⟨rfl, hclosing⟩ := sequenceTokens_append_inj content content' (noOperand_closing _ _)
        (noOperand_closing _ _) hcontent
      simp only [List.cons.injEq, Token.symbol.injEq, Symbol.closing.injEq] at hclosing
      obtain ⟨rfl, rfl⟩ := hclosing
      exact ⟨rfl, rfl⟩
    | _ => simp [OperandSyntax.tokens] at h
  | .unary f operand, b, r, r', h => by
    cases b with
    | leaf l => cases l <;> simp [OperandSyntax.tokens, Leaf.token] at h
    | unary f' operand' =>
      simp only [OperandSyntax.tokens, List.cons_append, List.cons.injEq, Token.symbol.injEq,
        Symbol.unary.injEq] at h
      obtain ⟨rfl, hoperand⟩ := h
      obtain ⟨rfl, rfl⟩ := operand.tokens_append_inj operand' hoperand
      exact ⟨rfl, rfl⟩
    | _ => simp [OperandSyntax.tokens] at h
  | .binary f first second, b, r, r', h => by
    cases b with
    | leaf l => cases l <;> simp [OperandSyntax.tokens, Leaf.token] at h
    | binary f' first' second' =>
      simp only [OperandSyntax.tokens, List.cons_append, List.append_assoc, List.cons.injEq,
        Token.symbol.injEq, Symbol.binary.injEq] at h
      obtain ⟨rfl, hfirst⟩ := h
      obtain ⟨rfl, hsecond⟩ := first.tokens_append_inj first' hfirst
      obtain ⟨rfl, rfl⟩ := second.tokens_append_inj second' hsecond
      exact ⟨rfl, rfl⟩
    | _ => simp [OperandSyntax.tokens] at h
  | .color name operand, b, r, r', h => by
    cases b with
    | leaf l => cases l <;> simp [OperandSyntax.tokens, Leaf.token] at h
    | color name' operand' =>
      simp only [OperandSyntax.tokens, List.cons_append, List.cons.injEq, Token.text.injEq] at h
      obtain ⟨-, rfl, hoperand⟩ := h
      obtain ⟨rfl, rfl⟩ := operand.tokens_append_inj operand' hoperand
      exact ⟨rfl, rfl⟩
    | _ => simp [OperandSyntax.tokens] at h

/-- The base comes first; then one token tells whether a script follows. -/
theorem TermSyntax.tokens_append_inj : ∀ (a b : TermSyntax) {r r' : List Token},
    NoScript r → NoScript r' → a.tokens ++ r = b.tokens ++ r' → a = b ∧ r = r'
  | .bare base, b, r, r', hr, hr', h => by
    cases b with
    | bare base' =>
      rw [TermSyntax.tokens, TermSyntax.tokens] at h
      obtain ⟨rfl, rfl⟩ := base.tokens_append_inj base' h
      exact ⟨rfl, rfl⟩
    | one base' side script =>
      rw [TermSyntax.tokens, TermSyntax.tokens, List.append_assoc] at h
      obtain ⟨rfl, rfl⟩ := base.tokens_append_inj base' h
      exact absurd hr (not_noScript_side side _)
    | two base' side first second =>
      rw [TermSyntax.tokens, TermSyntax.tokens, List.append_assoc] at h
      obtain ⟨rfl, rfl⟩ := base.tokens_append_inj base' h
      exact absurd hr (not_noScript_side side _)
  | .one base side script, b, r, r', hr, hr', h => by
    cases b with
    | bare base' =>
      rw [TermSyntax.tokens, TermSyntax.tokens, List.append_assoc] at h
      obtain ⟨rfl, rfl⟩ := base.tokens_append_inj base' h
      exact absurd hr' (not_noScript_side side _)
    | one base' side' script' =>
      simp only [TermSyntax.tokens, List.append_assoc, List.cons_append] at h
      obtain ⟨rfl, hsigns⟩ := base.tokens_append_inj base' h
      obtain ⟨hside, hscript⟩ := List.cons.inj hsigns
      obtain rfl := ScriptSide.token_injective hside
      obtain ⟨rfl, rfl⟩ := script.tokens_append_inj script' hscript
      exact ⟨rfl, rfl⟩
    | two base' side' first second =>
      simp only [TermSyntax.tokens, List.append_assoc, List.cons_append] at h
      obtain ⟨rfl, hsigns⟩ := base.tokens_append_inj base' h
      obtain ⟨-, hscript⟩ := List.cons.inj hsigns
      obtain ⟨rfl, rfl⟩ := script.tokens_append_inj first hscript
      exact absurd hr (not_noScript_side side'.other _)
  | .two base side first second, b, r, r', hr, hr', h => by
    cases b with
    | bare base' =>
      rw [TermSyntax.tokens, TermSyntax.tokens, List.append_assoc] at h
      obtain ⟨rfl, rfl⟩ := base.tokens_append_inj base' h
      exact absurd hr' (not_noScript_side side _)
    | one base' side' script =>
      simp only [TermSyntax.tokens, List.append_assoc, List.cons_append] at h
      obtain ⟨rfl, hsigns⟩ := base.tokens_append_inj base' h
      obtain ⟨-, hscript⟩ := List.cons.inj hsigns
      obtain ⟨rfl, rfl⟩ := first.tokens_append_inj script hscript
      exact absurd hr' (not_noScript_side side.other _)
    | two base' side' first' second' =>
      simp only [TermSyntax.tokens, List.append_assoc, List.cons_append] at h
      obtain ⟨rfl, hsigns⟩ := base.tokens_append_inj base' h
      obtain ⟨hside, hfirst⟩ := List.cons.inj hsigns
      obtain rfl := ScriptSide.token_injective hside
      obtain ⟨rfl, hsigns'⟩ := first.tokens_append_inj first' hfirst
      obtain ⟨-, hsecond⟩ := List.cons.inj hsigns'
      obtain ⟨rfl, rfl⟩ := second.tokens_append_inj second' hsecond
      exact ⟨rfl, rfl⟩

/-- The numerator comes first; then one token tells whether a denominator follows. -/
theorem RatioSyntax.tokens_append_inj : ∀ (a b : RatioSyntax) {r r' : List Token},
    NoScript r → NoScript r' → NoSlash r → NoSlash r' → a.tokens ++ r = b.tokens ++ r' →
      a = b ∧ r = r'
  | .term t, b, r, r', hr, hr', hs, hs', h => by
    cases b with
    | term t' =>
      rw [RatioSyntax.tokens, RatioSyntax.tokens] at h
      obtain ⟨rfl, rfl⟩ := t.tokens_append_inj t' hr hr' h
      exact ⟨rfl, rfl⟩
    | divided numerator denominator =>
      rw [RatioSyntax.tokens, RatioSyntax.tokens, List.append_assoc] at h
      obtain ⟨rfl, rfl⟩ := t.tokens_append_inj numerator hr (noScript_slash _) h
      exact absurd rfl hs
  | .divided numerator denominator, b, r, r', hr, hr', hs, hs', h => by
    cases b with
    | term t =>
      rw [RatioSyntax.tokens, RatioSyntax.tokens, List.append_assoc] at h
      obtain ⟨rfl, rfl⟩ := numerator.tokens_append_inj t (noScript_slash _) hr' h
      exact absurd rfl hs'
    | divided numerator' denominator' =>
      simp only [RatioSyntax.tokens, List.append_assoc, List.cons_append] at h
      obtain ⟨rfl, hslash⟩ :=
        numerator.tokens_append_inj numerator' (noScript_slash _) (noScript_slash _) h
      obtain ⟨-, hdenominator⟩ := List.cons.inj hslash
      obtain ⟨rfl, rfl⟩ := denominator.tokens_append_inj denominator' hr hr' hs hs' hdenominator
      exact ⟨rfl, rfl⟩

theorem sequenceTokens_append_inj : ∀ (a b : List RatioSyntax) {r r' : List Token},
    NoOperand r → NoOperand r' → sequenceTokens a ++ r = sequenceTokens b ++ r' → a = b ∧ r = r'
  | [], [], r, r', hr, hr', h => by
    rw [sequenceTokens] at h
    exact ⟨rfl, h⟩
  | [], q :: b, r, r', hr, hr', h => by
    obtain ⟨t, rest, hq, ht⟩ := q.tokens_eq_cons
    rw [sequenceTokens, sequenceTokens, hq, List.nil_append] at h
    subst h
    exact absurd ht (by rw [hr.not_startsOperand]; exact Bool.false_ne_true)
  | q :: a, [], r, r', hr, hr', h => by
    obtain ⟨t, rest, hq, ht⟩ := q.tokens_eq_cons
    rw [sequenceTokens, sequenceTokens, hq, List.nil_append] at h
    subst h
    exact absurd ht (by rw [hr'.not_startsOperand]; exact Bool.false_ne_true)
  | q :: a, q' :: b, r, r', hr, hr', h => by
    rw [sequenceTokens, sequenceTokens, List.append_assoc, List.append_assoc] at h
    obtain ⟨hscript, hslash⟩ := noScript_sequence a hr
    obtain ⟨hscript', hslash'⟩ := noScript_sequence b hr'
    obtain ⟨rfl, hrest⟩ := q.tokens_append_inj q' hscript hscript' hslash hslash' h
    obtain ⟨rfl, rfl⟩ := sequenceTokens_append_inj a b hr hr' hrest
    exact ⟨rfl, rfl⟩

end

/-- **A list of tokens has one derivation at most.** -/
theorem sequenceTokens_injective {a b : List RatioSyntax}
    (h : sequenceTokens a = sequenceTokens b) : a = b :=
  (sequenceTokens_append_inj a b noOperand_nil noOperand_nil (by rw [h])).1

end MathMarkup.Formula
