import MathMarkup.Presentation.Typeset
import MathMarkup.Proofs.Formula.Syntax
import MathMarkup.Proofs.Presentation.Texts

/-!
# The texts of a formula come from its tokens

* `Symbol.glyphs` — the glyphs of a symbol.
* `Token.Holds p q` — the payload of a token has a property: its glyphs `p`, its verbatim text `q`.

Principal result: `holds_sequence` — whatever is derived from tokens is shown with the texts of these
tokens alone.
-/

namespace MathMarkup.Formula

open MathMarkup.Presentation

variable {p q : String → Prop}

/-- The glyphs of a symbol. -/
def Symbol.glyphs : Symbol → List String
  | sign (.identifier glyph) => [glyph]
  | sign (.operator glyph) => [glyph]
  | sign (.largeOperator glyph) => [glyph]
  | sign (.word written) => [written]
  | opening fence => fence.openingGlyph.toList
  | closing fence => fence.closingGlyph.toList
  | unary (.accent glyph _) => [glyph]
  | unary (.brace glyph _) => [glyph]
  | unary (.delimit left right) => [left, right]
  | _ => []

/-- What a token is shown with has one property if it is written as it stands, and another one if it is
escaped. -/
def Token.Holds (p q : String → Prop) : Token → Prop
  | endOfInput => True
  | number digits => p digits
  | letter c => p (String.singleton c)
  | text content => q content
  | symbol s => ∀ g ∈ s.glyphs, p g

/-! ## Symbols and their operands -/

theorem Leaf.holds_node {l : Leaf} (h : l.token.Holds p q) : l.node.Holds p q := by
  rw [Node.holds_iff]
  cases l with
  | number digits =>
    have hd : p digits := h
    simpa [Leaf.node, Node.glyphs, Node.plainTexts, Node.children] using hd
  | letter c =>
    have hc : p (String.singleton c) := h
    simpa [Leaf.node, Node.glyphs, Node.plainTexts, Node.children] using hc
  | text content =>
    have hcontent : q content := h
    simpa [Leaf.node, Node.glyphs, Node.plainTexts, Node.children] using hcontent
  | sign s =>
    have hg : ∀ g ∈ (Symbol.sign s).glyphs, p g := h
    cases s <;> simpa [Leaf.node, Node.glyphs, Node.plainTexts, Node.children, Symbol.glyphs] using hg

theorem holds_operator {glyph : String} (h : p glyph) : (Node.operator glyph).Holds p q :=
  Node.holds_iff.2 (by simpa [Node.glyphs, Node.plainTexts, Node.children] using h)

theorem holds_decorate {base mark : Node} (hb : base.Holds p q) (hm : mark.Holds p q)
    (side : Side) : (decorate base mark side).Holds p q := by
  rw [Node.holds_iff]
  cases side <;> simp [decorate, Node.glyphs, Node.plainTexts, Node.children, hb, hm]

theorem Unary.holds_node {f : Unary} (hf : ∀ g ∈ (Symbol.unary f).glyphs, p g) {operand : Node}
    (h : operand.Holds p q) : (f.node operand).Holds p q := by
  have hu := h.unfenced
  cases f with
  | accent glyph side => exact holds_decorate hu (holds_operator (hf _ List.mem_cons_self)) side
  | brace glyph side => exact holds_decorate hu (holds_operator (hf _ List.mem_cons_self)) side
  | delimit left right =>
    rw [Unary.node, Node.holds_iff]
    simpa [Node.glyphs, Node.plainTexts, Node.children, Symbol.glyphs, hu] using hf
  | squareRoot =>
    rw [Unary.node, Node.holds_iff]
    simp [Node.glyphs, Node.plainTexts, Node.children, hu]
  | cancel =>
    rw [Unary.node, Node.holds_iff]
    simp [Node.glyphs, Node.plainTexts, Node.children, hu]
  | style variant =>
    rw [Unary.node, Node.holds_iff]
    simp [Node.glyphs, Node.plainTexts, Node.children, hu]

theorem holds_fraction {numerator denominator : Node} (hn : numerator.Holds p q)
    (hd : denominator.Holds p q) : (Node.fraction numerator denominator).Holds p q :=
  Node.holds_iff.2 (by simp [Node.glyphs, Node.plainTexts, Node.children, hn, hd])

theorem holds_colored {color : String} {content : Node} (hc : q color) (h : content.Holds p q) :
    (Node.colored color content).Holds p q :=
  Node.holds_iff.2 (by simp [Node.glyphs, Node.plainTexts, Node.children, hc, h])

theorem Binary.holds_node (f : Binary) {first second : Node} (h1 : first.Holds p q)
    (h2 : second.Holds p q) : (f.node first second).Holds p q := by
  cases f with
  | fraction => exact holds_fraction h1.unfenced h2.unfenced
  | root =>
    rw [Binary.node, Node.holds_iff]
    simp [Node.glyphs, Node.plainTexts, Node.children, h1.inRow, h2.inRow]
  | overset => exact holds_decorate h2.inRow h1.inRow .above
  | underset => exact holds_decorate h2.inRow h1.inRow .below

theorem holds_attachScripts {base : Node} {sub sup : Option Node} (placement : Placement)
    (hb : base.Holds p q) (hsub : ∀ n ∈ sub, n.Holds p q) (hsup : ∀ n ∈ sup, n.Holds p q) :
    (attachScripts base sub sup placement).Holds p q := by
  have scripts : ∀ {sub sup : Option Node}, (∀ n ∈ sub, n.Holds p q) → (∀ n ∈ sup, n.Holds p q) →
      ∀ placement, (Node.scripts base sub sup placement).Holds p q := by
    intro sub sup hsub hsup placement
    rw [Node.holds_iff]
    refine ⟨⟨by simp [Node.glyphs], by simp [Node.plainTexts]⟩, List.forall_mem_cons.2 ⟨hb, ?_⟩⟩
    exact List.forall_mem_append.2 ⟨by simpa using hsub, by simpa using hsup⟩
  have unfenced : ∀ {script : Option Node}, (∀ n ∈ script, n.Holds p q) →
      ∀ n ∈ script.map Node.unfenced, n.Holds p q := by
    intro script h n hn
    obtain ⟨m, hm, rfl⟩ := Option.map_eq_some_iff.1 hn
    exact (h m hm).unfenced
  unfold attachScripts
  split
  · exact scripts hsub hsup _
  · exact scripts (unfenced hsub) (unfenced hsup) _

theorem Term.holds_withScript {base script : Operand} (hb : base.node.Holds p q)
    (hs : script.node.Holds p q) (side : ScriptSide) :
    (Term.withScript base script side).node.Holds p q := by
  cases side with
  | lower => exact holds_attachScripts _ hb (by simpa using hs) (by simp)
  | upper => exact holds_attachScripts _ hb (by simp) (by simpa using hs)

theorem Term.holds_withScripts {base first second : Operand} (hb : base.node.Holds p q)
    (h1 : first.node.Holds p q) (h2 : second.node.Holds p q) (side : ScriptSide) :
    (Term.withScripts base first second side).node.Holds p q := by
  cases side with
  | lower => exact holds_attachScripts _ hb (by simpa using h1) (by simpa using h2)
  | upper => exact holds_attachScripts _ hb (by simpa using h2) (by simpa using h1)

/-! ## Derivations -/

mutual

theorem OperandSyntax.holds_node : ∀ d : OperandSyntax, (∀ t ∈ d.tokens, t.Holds p q) →
    d.operand.node.Holds p q
  | .leaf l, h => by
    rw [OperandSyntax.tokens] at h
    rw [OperandSyntax.operand, Operand.node]
    exact Leaf.holds_node (h _ List.mem_cons_self)
  | .words content, h => by
    rw [OperandSyntax.tokens] at h
    have hcontent : q content := h (.text content) (by simp)
    rw [OperandSyntax.operand, Operand.node, Node.holds_iff]
    simpa [Node.glyphs, Node.plainTexts, Node.children] using hcontent
  | .group opening closing content, h => by
    rw [OperandSyntax.tokens, List.forall_mem_cons, List.forall_mem_append] at h
    obtain ⟨ho, hcontent, hc⟩ := h
    rw [OperandSyntax.operand, Operand.node]
    refine Node.holds_ofGroup ?_ ?_ (holds_sequence content hcontent)
    · exact fun g hg => ho g (Option.mem_toList.2 hg)
    · exact fun g hg => hc _ List.mem_cons_self g (Option.mem_toList.2 hg)
  | .unary f operand, h => by
    rw [OperandSyntax.tokens, List.forall_mem_cons] at h
    rw [OperandSyntax.operand, Operand.node]
    exact Unary.holds_node h.1 (operand.holds_node h.2)
  | .binary f first second, h => by
    rw [OperandSyntax.tokens, List.forall_mem_cons, List.forall_mem_append] at h
    rw [OperandSyntax.operand, Operand.node]
    exact f.holds_node (first.holds_node h.2.1) (second.holds_node h.2.2)
  | .color name operand, h => by
    rw [OperandSyntax.tokens, List.forall_mem_cons, List.forall_mem_cons] at h
    rw [OperandSyntax.operand, Operand.node]
    exact holds_colored h.2.1 (operand.holds_node h.2.2).unfenced

theorem TermSyntax.holds_node : ∀ d : TermSyntax, (∀ t ∈ d.tokens, t.Holds p q) →
    d.term.node.Holds p q
  | .bare base, h => by
    rw [TermSyntax.tokens] at h
    rw [TermSyntax.term, Term.node]
    exact base.holds_node h
  | .one base side script, h => by
    rw [TermSyntax.tokens, List.forall_mem_append, List.forall_mem_cons] at h
    rw [TermSyntax.term]
    exact Term.holds_withScript (base.holds_node h.1) (script.holds_node h.2.2) side
  | .two base side first second, h => by
    rw [TermSyntax.tokens, List.forall_mem_append, List.forall_mem_cons, List.forall_mem_append,
      List.forall_mem_cons] at h
    obtain ⟨hb, -, h1, -, h2⟩ := h
    rw [TermSyntax.term]
    exact Term.holds_withScripts (base.holds_node hb) (first.holds_node h1)
      (second.holds_node h2) side

theorem RatioSyntax.holds_node : ∀ d : RatioSyntax, (∀ t ∈ d.tokens, t.Holds p q) →
    d.ratio.node.Holds p q
  | .term t, h => by
    rw [RatioSyntax.tokens] at h
    rw [RatioSyntax.ratio, Ratio.node]
    exact t.holds_node h
  | .divided numerator denominator, h => by
    rw [RatioSyntax.tokens, List.forall_mem_append, List.forall_mem_cons] at h
    rw [RatioSyntax.ratio, Ratio.node]
    exact holds_fraction (numerator.holds_node h.1).unfenced (denominator.holds_node h.2.2).unfenced

/-- **What is derived from tokens is shown with the texts of these tokens.** -/
theorem holds_sequence : ∀ d : List RatioSyntax, (∀ t ∈ sequenceTokens d, t.Holds p q) →
    ∀ n ∈ typeset (expressionOf d), n.Holds p q
  | [], _ => by
    rw [expressionOf, typeset]
    exact List.forall_mem_nil _
  | d :: rest, h => by
    rw [sequenceTokens, List.forall_mem_append] at h
    rw [expressionOf, typeset]
    exact List.forall_mem_cons.2 ⟨d.holds_node h.1, holds_sequence rest h.2⟩

end

end MathMarkup.Formula
