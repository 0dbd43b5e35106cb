import MathMarkup.Proofs.Presentation.Cells
import MathMarkup.Proofs.Presentation.Elements
import MathMarkup.Proofs.Presentation.Parts

/-!
# The texts in a node

A node keeps its glyphs in the form in which they are written and its verbatim texts and colours plain.
Its elements show these texts and no others.

* `Node.glyphs`, `Node.plainTexts` — the texts of a node itself.
* `Node.Holds p q` — all glyphs in a node have the property `p`, and all plain texts `q`.
* `Element.Holds p q` — the same of an element that shows a node, and of the elements in it.

Principal results: `Node.Holds.elements` — the elements of a node hold the texts of the node;
`Node.Holds.unfenced`, `Node.Holds.inRow`, `Node.holds_ofGroup` — the forms of operands and the matrix of
a group are made of the texts that were there before.
-/

namespace MathMarkup.Markup

/-! ## Elements -/

/-- The elements that hold character data. -/
def Tag.holdsText : Tag → Bool
  | mi => true
  | mn => true
  | mo => true
  | mtext => true
  | sourceText => true
  | _ => false

/-- An attribute of an element that shows a node. Of these only a colour comes from the formula. -/
def Attribute.Holds (q : String → Prop) : Attribute → Prop
  | upDiagonalStrike => True
  | mathVariant _ => True
  | mathColor color => q color
  | columnLines _ => True
  | _ => False

/-- An element that shows a node, with a property of the glyphs and one of the plain texts. -/
inductive Element.Holds (p q : String → Prop) : Element → Prop
  | glyph {tag : Tag} {text : String} : tag ∈ [.mi, .mn, .mo, .mtext] → p text →
      Holds p q (.leaf tag [] (.written text))
  | plain {text : String} : q text → Holds p q (.leaf .mtext [] (.plain text))
  | node {tag : Tag} {attributes : List Attribute} {children : List Element} :
      tag.holdsText = false → attributes.length ≤ 1 → (∀ a ∈ attributes, a.Holds q) →
      (∀ child ∈ children, child.Holds p q) → Holds p q (.node tag attributes children)
  | space : Holds p q .space

end MathMarkup.Markup

namespace MathMarkup.Presentation

open MathMarkup.Formula MathMarkup.Markup

variable {p q : String → Prop} {node base : Node} {content : List Node}
  {opening closing : Option String}

namespace Node

/-- The texts that are written as they stand. -/
def glyphs : Node → List String
  | number glyph => [glyph]
  | identifier glyph => [glyph]
  | operator glyph => [glyph]
  | spacedText word => [word]
  | fenced opening closing _ => opening.toList ++ closing.toList
  | delimited opening closing _ => [opening, closing]
  | matrix opening closing _ _ => opening.toList ++ closing.toList
  | _ => []

/-- The texts that are escaped when they are written. -/
def plainTexts : Node → List String
  | text content => [content]
  | colored color _ => [color]
  | _ => []

/-- All glyphs in a node have one property and all plain texts have another one. -/
def Holds (p q : String → Prop) (node : Node) : Prop :=
  ∀ part, Part part node → (∀ t ∈ part.glyphs, p t) ∧ ∀ t ∈ part.plainTexts, q t

theorem holds_iff :
    node.Holds p q ↔ ((∀ t ∈ node.glyphs, p t) ∧ ∀ t ∈ node.plainTexts, q t) ∧
      ∀ child ∈ node.children, child.Holds p q :=
  forall_part_iff

/-! ## Nodes that are made of others -/

theorem holds_row (h : ∀ n ∈ content, n.Holds p q) : (row content).Holds p q :=
  holds_iff.2 ⟨⟨by simp [glyphs], by simp [plainTexts]⟩, h⟩

/-- A group and a row hold what the nodes in them hold. -/
theorem Holds.of_fenced (h : (fenced opening closing content).Holds p q) :
    ∀ n ∈ content, n.Holds p q :=
  (holds_iff.1 h).2

theorem Holds.unfenced (h : node.Holds p q) : node.unfenced.Holds p q := by
  unfold Node.unfenced
  split
  · exact holds_row h.of_fenced
  · exact h

theorem Holds.inRow (h : node.Holds p q) : node.inRow.Holds p q := by
  unfold Node.inRow
  split
  · exact holds_row h.of_fenced
  · exact h
  · exact holds_row (by simpa using h)

/-- **A group holds its brackets and its content**, also where it is shown as a matrix. -/
theorem holds_ofGroup (ho : ∀ g ∈ opening, p g) (hc : ∀ g ∈ closing, p g)
    (h : ∀ n ∈ content, n.Holds p q) : (ofGroup opening closing content).Holds p q := by
  have hbrackets : ∀ t ∈ opening.toList ++ closing.toList, p t := by
    intro t ht
    simp only [List.mem_append, Option.mem_toList] at ht
    rcases ht with ht | ht
    · exact ho t ht
    · exact hc t ht
  rcases ofGroup_cases opening closing content with ⟨rows, lines, heq, hinner⟩ | heq
  · rw [heq, holds_iff]
    refine ⟨⟨hbrackets, by simp [plainTexts]⟩, ?_⟩
    intro child hchild
    -- a cell takes its nodes from one of the groups in the content
    obtain ⟨cell, hcell, hchild⟩ := List.mem_flatten.1 hchild
    obtain ⟨row, hrow, hcell⟩ := List.mem_flatten.1 hcell
    obtain ⟨_, _, inner, hfenced, hmem⟩ := hinner row hrow cell hcell child hchild
    exact (h _ hfenced).of_fenced child hmem
  · rw [heq, holds_iff]
    exact ⟨⟨hbrackets, by simp [plainTexts]⟩, h⟩

end Node

/-! ## Elements of nodes -/

/-- An element without attributes. -/
theorem holds_node {tag : Tag} {children : List Element} (ht : tag.holdsText = false)
    (h : ∀ child ∈ children, child.Holds p q) : (Element.node tag [] children).Holds p q :=
  .node ht (by simp) (by simp) h

/-- An element with one attribute. -/
theorem holds_attributed {tag : Tag} {a : Attribute} {children : List Element}
    (ht : tag.holdsText = false) (ha : a.Holds q) (h : ∀ child ∈ children, child.Holds p q) :
    (Element.node tag [a] children).Holds p q :=
  .node ht (by simp) (by simpa using ha) h

theorem holds_written {tag : Tag} {text : String} (ht : tag ∈ [Tag.mi, .mn, .mo, .mtext])
    (h : p text) : (written tag text).Holds p q :=
  .glyph ht h

theorem holds_fenceElements (h : ∀ g ∈ opening.toList, p g) :
    ∀ e ∈ fenceElements opening, e.Holds p q := by
  cases opening with
  | none => simp [fenceElements]
  | some glyph =>
    have hg : p glyph := h glyph (by simp)
    simpa [fenceElements] using holds_written (by simp) hg

theorem holds_optionalElements (optional : Option Node)
    (h : ∀ node ∈ optional.toList, ∀ e ∈ node.elements, e.Holds p q) :
    ∀ e ∈ optionalElements optional, e.Holds p q := by
  intro e he
  rw [optionalElements_eq_flatMap] at he
  obtain ⟨node, hn, he⟩ := List.mem_flatMap.1 he
  exact h node hn e he

theorem holds_tableElement {rows : List (List (List Node))} (lines : List ColumnLine)
    (h : ∀ node ∈ rows.flatten.flatten, ∀ e ∈ node.elements, e.Holds p q) :
    (tableElement lines (rowElements rows)).Holds p q := by
  refine holds_attributed rfl trivial ?_
  intro e he
  rw [rowElements_eq_map] at he
  obtain ⟨row, hrow, rfl⟩ := List.mem_map.1 he
  refine holds_node rfl ?_
  intro e he
  rw [cellElements_eq_map] at he
  obtain ⟨cell, hcell, rfl⟩ := List.mem_map.1 he
  refine holds_node rfl (forall_mem_sequenceElements.2 fun node hn => h node ?_)
  exact List.mem_flatten.2 ⟨cell, List.mem_flatten.2 ⟨row, hrow, hcell⟩, hn⟩

theorem holds_stackBase {elements : List Element} (h : ∀ e ∈ elements, e.Holds p q)
    (hasScript : Bool) (placement : Placement) :
    ∀ e ∈ stackBase elements hasScript placement, e.Holds p q := by
  unfold stackBase
  split
  · rename_i side
    split
    · have hside : (Side.tag side).holdsText = false := by cases side <;> rfl
      simpa using holds_node hside h
    · exact h
  · exact h

theorem holdsText_scriptsTag (hasSub hasSup : Bool) (placement : Placement) :
    (scriptsTag hasSub hasSup placement).holdsText = false := by
  cases hasSub <;> cases hasSup <;> cases placement <;> rfl

theorem holdsText_decorationTag (hasAbove hasBelow : Bool) :
    (decorationTag hasAbove hasBelow).holdsText = false := by
  cases hasAbove <;> cases hasBelow <;> rfl

/-- **The elements of a node hold the texts of the node.** The induction is on the nodes in a node. -/
theorem Node.Holds.elements (h : node.Holds p q) : ∀ e ∈ node.elements, e.Holds p q := by
  induction node using Node.induction_children with
  | step node ih =>
    obtain ⟨⟨hg, hp⟩, hchildren⟩ := holds_iff.1 h
    have inner : ∀ child ∈ node.children, ∀ e ∈ child.elements, e.Holds p q :=
      fun child hm => ih child hm (hchildren child hm)
    cases node with
    | number glyph =>
      have hglyph : p glyph := hg glyph (by simp [glyphs])
      simpa [Node.elements] using holds_written (by simp) hglyph
    | identifier glyph =>
      have hglyph : p glyph := hg glyph (by simp [glyphs])
      simpa [Node.elements] using holds_written (by simp) hglyph
    | operator glyph =>
      have hglyph : p glyph := hg glyph (by simp [glyphs])
      simpa [Node.elements] using holds_written (by simp) hglyph
    | text content =>
      have ht : q content := hp content (by simp [plainTexts])
      simpa [Node.elements] using Element.Holds.plain ht
    | spacedText word =>
      have hword : (written .mtext word).Holds p q := holds_written (by simp) (hg _ (by simp [glyphs]))
      have hrow : (Element.node .mrow [] [.space, written .mtext word, .space]).Holds p q :=
        holds_node rfl (by simp [hword, Element.Holds.space])
      simpa [Node.elements] using hrow
    | row content =>
      rw [Node.elements]
      exact List.forall_mem_singleton.2 (holds_node rfl (forall_mem_sequenceElements.2 inner))
    | fenced opening closing content =>
      obtain ⟨ho, hc⟩ := List.forall_mem_append.1 hg
      have hall := List.forall_mem_append.2 ⟨holds_fenceElements (q := q) ho,
        List.forall_mem_append.2 ⟨forall_mem_sequenceElements.2 inner, holds_fenceElements (q := q) hc⟩⟩
      rw [Node.elements]
      exact List.forall_mem_singleton.2 (holds_node rfl hall)
    | delimited opening closing content =>
      have ho : (written .mo opening).Holds p q := holds_written (by simp) (hg _ (by simp [glyphs]))
      have hc : (written .mo closing).Holds p q := holds_written (by simp) (hg _ (by simp [glyphs]))
      rw [Node.elements]
      exact List.forall_mem_cons.2 ⟨ho, List.forall_mem_append.2
        ⟨inner content (by simp [children]), by simpa using hc⟩⟩
    | scripts base sub sup placement =>
      have hbase := holds_stackBase (inner base (by simp [children]))
        (sub.isSome || sup.isSome) placement
      have hsub := holds_optionalElements sub fun n hn => inner n <| by
        simp only [children, List.mem_cons, List.mem_append]
        exact .inr (.inl hn)
      have hsup := holds_optionalElements sup fun n hn => inner n <| by
        simp only [children, List.mem_cons, List.mem_append]
        exact .inr (.inr hn)
      have hall := List.forall_mem_append.2 ⟨hbase, List.forall_mem_append.2 ⟨hsub, hsup⟩⟩
      have htag := holdsText_scriptsTag sub.isSome sup.isSome placement
      rw [Node.elements]
      exact List.forall_mem_singleton.2 (holds_node htag hall)
    | fraction numerator denominator =>
      have hall := List.forall_mem_append.2 ⟨inner numerator (by simp [children]),
        inner denominator (by simp [children])⟩
      rw [Node.elements]
      exact List.forall_mem_singleton.2 (holds_node rfl hall)
    | root index radicand =>
      have hradicand := inner radicand (by simp [children])
      cases index with
      | none =>
        rw [Node.elements]
        exact List.forall_mem_singleton.2 (holds_node rfl hradicand)
      | some index =>
        have hall := List.forall_mem_append.2 ⟨hradicand, inner index (by simp [children])⟩
        rw [Node.elements]
        exact List.forall_mem_singleton.2 (holds_node rfl hall)
    | decorated base above below =>
      have hbase := inner base (by simp [children])
      have hbelow := holds_optionalElements below fun n hn => inner n <| by
        simp only [children, List.mem_cons, List.mem_append]
        exact .inr (.inl hn)
      have habove := holds_optionalElements above fun n hn => inner n <| by
        simp only [children, List.mem_cons, List.mem_append]
        exact .inr (.inr hn)
      have hall := List.forall_mem_append.2 ⟨hbase, List.forall_mem_append.2 ⟨hbelow, habove⟩⟩
      have htag := holdsText_decorationTag above.isSome below.isSome
      rw [Node.elements]
      exact List.forall_mem_singleton.2 (holds_node htag hall)
    | struck content =>
      have hcontent := inner content (by simp [children])
      rw [Node.elements]
      exact List.forall_mem_singleton.2 (holds_attributed rfl trivial hcontent)
    | styled variant content =>
      have hcontent := inner content (by simp [children])
      rw [Node.elements]
      exact List.forall_mem_singleton.2 (holds_attributed rfl trivial hcontent)
    | colored color content =>
      have hcontent := inner content (by simp [children])
      have hcolor : q color := hp color (by simp [plainTexts])
      rw [Node.elements]
      exact List.forall_mem_singleton.2 (holds_attributed rfl hcolor hcontent)
    | matrix opening closing rows lines =>
      obtain ⟨ho, hc⟩ := List.forall_mem_append.1 hg
      have hall := List.forall_mem_append.2 ⟨holds_fenceElements (q := q) ho,
        List.forall_mem_cons.2 ⟨holds_tableElement lines inner, holds_fenceElements (q := q) hc⟩⟩
      rw [Node.elements]
      exact List.forall_mem_singleton.2 (holds_node rfl hall)

end MathMarkup.Presentation
