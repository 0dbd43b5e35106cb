import MathMarkup.Proofs.Markup.Filled
import MathMarkup.Proofs.Presentation.Elements
import MathMarkup.Proofs.Presentation.Parts

/-!
# One element for each operand

What the elements in a fraction, a root or a base with scripts mean follows from their places. So each
operand has to be one element.

* `Node.operands` — the nodes with a fixed place in the element of a node.
* `Node.SingleOperands` — no operand in a node is content between two operators.
* `Node.FilledIff` — the elements of a node are filled just in case.

Principal result: `Node.filledIff` — the elements of every node have as many elements in them as their
names fix if and only if its operands are single.
-/

namespace MathMarkup.Presentation

open MathMarkup.Formula MathMarkup.Markup MathMarkup.Markup.Xml

/-- A base by itself has no fixed place, and beside others it has. -/
def beside (base : Node) : List Node → List Node
  | [] => []
  | other :: rest => base :: other :: rest

namespace Node

/-- The nodes with a fixed place. -/
def operands : Node → List Node
  | scripts base sub sup _ => beside base (sub.toList ++ sup.toList)
  | fraction numerator denominator => [numerator, denominator]
  | root index radicand => beside radicand index.toList
  | decorated base above below => beside base (below.toList ++ above.toList)
  | _ => []

/-- No operand of a part is content between two operators. -/
def SingleOperands (node : Node) : Prop :=
  ∀ part, Part part node → ∀ operand ∈ part.operands, operand.isDelimited = false

theorem singleOperands_iff {node : Node} :
    node.SingleOperands ↔
      (∀ operand ∈ node.operands, operand.isDelimited = false) ∧
        ∀ child ∈ node.children, child.SingleOperands :=
  forall_part_iff

/-- The elements of a node are filled, also where a stacked base can stand, if and only if its
operands are single. -/
def FilledIff (node : Node) : Prop :=
  ∀ stacked, allFilled stacked (xmlOf node.elements) = true ↔ node.SingleOperands

end Node

variable {stacked : Bool} {tag : Tag} {attributes : List Attribute} {base : Node}
  {nodes others : List Node}

/-! ## Elements without fixed places -/

theorem allFilled_singleton (e : Element) :
    allFilled stacked (xmlOf [e]) = true ↔ e.xml.isFilled stacked = true := by
  simp [xmlOf, allFilled]

theorem isFilled_leaf {content : CharacterData} (h : operandCount tag.name = none) :
    (Element.leaf tag attributes content).xml.isFilled stacked = true := by
  rw [Element.xml, isFilled, h, allFilled]
  rfl

theorem isFilled_of_mem_fenceElements {bracket : Option String} :
    ∀ e ∈ fenceElements bracket, e.xml.isFilled false = true := by
  cases bracket with
  | none => exact List.forall_mem_nil _
  | some glyph => exact List.forall_mem_singleton.2 (isFilled_leaf rfl)

theorem allFilled_flatMap_iff (h : ∀ node ∈ nodes, node.FilledIff) :
    allFilled false (xmlOf (nodes.flatMap Node.elements)) = true ↔
      ∀ node ∈ nodes, node.SingleOperands := by
  induction nodes with
  | nil => simp [xmlOf, allFilled]
  | cons node rest ih =>
    rw [List.forall_mem_cons] at h
    rw [List.flatMap_cons, allFilled_append node.elements_ne_nil, h.1, ih h.2, List.forall_mem_cons]

/-- The elements of nodes between brackets. -/
theorem allFilled_sequence_iff {opening closing : Option String}
    (h : ∀ node ∈ nodes, node.FilledIff) :
    allFilled false (xmlOf (fenceElements opening ++
      (sequenceElements nodes ++ fenceElements closing))) = true ↔
      ∀ node ∈ nodes, node.SingleOperands := by
  rw [← allFilled_flatMap_iff h, ← sequenceElements_eq_flatMap, allFilled_false_iff,
    allFilled_false_iff, List.forall_mem_append, List.forall_mem_append]
  constructor
  · rintro ⟨-, hcontent, -⟩
    exact hcontent
  · intro hcontent
    exact ⟨isFilled_of_mem_fenceElements, hcontent, isFilled_of_mem_fenceElements⟩

/-! ## Elements with fixed places -/

/-- An element for a base and others beside it, if its name fixes their number. -/
theorem isFilled_beside_iff (hnone : others = [] → operandCount tag.name = none)
    (hsome : others ≠ [] → operandCount tag.name = some (others.length + 1))
    (h : ∀ node ∈ base :: others, node.FilledIff) :
    (Element.node tag attributes (base.elements ++ others.flatMap Node.elements)).xml.isFilled
        stacked = true ↔
      (∀ operand ∈ beside base others, operand.isDelimited = false) ∧
        ∀ operand ∈ base :: others, operand.SingleOperands := by
  rw [List.forall_mem_cons] at h
  have hcontent : allFilled (takesStackedBase tag.name)
      (xmlOf (base.elements ++ others.flatMap Node.elements)) = true ↔
      ∀ operand ∈ base :: others, operand.SingleOperands := by
    rw [allFilled_append base.elements_ne_nil, h.1, allFilled_flatMap_iff h.2,
      List.forall_mem_cons]
  cases others with
  | nil =>
    rw [isFilled_uncounted_iff (hnone rfl), hcontent, beside]
    simp
  | cons other rest =>
    obtain ⟨hle, hiff⟩ := length_flatMap_elements (base :: other :: rest)
    rw [List.flatMap_cons] at hle hiff
    have hne : (base.elements ++ (other :: rest).flatMap Node.elements).length ≠ 1 := by
      rw [List.length_cons, List.length_cons] at hle
      omega
    rw [isFilled_counted_iff (hsome (List.cons_ne_nil _ _)) hne, hcontent, beside, ← hiff]
    rfl

/-- An element for a base that is stacked in an element of its own, and others beside it. -/
theorem isFilled_stacked_iff (side : Side) (hne : others ≠ [])
    (hcount : operandCount tag.name = some (others.length + 1))
    (hstack : takesStackedBase tag.name = true) (h : ∀ node ∈ base :: others, node.FilledIff) :
    (Element.node tag attributes
        (.node (Side.tag side) [] base.elements :: others.flatMap Node.elements)).xml.isFilled
        stacked = true ↔
      (∀ operand ∈ beside base others, operand.isDelimited = false) ∧
        ∀ operand ∈ base :: others, operand.SingleOperands := by
  rw [List.forall_mem_cons] at h
  have hside : Side.tag side = .munder ∨ Side.tag side = .mover := by cases side <;> simp [Side.tag]
  have hbase : (Element.node (Side.tag side) [] base.elements).xml.isFilled true = true ↔
      base.isDelimited = false ∧ base.SingleOperands := by
    rw [isFilled_stackedBase_iff hside, h.1, ← base.length_elements_eq_one_iff,
      or_iff_right base.length_elements_ne_two]
  obtain ⟨hle, hiff⟩ := length_flatMap_elements others
  cases others with
  | nil => exact absurd rfl hne
  | cons other rest =>
    have hlength : (Element.node (Side.tag side) [] base.elements ::
        (other :: rest).flatMap Node.elements).length ≠ 1 := by
      rw [List.length_cons] at hle ⊢
      omega
    rw [isFilled_counted_iff hcount hlength, hstack, ← List.singleton_append,
      allFilled_append (List.cons_ne_nil _ _), allFilled_singleton, hbase,
      allFilled_flatMap_iff h.2, beside, List.singleton_append, List.length_cons,
      Nat.add_right_cancel_iff, hiff]
    constructor
    · rintro ⟨hothers, ⟨hb, hbs⟩, hs⟩
      exact ⟨List.forall_mem_cons.2 ⟨hb, hothers⟩, List.forall_mem_cons.2 ⟨hbs, hs⟩⟩
    · intro ⟨hd, hs⟩
      rw [List.forall_mem_cons] at hd hs
      exact ⟨hd.2, ⟨hd.1, hs.1⟩, hs.2⟩

/-- The name of the element for a base with scripts fixes a place for the base and each script. -/
theorem operandCount_scriptsTag (sub sup : Option Node) (placement : Placement) :
    (sub.toList ++ sup.toList = [] →
      operandCount (scriptsTag sub.isSome sup.isSome placement).name = none) ∧
    (sub.toList ++ sup.toList ≠ [] →
      operandCount (scriptsTag sub.isSome sup.isSome placement).name =
        some ((sub.toList ++ sup.toList).length + 1)) := by
  cases sub <;> cases sup <;> cases placement <;> simp [scriptsTag, operandCount, Tag.name]

theorem takesStackedBase_scriptsTag {sub sup : Option Node} (side : Side)
    (h : sub.toList ++ sup.toList ≠ []) :
    takesStackedBase (scriptsTag sub.isSome sup.isSome (.stacked side)).name = true := by
  cases sub <;> cases sup <;> simp_all [scriptsTag, takesStackedBase, Tag.name]

theorem operandCount_decorationTag (above below : Option Node) :
    (below.toList ++ above.toList = [] →
      operandCount (decorationTag above.isSome below.isSome).name = none) ∧
    (below.toList ++ above.toList ≠ [] →
      operandCount (decorationTag above.isSome below.isSome).name =
        some ((below.toList ++ above.toList).length + 1)) := by
  cases above <;> cases below <;> simp [decorationTag, operandCount, Tag.name]

/-! ## Nodes -/

theorem stackBase_eq_self {elements : List Element} {hasScript : Bool} {placement : Placement}
    (h : hasScript = false ∨ ∀ side, placement ≠ .stacked side) :
    stackBase elements hasScript placement = elements := by
  unfold stackBase
  split
  · rename_i side
    rcases h with rfl | h
    · rfl
    · exact absurd rfl (h side)
  · rfl

theorem Node.filledIff_scripts {sub sup : Option Node} (placement : Placement)
    (h : ∀ node ∈ base :: (sub.toList ++ sup.toList), node.FilledIff) :
    (scripts base sub sup placement).FilledIff := by
  intro stacked
  have hothers : optionalElements sub ++ optionalElements sup =
      (sub.toList ++ sup.toList).flatMap elements := by
    rw [optionalElements_eq_flatMap, optionalElements_eq_flatMap, List.flatMap_append]
  obtain ⟨hnone, hsome⟩ := operandCount_scriptsTag sub sup placement
  rw [singleOperands_iff, operands, children, elements, allFilled_singleton, hothers]
  by_cases hne : sub.toList ++ sup.toList = []
  · have hscript : (sub.isSome || sup.isSome) = false := by
      cases sub <;> cases sup <;> simp_all
    rw [stackBase_eq_self (.inl hscript), isFilled_beside_iff hnone hsome h]
  · have hscript : (sub.isSome || sup.isSome) = true := by
      cases sub <;> cases sup <;> simp_all
    cases placement with
    | attached => rw [stackBase_eq_self (.inr (by simp)), isFilled_beside_iff hnone hsome h]
    | limits => rw [stackBase_eq_self (.inr (by simp)), isFilled_beside_iff hnone hsome h]
    | stacked side =>
      rw [stackBase, hscript, if_pos rfl, List.singleton_append,
        isFilled_stacked_iff side hne (hsome hne) (takesStackedBase_scriptsTag side hne) h]

/-- A node without a fixed place in it, which is shown as one element. -/
theorem Node.filledIff_of_uncounted {node : Node} {children : List Element}
    (helements : node.elements = [.node tag attributes children]) (hoperands : node.operands = [])
    (hcount : operandCount tag.name = none)
    (h : allFilled (takesStackedBase tag.name) (xmlOf children) = true ↔
      ∀ child ∈ node.children, child.SingleOperands) : node.FilledIff := by
  intro stacked
  rw [singleOperands_iff, hoperands, helements, allFilled_singleton,
    isFilled_uncounted_iff hcount, h]
  simp

theorem Node.filledIff_matrix {opening closing : Option String} {rows : List (List (List Node))}
    (lines : List ColumnLine) (h : ∀ node ∈ rows.flatten.flatten, node.FilledIff) :
    (matrix opening closing rows lines).FilledIff := by
  have hcell : ∀ row ∈ rows, ∀ cell ∈ row,
      (Element.node .mtd [] (sequenceElements cell)).xml.isFilled false = true ↔
        ∀ node ∈ cell, node.SingleOperands := by
    intro row hrow cell hcell
    rw [isFilled_uncounted_iff rfl, sequenceElements_eq_flatMap]
    refine allFilled_flatMap_iff fun node hn => h node ?_
    exact List.mem_flatten.2 ⟨cell, List.mem_flatten.2 ⟨row, hrow, hcell⟩, hn⟩
  have hrow : ∀ row ∈ rows,
      (Element.node .mtr [] (cellElements row)).xml.isFilled false = true ↔
        ∀ cell ∈ row, ∀ node ∈ cell, node.SingleOperands := by
    intro row hrow
    rw [isFilled_uncounted_iff rfl, cellElements_eq_map]
    refine allFilled_false_iff.trans ?_
    rw [List.forall_mem_map]
    exact forall₂_congr fun cell hc => hcell row hrow cell hc
  have htable : (tableElement lines (rowElements rows)).xml.isFilled false = true ↔
      ∀ row ∈ rows, ∀ cell ∈ row, ∀ node ∈ cell, node.SingleOperands := by
    rw [tableElement, isFilled_uncounted_iff rfl, rowElements_eq_map]
    refine allFilled_false_iff.trans ?_
    rw [List.forall_mem_map]
    exact forall₂_congr hrow
  refine filledIff_of_uncounted (by rw [elements]) rfl rfl ?_
  refine allFilled_false_iff.trans ?_
  rw [List.forall_mem_append, List.forall_mem_cons, htable]
  constructor
  · rintro ⟨-, htable, -⟩ node hn
    obtain ⟨cell, hcell, hn⟩ := List.mem_flatten.1 hn
    obtain ⟨row, hrow, hcell⟩ := List.mem_flatten.1 hcell
    exact htable row hrow cell hcell node hn
  · intro hnodes
    refine ⟨isFilled_of_mem_fenceElements, ?_, isFilled_of_mem_fenceElements⟩
    intro row hrow cell hcell node hn
    exact hnodes node (List.mem_flatten.2 ⟨cell, List.mem_flatten.2 ⟨row, hrow, hcell⟩, hn⟩)

theorem Node.filledIff_leaf {node : Node} {content : CharacterData}
    (helements : node.elements = [.leaf tag attributes content]) (hoperands : node.operands = [])
    (hchildren : node.children = []) (hcount : operandCount tag.name = none) :
    node.FilledIff := by
  intro stacked
  rw [singleOperands_iff, hoperands, hchildren, helements, allFilled_singleton]
  simp [isFilled_leaf hcount]

/-- A node with an element around its content, whatever that is. -/
theorem Node.filledIff_around {node content : Node}
    (helements : node.elements = [.node tag attributes content.elements])
    (hoperands : node.operands = []) (hchildren : node.children = [content])
    (hcount : operandCount tag.name = none) (h : content.FilledIff) : node.FilledIff := by
  refine filledIff_of_uncounted helements hoperands hcount ?_
  rw [h, hchildren, List.forall_mem_singleton]

theorem Node.filledIff_beside {node : Node}
    (helements : node.elements =
      [.node tag attributes (base.elements ++ others.flatMap elements)])
    (hoperands : node.operands = beside base others) (hchildren : node.children = base :: others)
    (hnone : others = [] → operandCount tag.name = none)
    (hsome : others ≠ [] → operandCount tag.name = some (others.length + 1))
    (h : ∀ child ∈ base :: others, child.FilledIff) : node.FilledIff := by
  intro stacked
  rw [singleOperands_iff, hoperands, hchildren, helements, allFilled_singleton,
    isFilled_beside_iff hnone hsome h]

theorem Node.filledIff_delimited {opening closing : String} {content : Node}
    (h : content.FilledIff) : (delimited opening closing content).FilledIff := by
  intro stacked
  have hoperands : (delimited opening closing content).operands = [] := rfl
  rw [singleOperands_iff, hoperands, children, elements, ← List.singleton_append,
    allFilled_append (List.cons_ne_nil _ _), allFilled_singleton,
    allFilled_append content.elements_ne_nil, allFilled_singleton, h]
  simp [written, isFilled_leaf (show operandCount Tag.mo.name = none from rfl)]

/-- **The elements of a node have as many elements in them as their names fix if and only if none of its
operands is content between two operators.** -/
theorem Node.filledIff (node : Node) : node.FilledIff := by
  induction node using Node.induction_children with
  | step node ih =>
    cases node with
    | number text => exact filledIff_leaf (by rw [elements, written]) rfl rfl rfl
    | identifier text => exact filledIff_leaf (by rw [elements, written]) rfl rfl rfl
    | operator text => exact filledIff_leaf (by rw [elements, written]) rfl rfl rfl
    | text content => exact filledIff_leaf (by rw [elements]) rfl rfl rfl
    | spacedText text =>
      refine filledIff_of_uncounted (by rw [elements]) rfl rfl ?_
      refine allFilled_false_iff.trans ?_
      rw [List.forall_mem_cons, List.forall_mem_cons, List.forall_mem_singleton]
      simp [children, written, isFilled_leaf (show operandCount Tag.mtext.name = none from rfl)]
      rfl
    | row content =>
      refine filledIff_of_uncounted (by rw [elements]) rfl rfl ?_
      rw [sequenceElements_eq_flatMap]
      exact allFilled_flatMap_iff ih
    | fenced opening closing content =>
      refine filledIff_of_uncounted (by rw [elements]) rfl rfl ?_
      exact allFilled_sequence_iff ih
    | delimited opening closing content => exact filledIff_delimited (ih _ List.mem_cons_self)
    | scripts base sub sup placement => exact filledIff_scripts placement ih
    | fraction numerator denominator =>
      refine filledIff_beside (by rw [elements, List.flatMap_singleton]) rfl rfl ?_ ?_ ih
      · intro h
        cases h
      · intro _
        rfl
    | root index radicand =>
      cases index with
      | none => exact filledIff_around (by rw [elements]) rfl rfl rfl (ih _ List.mem_cons_self)
      | some index =>
        refine filledIff_beside (by rw [elements, Option.toList_some, List.flatMap_singleton]) rfl rfl ?_ ?_ ih
        · intro h
          cases h
        · intro _
          rfl
    | decorated base above below =>
      obtain ⟨hnone, hsome⟩ := operandCount_decorationTag above below
      have helements : (decorated base above below).elements =
          [.node (decorationTag above.isSome below.isSome) []
            (base.elements ++ (below.toList ++ above.toList).flatMap elements)] := by
        rw [elements, optionalElements_eq_flatMap, optionalElements_eq_flatMap, List.flatMap_append]
      exact filledIff_beside helements rfl rfl hnone hsome ih
    | struck content =>
      exact filledIff_around (by rw [elements]) rfl rfl rfl (ih _ List.mem_cons_self)
    | styled variant content =>
      exact filledIff_around (by rw [elements]) rfl rfl rfl (ih _ List.mem_cons_self)
    | colored color content =>
      exact filledIff_around (by rw [elements]) rfl rfl rfl (ih _ List.mem_cons_self)
    | matrix opening closing rows lines => exact filledIff_matrix lines ih

end MathMarkup.Presentation
