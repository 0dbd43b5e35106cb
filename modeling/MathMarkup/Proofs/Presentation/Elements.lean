import MathMarkup.Presentation.Elements

/-!
# How many elements show a node

* `Node.isDelimited` — content between two operators.

Principal result: `Node.length_elements_eq_one_iff` — a node is shown as one element unless it is content
between two operators, which is shown as three or more.
-/

namespace MathMarkup.Presentation

open MathMarkup.Markup

/-! ## Elements of several nodes -/

theorem sequenceElements_eq_flatMap (content : List Node) :
    sequenceElements content = content.flatMap Node.elements := by
  induction content with
  | nil => rw [sequenceElements, List.flatMap_nil]
  | cons node rest ih => rw [sequenceElements, List.flatMap_cons, ih]

theorem forall_mem_sequenceElements {p : Element → Prop} {content : List Node} :
    (∀ e ∈ sequenceElements content, p e) ↔ ∀ node ∈ content, ∀ e ∈ node.elements, p e := by
  rw [sequenceElements_eq_flatMap, List.forall_mem_flatMap]

theorem optionalElements_eq_flatMap (optional : Option Node) :
    optionalElements optional = optional.toList.flatMap Node.elements := by
  cases optional with
  | none => rw [optionalElements, Option.toList_none, List.flatMap_nil]
  | some node => rw [optionalElements, Option.toList_some, List.flatMap_singleton]

theorem cellElements_eq_map (row : List (List Node)) :
    cellElements row = row.map fun cell => .node .mtd [] (sequenceElements cell) := by
  induction row with
  | nil => rw [cellElements, List.map_nil]
  | cons cell rest ih => rw [cellElements, List.map_cons, ih]

theorem rowElements_eq_map (rows : List (List (List Node))) :
    rowElements rows = rows.map fun row => .node .mtr [] (cellElements row) := by
  induction rows with
  | nil => rw [rowElements, List.map_nil]
  | cons row rest ih => rw [rowElements, List.map_cons, ih]

/-! ## Elements of one node -/

namespace Node

/-- Content between two operators. -/
def isDelimited : Node → Bool
  | delimited _ _ _ => true
  | _ => false

theorem exists_elements_eq_singleton {node : Node} (h : node.isDelimited = false) :
    ∃ e, node.elements = [e] := by
  cases node with
  | delimited opening closing content => cases h
  | root index radicand => cases index <;> exact ⟨_, by rw [elements]⟩
  | _ => exact ⟨_, by rw [elements]⟩

theorem length_elements_pos (node : Node) : 0 < node.elements.length := by
  cases h : node.isDelimited with
  | false =>
    obtain ⟨e, he⟩ := exists_elements_eq_singleton h
    rw [he, List.length_singleton]
    omega
  | true =>
    cases node with
    | delimited opening closing content =>
      rw [elements, List.length_cons]
      omega
    | _ => cases h

theorem three_le_length_elements {node : Node} (h : node.isDelimited = true) :
    3 ≤ node.elements.length := by
  cases node with
  | delimited opening closing content =>
    have := content.length_elements_pos
    rw [elements, List.length_cons, List.length_append, List.length_singleton]
    omega
  | _ => cases h

/-- **A node is shown as one element unless it is content between two operators.** -/
theorem length_elements_eq_one_iff (node : Node) :
    node.elements.length = 1 ↔ node.isDelimited = false := by
  constructor
  · intro hl
    refine eq_false_of_ne_true fun h => ?_
    have := three_le_length_elements h
    omega
  · intro h
    obtain ⟨e, he⟩ := exists_elements_eq_singleton h
    rw [he, List.length_singleton]

theorem elements_ne_nil (node : Node) : node.elements ≠ [] :=
  List.ne_nil_of_length_pos node.length_elements_pos

theorem length_elements_ne_two (node : Node) : node.elements.length ≠ 2 := by
  cases h : node.isDelimited with
  | false =>
    have := (length_elements_eq_one_iff node).2 h
    omega
  | true =>
    have := three_le_length_elements h
    omega

end Node

/-- As many elements as nodes show only nodes that are shown as one element each. -/
theorem length_flatMap_elements (nodes : List Node) :
    nodes.length ≤ (nodes.flatMap Node.elements).length ∧
      ((nodes.flatMap Node.elements).length = nodes.length ↔
        ∀ node ∈ nodes, node.isDelimited = false) := by
  induction nodes with
  | nil => simp
  | cons node rest ih =>
    obtain ⟨hle, hiff⟩ := ih
    have hpos := node.length_elements_pos
    rw [List.flatMap_cons, List.length_append, List.length_cons, List.forall_mem_cons, ← hiff,
      ← node.length_elements_eq_one_iff]
    omega

end MathMarkup.Presentation
