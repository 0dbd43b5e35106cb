import MathMarkup.Presentation.Node

/-!
# The parts of a node

* `Node.children` — the nodes that stand in a node, and in no other node in it.
* `Part` — a node itself, and the parts of its children.

Principal results: `Node.induction_children` — a property holds of all nodes if every node has it from its
children; `Node.forall_part_iff` — what holds of all parts of a node.
-/

namespace MathMarkup.Presentation

namespace Node

/-- The nodes that stand in a node. -/
def children : Node → List Node
  | number _ => []
  | identifier _ => []
  | operator _ => []
  | text _ => []
  | spacedText _ => []
  | row content => content
  | fenced _ _ content => content
  | delimited _ _ content => [content]
  | scripts base sub sup _ => base :: (sub.toList ++ sup.toList)
  | fraction numerator denominator => [numerator, denominator]
  | root index radicand => radicand :: index.toList
  | decorated base above below => base :: (below.toList ++ above.toList)
  | struck content => [content]
  | styled _ content => [content]
  | colored _ content => [content]
  | matrix _ _ rows _ => rows.flatten.flatten

theorem sizeOf_lt_of_mem_toList {node : Node} {optional : Option Node}
    (h : node ∈ optional.toList) : sizeOf node < sizeOf optional := by
  rw [Option.mem_toList] at h
  cases h
  simp

/-- A node is larger than its children. -/
theorem sizeOf_lt_of_mem_children {node child : Node} (h : child ∈ node.children) :
    sizeOf child < sizeOf node := by
  cases node with
  | number written => cases h
  | identifier written => cases h
  | operator written => cases h
  | text content => cases h
  | spacedText written => cases h
  | row content =>
    rw [children] at h
    have := List.sizeOf_lt_of_mem h
    simp only [row.sizeOf_spec]
    omega
  | fenced opening closing content =>
    rw [children] at h
    have := List.sizeOf_lt_of_mem h
    simp only [fenced.sizeOf_spec]
    omega
  | delimited opening closing content =>
    rw [List.mem_singleton.1 h]
    simp only [delimited.sizeOf_spec]
    omega
  | scripts base sub sup placement =>
    simp only [scripts.sizeOf_spec]
    rcases List.mem_cons.1 h with rfl | h
    · omega
    rcases List.mem_append.1 h with h | h
    · have := sizeOf_lt_of_mem_toList h
      omega
    · have := sizeOf_lt_of_mem_toList h
      omega
  | fraction numerator denominator =>
    simp only [fraction.sizeOf_spec]
    rcases List.mem_cons.1 h with rfl | h
    · omega
    · rw [List.mem_singleton.1 h]
      omega
  | root index radicand =>
    simp only [root.sizeOf_spec]
    rcases List.mem_cons.1 h with rfl | h
    · omega
    · have := sizeOf_lt_of_mem_toList h
      omega
  | decorated base above below =>
    simp only [decorated.sizeOf_spec]
    rcases List.mem_cons.1 h with rfl | h
    · omega
    rcases List.mem_append.1 h with h | h
    · have := sizeOf_lt_of_mem_toList h
      omega
    · have := sizeOf_lt_of_mem_toList h
      omega
  | struck content =>
    rw [List.mem_singleton.1 h]
    simp only [struck.sizeOf_spec]
    omega
  | styled variant content =>
    rw [List.mem_singleton.1 h]
    simp only [styled.sizeOf_spec]
    omega
  | colored color content =>
    rw [List.mem_singleton.1 h]
    simp only [colored.sizeOf_spec]
    omega
  | matrix opening closing rows lines =>
    obtain ⟨cell, hcell, hchild⟩ := List.mem_flatten.1 h
    obtain ⟨row, hrow, hcell⟩ := List.mem_flatten.1 hcell
    have h1 := List.sizeOf_lt_of_mem hchild
    have h2 := List.sizeOf_lt_of_mem hcell
    have h3 := List.sizeOf_lt_of_mem hrow
    simp only [matrix.sizeOf_spec]
    omega

/-- **A property holds of all nodes if every node has it from its children.** -/
theorem induction_children {motive : Node → Prop}
    (step : ∀ node, (∀ child ∈ node.children, motive child) → motive node) (node : Node) :
    motive node :=
  step node fun child _ => induction_children step child
termination_by sizeOf node
decreasing_by exact sizeOf_lt_of_mem_children ‹_›

end Node

/-- A node is a part of itself, and a part of a child is a part of a node. -/
inductive Part (node : Node) : Node → Prop
  | refl : Part node node
  | child {whole child : Node} : child ∈ whole.children → Part node child → Part node whole

/-- **What holds of all parts of a node** holds of the node and of all parts of its children. -/
theorem Node.forall_part_iff {p : Node → Prop} {node : Node} :
    (∀ part, Part part node → p part) ↔
      p node ∧ ∀ child ∈ node.children, ∀ part, Part part child → p part := by
  constructor
  · intro h
    exact ⟨h node .refl, fun child hc part hp => h part (.child hc hp)⟩
  · rintro ⟨hn, hchildren⟩ part hp
    cases hp with
    | refl => exact hn
    | child hc hp => exact hchildren _ hc part hp

end MathMarkup.Presentation
