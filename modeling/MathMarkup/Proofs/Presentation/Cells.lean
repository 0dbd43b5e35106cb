import MathMarkup.Proofs.Presentation.MatrixShape

/-!
# Where the cells of a matrix come from

A matrix takes its rows from the brackets in a group and cuts them into cells. It makes up no nodes.

* `InnerNode` — a node in one of the bracketed groups among some nodes.

Principal result: `ofGroup_cases` — a group is shown as a matrix of its inner nodes or as it stands.
-/

namespace MathMarkup.Presentation

variable {node : Node} {nodes piece row : List Node}

/-- A node in one of the bracketed groups among some nodes. -/
def InnerNode (nodes : List Node) (node : Node) : Prop :=
  ∃ opening closing content, Node.fenced opening closing content ∈ nodes ∧ node ∈ content

theorem mem_of_mem_bracketed (h : row ∈ bracketed nodes) :
    ∃ opening closing, Node.fenced opening closing row ∈ nodes := by
  obtain ⟨group, hgroup, hrow⟩ := List.mem_filterMap.1 h
  split at hrow
  · next opening closing content =>
    obtain rfl := Option.some.inj hrow
    exact ⟨opening, closing, hgroup⟩
  · cases hrow

theorem mem_of_mem_cellsOf (h : piece ∈ cellsOf row) (hn : node ∈ piece) : node ∈ row :=
  mem_of_mem_splitAtCommas (List.mem_filter.1 h).1 hn

/-- Only empty cells are added to a first row. -/
theorem mem_of_mem_fillFirst {rows : List (List (List Node))} {cells : List (List Node)}
    (h : cells ∈ fillFirst rows) (hp : piece ∈ cells) (hn : node ∈ piece) :
    ∃ row ∈ rows, piece ∈ row := by
  unfold fillFirst at h
  split at h
  · rename_i first second others
    rcases List.mem_cons.1 h with rfl | h
    · rcases List.mem_append.1 hp with hp | hp
      · exact ⟨first, List.mem_cons_self, hp⟩
      · rw [List.eq_of_mem_replicate hp] at hn
        cases hn
    · exact ⟨cells, List.mem_cons_of_mem _ h, hp⟩
  · exact ⟨cells, h, hp⟩

/-- **A matrix consists of the brackets of its group and of inner nodes of its content.** -/
theorem matrix?_eq_some {opening closing : Option String} {content : List Node}
    (h : Node.matrix? opening closing content = some node) :
    ∃ rows lines, node = .matrix opening closing rows lines ∧
      ∀ row ∈ rows, ∀ cell ∈ row, ∀ inner ∈ cell, InnerNode content inner := by
  obtain ⟨-, rfl⟩ := matrix?_eq_some_iff.1 h
  refine ⟨_, _, rfl, ?_⟩
  intro row hrow cell hcell inner hinner
  obtain ⟨row', hrow', hcell'⟩ := mem_of_mem_fillFirst hrow hcell hinner
  obtain ⟨source, hsource, rfl⟩ := List.mem_map.1 hrow'
  obtain ⟨opening', closing', hm⟩ := mem_of_mem_bracketed hsource
  exact ⟨opening', closing', source, hm, mem_of_mem_cellsOf hcell' hinner⟩

/-- A group is shown as a matrix of its inner nodes or as it stands. -/
theorem ofGroup_cases (opening closing : Option String) (content : List Node) :
    (∃ rows lines, Node.ofGroup opening closing content = .matrix opening closing rows lines ∧
      ∀ row ∈ rows, ∀ cell ∈ row, ∀ inner ∈ cell, InnerNode content inner) ∨
    Node.ofGroup opening closing content = .fenced opening closing content := by
  unfold Node.ofGroup
  cases h : Node.matrix? opening closing content with
  | none => exact .inr rfl
  | some node => exact .inl (matrix?_eq_some h)

end MathMarkup.Presentation
