import MathMarkup.Presentation.Matrix
import Mathlib.Data.List.Forall2

/-!
# Which groups are matrices

The shape of a matrix and the cells of its rows, told by the positions of brackets, commas and bars.

* `MatrixShape` — bracketed groups between commas, all with the same number of commas.
* `Pieces` — the pieces of a row; the commas between them make it up.
* `Tabulates` — the rows that groups are cut into.

Principal result: `matrix?_spec` — a group is a matrix exactly where its content has the shape of one, and
the matrix shows the pieces of the groups in order.
-/

namespace MathMarkup.Presentation

variable {node : Node} {content rest row group piece : List Node} {rows pieces : List (List Node)}
  {commas : Nat}

/-- The comma between groups and between pieces. -/
def comma : Node := .identifier ","

/-- The operator that makes a piece a line between columns. -/
def bar : Node := .operator "|"

@[simp]
theorem isComma_iff : node.isComma = true ↔ node = comma := by
  cases node <;> simp [Node.isComma, comma]

@[simp]
theorem isComma_eq_false_iff : node.isComma = false ↔ node ≠ comma := by
  rw [← Bool.not_eq_true, isComma_iff]

@[simp]
theorem isColumnBar_iff : isColumnBar piece = true ↔ bar ∈ piece := by
  have hbar : ∀ node : Node, node.isBar = true ↔ node = bar := by
    intro node
    cases node <;> simp [Node.isBar, bar]
  simp [isColumnBar, hbar]

@[simp]
theorem isColumnBar_eq_false_iff : isColumnBar piece = false ↔ bar ∉ piece := by
  rw [← Bool.not_eq_true, isColumnBar_iff]

/-- A bracketed group. -/
def Node.IsGroup (node : Node) : Prop := ∃ opening closing content, node = .fenced opening closing content

/-- The contents of the bracketed groups among some nodes. -/
def bracketed (nodes : List Node) : List (List Node) :=
  nodes.filterMap fun
    | .fenced _ _ content => some content
    | _ => none

/-- Bracketed groups stand at the even positions, commas at the odd ones, and a group is the last. -/
structure Alternates (content : List Node) : Prop where
  odd : content.length % 2 = 1
  groups : ∀ i (h : i < content.length), i % 2 = 0 → content[i].IsGroup
  commas : ∀ i (h : i < content.length), i % 2 = 1 → content[i] = comma

/-- The content of a matrix: all groups have the same number of commas, and one group alone has some. -/
structure MatrixShape (content : List Node) (commas : Nat) : Prop where
  alternates : Alternates content
  equal : ∀ group ∈ bracketed content, group.countP Node.isComma = commas
  proper : 2 ≤ (bracketed content).length ∨ 1 ≤ commas

/-! ## Groups and commas in turn -/

theorem not_alternates_nil : ¬Alternates [] := fun h => absurd h.odd (by decide)

theorem alternates_singleton : Alternates [node] ↔ node.IsGroup := by
  constructor
  · intro h
    exact h.groups 0 Nat.one_pos rfl
  · intro h
    refine ⟨rfl, fun i hi _ => ?_, fun i hi hodd => ?_⟩
    · obtain rfl : i = 0 := by simpa using hi
      exact h
    · obtain rfl : i = 0 := by simpa using hi
      cases hodd

theorem alternates_cons_cons {other : Node} :
    Alternates (node :: other :: rest) ↔ node.IsGroup ∧ other = comma ∧ Alternates rest := by
  constructor
  · intro h
    refine ⟨h.groups 0 (by simp) rfl, h.commas 1 (by simp) rfl, ?_, fun i hi heven => ?_,
      fun i hi hodd => ?_⟩
    · have hodd := h.odd
      simp only [List.length_cons] at hodd
      omega
    · exact h.groups (i + 2) (by simpa using hi) (by omega)
    · exact h.commas (i + 2) (by simpa using hi) (by omega)
  · rintro ⟨hgroup, rfl, h⟩
    refine ⟨?_, fun i hi heven => ?_, fun i hi hodd => ?_⟩
    · have hodd := h.odd
      simp only [List.length_cons]
      omega
    · match i, hi, heven with
      | 0, _, _ => exact hgroup
      | i + 2, hi, heven => exact h.groups i (by simpa using hi) (by omega)
    · match i, hi, hodd with
      | 1, _, _ => rfl
      | i + 2, hi, hodd => exact h.commas i (by simpa using hi) (by omega)

theorem bracketed_cons_cons (opening closing : Option String) (inner rest : List Node) :
    bracketed (.fenced opening closing inner :: comma :: rest) = inner :: bracketed rest := rfl

theorem bracketed_ne_nil (h : Alternates content) : bracketed content ≠ [] := by
  cases content with
  | nil => exact absurd h not_alternates_nil
  | cons first rest =>
    obtain ⟨opening, closing, inner, hfirst⟩ := h.groups 0 (by simp) rfl
    rw [List.getElem_cons_zero] at hfirst
    rw [hfirst]
    exact List.cons_ne_nil _ _

/-- The rows are taken from groups and commas in turn. -/
theorem groupsBetweenCommas_eq_some_iff :
    groupsBetweenCommas content = some rows ↔ Alternates content ∧ rows = bracketed content := by
  induction content using groupsBetweenCommas.induct generalizing rows with
  | case1 opening closing inner =>
    simp [groupsBetweenCommas, alternates_singleton, Node.IsGroup, bracketed, eq_comm]
  | case2 opening closing inner other rest hcomma hrest ih =>
    rw [groupsBetweenCommas, if_pos hcomma, hrest]
    constructor
    · rintro ⟨⟩
    · rintro ⟨h, -⟩
      have hfound := ih.2 ⟨(alternates_cons_cons.1 h).2.2, rfl⟩
      rw [hrest] at hfound
      cases hfound
  | case3 opening closing inner other rest hcomma others hrest ih =>
    obtain ⟨hothers, rfl⟩ := ih.1 hrest
    obtain rfl := isComma_iff.1 hcomma
    rw [groupsBetweenCommas, if_pos hcomma, hrest, alternates_cons_cons, bracketed_cons_cons]
    simp [hothers, Node.IsGroup, eq_comm]
  | case4 opening closing inner other rest hcomma =>
    rw [groupsBetweenCommas, if_neg hcomma]
    constructor
    · rintro ⟨⟩
    · rintro ⟨h, -⟩
      exact absurd (isComma_iff.2 (alternates_cons_cons.1 h).2.1) hcomma
  | case5 nodes hone hmore =>
    have hnone : groupsBetweenCommas nodes = none := by rw [groupsBetweenCommas] <;> assumption
    rw [hnone]
    constructor
    · rintro ⟨⟩
    · rintro ⟨h, -⟩
      cases nodes with
      | nil => exact absurd h not_alternates_nil
      | cons node nodes =>
        cases nodes with
        | nil =>
          obtain ⟨opening, closing, inner, rfl⟩ := alternates_singleton.1 h
          exact absurd rfl (hone _ _ _)
        | cons other rest =>
          obtain ⟨opening, closing, inner, rfl⟩ := (alternates_cons_cons.1 h).1
          exact absurd rfl (hmore _ _ _ _ _)

/-- Where groups and commas stand in turn, the shape of a matrix is told by comparing the groups with the
first one. -/
theorem exists_matrixShape_iff {first : List Node} {others : List (List Node)}
    (halternates : Alternates content) (hbracketed : bracketed content = first :: others) :
    (∃ commas, MatrixShape content commas) ↔
      (∀ group ∈ others, group.countP Node.isComma = first.countP Node.isComma) ∧
        ¬(others = [] ∧ first.countP Node.isComma = 0) := by
  constructor
  · rintro ⟨commas, -, hequal, hproper⟩
    rw [hbracketed] at hequal hproper
    obtain ⟨hfirst, hothers⟩ := List.forall_mem_cons.1 hequal
    rw [hfirst]
    refine ⟨hothers, ?_⟩
    rintro ⟨rfl, hnone⟩
    simp [hnone] at hproper
  · rintro ⟨hothers, hproper⟩
    refine ⟨first.countP Node.isComma, halternates, ?_, ?_⟩ <;> rw [hbracketed]
    · exact List.forall_mem_cons.2 ⟨rfl, hothers⟩
    · cases others with
      | nil => exact .inr (Nat.one_le_iff_ne_zero.2 fun hnone => hproper ⟨rfl, hnone⟩)
      | cons second others => exact .inl (by simp)

/-- The rows of a group are its groups, and it has rows exactly if it has the shape of a matrix. -/
theorem matrixRows_eq_some_iff :
    matrixRows content = some rows ↔ (∃ commas, MatrixShape content commas) ∧
      rows = bracketed content := by
  unfold matrixRows
  cases hgroups : groupsBetweenCommas content with
  | none =>
    constructor
    · rintro ⟨⟩
    · rintro ⟨⟨commas, hshape⟩, -⟩
      rw [groupsBetweenCommas_eq_some_iff.2 ⟨hshape.alternates, rfl⟩] at hgroups
      cases hgroups
  | some groups =>
    obtain ⟨halternates, rfl⟩ := groupsBetweenCommas_eq_some_iff.1 hgroups
    obtain ⟨first, others, hbracketed⟩ := List.exists_cons_of_ne_nil (bracketed_ne_nil halternates)
    rw [exists_matrixShape_iff halternates hbracketed, hbracketed]
    dsimp only
    by_cases hothers : ∀ group ∈ others, group.countP Node.isComma = first.countP Node.isComma
    · rw [if_pos (by simpa using hothers)]
      by_cases hsingle : others = [] ∧ first.countP Node.isComma = 0
      · rw [if_pos (by simpa using hsingle)]
        exact ⟨nofun, fun h => absurd hsingle h.1.2⟩
      · rw [if_neg (by simpa using hsingle)]
        exact ⟨fun h => ⟨⟨hothers, hsingle⟩, (Option.some.inj h).symm⟩, fun h => by rw [h.2]⟩
    · rw [if_neg (by simpa using hothers)]
      exact ⟨nofun, fun h => absurd h.1.1 hothers⟩

/-! ## Pieces -/

/-- The pieces of a row: they are free of commas, and the row consists of them with a comma between each
two. -/
structure Pieces (row : List Node) (pieces : List (List Node)) : Prop where
  nonempty : pieces ≠ []
  joined : [comma].intercalate pieces = row
  free : ∀ piece ∈ pieces, comma ∉ piece

theorem Pieces.nil : Pieces [] [[]] :=
  ⟨List.cons_ne_nil _ _, rfl, by simp⟩

/-- A comma ends an empty piece. -/
theorem Pieces.comma (h : Pieces rest pieces) : Pieces (comma :: rest) ([] :: pieces) := by
  refine ⟨List.cons_ne_nil _ _, ?_, List.forall_mem_cons.2 ⟨List.not_mem_nil, h.free⟩⟩
  obtain ⟨first, others, rfl⟩ := List.exists_cons_of_ne_nil h.nonempty
  rw [List.intercalate_cons_cons, h.joined]
  rfl

/-- Any other node belongs to the piece behind it. -/
theorem Pieces.cons (hne : node ≠ Presentation.comma) (h : Pieces rest (piece :: pieces)) :
    Pieces (node :: rest) ((node :: piece) :: pieces) := by
  obtain ⟨hpiece, hothers⟩ := List.forall_mem_cons.1 h.free
  refine ⟨List.cons_ne_nil _ _, ?_, List.forall_mem_cons.2 ⟨?_, hothers⟩⟩
  · rw [← h.joined]
    cases pieces with
    | nil => simp
    | cons second others => simp [List.intercalate_cons_cons]
  · simp [hpiece, Ne.symm hne]

theorem splitAtCommas_comma (rest : List Node) :
    splitAtCommas (comma :: rest) = [] :: splitAtCommas rest := by
  rw [splitAtCommas, if_pos (isComma_iff.2 rfl)]

theorem splitAtCommas_ne_nil (row : List Node) : splitAtCommas row ≠ [] := by
  cases row with
  | nil => exact List.cons_ne_nil _ _
  | cons node rest =>
    rw [splitAtCommas]
    split
    · exact List.cons_ne_nil _ _
    · split <;> exact List.cons_ne_nil _ _

/-- What holds of a row and its pieces, as the pieces grow node by node from the end of the row. -/
theorem splitAtCommas_induction {motive : List Node → List (List Node) → Prop} (nil : motive [] [[]])
    (ended : ∀ {rest pieces}, motive rest pieces → motive (comma :: rest) ([] :: pieces))
    (grown : ∀ {node rest piece pieces}, node ≠ comma → motive rest (piece :: pieces) →
      motive (node :: rest) ((node :: piece) :: pieces)) (row : List Node) :
    motive row (splitAtCommas row) := by
  induction row with
  | nil => exact nil
  | cons node rest ih =>
    by_cases hcomma : node = comma
    · subst hcomma
      rw [splitAtCommas_comma]
      exact ended ih
    · obtain ⟨piece, pieces, hrest⟩ := List.exists_cons_of_ne_nil (splitAtCommas_ne_nil rest)
      rw [splitAtCommas, if_neg (by simpa using hcomma)]
      rw [hrest] at ih ⊢
      exact grown hcomma ih

theorem pieces_splitAtCommas (row : List Node) : Pieces row (splitAtCommas row) :=
  splitAtCommas_induction .nil .comma .cons row

theorem length_splitAtCommas (row : List Node) :
    (splitAtCommas row).length = row.countP Node.isComma + 1 := by
  induction row using splitAtCommas_induction with
  | nil => rfl
  | ended ih => rw [List.length_cons, ih, List.countP_cons_of_pos (isComma_iff.2 rfl)]
  | grown hne ih =>
    rw [List.countP_cons_of_neg (by simpa using hne), ← ih, List.length_cons, List.length_cons]

/-- Nothing but the commas is lost between the pieces. -/
theorem flatten_splitAtCommas (row : List Node) :
    (splitAtCommas row).flatten = row.filter fun node => !node.isComma := by
  induction row using splitAtCommas_induction with
  | nil => rfl
  | ended ih =>
    rw [List.flatten_cons, ih]
    rfl
  | grown hne ih =>
    rw [List.flatten_cons] at ih
    rw [List.flatten_cons, List.cons_append, ih, List.filter_cons_of_pos (by simpa using hne)]

theorem mem_of_mem_splitAtCommas (h : piece ∈ splitAtCommas row) (hn : node ∈ piece) : node ∈ row := by
  have hflat : node ∈ (splitAtCommas row).flatten := List.mem_flatten.2 ⟨piece, h, hn⟩
  rw [flatten_splitAtCommas] at hflat
  exact List.mem_of_mem_filter hflat

/-- A piece in front of other pieces is split off. -/
theorem splitAtCommas_append (hpiece : comma ∉ piece) (rest : List Node) :
    splitAtCommas (piece ++ comma :: rest) = piece :: splitAtCommas rest := by
  induction piece with
  | nil => exact splitAtCommas_comma rest
  | cons node piece ih =>
    rw [List.mem_cons, not_or] at hpiece
    rw [List.cons_append, splitAtCommas, if_neg (by simpa using Ne.symm hpiece.1), ih hpiece.2]

theorem splitAtCommas_of_notMem (hpiece : comma ∉ piece) : splitAtCommas piece = [piece] := by
  induction piece with
  | nil => rfl
  | cons node piece ih =>
    rw [List.mem_cons, not_or] at hpiece
    rw [splitAtCommas, if_neg (by simpa using Ne.symm hpiece.1), ih hpiece.2]

/-- A row has pieces in one way. -/
theorem Pieces.eq_splitAtCommas (h : Pieces row pieces) : pieces = splitAtCommas row := by
  obtain ⟨hne, rfl, hfree⟩ := h
  induction pieces with
  | nil => exact absurd rfl hne
  | cons piece pieces ih =>
    obtain ⟨hpiece, hothers⟩ := List.forall_mem_cons.1 hfree
    cases pieces with
    | nil => rw [List.intercalate_singleton, splitAtCommas_of_notMem hpiece]
    | cons second others =>
      rw [List.intercalate_cons_cons, List.append_assoc, List.singleton_append,
        splitAtCommas_append hpiece, ← ih (List.cons_ne_nil _ _) hothers]

/-! ## The cells of a matrix -/

/-- The cells of a group with a number of commas: its pieces, in order and unchanged, without those that
have a bar. -/
def ShowsCells (commas : Nat) (group : List Node) (cells : List (List Node)) : Prop :=
  ∃ pieces, Pieces group pieces ∧ pieces.length = commas + 1 ∧
    cells = pieces.filter fun piece => !isColumnBar piece

/-- One row for each group, in order. The first row alone is filled up at its end with empty cells, up to
the length of the second one. -/
def Tabulates (commas : Nat) : List (List Node) → List (List (List Node)) → Prop
  | group :: others, row :: rows =>
    (∃ cells, ShowsCells commas group cells ∧
      row = cells ++ List.replicate ((rows.headD []).length - cells.length) []) ∧
    List.Forall₂ (ShowsCells commas) others rows
  | _, _ => False

theorem showsCells_cellsOf (hequal : group.countP Node.isComma = commas) :
    ShowsCells commas group (cellsOf group) :=
  ⟨splitAtCommas group, pieces_splitAtCommas group, by rw [length_splitAtCommas, hequal], rfl⟩

theorem forall₂_cellsOf {groups : List (List Node)}
    (hequal : ∀ group ∈ groups, group.countP Node.isComma = commas) :
    List.Forall₂ (ShowsCells commas) groups (groups.map cellsOf) := by
  rw [List.forall₂_map_right_iff, List.forall₂_same]
  exact fun group hgroup => showsCells_cellsOf (hequal group hgroup)

theorem fillFirst_cons (first : List (List Node)) (others : List (List (List Node))) :
    fillFirst (first :: others) =
      (first ++ List.replicate ((others.headD []).length - first.length) []) :: others := by
  cases others with
  | nil => simp [fillFirst]
  | cons second others => rfl

theorem tabulates_fillFirst {groups : List (List Node)} (hne : groups ≠ [])
    (hequal : ∀ group ∈ groups, group.countP Node.isComma = commas) :
    Tabulates commas groups (fillFirst (groups.map cellsOf)) := by
  obtain ⟨first, others, rfl⟩ := List.exists_cons_of_ne_nil hne
  obtain ⟨hfirst, hothers⟩ := List.forall_mem_cons.1 hequal
  rw [List.map_cons, fillFirst_cons]
  exact ⟨⟨cellsOf first, showsCells_cellsOf hfirst, rfl⟩, forall₂_cellsOf hothers⟩

/-- Rows of one length are left as they are. -/
theorem fillFirst_eq_self {rows : List (List (List Node))} {columns : Nat}
    (hlength : ∀ row ∈ rows, row.length = columns) : fillFirst rows = rows := by
  cases rows with
  | nil => rfl
  | cons first others =>
    obtain ⟨hfirst, hothers⟩ := List.forall_mem_cons.1 hlength
    have hpadding : (others.headD []).length - first.length = 0 := by
      cases others with
      | nil => exact Nat.zero_sub _
      | cons second others =>
        rw [List.headD_cons, hothers second List.mem_cons_self, hfirst, Nat.sub_self]
    rw [fillFirst_cons, hpadding, List.replicate_zero, List.append_nil]

/-- Without bars all pieces are cells. -/
theorem cellsOf_of_notMem (hbar : bar ∉ group) : cellsOf group = splitAtCommas group := by
  refine List.filter_eq_self.2 fun piece hpiece => ?_
  have hfree : bar ∉ piece := fun hmem => hbar (mem_of_mem_splitAtCommas hpiece hmem)
  simpa using hfree

/-- Groups without bars make a rectangle that has all their nodes but the commas. -/
theorem fillFirst_of_notMem {groups : List (List Node)}
    (hequal : ∀ group ∈ groups, group.countP Node.isComma = commas)
    (hbar : ∀ group ∈ groups, bar ∉ group) :
    (∀ row ∈ fillFirst (groups.map cellsOf), row.length = commas + 1) ∧
      (fillFirst (groups.map cellsOf)).map List.flatten =
        groups.map fun group => group.filter fun node => !node.isComma := by
  have hcells : groups.map cellsOf = groups.map splitAtCommas :=
    List.map_congr_left fun group hgroup => cellsOf_of_notMem (hbar group hgroup)
  have hlength : ∀ row ∈ groups.map splitAtCommas, row.length = commas + 1 := by
    intro row hrow
    obtain ⟨group, hgroup, rfl⟩ := List.mem_map.1 hrow
    rw [length_splitAtCommas, hequal group hgroup]
  rw [hcells, fillFirst_eq_self hlength]
  refine ⟨hlength, ?_⟩
  rw [List.map_map]
  exact List.map_congr_left fun group _ => flatten_splitAtCommas group

/-! ## Detection -/

theorem length_columnLines (bars : List Nat) (columns : Nat) :
    (columnLines bars columns).length = columns - 1 := by
  simp [columnLines]

/-- The matrix of a group that has the shape of one. -/
theorem matrix?_eq_some_iff {opening closing : Option String} :
    Node.matrix? opening closing content = some node ↔ (∃ commas, MatrixShape content commas) ∧
      node = .matrix opening closing (fillFirst ((bracketed content).map cellsOf))
        (columnLines (barPositions ((bracketed content).headD []))
          ((fillFirst ((bracketed content).map cellsOf)).headD []).length) := by
  unfold Node.matrix?
  cases hrows : matrixRows content with
  | none =>
    constructor
    · rintro ⟨⟩
    · rintro ⟨hshape, -⟩
      rw [matrixRows_eq_some_iff.2 ⟨hshape, rfl⟩] at hrows
      cases hrows
  | some rows =>
    obtain ⟨hshape, rfl⟩ := matrixRows_eq_some_iff.1 hrows
    exact ⟨fun h => ⟨hshape, (Option.some.inj h).symm⟩, fun h => by rw [h.2]⟩

/-- **A group is a matrix exactly where its content has the shape of one**, and the matrix shows the pieces
of the groups in order. It has a line less than its first row has cells. Without bars it is a rectangle. -/
theorem matrix?_spec (opening closing : Option String) (content : List Node) :
    ((∃ node, Node.matrix? opening closing content = some node) ↔
      ∃ commas, MatrixShape content commas) ∧
    ∀ commas, MatrixShape content commas →
      ∃ rows lines, Node.matrix? opening closing content = some (.matrix opening closing rows lines) ∧
        Tabulates commas (bracketed content) rows ∧
        lines.length = (rows.headD []).length - 1 ∧
        ((∀ group ∈ bracketed content, bar ∉ group) →
          (∀ row ∈ rows, row.length = commas + 1) ∧
            rows.map List.flatten =
              (bracketed content).map fun group => group.filter fun node => !node.isComma) := by
  constructor
  · constructor
    · rintro ⟨node, h⟩
      exact (matrix?_eq_some_iff.1 h).1
    · intro hshape
      exact ⟨_, matrix?_eq_some_iff.2 ⟨hshape, rfl⟩⟩
  · intro commas hshape
    refine ⟨_, _, matrix?_eq_some_iff.2 ⟨⟨commas, hshape⟩, rfl⟩, ?_, ?_, ?_⟩
    · exact tabulates_fillFirst (bracketed_ne_nil hshape.alternates) hshape.equal
    · exact length_columnLines _ _
    · exact fillFirst_of_notMem hshape.equal

/-- A row with a bar is filled up to the length of the row below it. -/
theorem matrix?_spec_filled :
    MatrixShape [.fenced none none [.number "1", comma, bar, comma, .number "2"], comma,
        .fenced none none [.number "3", comma, comma, .number "4"]] 2 ∧
      ∃ rows lines, Node.matrix? none none
          [.fenced none none [.number "1", comma, bar, comma, .number "2"], comma,
            .fenced none none [.number "3", comma, comma, .number "4"]] =
          some (.matrix none none rows lines) ∧
        Tabulates 2 [[.number "1", comma, bar, comma, .number "2"],
          [.number "3", comma, comma, .number "4"]] rows ∧
        lines.length = (rows.headD []).length - 1 := by
  have hshape : MatrixShape [.fenced none none [.number "1", comma, bar, comma, .number "2"], comma,
      .fenced none none [.number "3", comma, comma, .number "4"]] 2 := by
    refine ⟨?_, ?_, .inl (Nat.le_refl 2)⟩
    · exact alternates_cons_cons.2
        ⟨⟨_, _, _, rfl⟩, rfl, alternates_singleton.2 ⟨_, _, _, rfl⟩⟩
    · exact List.forall_mem_cons.2 ⟨rfl, List.forall_mem_cons.2 ⟨rfl, nofun⟩⟩
  obtain ⟨rows, lines, hmatrix, htabulates, hlines, -⟩ := (matrix?_spec none none _).2 2 hshape
  exact ⟨hshape, rows, lines, hmatrix, htabulates, hlines⟩

end MathMarkup.Presentation
