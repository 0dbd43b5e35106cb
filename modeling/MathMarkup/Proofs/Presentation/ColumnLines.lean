import MathMarkup.Proofs.Presentation.MatrixShape

/-!
# The lines between the columns of a matrix

A piece with a bar in the first row of a matrix is no column and asks for a line.

* `BarAt` — a bar stands among the pieces of a row.
* `columnsBefore`, `barsBefore` — how many columns and how many bars stand before a piece.

Principal result: `line_iff` — a bar has its line as many columns too far to the right as there are bars
before it. So the lines are where the bars stood up to the second bar of a row.
-/

namespace MathMarkup.Presentation

variable {content row : List Node} {pieces : List (List Node)} {p q k : Nat}

/-- The piece after `p` others is a bar. -/
def BarAt (pieces : List (List Node)) (p : Nat) : Prop := ∃ piece, pieces[p]? = some piece ∧ bar ∈ piece

/-- The number of columns among the first `p` pieces. -/
def columnsBefore (pieces : List (List Node)) (p : Nat) : Nat :=
  (pieces.take p).countP fun piece => !isColumnBar piece

/-- The number of bars among the first `p` pieces. -/
def barsBefore (pieces : List (List Node)) (p : Nat) : Nat := (pieces.take p).countP isColumnBar

/-! ## Counting -/

theorem BarAt.lt_length (h : BarAt pieces p) : p < pieces.length := by
  obtain ⟨piece, hpiece, -⟩ := h
  exact (List.getElem?_eq_some_iff.1 hpiece).1

/-- Every piece is a column or a bar. -/
theorem columnsBefore_add_barsBefore (hp : p ≤ pieces.length) :
    columnsBefore pieces p + barsBefore pieces p = p := by
  have hlength := List.length_eq_countP_add_countP isColumnBar (l := pieces.take p)
  rw [List.length_take, Nat.min_eq_left hp] at hlength
  have hcolumns : columnsBefore pieces p =
      (pieces.take p).countP fun piece => decide ¬isColumnBar piece = true :=
    List.countP_congr fun piece _ => by simp
  rw [hcolumns, barsBefore]
  omega

theorem BarAt.count (h : BarAt pieces p) : columnsBefore pieces p + barsBefore pieces p = p :=
  columnsBefore_add_barsBefore (Nat.le_of_lt h.lt_length)

theorem barsBefore_eq_zero_iff : barsBefore pieces p = 0 ↔ ∀ q < p, ¬BarAt pieces q := by
  rw [barsBefore, List.countP_eq_zero]
  constructor
  · rintro h q hq ⟨piece, hpiece, hbar⟩
    refine h piece ?_ (isColumnBar_iff.2 hbar)
    exact List.mem_of_getElem? (i := q) (by rw [List.getElem?_take, if_pos hq, hpiece])
  · intro h piece hmem hbar
    obtain ⟨q, hq, rfl⟩ := List.mem_take_iff_getElem.1 hmem
    exact h q (by omega) ⟨_, List.getElem?_eq_getElem (by omega), isColumnBar_iff.1 hbar⟩

theorem columnsBefore_mono (h : p ≤ q) : columnsBefore pieces p ≤ columnsBefore pieces q :=
  (List.take_sublist_take_left h).countP_le

/-- A piece that is no bar counts as a column for those behind it. -/
theorem columnsBefore_succ (hp : p < pieces.length) (hbar : ¬BarAt pieces p) :
    columnsBefore pieces (p + 1) = columnsBefore pieces p + 1 := by
  have hpiece := List.getElem?_eq_getElem hp
  have hfree : bar ∉ pieces[p] := fun hmem => hbar ⟨_, hpiece, hmem⟩
  rw [columnsBefore, columnsBefore, List.take_add_one, hpiece, Option.toList_some, List.countP_append,
    List.countP_singleton, if_pos (by simpa using hfree)]

/-- A piece with no bar before it has as many columns before it as pieces. -/
theorem columnsBefore_eq_self (hp : p ≤ pieces.length) (hfirst : ∀ q < p, ¬BarAt pieces q) :
    columnsBefore pieces p = p := by
  have hsum := columnsBefore_add_barsBefore hp
  rw [barsBefore_eq_zero_iff.2 hfirst] at hsum
  exact hsum

/-- Up to the second bar the bars are found by counting the columns before them. -/
theorem barAt_iff_columnsBefore
    (hsecond : ∀ p < k, BarAt pieces p → ∀ q, p < q → BarAt pieces q → k < columnsBefore pieces q) :
    BarAt pieces k ↔ ∃ p, BarAt pieces p ∧ columnsBefore pieces p = k := by
  constructor
  · intro hbar
    have hnone : ∀ p < k, ¬BarAt pieces p := by
      intro p hp hbar'
      have hcolumns := hsecond p hp hbar' k hp hbar
      have hcount := hbar.count
      omega
    exact ⟨k, hbar, columnsBefore_eq_self (Nat.le_of_lt hbar.lt_length) hnone⟩
  · rintro ⟨p, hbar, hcolumns⟩
    by_contra hk
    have hkp : k < p := by
      have hcount := hbar.count
      have hne : p ≠ k := fun heq => hk (heq ▸ hbar)
      omega
    have hnone : ∀ q < k, ¬BarAt pieces q := by
      intro q hq hbar'
      have hmore := hsecond q hq hbar' p (Nat.lt_trans hq hkp) hbar
      omega
    -- then the `k`-th piece is a column before the bar, one too many
    have hlength := Nat.lt_trans hkp hbar.lt_length
    have hsucc := columnsBefore_succ hlength hk
    rw [columnsBefore_eq_self (Nat.le_of_lt hlength) hnone] at hsucc
    have hmono : columnsBefore pieces (k + 1) ≤ columnsBefore pieces p := columnsBefore_mono hkp
    omega

/-! ## Lines -/

theorem mem_barPositions : p ∈ barPositions row ↔ BarAt (splitAtCommas row) p := by
  unfold barPositions BarAt
  rw [List.mem_filterMap]
  constructor
  · rintro ⟨⟨piece, position⟩, hmem, hbar⟩
    dsimp only at hbar
    split at hbar
    · next h =>
      obtain rfl := Option.some.inj hbar
      exact ⟨piece, List.mem_zipIdx_iff_getElem?.1 hmem, isColumnBar_iff.1 h⟩
    · cases hbar
  · rintro ⟨piece, hpiece, hbar⟩
    refine ⟨(piece, p), List.mem_zipIdx_iff_getElem?.2 hpiece, ?_⟩
    dsimp only
    rw [if_pos (isColumnBar_iff.2 hbar)]

theorem getElem?_columnLines (bars : List Nat) {columns : Nat} (hk : 1 ≤ k) (hlt : k < columns) :
    (columnLines bars columns)[k - 1]? = some (if bars.contains k then .solid else .none) := by
  have hposition : (List.range' 1 (columns - 1))[k - 1]? = some k := by
    rw [List.getElem?_range' (by omega)]
    simp only [Option.some.injEq]
    omega
  rw [columnLines, List.getElem?_map, hposition]
  rfl

/-- **A bar of the first row has its line as many columns too far to the right as bars stand before it.** Before
the columns up to the second bar of the row the lines are where the bars stood: there is a line after `k`
columns if and only if a bar stood after `k` columns of the row. -/
theorem line_iff {opening closing : Option String} {rows : List (List (List Node))}
    {lines : List ColumnLine}
    (h : Node.matrix? opening closing content = some (.matrix opening closing rows lines))
    (hpieces : Pieces ((bracketed content).headD []) pieces) (hk : 1 ≤ k)
    (hcell : k < (rows.headD []).length) :
    ∃ line, lines[k - 1]? = some line ∧
      (line = .solid ↔ ∃ p, BarAt pieces p ∧ columnsBefore pieces p + barsBefore pieces p = k) ∧
      ((∀ p < k, BarAt pieces p → ∀ q, p < q → BarAt pieces q → k < columnsBefore pieces q) →
        (line = .solid ↔ ∃ p, BarAt pieces p ∧ columnsBefore pieces p = k)) := by
  obtain ⟨-, hmatrix⟩ := matrix?_eq_some_iff.1 h
  obtain ⟨-, -, rfl, rfl⟩ := Node.matrix.inj hmatrix
  obtain rfl := hpieces.eq_splitAtCommas
  refine ⟨_, getElem?_columnLines _ hk hcell, ?_⟩
  have hsolid : (if (barPositions ((bracketed content).headD [])).contains k then ColumnLine.solid
      else ColumnLine.none) = .solid ↔ BarAt (splitAtCommas ((bracketed content).headD [])) k := by
    rw [← mem_barPositions, ← List.contains_iff_mem]
    split <;> simp_all
  rw [hsolid]
  refine ⟨⟨fun hbar => ⟨k, hbar, hbar.count⟩, ?_⟩, barAt_iff_columnsBefore⟩
  rintro ⟨p, hbar, hcount⟩
  rw [hbar.count] at hcount
  exact hcount ▸ hbar

/-- A row with two bars, of which the first one has its line where it stands. -/
def barredRow : List Node :=
  [.identifier "a", comma, bar, comma, .identifier "b", comma, bar, comma, .identifier "c"]

theorem line_iff_first_bar :
    ∃ line, [ColumnLine.solid, .none][1 - 1]? = some line ∧
      (∀ p < 1, BarAt (splitAtCommas barredRow) p → ∀ q, p < q →
        BarAt (splitAtCommas barredRow) q → 1 < columnsBefore (splitAtCommas barredRow) q) ∧
      (line = .solid ↔ ∃ p, BarAt (splitAtCommas barredRow) p ∧
        columnsBefore (splitAtCommas barredRow) p = 1) := by
  have hmatrix : Node.matrix? none none [.fenced none none barredRow] =
      some (.matrix none none [[[.identifier "a"], [.identifier "b"], [.identifier "c"]]]
        [.solid, .none]) := rfl
  have hsecond : ∀ p < 1, BarAt (splitAtCommas barredRow) p → ∀ q, p < q →
      BarAt (splitAtCommas barredRow) q → 1 < columnsBefore (splitAtCommas barredRow) q := by
    rintro p hp ⟨piece, hpiece, hbar⟩
    obtain rfl : p = 0 := by omega
    obtain rfl : [.identifier "a"] = piece := Option.some.inj hpiece
    simp [bar] at hbar
  obtain ⟨line, hline, -, hfirst⟩ :=
    line_iff hmatrix (pieces_splitAtCommas barredRow) (Nat.le_refl 1) (by decide)
  exact ⟨line, hline, hsecond, hfirst hsecond⟩

/-- The second bar stands after two columns, but there is no line between these and the third one. -/
theorem line_missing_second_bar :
    Node.matrix? none none [.fenced none none barredRow] =
        some (.matrix none none [[[.identifier "a"], [.identifier "b"], [.identifier "c"]]]
          [.solid, .none]) ∧
      Pieces barredRow [[.identifier "a"], [bar], [.identifier "b"], [bar], [.identifier "c"]] ∧
      BarAt [[.identifier "a"], [bar], [.identifier "b"], [bar], [.identifier "c"]] 3 ∧
      columnsBefore [[.identifier "a"], [bar], [.identifier "b"], [bar], [.identifier "c"]] 3 = 2 :=
  ⟨rfl, pieces_splitAtCommas barredRow, ⟨[bar], rfl, List.mem_singleton_self bar⟩, rfl⟩

end MathMarkup.Presentation
