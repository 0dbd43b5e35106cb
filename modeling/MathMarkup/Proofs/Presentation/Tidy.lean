import MathMarkup.Presentation.Typeset
import MathMarkup.Proofs.Presentation.Cells
import MathMarkup.Proofs.Presentation.Parts

/-!
# Tidy nodes

Rows hold operands together that gave up their brackets. They stand where an operand is wanted as a row
and nowhere else, and brackets stand nowhere where they were to be given up.

* `Node.Tidy` — what is required of a node, by its kind.
* `Node.Proper` — a node that is no row and all of whose parts are tidy.

Principal results: `Node.proper_ofGroup`, `Unary.proper_node`, `Binary.proper_node`,
`proper_attachScripts` — what is made of proper nodes is proper.
-/

namespace MathMarkup.Presentation

open MathMarkup.Formula

namespace Node

/-- A row is what is left of a group without its brackets. -/
def isRow : Node → Bool
  | row _ => true
  | _ => false

def isFenced : Node → Bool
  | fenced _ _ _ => true
  | _ => false

/-- The mark on a side of a decorated base. -/
def markOn : Side → Node → Option Node
  | .above, decorated _ above _ => above
  | .below, decorated _ _ below => below
  | _, _ => none

end Node

/-- The script on a side. -/
def scriptOn (sub sup : Option Node) : Side → Option Node
  | .above => sup
  | .below => sub

/-- Scripts at the corners are no rows, and others have no brackets. Scripts stand under and over large
operators alone, and they are stacked onto a brace, on its side. -/
def PlacedScripts (large : String → Prop) (base : Node) (sub sup : Option Node) :
    Placement → Prop
  | .attached => ∀ script ∈ sub.toList ++ sup.toList, script.isRow = false
  | .limits =>
    (∀ script ∈ sub.toList ++ sup.toList, script.isFenced = false) ∧
      ∃ glyph, base = .operator glyph ∧ large glyph
  | .stacked side =>
    (∀ script ∈ sub.toList ++ sup.toList, script.isFenced = false) ∧
      (base.markOn side).isSome = true ∧ (scriptOn sub sup side).isSome = true

/-- An accent or a brace is an operator, and its base has no brackets. A node that is set over or under
another one is a row, and so is the other one. -/
def MarkedBase (base mark : Node) : Prop :=
  (∃ glyph, mark = .operator glyph) ∧ base.isFenced = false ∨ mark.isRow = true ∧ base.isRow = true

namespace Node

/-- What is required of a node. Of the glyphs of operators, `large` are those of large ones. -/
def Tidy (large : String → Prop) : Node → Prop
  | row content => ∀ node ∈ content, node.isRow = false
  | fenced _ _ content => ∀ node ∈ content, node.isRow = false
  | matrix _ _ rows _ => ∀ row ∈ rows, ∀ cell ∈ row, ∀ node ∈ cell, node.isRow = false
  | scripts base sub sup placement =>
    base.isRow = false ∧ (sub.isSome || sup.isSome) = true ∧
      PlacedScripts large base sub sup placement
  | decorated base (some mark) none => MarkedBase base mark
  | decorated base none (some mark) => MarkedBase base mark
  | decorated _ _ _ => False
  | fraction numerator denominator =>
    numerator.isFenced = false ∧ denominator.isFenced = false
  | root none radicand => radicand.isFenced = false
  | root (some index) radicand => index.isRow = true ∧ radicand.isRow = true
  | delimited _ _ content => content.isFenced = false
  | struck content => content.isFenced = false
  | styled _ content => content.isFenced = false
  | colored _ content => content.isFenced = false
  | _ => True

/-- A base without a script, or with no mark or two. -/
def isDegenerate : Node → Bool
  | scripts _ none none _ => true
  | decorated _ none none => true
  | decorated _ (some _) (some _) => true
  | _ => false

/-- A node that is no row and all of whose parts are tidy. -/
structure Proper (large : String → Prop) (node : Node) : Prop where
  not_row : node.isRow = false
  tidy : ∀ part, Part part node → part.Tidy large

variable {large : String → Prop} {node base mark : Node} {content : List Node}
  {opening closing : Option String}

theorem Tidy.not_degenerate (h : node.Tidy large) : node.isDegenerate = false := by
  cases node with
  | scripts base sub sup placement =>
    obtain ⟨-, hsome, -⟩ := h
    cases sub with
    | none =>
      cases sup with
      | none => cases hsome
      | some sup => rfl
    | some sub => rfl
  | decorated base above below =>
    cases above with
    | none =>
      cases below with
      | none => cases h
      | some below => rfl
    | some above =>
      cases below with
      | none => rfl
      | some below => cases h
  | _ => rfl

/-! ## Operands without brackets and as rows -/

theorem isFenced_unfenced (node : Node) : node.unfenced.isFenced = false := by
  cases node <;> rfl

theorem isRow_inRow (node : Node) : node.inRow.isRow = true := by
  cases node <;> rfl

theorem tidy_parts_row (h : ∀ n ∈ content, n.Proper large) :
    ∀ part, Part part (row content) → part.Tidy large :=
  forall_part_iff.2 ⟨fun n hn => (h n hn).not_row, fun n hn => (h n hn).tidy⟩

/-- What stands between brackets is proper. -/
theorem Proper.of_fenced (h : (fenced opening closing content).Proper large) :
    ∀ n ∈ content, n.Proper large := by
  obtain ⟨hrows, hcontent⟩ := forall_part_iff.1 h.tidy
  exact fun n hn => ⟨hrows n hn, hcontent n hn⟩

theorem Proper.tidy_unfenced (h : node.Proper large) :
    ∀ part, Part part node.unfenced → part.Tidy large := by
  unfold Node.unfenced
  split
  · exact tidy_parts_row h.of_fenced
  · exact h.tidy

theorem Proper.tidy_inRow (h : node.Proper large) :
    ∀ part, Part part node.inRow → part.Tidy large := by
  unfold Node.inRow
  split
  · exact tidy_parts_row h.of_fenced
  · exact h.tidy
  · exact tidy_parts_row (by simpa using h)

/-! ## Nodes that are made of proper ones -/

/-- A node without others in it. -/
theorem proper_leaf (hrow : node.isRow = false) (htidy : node.Tidy large)
    (hchildren : node.children = []) : node.Proper large := by
  refine ⟨hrow, forall_part_iff.2 ⟨htidy, ?_⟩⟩
  rw [hchildren]
  exact List.forall_mem_nil _

/-- A node around one other that gave up its brackets. -/
theorem proper_around {content : Node} (h : content.Proper large) (hrow : node.isRow = false)
    (htidy : content.unfenced.isFenced = false → node.Tidy large)
    (hchildren : node.children = [content.unfenced]) : node.Proper large := by
  refine ⟨hrow, forall_part_iff.2 ⟨htidy content.isFenced_unfenced, ?_⟩⟩
  rw [hchildren]
  exact List.forall_mem_singleton.2 h.tidy_unfenced

theorem proper_fraction {numerator denominator : Node} (hn : numerator.Proper large)
    (hd : denominator.Proper large) :
    (fraction numerator.unfenced denominator.unfenced).Proper large := by
  refine ⟨rfl, forall_part_iff.2 ⟨⟨isFenced_unfenced _, isFenced_unfenced _⟩, ?_⟩⟩
  exact List.forall_mem_cons.2 ⟨hn.tidy_unfenced, List.forall_mem_singleton.2 hd.tidy_unfenced⟩

/-- A mark and its base, of which the parts are tidy. -/
theorem proper_decorate (hmarked : MarkedBase base mark)
    (hb : ∀ part, Part part base → part.Tidy large) (hm : ∀ part, Part part mark → part.Tidy large)
    (side : Side) : (decorate base mark side).Proper large := by
  have hchildren : ∀ child ∈ [base, mark], ∀ part, Part part child → part.Tidy large :=
    List.forall_mem_cons.2 ⟨hb, List.forall_mem_singleton.2 hm⟩
  cases side with
  | above => exact ⟨rfl, forall_part_iff.2 ⟨hmarked, hchildren⟩⟩
  | below => exact ⟨rfl, forall_part_iff.2 ⟨hmarked, hchildren⟩⟩

/-- **A group of proper nodes is proper**, also where it is shown as a matrix. -/
theorem proper_ofGroup (opening closing : Option String) (h : ∀ n ∈ content, n.Proper large) :
    (ofGroup opening closing content).Proper large := by
  rcases ofGroup_cases opening closing content with ⟨rows, lines, heq, hinner⟩ | heq
  · have hcell : ∀ row ∈ rows, ∀ cell ∈ row, ∀ n ∈ cell, n.Proper large := by
      intro row hrow cell hcell n hn
      obtain ⟨_, _, inner, hfenced, hmem⟩ := hinner row hrow cell hcell n hn
      exact (h _ hfenced).of_fenced n hmem
    rw [heq]
    refine ⟨rfl, forall_part_iff.2 ⟨?_, ?_⟩⟩
    · exact fun row hrow cell hc n hn => (hcell row hrow cell hc n hn).not_row
    · intro n hn
      obtain ⟨cell, hcells, hn⟩ := List.mem_flatten.1 hn
      obtain ⟨row, hrow, hc⟩ := List.mem_flatten.1 hcells
      exact (hcell row hrow cell hc n hn).tidy
  · rw [heq]
    exact ⟨rfl, forall_part_iff.2 ⟨fun n hn => (h n hn).not_row, fun n hn => (h n hn).tidy⟩⟩

end Node

end MathMarkup.Presentation

namespace MathMarkup.Formula

open MathMarkup.Presentation

variable {large : String → Prop}

/-! ## Symbols and scripts -/

theorem Leaf.proper_node (l : Leaf) : l.node.Proper large := by
  cases l with
  | number digits => exact Node.proper_leaf rfl trivial rfl
  | letter c => exact Node.proper_leaf rfl trivial rfl
  | text content => exact Node.proper_leaf rfl trivial rfl
  | sign s => cases s <;> exact Node.proper_leaf rfl trivial rfl

theorem Unary.proper_node (f : Unary) {operand : Node} (h : operand.Proper large) :
    (f.node operand).Proper large := by
  have hmark : ∀ glyph side,
      (decorate operand.unfenced (.operator glyph) side).Proper large := by
    intro glyph side
    refine Node.proper_decorate (.inl ⟨⟨glyph, rfl⟩, operand.isFenced_unfenced⟩) h.tidy_unfenced ?_ side
    exact (Node.proper_leaf rfl trivial rfl : (Node.operator glyph).Proper large).tidy
  cases f with
  | accent glyph side => exact hmark glyph side
  | brace glyph side => exact hmark glyph side
  | delimit left right => exact Node.proper_around h rfl id rfl
  | squareRoot => exact Node.proper_around h rfl id rfl
  | cancel => exact Node.proper_around h rfl id rfl
  | style variant => exact Node.proper_around h rfl id rfl

theorem Binary.proper_node (f : Binary) {first second : Node} (h1 : first.Proper large)
    (h2 : second.Proper large) : (f.node first second).Proper large := by
  have hset : ∀ side, (decorate second.inRow first.inRow side).Proper large := fun side =>
    Node.proper_decorate (.inr ⟨first.isRow_inRow, second.isRow_inRow⟩) h2.tidy_inRow h1.tidy_inRow side
  cases f with
  | fraction => exact Node.proper_fraction h1 h2
  | root =>
    refine ⟨rfl, Node.forall_part_iff.2 ⟨⟨first.isRow_inRow, second.isRow_inRow⟩, ?_⟩⟩
    exact List.forall_mem_cons.2 ⟨h2.tidy_inRow, List.forall_mem_singleton.2 h1.tidy_inRow⟩
  | overset => exact hset .above
  | underset => exact hset .below

/-- What an operand wants of its scripts: large operators take limits, and braces stack the script on
their side, if it is there. -/
theorem Operand.placement_cases (base : Operand) (hasSub hasSup : Bool) :
    base.placement hasSub hasSup = .attached ∨
    (∃ glyph, base = .leaf (.sign (.largeOperator glyph)) ∧
      base.placement hasSub hasSup = .limits) ∨
    ∃ glyph side operand, base = .unary (.brace glyph side) operand ∧
      base.placement hasSub hasSup = .stacked side ∧
      (match side with | .above => hasSup | .below => hasSub) = true := by
  unfold placement
  split
  · exact .inr (.inl ⟨_, rfl, rfl⟩)
  · split
    · exact .inr (.inr ⟨_, _, _, rfl, rfl, ‹_›⟩)
    · exact .inl rfl
  · split
    · exact .inr (.inr ⟨_, _, _, rfl, rfl, ‹_›⟩)
    · exact .inl rfl
  · exact .inl rfl

/-- **A base with its scripts is proper**, if the base and the scripts are. -/
theorem proper_attachScripts {base : Operand} (sub sup : Option Node)
    (hb : base.node.Proper large)
    (hlarge : ∀ glyph, base = .leaf (.sign (.largeOperator glyph)) → large glyph)
    (hscripts : ∀ n ∈ sub.toList ++ sup.toList, n.Proper large)
    (hsome : (sub.isSome || sup.isSome) = true) :
    (attachScripts base.node sub sup (base.placement sub.isSome sup.isSome)).Proper large := by
  -- scripts that are not at the corners have given up their brackets
  have hunfenced : ∀ n ∈ (sub.map Node.unfenced).toList ++ (sup.map Node.unfenced).toList,
      n.isFenced = false ∧ ∀ part, Part part n → part.Tidy large := by
    rw [Option.toList_map, Option.toList_map, ← List.map_append, List.forall_mem_map]
    intro script hscript
    exact ⟨script.isFenced_unfenced, (hscripts script hscript).tidy_unfenced⟩
  have hsome' : ((sub.map Node.unfenced).isSome || (sup.map Node.unfenced).isSome) = true := by
    rw [Option.isSome_map, Option.isSome_map, hsome]
  rcases base.placement_cases sub.isSome sup.isSome with
    hattached | ⟨glyph, rfl, hlimits⟩ | ⟨glyph, side, operand, rfl, hstacked, hside⟩
  · rw [hattached, attachScripts]
    refine ⟨rfl, Node.forall_part_iff.2 ⟨⟨hb.not_row, hsome, fun n hn => (hscripts n hn).not_row⟩, ?_⟩⟩
    exact List.forall_mem_cons.2 ⟨hb.tidy, fun n hn => (hscripts n hn).tidy⟩
  · rw [hlimits, attachScripts]
    · refine ⟨rfl, Node.forall_part_iff.2 ⟨⟨hb.not_row, hsome', fun n hn => (hunfenced n hn).1, ?_⟩, ?_⟩⟩
      · exact ⟨glyph, by rw [Operand.node, Leaf.node], hlarge glyph rfl⟩
      · exact List.forall_mem_cons.2 ⟨hb.tidy, fun n hn => (hunfenced n hn).2⟩
    · simp
  · rw [hstacked, attachScripts]
    · refine ⟨rfl, Node.forall_part_iff.2
        ⟨⟨hb.not_row, hsome', fun n hn => (hunfenced n hn).1, ?_, ?_⟩, ?_⟩⟩
      · cases side <;> simp only [Operand.node, Unary.node, decorate, Node.markOn, Option.isSome_some]
      · cases side <;> simpa [scriptOn] using hside
      · exact List.forall_mem_cons.2 ⟨hb.tidy, fun n hn => (hunfenced n hn).2⟩
    · simp

end MathMarkup.Formula
