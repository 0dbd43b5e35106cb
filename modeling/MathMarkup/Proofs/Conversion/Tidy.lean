import MathMarkup.Proofs.Conversion.WellFormed
import MathMarkup.Proofs.Formula.Tidy
import MathMarkup.Proofs.Presentation.Rendering

/-!
# The nodes of a formula are tidy

The elements of a base without scripts, of a decoration without a mark and of one with two marks are
defined, since there are such nodes. No formula has one.

Principal result: `convert_tidy` — the nodes of whatever the parser takes are tidy, and what degenerate
nodes are shown with makes no difference to any formula.
-/

namespace MathMarkup

open Formula Markup Presentation

/-- **The nodes of a formula are tidy.** Where the parser takes a list of lexemes, whatever list that is,
no node is a row, and every part of a node meets what is required of its kind. So in a text that is
converted, no part of a node is a base without scripts or a decoration without exactly one mark; neither
is the row that holds the nodes beside their source. Whatever shows all other nodes with the elements of
what stands in them shows the formula with its elements, no matter what it does with such nodes. -/
theorem convert_tidy :
    (∀ lexemes expression, parse lexemes = .ok expression →
      ∀ node ∈ typeset expression, node.isRow = false ∧
        ∀ part, Part part node → part.Tidy (LargeOperatorAmong (lexemes.map (·.token)))) ∧
    ∀ settings display source markup, convert settings display source = .ok markup →
      ∃ expression, readFormula source = .ok expression ∧
        markup = String.ofList
          ((mathElement settings display source (typeset expression)).write
            (settings.layout display)) ∧
        ∀ node, node ∈ typeset expression ∨ node = .row (typeset expression) →
          (∀ part, Part part node → part.isDegenerate = false) ∧
          ∀ render : Node → List Element,
            (∀ other, other.isDegenerate = false → render other = other.assemble render) →
            render node = node.elements := by
  constructor
  · intro lexemes expression h node hn
    exact ⟨(proper_of_parse h node hn).not_row, (proper_of_parse h node hn).tidy⟩
  · intro settings display source markup h
    obtain ⟨expression, hread, hmarkup⟩ := convert_eq_ok_iff.1 h
    have hfault := (readFormula_eq_ok_iff.1 hread).1
    have hproper := proper_of_parse ((readFormula_eq_parse hfault).symm.trans hread)
    refine ⟨expression, hread, hmarkup, ?_⟩
    intro node hn
    have hparts : ∀ part, Part part node → part.isDegenerate = false := by
      rcases hn with hn | rfl
      · exact fun part hpart => ((hproper node hn).tidy part hpart).not_degenerate
      · exact fun part hpart => (Node.tidy_parts_row hproper part hpart).not_degenerate
    exact ⟨hparts, fun render hrender =>
      Node.elements_unique fun part hpart => hrender part (hparts part hpart)⟩

/-- The elements of a node, where a degenerate node is shown as nothing. -/
noncomputable def Presentation.Node.strictElements (node : Node) : List Element :=
  if node.isDegenerate then []
  else node.assemble fun child => if sizeOf child < sizeOf node then child.strictElements else []
termination_by sizeOf node

theorem Presentation.Node.strictElements_eq {node : Node} (h : node.isDegenerate = false) :
    node.strictElements = node.assemble strictElements := by
  rw [strictElements, h, if_neg Bool.false_ne_true]
  exact assemble_congr fun child hc => if_pos (sizeOf_lt_of_mem_children hc)

/-- A limit that gave up its brackets, and a script that is stacked onto a brace. -/
theorem convert_tidy_stacked :
    ∃ expression, parse (scan "sum_(i) ubrace(x)_2").lexemes = .ok expression ∧
      (∀ node ∈ typeset expression, node.isRow = false ∧ ∀ part, Part part node →
        part.Tidy (LargeOperatorAmong ((scan "sum_(i) ubrace(x)_2").lexemes.map (·.token)))) ∧
      ∃ markup, convert ⟨.never, false, true⟩ .block "sum_(i) ubrace(x)_2" = .ok markup ∧
        (∀ part, Part part (.row (typeset expression)) → part.isDegenerate = false) ∧
        (Node.row (typeset expression)).strictElements = (Node.row (typeset expression)).elements := by
  obtain ⟨markup, h⟩ : ∃ markup,
      convert ⟨.never, false, true⟩ .block "sum_(i) ubrace(x)_2" = .ok markup :=
    ⟨"<math display=\"block\"><semantics><mrow><munder><mo>&#x2211;</mo><mrow><mi>i</mi></mrow>" ++
      "</munder><munder><munder><munder><mrow><mi>x</mi></mrow><mo>&#x23DF;</mo></munder></munder>" ++
      "<mn>2</mn></munder></mrow><annotation encoding=\"text/x-asciimath\">sum_(i) ubrace(x)_2" ++
      "</annotation></semantics></math>", by decide +kernel⟩
  obtain ⟨expression, hread, -, hrow⟩ := convert_tidy.2 _ _ _ _ h
  have hfault := (readFormula_eq_ok_iff.1 hread).1
  have hparse := (readFormula_eq_parse hfault).symm.trans hread
  obtain ⟨hparts, hrender⟩ := hrow _ (.inr rfl)
  exact ⟨expression, hparse, convert_tidy.1 _ _ hparse, markup, h, hparts,
    hrender _ fun _ => Node.strictElements_eq⟩

end MathMarkup
