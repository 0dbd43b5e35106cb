import MathMarkup.Proofs.Conversion.Emission
import MathMarkup.Proofs.Markup.Pieces

/-!
# Formulas on one line and on several lines

Principal result: `convert_spread` — a node and a formula are the same pieces of markup in both layouts,
without anything between them or each on a line of its own.
-/

namespace MathMarkup

open Formula Markup Presentation

variable {settings : Settings} {display : Display} {source : String} {nodes : List Node}

/-! ## Elements without text beside other elements -/

theorem textApart_elements (node : Node) : ∀ e ∈ node.elements, e.TextApart := by
  have hholds : node.Holds (fun _ => True) (fun _ => True) := by
    intro part _
    exact ⟨fun _ _ => trivial, fun _ _ => trivial⟩
  intro e he
  exact (hholds.elements e he).textApart

theorem textApart_annotated : (annotated source nodes).TextApart := by
  unfold annotated
  refine .node rfl (List.forall_mem_append.2 ⟨?_, ?_⟩)
  · exact textApart_elements _
  · exact List.forall_mem_singleton.2 (.leaf rfl)

theorem textApart_mathElement : (mathElement settings display source nodes).TextApart := by
  unfold mathElement
  refine .node rfl ?_
  split
  · exact List.forall_mem_singleton.2 textApart_annotated
  · exact forall_mem_sequenceElements.2 fun node _ => textApart_elements node

/-! ## Both layouts -/

/-- The outermost element stands on level zero. -/
theorem spread_mathElement (settings : Settings) (display : Display) (source : String)
    (nodes : List Node) :
    Spread 0 [] (mathElement settings display source nodes).pieces
      ('\n' :: (mathElement settings display source nodes).write (.indented 0)) := by
  have hspread := spread_write (mathElement settings display source nodes) textApart_mathElement
    (Spread.done : Spread 0 [] [] [])
  rw [List.append_nil, List.append_nil] at hspread
  exact hspread

/-- **Only line breaks are put between the pieces of markup.** Every node is written as pieces: without
an indent nothing stands between them, and with an indent each of them stands on a line of its own, four
spaces for each level of the indent and for each element of the node that is open there. A formula that is
spread over lines has the same faults as one on a single line, and otherwise the same pieces, where the
outermost element stands on level zero without the line break before it. -/
theorem convert_spread :
    (∀ node : Node,
      node.emit 0 = (piecesOf node.elements).flatMap Piece.write ∧
      ∀ n, Spread (n + 1) [] (piecesOf node.elements) (node.emit (n + 1))) ∧
    ∀ (mathNamespace keepSource : Bool) (display : Display) (source : String),
      match convert ⟨.never, mathNamespace, keepSource⟩ display source,
        convert ⟨.always, mathNamespace, keepSource⟩ display source with
      | .ok compact, .ok spread =>
        ∃ expression, readFormula source = .ok expression ∧
          let pieces := (mathElement ⟨.never, mathNamespace, keepSource⟩ display source
            (typeset expression)).pieces
          compact.toList = pieces.flatMap Piece.write ∧
            Spread 0 [] pieces ('\n' :: spread.toList)
      | .error fault, .error fault' => fault = fault'
      | _, _ => False := by
  constructor
  · intro node
    constructor
    · rw [node.shows_emit]
      exact writeElements_compact node.elements
    · intro n
      rw [node.shows_emit]
      exact spread_indented (textApart_elements node) (n + 1)
  · intro mathNamespace keepSource display source
    unfold convert
    cases hread : readFormula source with
    | error fault => rfl
    | ok expression =>
      -- which lines the element is spread over says nothing about the element
      have hsame : mathElement ⟨.always, mathNamespace, keepSource⟩ display source (typeset expression) =
          mathElement ⟨.never, mathNamespace, keepSource⟩ display source (typeset expression) := rfl
      have hlayout : Settings.layout ⟨.always, mathNamespace, keepSource⟩ display = .indented 0 := rfl
      refine ⟨expression, rfl, ?_, ?_⟩
      · rw [String.toList_ofList, emitFormula_eq]
        exact write_compact _
      · rw [String.toList_ofList, emitFormula_eq, hsame, hlayout]
        exact spread_mathElement _ _ _ _

/-- A fraction with a newline in a verbatim text: its lines are broken around the text only. -/
example :
    (Node.fraction (.identifier "a") (.text "b\n c")).emit 2 =
      ("\n        <mfrac>\n            <mi>a</mi>\n            <mtext>b\n c</mtext>" ++
        "\n        </mfrac>").toList := by
  decide +kernel

end MathMarkup
