import MathMarkup.Proofs.Conversion.Emission
import MathMarkup.Proofs.Formula.Glyphs
import MathMarkup.Proofs.Formula.Grammar
import Mathlib.Control.Monad.Basic

/-!
# The markup of a formula is well-formed

Principal results: `readFormula_eq_ok_iff` — the expression of a text is what the grammar derives from its
tokens; `read_convert` — the markup reads back as the element that was written;
`convert_wellFormed` — it is one element with the names of the vocabulary.
-/

namespace MathMarkup

open Formula Markup Presentation

variable {settings : Settings} {display : Display} {source markup : String}
  {expression : Expression} {nodes : List Node}

/-- **The expression of a text is the one that the grammar derives from its tokens.** -/
theorem readFormula_eq_ok_iff :
    readFormula source = .ok expression ↔
      (scan source).fault = none ∧
        ∃ d, Derives d ((scan source).lexemes.dropLast.map (·.token)) ∧
          expressionOf d = expression ∧ expressionLevels expression ≤ 128 := by
  cases hfault : (scan source).fault with
  | none =>
    rw [readFormula_eq_parse hfault, parse_eq_ok_iff (scan_sealed hfault)]
    simp
  | some fault =>
    unfold readFormula
    dsimp only
    rw [hfault]
    dsimp only
    split <;> simp

/-- An expression that was read from a text is derived from tokens that were read. -/
theorem derives_of_readFormula (h : readFormula source = .ok expression) :
    ∃ d tokens, Derives d tokens ∧ expressionOf d = expression ∧
      expressionLevels expression ≤ 128 ∧ ∀ t ∈ tokens, Munched t := by
  obtain ⟨hfault, d, hd, he, hl⟩ := readFormula_eq_ok_iff.1 h
  refine ⟨d, _, hd, he, hl, ?_⟩
  intro t ht
  obtain ⟨lexeme, hm, rfl⟩ := List.mem_map.1 ht
  exact munched_of_mem_scan ((List.dropLast_sublist _).subset hm)
    ((scan_sealed hfault).onlyThere lexeme hm)

theorem convert_eq_ok_iff :
    convert settings display source = .ok markup ↔
      ∃ expression, readFormula source = .ok expression ∧
        markup = String.ofList ((mathElement settings display source (typeset expression)).write
          (settings.layout display)) := by
  unfold convert
  cases readFormula source with
  | error fault => simp
  | ok expression => simp [emitFormula_eq, eq_comm]

/-! ## The outermost elements -/

/-- One node stands for itself and all others for a row. -/
theorem writable_annotated (h : ∀ n ∈ nodes, n.Writable) : (annotated source nodes).Writable := by
  have hsource : (Element.leaf .sourceText [.encoding] (.plain source)).Writable :=
    writable_plain (by simp) source
  unfold annotated
  refine writable_node (List.forall_mem_append.2 ⟨?_, List.forall_mem_singleton.2 hsource⟩)
  exact asOneNode_of_forall (p := Node.Writable) h (Node.writable_row h)

theorem writable_mathElement (h : ∀ n ∈ nodes, n.Writable) :
    (mathElement settings display source nodes).Writable := by
  refine .node ?_ ?_
  · unfold mathAttributes
    cases settings.mathNamespace <;> simp [Attribute.name]
  · split
    · exact List.forall_mem_singleton.2 (writable_annotated h)
    · exact forall_mem_sequenceElements.2 h

/-- The text that a conversion yields reads back as the element that was written. -/
theorem read_convert (h : convert settings display source = .ok markup) :
    ∃ expression, readFormula source = .ok expression ∧
      Xml.read markup.toList =
        some (mathElement settings display source (typeset expression)).xml := by
  obtain ⟨expression, hread, rfl⟩ := convert_eq_ok_iff.1 h
  obtain ⟨d, tokens, hd, rfl, -, hm⟩ := derives_of_readFormula hread
  rw [← hd.tokens_eq] at hm
  refine ⟨_, hread, ?_⟩
  rw [String.toList_ofList, read_write (writable_mathElement (writable_sequence d hm))]

/-- **The markup of a formula is one well-formed element.** The text that a conversion yields is read
to its end as one element, in which every tag that is opened is closed in its turn and every name is
of the vocabulary. It is the element that was written, so that nothing in the formula opens or
closes an element or an attribute. -/
theorem convert_wellFormed (h : convert settings display source = .ok markup) :
    ∃ root expression, Xml.read markup.toList = some root ∧
      root.name = "math" ∧ root.names ⊆ vocabulary ∧
      readFormula source = .ok expression ∧
      root = (mathElement settings display source (typeset expression)).xml := by
  obtain ⟨expression, hread, hxml⟩ := read_convert h
  exact ⟨_, expression, hxml, rfl, names_xml_subset _, hread, rfl⟩

/-- The characters of markup in a colour and in the source beside the formula. -/
theorem convert_wellFormed_hostile :
    ∃ markup root, convert ⟨.never, false, true⟩ .inline "color(\"<&)(a)" = .ok markup ∧
      Xml.read markup.toList = some root ∧ root.name = "math" ∧ root.names ⊆ vocabulary := by
  have h : convert ⟨.never, false, true⟩ .inline "color(\"<&)(a)" =
      .ok ("<math display=\"inline\"><semantics><mstyle mathcolor=\"&quot;&lt;&amp;\"><mrow>" ++
        "<mi>a</mi></mrow></mstyle><annotation encoding=\"text/x-asciimath\">" ++
        "color(\"&lt;&amp;)(a)</annotation></semantics></math>") := by
    decide +kernel
  obtain ⟨root, _, hread, hname, hnames, -⟩ := convert_wellFormed h
  exact ⟨_, root, h, hread, hname, hnames⟩

end MathMarkup
