import MathMarkup.Proofs.Conversion.Juxtaposition
import MathMarkup.Proofs.Markup.Alphabet

/-!
# What the markup of a formula consists of

Principal results: `drawn_of_reads` — a token is drawn from the characters it is read from;
`drawn_convert` — so is the markup of a formula, with its source beside it or without.
-/

namespace MathMarkup.Formula

open MathMarkup.Markup MathMarkup.Text

variable {inBrackets : Bool} {source : List Char} {t : Token} {written rest : List Char}

/-- The glyphs of symbols need no character that markup does not consist of. -/
theorem all_isOwn_glyphs : ∀ s ∈ spellings, ∀ g ∈ s.symbol.glyphs, g.toList.all isOwn = true := by
  decide +kernel

/-- **A token is drawn from the characters it is read from.** -/
theorem drawn_of_reads (h : Reads inBrackets t written rest) (hwritten : written ⊆ source) :
    t.Holds (fun glyph => Drawn source glyph.toList) fun plain => Drawn source plain.toList := by
  have number : ∀ {digits : List Char}, digits ⊆ source →
      Drawn source (String.ofList digits).toList := by
    intro digits hdigits
    rw [String.toList_ofList]
    exact drawn_of_subset hdigits
  cases h with
  | verbatim _ _ =>
    refine number fun c hc => hwritten ?_
    exact List.mem_cons_of_mem _ (List.mem_append_left _ hc)
  | whole _ _ _ => exact number hwritten
  | decimal _ _ _ => exact number hwritten
  | symbol hmem _ _ _ =>
    intro g hg
    exact drawn_of_all (all_isOwn_glyphs _ hmem g hg)
  | @letter c _ _ _ _ _ =>
    show Drawn source (String.singleton c).toList
    rw [String.toList_singleton]
    exact drawn_of_subset hwritten

/-- The tokens of a text are drawn from the text. -/
theorem drawn_of_mem_scan {source : String} (hfault : (scan source).fault = none)
    (ht : t ∈ (scan source).lexemes.dropLast.map (·.token)) :
    t.Holds (fun glyph => Drawn source.toList glyph.toList)
      fun plain => Drawn source.toList plain.toList := by
  rcases (scan_tiles source).1 with ⟨-, lexemes, heq, htiles⟩ | ⟨_, _, _, _, -, hsome, -⟩
  · rw [heq, List.dropLast_concat] at ht
    obtain ⟨lexeme, hmem, rfl⟩ := List.mem_map.1 ht
    obtain ⟨earlier, later, hsplit⟩ := List.append_of_mem hmem
    obtain ⟨before, written, rest, htext, -, hreads⟩ := htiles.read earlier lexeme later hsplit
    refine drawn_of_reads hreads fun c hc => ?_
    rw [htext]
    exact List.mem_append_right _ (List.mem_append_left _ hc)
  · rw [hsome] at hfault
    cases hfault

end MathMarkup.Formula

namespace MathMarkup

open Formula Markup Presentation Text

variable {settings : Settings} {display : Display} {source markup : String} {nodes : List Node}

theorem drawnFrom_mathElement
    (h : ∀ node ∈ nodes, ∀ e ∈ node.elements, e.DrawnFrom source.toList) :
    (mathElement settings display source nodes).DrawnFrom source.toList := by
  have plain : ∀ a ∈ [Attribute.mathNamespace, .display display, .encoding],
      Drawn source.toList a.value := by
    intro a hmem
    refine drawn_value a ?_
    rintro color rfl
    simp at hmem
  have hsequence := forall_mem_sequenceElements.2 h
  have hsource : (Element.leaf .sourceText [.encoding] (.plain source)).DrawnFrom source.toList :=
    .leaf (by simpa using plain .encoding)
      (drawn_escaped (drawn_of_subset (List.Subset.refl _)))
  have hannotated : (annotated source nodes).DrawnFrom source.toList := by
    unfold annotated
    refine .node (by simp) (List.forall_mem_append.2 ⟨?_, List.forall_mem_singleton.2 hsource⟩)
    refine asOneNode_of_forall (p := fun node => ∀ e ∈ node.elements, e.DrawnFrom source.toList) h ?_
    rw [Node.elements]
    exact List.forall_mem_singleton.2 (.node (by simp) hsequence)
  unfold mathElement
  refine .node ?_ ?_
  · intro a hmem
    have hmem' : a = .mathNamespace ∨ a = .display display := by
      unfold mathAttributes at hmem
      split at hmem
      · simpa using hmem
      · exact .inr (by simpa using hmem)
    refine plain a ?_
    rcases hmem' with rfl | rfl <;> simp
  · split
    · exact List.forall_mem_singleton.2 hannotated
    · exact hsequence

/-- **The markup of a formula consists of characters of the formula and of characters of ASCII other than
the backtick.** -/
theorem drawn_convert (h : convert settings display source = .ok markup) :
    Drawn source.toList markup.toList := by
  obtain ⟨expression, hread, rfl⟩ := convert_eq_ok_iff.1 h
  obtain ⟨hfault, d, hd, rfl, -⟩ := readFormula_eq_ok_iff.1 hread
  have htokens : ∀ t ∈ sequenceTokens d, t.Holds (fun glyph => Drawn source.toList glyph.toList)
      fun plain => Drawn source.toList plain.toList := by
    intro t ht
    rw [hd.tokens_eq] at ht
    exact drawn_of_mem_scan hfault ht
  rw [String.toList_ofList]
  refine drawn_write _ _ (drawnFrom_mathElement fun node hn e he => ?_)
  exact ((holds_sequence d htokens node hn).elements e he).drawnFrom

/-- Markup starts with a tag. -/
theorem toList_eq_cons_of_convert (h : convert settings display source = .ok markup) :
    ∃ rest, markup.toList = '<' :: rest := by
  obtain ⟨expression, -, rfl⟩ := convert_eq_ok_iff.1 h
  rw [String.toList_ofList, mathElement, Element.write, startTag]
  exact ⟨_, rfl⟩

end MathMarkup
