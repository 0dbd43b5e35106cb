import MathMarkup.Markup.Writer
import MathMarkup.Proofs.Presentation.Texts

/-!
# The characters of markup

* `isOwn` — the characters that are used for markup itself: those of ASCII but the backtick.
* `Drawn source text` — all other characters of a text come from the source.
* `Element.DrawnFrom` — the texts in an element are drawn from a source.

Principal results: `drawn_write` — what is written for an element is drawn from the source of its texts;
`Element.Holds.drawnFrom` — so are the elements of nodes with such texts.
-/

namespace MathMarkup.Markup

open MathMarkup.Text

/-- The characters that markup consists of. -/
def isOwn (c : Char) : Bool := c.toNat < 128 && c != '`'

/-- A character of the text that markup does not consist of is one of the source. -/
def Drawn (source text : List Char) : Prop := ∀ c ∈ text, isOwn c = true ∨ c ∈ source

variable {source text u v : List Char} {tag : Tag} {attributes : List Attribute}

theorem drawn_append (hu : Drawn source u) (hv : Drawn source v) : Drawn source (u ++ v) :=
  List.forall_mem_append.2 ⟨hu, hv⟩

theorem drawn_cons {c : Char} (hc : isOwn c = true) (h : Drawn source text) :
    Drawn source (c :: text) :=
  List.forall_mem_cons.2 ⟨.inl hc, h⟩

theorem drawn_of_all (h : text.all isOwn = true) : Drawn source text :=
  fun c hc => .inl (List.all_eq_true.1 h c hc)

theorem drawn_of_subset (h : text ⊆ source) : Drawn source text := fun _ hc => .inr (h hc)

theorem drawn_flatMap {write : Char → List Char} (h : Drawn source text)
    (hwrite : ∀ c, write c = [c] ∨ (write c).all isOwn = true) :
    Drawn source (text.flatMap write) := by
  intro d hd
  obtain ⟨c, hc, hd⟩ := List.mem_flatMap.1 hd
  rcases hwrite c with heq | hall
  · rw [heq, List.mem_singleton] at hd
    exact hd ▸ h c hc
  · exact drawn_of_all hall d hd

theorem all_isOwn_referenceTo (mark : Char) : (referenceTo mark).all isOwn = true := by
  unfold referenceTo
  split
  · decide
  split
  · decide
  split
  · decide
  · decide

theorem drawn_escaped {marks : List Char} (h : Drawn source text) :
    Drawn source (text.flatMap (escapeMarked marks)) := by
  refine drawn_flatMap h fun c => ?_
  by_cases hc : c ∈ marks
  · rw [escapeMarked_of_mem hc]
    exact .inr (all_isOwn_referenceTo c)
  · exact .inl (escapeMarked_of_notMem hc)

/-! ## Tags -/

theorem all_isOwn_lineValues (drawn : List Bool) :
    (" ".intercalate (drawn.map Attribute.lineValue)).toList.all isOwn = true := by
  have one : ∀ b, (Attribute.lineValue b).toList.all isOwn = true := by decide
  induction drawn with
  | nil => rfl
  | cons b rest ih =>
    cases rest with
    | nil =>
      rw [List.map_singleton, String.intercalate_singleton]
      exact one b
    | cons b' rest =>
      rw [List.map_cons, List.map_cons] at *
      rw [String.intercalate_cons_cons, String.toList_append, String.toList_append, List.all_append,
        List.all_append, one b, ih]
      rfl

/-- Of the values of attributes only colours come from a source. -/
theorem drawn_value (a : Attribute)
    (h : ∀ color, a = .mathColor color → Drawn source color.toList) :
    Drawn source a.value := by
  cases a with
  | mathNamespace => exact drawn_of_all (by decide)
  | display mode => cases mode <;> exact drawn_of_all (by decide)
  | encoding => exact drawn_of_all (by decide)
  | upDiagonalStrike => exact drawn_of_all (by decide)
  | mathVariant variant => cases variant <;> exact drawn_of_all (by decide)
  | mathColor color => exact drawn_escaped (h color rfl)
  | columnLines drawn => exact drawn_of_all (all_isOwn_lineValues drawn)

theorem all_isOwn_tagName (tag : Tag) : tag.name.toList.all isOwn = true := by
  cases tag <;> decide +kernel

theorem all_isOwn_attributeName (a : Attribute) :
    a.name.toList.all isOwn = true := by
  cases a <;> (rw [Attribute.name]; decide)

theorem drawn_startTag (h : ∀ a ∈ attributes, Drawn source a.value) :
    Drawn source (startTag tag attributes) := by
  have hattributes : Drawn source (attributes.flatMap Attribute.write) := by
    intro c hc
    obtain ⟨a, hmem, hc⟩ := List.mem_flatMap.1 hc
    have hname : Drawn source (' ' :: a.name.toList) :=
      drawn_cons (by decide) (drawn_of_all (all_isOwn_attributeName a))
    have hwrite : Drawn source a.write :=
      drawn_append (drawn_append (drawn_append hname (drawn_of_all (by decide))) (h a hmem))
        (drawn_of_all (by decide))
    exact hwrite c hc
  have hname : Drawn source ('<' :: tag.name.toList) :=
    drawn_cons (by decide) (drawn_of_all (all_isOwn_tagName tag))
  exact drawn_append (drawn_append hname hattributes) (drawn_of_all (by decide))

theorem drawn_endTag : Drawn source (endTag tag) :=
  drawn_append (drawn_append (drawn_of_all (by decide)) (drawn_of_all (all_isOwn_tagName tag)))
    (drawn_of_all (by decide))

theorem drawn_lineBreak (layout : Layout) : Drawn source layout.lineBreak := by
  cases layout with
  | compact => exact fun c hc => absurd hc List.not_mem_nil
  | indented level =>
    intro c hc
    refine .inl ?_
    rcases List.mem_cons.1 hc with rfl | hc
    · decide
    · rw [List.eq_of_mem_replicate hc]
      decide

/-! ## Elements -/

/-- All texts in the element are drawn from the source. -/
inductive Element.DrawnFrom (source : List Char) : Element → Prop
  | leaf {tag attributes content} : (∀ a ∈ attributes, Drawn source a.value) →
      Drawn source content.toChars → DrawnFrom source (.leaf tag attributes content)
  | node {tag attributes children} : (∀ a ∈ attributes, Drawn source a.value) →
      (∀ child ∈ children, child.DrawnFrom source) → DrawnFrom source (.node tag attributes children)
  | space : DrawnFrom source .space

/-- The element of a node is drawn from where its glyphs and its plain texts are. -/
theorem Element.Holds.drawnFrom {e : Element}
    (h : e.Holds (fun glyph => Drawn source glyph.toList) fun plain => Drawn source plain.toList) :
    e.DrawnFrom source := by
  induction h with
  | glyph _ hglyph => exact .leaf (by simp) hglyph
  | plain htext => exact .leaf (by simp) (drawn_escaped htext)
  | node _ _ hattributes _ ih =>
    refine .node (fun a hmem => drawn_value a ?_) ih
    rintro color rfl
    exact hattributes _ hmem
  | space => exact .space

mutual

/-- **What is written for an element is drawn from the source of its texts.** -/
theorem drawn_write (layout : Layout) : ∀ e : Element, e.DrawnFrom source →
    Drawn source (e.write layout)
  | .leaf tag attributes content, .leaf hattributes hcontent => by
    rw [Element.write]
    exact drawn_append (drawn_append (drawn_startTag hattributes) hcontent) drawn_endTag
  | .node tag attributes children, .node hattributes hchildren => by
    rw [Element.write]
    exact drawn_append (drawn_startTag hattributes)
      (drawn_append (drawn_writeElements layout.nested children hchildren)
        (drawn_append (drawn_lineBreak layout) drawn_endTag))
  | .space, .space => by
    rw [Element.write]
    exact drawn_of_all (by decide)

theorem drawn_writeElements (layout : Layout) : ∀ es : List Element,
    (∀ e ∈ es, e.DrawnFrom source) → Drawn source (writeElements layout es)
  | [], _ => by
    rw [writeElements]
    exact fun c hc => absurd hc List.not_mem_nil
  | e :: rest, h => by
    obtain ⟨he, hrest⟩ := List.forall_mem_cons.1 h
    rw [writeElements]
    exact drawn_append (drawn_lineBreak layout)
      (drawn_append (drawn_write layout e he) (drawn_writeElements layout rest hrest))

end

end MathMarkup.Markup
