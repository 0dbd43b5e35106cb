import MathMarkup.Proofs.Markup.ReadBack
import MathMarkup.Proofs.Presentation.Texts

/-!
# Nodes that can be written

* `IsGlyph` — a text in its written form.
* `Node.Writable` — a node of which all elements are writable.

Principal result: `Node.Holds.writable` — a node is writable if all its glyphs are in their written form,
whatever its plain texts are.
-/

namespace MathMarkup.Presentation

open MathMarkup.Markup MathMarkup.Markup.Xml

/-- A text in its written form is character data. -/
def IsGlyph (text : String) : Prop := isData isContentCharacter text.toList = true

instance (text : String) : Decidable (IsGlyph text) := inferInstanceAs (Decidable (_ = _))

def Node.Writable (node : Node) : Prop := ∀ e ∈ node.elements, e.Writable

variable {node : Node} {content : List Node} {q : String → Prop}

theorem writable_node {tag : Tag} {children : List Element}
    (h : ∀ child ∈ children, child.Writable) : (Element.node tag [] children).Writable :=
  .node List.nodup_nil h

theorem Node.writable_row (h : ∀ n ∈ content, n.Writable) : (row content).Writable := by
  intro e he
  rw [elements] at he
  rw [List.mem_singleton.1 he]
  exact writable_node (forall_mem_sequenceElements.2 h)

/-- A list of one attribute at most has no two of one name. -/
theorem nodup_names {attributes : List Attribute} (h : attributes.length ≤ 1) :
    (attributes.map Attribute.name).Nodup := by
  match attributes with
  | [] => simp
  | [a] => simp

/-- An element with glyphs in their written form can be written; plain texts are escaped. -/
theorem writable_of_holds {e : Element} (h : e.Holds IsGlyph q) : e.Writable := by
  induction h with
  | glyph _ hglyph => exact .leaf List.nodup_nil hglyph
  | plain _ => exact writable_plain (by simp) _
  | node _ hlength _ _ ih => exact .node (nodup_names hlength) ih
  | space => exact .space

/-- **A node with glyphs in their written form can be written.** -/
theorem Node.Holds.writable (h : node.Holds IsGlyph q) : node.Writable :=
  fun e he => writable_of_holds (h.elements e he)

end MathMarkup.Presentation
