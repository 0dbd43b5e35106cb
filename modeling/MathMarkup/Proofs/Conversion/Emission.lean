import MathMarkup.Conversion
import MathMarkup.Proofs.Presentation.Emission

/-!
# The indents of a written formula

Principal result: `emitFormula_eq` — a formula is written as its outermost element, in the layout of the
settings.
-/

namespace MathMarkup

open Formula Markup Presentation

variable {settings : Settings} {display : Display} {source : String} {nodes : List Node}

/-! ## The base indent -/

/-- What stands inside of an element is on level one at least, so that its level is an indent. -/
theorem ofIndentation_indentation (layout : Layout) :
    Layout.ofIndentation layout.nested.indentation = layout.nested := by
  cases layout with
  | compact => rfl
  | indented level => rfl

theorem Settings.baseIndent_eq (settings : Settings) (display : Display) :
    settings.baseIndent display = (settings.layout display).nested.indentation := by
  unfold baseIndent layout
  split
  · rfl
  · rfl

theorem ofIndentation_baseIndent (settings : Settings) (display : Display) :
    Layout.ofIndentation (settings.baseIndent display) = (settings.layout display).nested := by
  rw [Settings.baseIndent_eq, ofIndentation_indentation]

/-- The outermost element has its end tag on a line of its own if the formula is spread over lines. -/
theorem lineBreak_layout (settings : Settings) (display : Display) :
    (settings.layout display).lineBreak = if settings.spreads display then ['\n'] else [] := by
  unfold Settings.layout
  split
  · rfl
  · rfl

/-! ## The formula -/

theorem shows_emitAnnotated (source : String) (nodes : List Node) :
    Shows (emitAnnotated source nodes) [annotated source nodes] := by
  have hsource : Shows
      (fun indent => onLine indent
        (startTag .sourceText [.encoding] ++ Text.escapeContent source.toList ++ endTag .sourceText))
      [.leaf .sourceText [.encoding] (.plain source)] := shows_onLine fun _ => rfl
  exact shows_onLine (((asOneNode nodes).shows_emit.append hsource).write_node .semantics [])

/-- **A formula is written as its outermost element**, at whatever indents the settings ask for. -/
theorem emitFormula_eq (settings : Settings) (display : Display) (source : String) (nodes : List Node) :
    emitFormula settings display source nodes =
      (mathElement settings display source nodes).write (settings.layout display) := by
  have hcontent : Shows
      (fun indent => if settings.keepSource then emitAnnotated source nodes indent
        else emitAll (emitters nodes) indent)
      (if settings.keepSource then [annotated source nodes] else sequenceElements nodes) := by
    split
    · exact shows_emitAnnotated source nodes
    · exact shows_emitters nodes
  have hwritten := hcontent (settings.baseIndent display)
  rw [ofIndentation_baseIndent] at hwritten
  unfold emitFormula mathElement
  dsimp only at hwritten ⊢
  rw [Element.write, lineBreak_layout, hwritten, List.append_assoc, List.append_assoc]

/-- Without its source beside it, a formula does not depend on it. -/
theorem emitFormula_of_plain (h : settings.keepSource = false) (display : Display)
    (source source' : String) (nodes : List Node) :
    emitFormula settings display source nodes = emitFormula settings display source' nodes := by
  rw [emitFormula, emitFormula, h]
  rfl

end MathMarkup
