import MathMarkup.Presentation.Emission

/-!
# The indents of written nodes

A node is written with an indent that each of its cases hands on by itself. The elements of a node are
written in a layout, which goes one level deeper in every element. Both come to the same text.

* `Shows` — an emitter writes elements at every indent, in the layout of that indent.

Principal result: `Node.shows_emit` — a node is written as its elements.
-/

namespace MathMarkup.Presentation

open MathMarkup.Formula MathMarkup.Markup

/-! ## Line breaks -/

theorem newLine_eq (indent : Nat) : newLine indent = (Layout.ofIndentation indent).lineBreak := by
  cases indent with
  | zero => rfl
  | succ n =>
    have hunit : indentUnit = List.replicate 4 ' ' := rfl
    rw [newLine, if_pos n.succ_pos, hunit, List.flatten_replicate_replicate, Nat.mul_comm]
    rfl

/-- The indent of what an element holds belongs to the layout of what it holds. -/
theorem ofIndentation_nestedIndent (indent : Nat) :
    Layout.ofIndentation (nestedIndent indent) = (Layout.ofIndentation indent).nested := by
  cases indent with
  | zero => rfl
  | succ n =>
    rw [nestedIndent, if_pos n.succ_pos]
    rfl

/-! ## What emitters write -/

/-- At every indent the emitter writes the elements in the layout of that indent. -/
def Shows (emitter : Emitter) (elements : List Element) : Prop :=
  ∀ indent, emitter indent = writeElements (.ofIndentation indent) elements

variable {emitter emitter' : Emitter} {rest : List Emitter} {e : Element}
  {elements elements' : List Element}

theorem Shows.append (h : Shows emitter elements) (h' : Shows emitter' elements') :
    Shows (fun indent => emitter indent ++ emitter' indent) (elements ++ elements') := by
  intro indent
  show emitter indent ++ emitter' indent = _
  rw [writeElements_append, h, h']

theorem shows_nil : Shows (emitAll []) [] := fun _ => rfl

theorem Shows.cons (h : Shows emitter elements) (h' : Shows (emitAll rest) elements') :
    Shows (emitAll (emitter :: rest)) (elements ++ elements') := h.append h'

theorem Shows.single (h : Shows emitter elements) : Shows (emitAll [emitter]) elements := by
  have hcons := h.cons shows_nil
  rw [List.append_nil] at hcons
  exact hcons

/-- An element on a line of its own. -/
theorem shows_onLine (h : ∀ indent, emitter indent = e.write (.ofIndentation indent)) :
    Shows (fun indent => onLine indent (emitter indent)) [e] := by
  intro indent
  show newLine indent ++ emitter indent = _
  rw [newLine_eq, h, writeElements, writeElements, List.append_nil]

theorem shows_textElement (tag : Tag) (text : String) :
    Shows (fun indent => onLine indent (textElement tag text.toList)) [written tag text] :=
  shows_onLine fun _ => rfl

/-- An element whose content is written one level deeper, and whose end tag stands where it stands. -/
theorem Shows.write_node (h : Shows emitter elements) (tag : Tag) (attributes : List Attribute)
    (indent : Nat) :
    startTag tag attributes ++ emitter (nestedIndent indent) ++ onLine indent (endTag tag) =
      (Element.node tag attributes elements).write (.ofIndentation indent) := by
  rw [h, ofIndentation_nestedIndent, onLine, newLine_eq, Element.write, List.append_assoc]

theorem shows_emitFence (fence : Option String) : Shows (emitFence fence) (fenceElements fence) := by
  cases fence with
  | none => exact shows_nil
  | some glyph => exact shows_textElement .mo glyph

/-! ## Scripts and matrices -/

theorem Shows.emitBase {base : Emitter} (h : Shows base elements) (placement : Placement) :
    Shows (emitBase base placement) (stackBase elements true placement) := by
  cases placement with
  | attached => exact h
  | limits => exact h
  | stacked side => exact shows_onLine (h.write_node (Side.tag side) [])

theorem scriptsTag_none (placement : Placement) : scriptsTag false false placement = .mrow := by
  cases placement <;> rfl

theorem stackBase_false (base : List Element) (placement : Placement) :
    stackBase base false placement = base := by
  cases placement <;> rfl

/-- A base with scripts is written as their element, in which it has its place. -/
theorem write_emitScripts {base : Emitter} (hbase : Shows base elements) {sub sup : Option Node}
    (hsub : Shows (emitAll (emitter? sub).toList) (optionalElements sub))
    (hsup : Shows (emitAll (emitter? sup).toList) (optionalElements sup)) (placement : Placement)
    (indent : Nat) :
    emitScripts base (emitter? sub) (emitter? sup) placement indent =
      (Element.node (scriptsTag sub.isSome sup.isSome placement) []
        (stackBase elements (sub.isSome || sup.isSome) placement ++
          (optionalElements sub ++ optionalElements sup))).write (.ofIndentation indent) := by
  have hscripts := ((hbase.emitBase placement).append (hsub.append hsup)).write_node
    (scriptsTag sub.isSome sup.isSome placement) [] indent
  cases sub with
  | some sub => cases sup <;> exact hscripts
  | none =>
    cases sup with
    | some sup => exact hscripts
    | none =>
      -- without a script the base is not stacked
      rw [Option.isSome_none, Bool.or_self, scriptsTag_none, stackBase_false]
      exact (hbase.cons shows_nil).write_node .mrow [] indent

/-- A matrix is written as a table between brackets, if its rows are written as rows of the table. -/
theorem write_emitMatrix {rows : List (List (List Node))}
    (hrows : Shows
      (fun rowIndent => (rowEmitters rows).flatMap
        (emitRow rowIndent (nestedIndent rowIndent) (nestedIndent (nestedIndent rowIndent))))
      (rowElements rows))
    (opening closing : Option String) (lines : List ColumnLine) (indent : Nat) :
    emitMatrix opening closing (rowEmitters rows) lines indent =
      (Element.node .mrow [] (fenceElements opening ++
        (tableElement lines (rowElements rows) :: fenceElements closing))).write
        (.ofIndentation indent) := by
  have htable := shows_onLine (hrows.write_node .mtable [.columnLines (lines.map (· = .solid))])
  have hcontent := (shows_emitFence opening).append (htable.append (shows_emitFence closing))
  exact hcontent.write_node .mrow [] indent

/-! ## Nodes -/

mutual

/-- **Every node is written as its elements**, at every indent. The cases are those of the node: each hands
on the indent that the elements stand at. -/
theorem Node.shows_emit : ∀ node : Node, Shows node.emit node.elements
  | .number text => shows_textElement .mn text
  | .identifier text => shows_textElement .mi text
  | .operator text => shows_textElement .mo text
  | .text content => shows_onLine fun _ => rfl
  | .spacedText text => by
    have hspace : Shows (fun indent => onLine indent spaceTag) [.space] := shows_onLine fun _ => rfl
    have hcontent := hspace.append ((shows_textElement .mtext text).append hspace)
    exact shows_onLine (hcontent.write_node .mrow [])
  | .row content => shows_onLine ((shows_emitters content).write_node .mrow [])
  | .fenced opening closing content => by
    have hcontent := (shows_emitters content).append (shows_emitFence closing)
    exact shows_onLine (((shows_emitFence opening).append hcontent).write_node .mrow [])
  | .delimited opening closing content => by
    have hcontent := content.shows_emit.append (shows_textElement .mo closing)
    intro indent
    -- no element is around the three, so that all of them stand at the indent of the node
    have hall := (shows_textElement .mo opening).append hcontent indent
    exact (List.append_assoc _ _ _).symm.trans hall
  | .scripts base sub sup placement =>
    shows_onLine (write_emitScripts base.shows_emit (shows_emitter? sub) (shows_emitter? sup) placement)
  | .fraction numerator denominator =>
    shows_onLine ((numerator.shows_emit.cons denominator.shows_emit.single).write_node .mfrac [])
  | .root none radicand => shows_onLine (radicand.shows_emit.single.write_node .msqrt [])
  | .root (some index) radicand =>
    shows_onLine ((radicand.shows_emit.cons index.shows_emit.single).write_node .mroot [])
  | .decorated base none none => shows_onLine ((base.shows_emit.cons shows_nil).write_node .mrow [])
  | .decorated base (some above) none =>
    shows_onLine ((base.shows_emit.cons above.shows_emit.single).write_node .mover [])
  | .decorated base none (some below) =>
    shows_onLine ((base.shows_emit.cons (below.shows_emit.cons shows_nil)).write_node .munder [])
  | .decorated base (some above) (some below) => by
    have hmarks := below.shows_emit.cons above.shows_emit.single
    exact shows_onLine ((base.shows_emit.cons hmarks).write_node .munderover [])
  | .struck content => shows_onLine (content.shows_emit.write_node .menclose [.upDiagonalStrike])
  | .styled variant content =>
    shows_onLine (content.shows_emit.write_node .mstyle [.mathVariant variant])
  | .colored color content =>
    shows_onLine (content.shows_emit.write_node .mstyle [.mathColor color])
  | .matrix opening closing rows lines =>
    shows_onLine (write_emitMatrix (shows_rowEmitters rows) opening closing lines)

theorem shows_emitter? : ∀ node : Option Node,
    Shows (emitAll (emitter? node).toList) (optionalElements node)
  | none => shows_nil
  | some node => node.shows_emit.single

theorem shows_emitters : ∀ nodes : List Node,
    Shows (emitAll (emitters nodes)) (sequenceElements nodes)
  | [] => shows_nil
  | node :: rest => node.shows_emit.cons (shows_emitters rest)

theorem shows_cellEmitters : ∀ row : List (List Node),
    Shows (fun cellIndent => (cellEmitters row).flatMap (emitCell cellIndent (nestedIndent cellIndent)))
      (cellElements row)
  | [] => shows_nil
  | cell :: rest => by
    have hcell := shows_onLine ((shows_emitters cell).write_node .mtd [])
    exact hcell.append (shows_cellEmitters rest)

theorem shows_rowEmitters : ∀ rows : List (List (List Node)),
    Shows
      (fun rowIndent => (rowEmitters rows).flatMap
        (emitRow rowIndent (nestedIndent rowIndent) (nestedIndent (nestedIndent rowIndent))))
      (rowElements rows)
  | [] => shows_nil
  | row :: rest => by
    have hrow := shows_onLine ((shows_cellEmitters row).write_node .mtr [])
    exact hrow.append (shows_rowEmitters rest)

end

end MathMarkup.Presentation
