import MathMarkup.Markup.Writer
import MathMarkup.Proofs.Formula.Rewording
import MathMarkup.Proofs.Presentation.Texts

/-!
# Markup with other texts

The texts of an element that are escaped when it is written, the colours among them, and the element with
others in their place.

* `Element.texts` — these texts, in the order in which they are written.
* `Element.mapTexts` — each of them replaced.
* `Hole`, `HasHole` — written markup in which one text is left open.

Principal results: `texts_mapTexts` — an element has the texts that were put into it;
`hasHole_writeElements` — a text that elements have once stands in one place of what is written for them.
-/

namespace MathMarkup.Markup

open MathMarkup.Formula MathMarkup.Text

variable {f : String → String} {e : Element} {es : List Element} {marker : String}

/-! ## Other texts -/

def Attribute.mapText (f : String → String) : Attribute → Attribute
  | mathColor color => mathColor (f color)
  | a => a

def CharacterData.mapText (f : String → String) : CharacterData → CharacterData
  | plain text => plain (f text)
  | data => data

mutual

def Element.mapTexts (f : String → String) : Element → Element
  | .leaf tag attributes content =>
    .leaf tag (attributes.map (Attribute.mapText f)) (content.mapText f)
  | .node tag attributes children =>
    .node tag (attributes.map (Attribute.mapText f)) (elementsMapTexts f children)
  | .space => .space

def elementsMapTexts (f : String → String) : List Element → List Element
  | [] => []
  | e :: rest => e.mapTexts f :: elementsMapTexts f rest

end

theorem elementsMapTexts_eq_map (f : String → String) (es : List Element) :
    elementsMapTexts f es = es.map (Element.mapTexts f) := by
  induction es with
  | nil => rw [elementsMapTexts, List.map_nil]
  | cons e es ih => rw [elementsMapTexts, List.map_cons, ih]

theorem elementsMapTexts_append (f : String → String) (es es' : List Element) :
    elementsMapTexts f (es ++ es') = elementsMapTexts f es ++ elementsMapTexts f es' := by
  simp only [elementsMapTexts_eq_map, List.map_append]

/-- What encloses some elements stays, but for a colour. -/
theorem elementsMapTexts_node (tag : Tag) (attributes : List Attribute) (children : List Element) :
    elementsMapTexts f [.node tag attributes children] =
      [.node tag (attributes.map (Attribute.mapText f)) (elementsMapTexts f children)] := by
  rw [elementsMapTexts, elementsMapTexts, Element.mapTexts]

/-! ## The texts of elements -/

def Attribute.texts : Attribute → List String
  | mathColor color => [color]
  | _ => []

def CharacterData.texts : CharacterData → List String
  | plain text => [text]
  | _ => []

mutual

def Element.texts : Element → List String
  | .leaf _ attributes content => attributes.flatMap Attribute.texts ++ content.texts
  | .node _ attributes children => attributes.flatMap Attribute.texts ++ elementsTexts children
  | .space => []

def elementsTexts : List Element → List String
  | [] => []
  | e :: rest => e.texts ++ elementsTexts rest

end

theorem elementsTexts_eq_flatMap (es : List Element) : elementsTexts es = es.flatMap Element.texts := by
  induction es with
  | nil => rw [elementsTexts, List.flatMap_nil]
  | cons e es ih => rw [elementsTexts, List.flatMap_cons, ih]

theorem elementsTexts_append (es es' : List Element) :
    elementsTexts (es ++ es') = elementsTexts es ++ elementsTexts es' := by
  simp only [elementsTexts_eq_flatMap, List.flatMap_append]

theorem elementsTexts_node (tag : Tag) (attributes : List Attribute) (children : List Element) :
    elementsTexts [.node tag attributes children] =
      attributes.flatMap Attribute.texts ++ elementsTexts children := by
  rw [elementsTexts, elementsTexts, List.append_nil, Element.texts]

theorem Attribute.texts_mapText (f : String → String) (a : Attribute) :
    (a.mapText f).texts = a.texts.map f := by
  cases a <;> rfl

theorem CharacterData.texts_mapText (f : String → String) (data : CharacterData) :
    (data.mapText f).texts = data.texts.map f := by
  cases data <;> rfl

theorem attributes_texts_mapText (f : String → String) (attributes : List Attribute) :
    (attributes.map (Attribute.mapText f)).flatMap Attribute.texts =
      (attributes.flatMap Attribute.texts).map f := by
  rw [List.flatMap_map, List.map_flatMap]
  exact List.flatMap_congr fun a _ => a.texts_mapText f

mutual

theorem Element.texts_mapTexts (f : String → String) : ∀ e : Element,
    (e.mapTexts f).texts = e.texts.map f
  | .leaf tag attributes content => by
    rw [Element.mapTexts, Element.texts, Element.texts, List.map_append, attributes_texts_mapText,
      content.texts_mapText]
  | .node tag attributes children => by
    rw [Element.mapTexts, Element.texts, Element.texts, List.map_append, attributes_texts_mapText,
      elementsTexts_mapTexts f children]
  | .space => by
    rw [Element.mapTexts, Element.texts, List.map_nil]

/-- **Elements have the texts that were put into them.** -/
theorem elementsTexts_mapTexts (f : String → String) : ∀ es : List Element,
    elementsTexts (elementsMapTexts f es) = (elementsTexts es).map f
  | [] => by rw [elementsMapTexts, elementsTexts, List.map_nil]
  | e :: es => by
    rw [elementsMapTexts, elementsTexts, elementsTexts, List.map_append, e.texts_mapTexts f,
      elementsTexts_mapTexts f es]

end

/-! ## Texts that stay -/

theorem Attribute.mapText_eq_self {a : Attribute} (h : ∀ text ∈ a.texts, f text = text) :
    a.mapText f = a := by
  cases a with
  | mathColor color => exact congrArg mathColor (h color (List.mem_singleton_self _))
  | _ => rfl

theorem CharacterData.mapText_eq_self {data : CharacterData} (h : ∀ text ∈ data.texts, f text = text) :
    data.mapText f = data := by
  cases data with
  | written text => rfl
  | plain text => exact congrArg plain (h text (List.mem_singleton_self _))

theorem attributes_mapText_eq_self {attributes : List Attribute}
    (h : ∀ text ∈ attributes.flatMap Attribute.texts, f text = text) :
    attributes.map (Attribute.mapText f) = attributes := by
  refine (List.map_congr_left fun a ha => ?_).trans (List.map_id _)
  exact Attribute.mapText_eq_self fun text ht => h text (List.mem_flatMap.2 ⟨a, ha, ht⟩)

mutual

theorem Element.mapTexts_eq_self : ∀ e : Element, (∀ text ∈ e.texts, f text = text) → e.mapTexts f = e
  | .leaf tag attributes content, h => by
    rw [Element.texts, List.forall_mem_append] at h
    rw [Element.mapTexts, attributes_mapText_eq_self h.1, CharacterData.mapText_eq_self h.2]
  | .node tag attributes children, h => by
    rw [Element.texts, List.forall_mem_append] at h
    rw [Element.mapTexts, attributes_mapText_eq_self h.1, elementsMapTexts_eq_self children h.2]
  | .space, _ => by rw [Element.mapTexts]

/-- Elements are what they were if none of their texts is replaced. -/
theorem elementsMapTexts_eq_self : ∀ es : List Element, (∀ text ∈ elementsTexts es, f text = text) →
    elementsMapTexts f es = es
  | [], _ => by rw [elementsMapTexts]
  | e :: es, h => by
    rw [elementsTexts, List.forall_mem_append] at h
    rw [elementsMapTexts, Element.mapTexts_eq_self e h.1, elementsMapTexts_eq_self es h.2]

end

/-! ## Markup with one text left open -/

/-- Where a text can stand in markup. -/
inductive Hole where
  /-- Between the tags of an element of its own. -/
  | text
  /-- In an attribute, as the name of a colour. -/
  | color
  deriving DecidableEq, Repr

/-- What is written for a text. -/
def Hole.fill (content : String) : Hole → List Char
  | text => "<mtext>".toList ++ (escapeContent content.toList ++ "</mtext>".toList)
  | color => " mathcolor=\"".toList ++ (escapeAttribute content.toList ++ "\"".toList)

/-- All that depends on a text is what is written for it in one place. -/
def HasHole (write : String → List Char) : Prop :=
  ∃ front hole back, ∀ content, write content = front ++ (Hole.fill content hole ++ back)

theorem HasHole.surround {write : String → List Char} (h : HasHole write) (a b : List Char) :
    HasHole fun content => a ++ (write content ++ b) := by
  obtain ⟨front, hole, back, hfill⟩ := h
  refine ⟨a ++ front, hole, back ++ b, fun content => ?_⟩
  dsimp only
  rw [hfill]
  simp only [List.append_assoc]

theorem write_mathColor (content : String) :
    (Attribute.mathColor content).write = Hole.fill content .color := by
  have hname : ' ' :: "mathcolor".toList ++ "=\"".toList = " mathcolor=\"".toList := by decide
  show ' ' :: "mathcolor".toList ++ "=\"".toList ++ escapeAttribute content.toList ++ "\"".toList = _
  rw [hname, List.append_assoc]
  rfl

theorem write_plain (content : String) (layout : Layout) :
    (Element.leaf .mtext [] (.plain content)).write layout = Hole.fill content .text := by
  have hstart : startTag .mtext [] = "<mtext>".toList := by decide
  have hend : endTag .mtext = "</mtext>".toList := by decide
  rw [Element.write, hstart, hend, List.append_assoc]
  rfl

/-- The one attribute of an element is a colour, if the marker is in it. -/
theorem hasHole_startTag {tag : Tag} {attributes : List Attribute} (hlength : attributes.length ≤ 1)
    (hmem : marker ∈ attributes.flatMap Attribute.texts) :
    HasHole fun content => startTag tag (attributes.map (Attribute.mapText (putFor marker content))) := by
  obtain ⟨a, ha, htext⟩ := List.mem_flatMap.1 hmem
  have hone : attributes = [a] := by
    match attributes, hlength, ha with
    | [_], _, ha => rw [List.mem_singleton.1 ha]
  rw [hone]
  cases a with
  | mathColor color =>
    obtain rfl := List.mem_singleton.1 htext
    refine ⟨'<' :: tag.name.toList, .color, ">".toList, fun content => ?_⟩
    have hput : Attribute.mapText (putFor marker content) (.mathColor marker) = .mathColor content :=
      congrArg Attribute.mathColor (putFor_self marker content)
    dsimp only
    rw [List.map_singleton, hput, startTag, List.flatMap_singleton, write_mathColor, List.append_assoc]
  | _ => cases htext

theorem hasHole_writeElements_of {layout : Layout} :
    ∀ {es : List Element}, (∀ e ∈ es, e.texts.count marker = 1 →
        HasHole fun content => (e.mapTexts (putFor marker content)).write layout) →
      (elementsTexts es).count marker = 1 →
      HasHole fun content => writeElements layout (elementsMapTexts (putFor marker content) es)
  | [], _, hcount => by simp [elementsTexts] at hcount
  | e :: es, h, hcount => by
    obtain ⟨he, hes⟩ := List.forall_mem_cons.1 h
    rw [elementsTexts, List.count_append] at hcount
    by_cases hmem : marker ∈ e.texts
    · have hpos := List.count_pos_iff.2 hmem
      have hothers : marker ∉ elementsTexts es := List.count_eq_zero.1 (by omega)
      have hsame : ∀ content, elementsMapTexts (putFor marker content) es = es := fun content =>
        elementsMapTexts_eq_self es (putFor_of_notMem hothers content)
      simp only [elementsMapTexts, writeElements, hsame]
      exact (he (by omega)).surround layout.lineBreak (writeElements layout es)
    · have hzero := List.count_eq_zero.2 hmem
      have hsame : ∀ content, e.mapTexts (putFor marker content) = e := fun content =>
        e.mapTexts_eq_self (putFor_of_notMem hmem content)
      have hothers := (hasHole_writeElements_of hes (by omega)).surround
        (layout.lineBreak ++ e.write layout) []
      simpa [elementsMapTexts, writeElements, hsame] using hothers

theorem hasHole_write {p q : String → Prop} (h : e.Holds p q) (hcount : e.texts.count marker = 1)
    (layout : Layout) : HasHole fun content => (e.mapTexts (putFor marker content)).write layout := by
  induction h generalizing layout with
  | glyph _ _ => cases hcount
  | @plain text _ =>
    have hmem : marker ∈ [text] := List.count_pos_iff.1 (Nat.lt_of_lt_of_eq Nat.one_pos hcount.symm)
    obtain rfl := List.mem_singleton.1 hmem
    refine ⟨[], .text, [], fun content => ?_⟩
    have hput : Element.mapTexts (putFor marker content) (.leaf .mtext [] (.plain marker)) =
        .leaf .mtext [] (.plain content) := by
      rw [Element.mapTexts, CharacterData.mapText, putFor_self, List.map_nil]
    dsimp only
    rw [hput, write_plain, List.nil_append, List.append_nil]
  | @node tag attributes children _ hlength _ _ ih =>
    rw [Element.texts, List.count_append] at hcount
    by_cases hmem : marker ∈ attributes.flatMap Attribute.texts
    · have hpos := List.count_pos_iff.2 hmem
      have hchildren : marker ∉ elementsTexts children := List.count_eq_zero.1 (by omega)
      have hsame : ∀ content, elementsMapTexts (putFor marker content) children = children :=
        fun content => elementsMapTexts_eq_self children (putFor_of_notMem hchildren content)
      have hstart := (@hasHole_startTag marker tag attributes hlength hmem).surround []
        (writeElements layout.nested children ++ (layout.lineBreak ++ endTag tag))
      simpa [Element.mapTexts, Element.write, hsame] using hstart
    · have hzero := List.count_eq_zero.2 hmem
      have hsame : ∀ content, attributes.map (Attribute.mapText (putFor marker content)) = attributes :=
        fun content => attributes_mapText_eq_self (putFor_of_notMem hmem content)
      have hinner : HasHole fun content =>
          writeElements layout.nested (elementsMapTexts (putFor marker content) children) :=
        hasHole_writeElements_of (fun child hchild hone => ih child hchild hone layout.nested) (by omega)
      have hchildren := hinner.surround (startTag tag attributes) (layout.lineBreak ++ endTag tag)
      simpa [Element.mapTexts, Element.write, hsame] using hchildren
  | space => cases hcount

/-- **A text that elements have once stands in one place of what is written for them**, whatever is put for
it, and the rest does not depend on it. -/
theorem hasHole_writeElements {p q : String → Prop} (h : ∀ e ∈ es, e.Holds p q)
    (hcount : (elementsTexts es).count marker = 1) (layout : Layout) :
    HasHole fun content => writeElements layout (elementsMapTexts (putFor marker content) es) :=
  hasHole_writeElements_of (fun e he hone => hasHole_write (h e he) hone layout) hcount

end MathMarkup.Markup
