import MathMarkup.Proofs.Markup.Xml

/-!
# Written markup reads back

* `Element.xml` — the tree that an element is written for.
* `Element.Writable` — the texts that are written as they stand are character data.
* `vocabulary` — the names of elements.

Principal results: `read_write` — a writable element is read back from its text in every layout;
`names_xml_subset` — all names in it are of the vocabulary.
-/

namespace MathMarkup.Markup

open MathMarkup.Text Xml

/-- An attribute with its value as it is written. -/
def Attribute.pair (a : Attribute) : String × String := (a.name, String.ofList a.value)

mutual

/-- The tree that an element is written for. -/
def Element.xml : Element → Xml
  | .leaf tag attributes _ => .element tag.name (attributes.map Attribute.pair) []
  | .node tag attributes children =>
    .element tag.name (attributes.map Attribute.pair) (xmlOf children)
  | .space => .element "mspace" [("width", "1ex")] []

def xmlOf : List Element → List Xml
  | [] => []
  | e :: rest => e.xml :: xmlOf rest

end

/-- No element has two attributes of one name, and all texts of leaves are character data. -/
inductive Element.Writable : Element → Prop
  | leaf {tag attributes content} : (attributes.map Attribute.name).Nodup →
      isData isContentCharacter content.toChars = true → Writable (.leaf tag attributes content)
  | node {tag attributes children} : (attributes.map Attribute.name).Nodup →
      (∀ child ∈ children, child.Writable) → Writable (.node tag attributes children)
  | space : Writable .space

/-! ## Escaped texts -/

theorem isData_referenceTo (plain : Char → Bool) (mark : Char) :
    isData plain (referenceTo mark) = true := by
  unfold referenceTo
  split
  · rfl
  split
  · rfl
  split
  · rfl
  · rfl

/-- An escaped text is character data wherever the marks are all that does not stand for itself. -/
theorem isData_escaped {marks : List Char} {plain : Char → Bool} (hamp : plain '&' = false)
    (h : ∀ c, c ∉ marks → plain c = true) (text : List Char) :
    isData plain (text.flatMap (escapeMarked marks)) = true := by
  refine isData_flatMap (fun c => ?_) text
  by_cases hc : c ∈ marks
  · rw [escapeMarked_of_mem hc]
    exact isData_referenceTo plain c
  · rw [escapeMarked_of_notMem hc]
    exact isData_of_plain hamp (List.forall_mem_singleton.2 (h c hc))

theorem isData_escapeContent (text : List Char) :
    isData isContentCharacter (escapeContent text) = true := by
  refine isData_escaped rfl (fun c hc => ?_) text
  have hne : c ≠ '&' ∧ c ≠ '<' ∧ c ≠ '>' := by simpa [contentMarks] using hc
  simp [isContentCharacter, hne]

theorem isData_escapeAttribute (text : List Char) :
    isData isValueCharacter (escapeAttribute text) = true := by
  refine isData_escaped rfl (fun c hc => ?_) text
  have hne : c ≠ '&' ∧ c ≠ '"' ∧ c ≠ '<' := by simpa [attributeMarks] using hc
  simp [isValueCharacter, hne]

/-- A leaf whose text is escaped can hold every text. -/
theorem writable_plain {tag : Tag} {attributes : List Attribute}
    (h : (attributes.map Attribute.name).Nodup) (text : String) :
    (Element.leaf tag attributes (.plain text)).Writable :=
  .leaf h (isData_escapeContent text.toList)

theorem isData_lineValues (drawn : List Bool) :
    isData isValueCharacter (" ".intercalate (drawn.map Attribute.lineValue)).toList = true := by
  have one : ∀ b, isData isValueCharacter (Attribute.lineValue b).toList = true := by decide
  induction drawn with
  | nil => rfl
  | cons b rest ih =>
    cases rest with
    | nil =>
      rw [List.map_singleton, String.intercalate_singleton]
      exact one b
    | cons b' rest =>
      rw [List.map_cons, List.map_cons] at *
      rw [String.intercalate_cons_cons, String.toList_append, String.toList_append]
      exact isData_append (isData_append (one b) (by decide)) ih

/-- Only a colour comes from the formula, and a colour is escaped. -/
theorem isData_value (a : Attribute) : isData isValueCharacter a.value = true := by
  cases a with
  | mathNamespace => decide
  | display mode => cases mode <;> decide
  | encoding => decide
  | upDiagonalStrike => decide
  | mathVariant variant => cases variant <;> decide
  | mathColor color => exact isData_escapeAttribute color.toList
  | columnLines drawn => exact isData_lineValues drawn

/-! ## Tags -/

/-- The names of the language consist of letters. -/
def IsName (name : List Char) : Prop := name ≠ [] ∧ ∀ c ∈ name, c.isAlpha = true

theorem isName_of_all {name : List Char} (h : (!name.isEmpty && name.all Char.isAlpha) = true) :
    IsName name := by
  rw [Bool.and_eq_true, List.all_eq_true] at h
  refine ⟨?_, h.2⟩
  rintro rfl
  cases h.1

theorem Tag.isName (tag : Tag) : IsName tag.name.toList := by
  apply isName_of_all
  cases tag <;> decide +kernel

theorem Attribute.isName (a : Attribute) : IsName a.name.toList := by
  apply isName_of_all
  cases a <;> rw [Attribute.name] <;> decide +kernel

variable {s : State} {frames outer : List Frame} {frame start : Frame} {c : Char}

theorem run_name (frames : List Frame) (named : Named) {name : List Char}
    (h : ∀ c ∈ name, c.isAlpha = true) (read : List Char) :
    run ⟨frames, .name named read⟩ name = some ⟨frames, .name named (read ++ name)⟩ := by
  induction name generalizing read with
  | nil => rw [run_nil, List.append_nil]
  | cons c rest ih =>
    have hs : step ⟨frames, .name named read⟩ c = some ⟨frames, .name named (read ++ [c])⟩ := by
      simp [step, h c List.mem_cons_self]
    rw [run_cons_of_step hs, ih (fun d hd => h d (List.mem_cons_of_mem _ hd)), List.append_assoc,
      List.singleton_append]

/-- Behind a name. -/
theorem step_name {name : List Char} (hn : IsName name) (hc : c.isAlpha = false) (named : Named) :
    step ⟨frames, .name named name⟩ c = endName frames (String.ofList name) named c := by
  simp [step, hc, hn.1]

/-- A start tag with more attributes. -/
def Xml.Frame.extend (start : Frame) (attributes : List (String × String)) : Frame :=
  { start with attributes := start.attributes ++ attributes }

theorem run_attribute (frames : List Frame) {name value : List Char} (hn : IsName name)
    (hv : isData isValueCharacter value = true)
    (hnew : String.ofList name ∉ start.attributes.map Prod.fst) :
    run ⟨frames, .attribute start⟩ (' ' :: name ++ "=\"".toList ++ value ++ "\"".toList) =
      some ⟨frames, .attribute (start.extend [(String.ofList name, String.ofList value)])⟩ := by
  have htext : ' ' :: name ++ "=\"".toList ++ value ++ "\"".toList =
      ' ' :: (name ++ '=' :: '"' :: (value ++ ['"'])) := by simp
  have hspace : step ⟨frames, .attribute start⟩ ' ' = some ⟨frames, .name (.attribute start) []⟩ :=
    rfl
  have hequals : step ⟨frames, .name (.attribute start) name⟩ '=' =
      some ⟨frames, .equals start (String.ofList name)⟩ := by
    rw [step_name hn (by decide), endName, if_neg hnew]
  have hopen : step ⟨frames, .equals start (String.ofList name)⟩ '"' =
      some ⟨frames, .data (.value start (String.ofList name) [])⟩ := rfl
  have hvalue := run_value hv frames start (String.ofList name)
  have hclose : step ⟨frames, .data (.value start (String.ofList name) value)⟩ '"' =
      some ⟨frames, .attribute (start.extend [(String.ofList name, String.ofList value)])⟩ := rfl
  rw [htext, run_cons_of_step hspace, run_append_of_run (run_name frames _ hn.2 []),
    List.nil_append, run_cons_of_step hequals, run_cons_of_step hopen, run_append_of_run hvalue,
    run_cons_of_step hclose, run_nil]

theorem run_attributes (frames : List Frame) : ∀ (attributes : List Attribute) (start : Frame),
    (start.attributes.map Prod.fst ++ attributes.map Attribute.name).Nodup →
      run ⟨frames, .attribute start⟩ (attributes.flatMap Attribute.write) =
        some ⟨frames, .attribute (start.extend (attributes.map Attribute.pair))⟩
  | [], start, _ => by
    rw [List.flatMap_nil, run_nil, List.map_nil, Frame.extend, List.append_nil]
  | a :: rest, start, h => by
    have hnew : String.ofList a.name.toList ∉ start.attributes.map Prod.fst := by
      rw [String.ofList_toList]
      intro hm
      exact (List.nodup_append.1 h).2.2 _ hm _ List.mem_cons_self rfl
    have hfirst := run_attribute frames a.isName (isData_value a) hnew
    rw [String.ofList_toList] at hfirst
    have hrest : ((start.extend [a.pair]).attributes.map Prod.fst ++
        rest.map Attribute.name).Nodup := by
      simpa [Frame.extend, Attribute.pair] using h
    rw [List.flatMap_cons, Attribute.write, run_append_of_run hfirst]
    refine (run_attributes frames rest _ hrest).trans ?_
    simp [Frame.extend]

/-- Behind its name, a start tag goes on as behind an attribute. -/
theorem run_startName {name : List Char} (hn : IsName name) (attributes : List Attribute) :
    run ⟨frames, .name .startTag name⟩ (attributes.flatMap Attribute.write ++ ['>']) =
      run ⟨frames, .attribute ⟨String.ofList name, [], []⟩⟩
        (attributes.flatMap Attribute.write ++ ['>']) := by
  have alike : ∀ c text, c.isAlpha = false → run ⟨frames, .name .startTag name⟩ (c :: text) =
      run ⟨frames, .attribute ⟨String.ofList name, [], []⟩⟩ (c :: text) := by
    intro c text hc
    rw [run_cons, run_cons, step_name hn hc]
    rfl
  cases attributes with
  | nil => exact alike '>' [] (by decide)
  | cons a rest => exact alike ' ' _ (by decide)

theorem run_tagName {name : List Char} (hn : IsName name) (frames : List Frame) :
    run ⟨frames, .tag⟩ name = some ⟨frames, .name .startTag name⟩ := by
  obtain ⟨hne, ha⟩ := hn
  cases name with
  | nil => exact absurd rfl hne
  | cons c rest =>
    have hc := ha c List.mem_cons_self
    have hslash : c ≠ '/' := by
      rintro rfl
      cases hc
    have hs : step ⟨frames, .tag⟩ c = some ⟨frames, .name .startTag [c]⟩ := by
      simp [step, hc, hslash]
    rw [run_cons_of_step hs, run_name frames _ (fun d hd => ha d (List.mem_cons_of_mem _ hd)),
      List.singleton_append]

/-- A start tag opens an element. -/
theorem run_startTag {tag : Tag} {attributes : List Attribute}
    (hd : (attributes.map Attribute.name).Nodup) (hs : step s '<' = some ⟨frames, .tag⟩) :
    run s (startTag tag attributes) =
      some ⟨⟨tag.name, attributes.map Attribute.pair, []⟩ :: frames, .data .content⟩ := by
  have htext : startTag tag attributes =
      '<' :: (tag.name.toList ++ (attributes.flatMap Attribute.write ++ ['>'])) := by
    simp [startTag]
  have hattributes := run_attributes frames attributes ⟨tag.name, [], []⟩ hd
  rw [htext, run_cons_of_step hs, run_append_of_run (run_tagName tag.isName frames),
    run_startName tag.isName, String.ofList_toList, run_append_of_run hattributes]
  rfl

/-- An end tag closes the innermost open element. -/
theorem run_endTag {tag : Tag} (h : frame.name = tag.name) (outer : List Frame) :
    run ⟨frame :: outer, .data .content⟩ (endTag tag) = some (close frame.element outer) := by
  have htext : endTag tag = '<' :: '/' :: (tag.name.toList ++ ['>']) := by simp [endTag]
  have hopen : step ⟨frame :: outer, .data .content⟩ '<' = some ⟨frame :: outer, .tag⟩ := rfl
  have hslash : step ⟨frame :: outer, .tag⟩ '/' = some ⟨frame :: outer, .name .endTag []⟩ := rfl
  have hclose : step ⟨frame :: outer, .name .endTag tag.name.toList⟩ '>' =
      some (close frame.element outer) := by
    rw [step_name tag.isName (by decide), endName, String.ofList_toList, if_pos h]
  rw [htext, run_cons_of_step hopen, run_cons_of_step hslash,
    run_append_of_run (run_name _ _ tag.isName.2 []), List.nil_append, run_cons_of_step hclose,
    run_nil]

theorem run_spaceTag (hs : step s '<' = some ⟨frames, .tag⟩) :
    run s spaceTag = some (close Element.space.xml frames) := by
  have htext : spaceTag = '<' :: "mspace width=\"1ex\"/>".toList := rfl
  rw [htext, run_cons_of_step hs]
  rfl

/-! ## Elements -/

theorem run_lineBreak (layout : Layout) (frames : List Frame) :
    run ⟨frames, .data .content⟩ layout.lineBreak = some ⟨frames, .data .content⟩ := by
  refine run_content (isData_of_plain (by decide) ?_) frames
  intro c hc
  cases layout with
  | compact => cases hc
  | indented level =>
    rcases List.mem_cons.1 hc with rfl | hc
    · decide
    · rw [List.eq_of_mem_replicate hc]
      decide

mutual

/-- An element is read to its end, from wherever a tag can start. -/
theorem run_write : ∀ (e : Element), e.Writable → ∀ (layout : Layout) {s : State}
    {frames : List Frame}, step s '<' = some ⟨frames, .tag⟩ →
      run s (e.write layout) = some (close e.xml frames)
  | .leaf tag attributes content, .leaf hd hc, layout, s, frames, hs => by
    rw [Element.write, List.append_assoc, run_append_of_run (run_startTag hd hs),
      run_append_of_run (run_content hc _), run_endTag rfl, Element.xml]
    rfl
  | .node tag attributes children, .node hd hc, layout, s, frames, hs => by
    rw [Element.write, run_append_of_run (run_startTag hd hs),
      run_append_of_run (run_writeElements children hc layout.nested _ frames),
      run_append_of_run (run_lineBreak layout _), run_endTag rfl, Element.xml, List.nil_append]
    rfl
  | .space, _, layout, s, frames, hs => by
    rw [Element.write]
    exact run_spaceTag hs

theorem run_writeElements : ∀ (es : List Element), (∀ e ∈ es, e.Writable) → ∀ (layout : Layout)
    (frame : Frame) (outer : List Frame),
      run ⟨frame :: outer, .data .content⟩ (writeElements layout es) =
        some ⟨{ frame with content := frame.content ++ xmlOf es } :: outer, .data .content⟩
  | [], _, layout, frame, outer => by
    rw [writeElements, run_nil, xmlOf, List.append_nil]
  | e :: rest, h, layout, frame, outer => by
    have he := run_write e (h e List.mem_cons_self) layout
      (show step ⟨frame :: outer, .data .content⟩ '<' = some ⟨frame :: outer, .tag⟩ from rfl)
    rw [writeElements, run_append_of_run (run_lineBreak layout _), run_append_of_run he, close,
      run_writeElements rest (fun d hd => h d (List.mem_cons_of_mem _ hd)) layout _ outer,
      List.append_assoc, xmlOf, List.singleton_append]

end

/-- **A writable element is read back from its text, whatever the layout.** -/
theorem read_write {e : Element} (h : e.Writable) (layout : Layout) :
    Xml.read (e.write layout) = some e.xml := by
  have hs : step ⟨[], .start⟩ '<' = some ⟨[], .tag⟩ := rfl
  rw [Xml.read, run_write e h layout hs]
  rfl

/-! ## Names -/

/-- The names of elements. -/
def vocabulary : List String :=
  ["math", "semantics", "annotation", "mrow", "mi", "mn", "mo", "mtext", "mspace", "mfrac",
   "msqrt", "mroot", "msub", "msup", "msubsup", "munder", "mover", "munderover", "menclose",
   "mstyle", "mtable", "mtr", "mtd"]

theorem Tag.name_mem (tag : Tag) : tag.name ∈ vocabulary := by
  cases tag <;> decide

mutual

theorem names_xml_subset : ∀ e : Element, e.xml.names ⊆ vocabulary
  | .leaf tag attributes content => by
    rw [Element.xml, Xml.names, Xml.namesOf]
    exact List.cons_subset.2 ⟨tag.name_mem, List.nil_subset _⟩
  | .node tag attributes children => by
    rw [Element.xml, Xml.names]
    exact List.cons_subset.2 ⟨tag.name_mem, names_xmlOf_subset children⟩
  | .space => by decide

theorem names_xmlOf_subset : ∀ es : List Element, Xml.namesOf (xmlOf es) ⊆ vocabulary
  | [] => by
    rw [xmlOf, Xml.namesOf]
    exact List.nil_subset _
  | e :: rest => by
    rw [xmlOf, Xml.namesOf]
    exact List.append_subset.2 ⟨names_xml_subset e, names_xmlOf_subset rest⟩

end

end MathMarkup.Markup
