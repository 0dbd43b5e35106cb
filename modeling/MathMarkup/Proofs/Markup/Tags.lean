import MathMarkup.Proofs.Document.Occurrences
import MathMarkup.Proofs.Presentation.Writable

/-!
# Where tags start in written markup

* `TagsStart starts text` — behind every `<` of the text stands one of the given beginnings.
* `elementStarts` — how the tags of a node begin.

Principal results: `tagsStart_writeElements` — what is written for a node has no other tags;
`occurs_iff_of_tagsStart` — between texts whose tags begin otherwise a tag occurs in one place.
-/

namespace MathMarkup.Markup

open MathMarkup.Document MathMarkup.Presentation MathMarkup.Text Xml

variable {starts starts' : List (List Char)} {text a b front back word : List Char}
  {plain : Char → Bool} {n : Nat}

/-- Behind every `<` of a text stands one of the given beginnings. -/
def TagsStart (starts : List (List Char)) (text : List Char) : Prop :=
  ∀ before after, text = before ++ '<' :: after → ∃ start ∈ starts, start <+: after

theorem TagsStart.mono (h : TagsStart starts text) (hsub : starts ⊆ starts') : TagsStart starts' text := by
  intro before after heq
  obtain ⟨start, hstart, hbegins⟩ := h before after heq
  exact ⟨start, hsub hstart, hbegins⟩

theorem tagsStart_of_notMem (h : '<' ∉ text) : TagsStart starts text := by
  rintro before after rfl
  exact absurd (List.mem_append_right _ List.mem_cons_self) h

theorem TagsStart.append (ha : TagsStart starts a) (hb : TagsStart starts b) :
    TagsStart starts (a ++ b) := by
  intro before after heq
  rcases List.append_eq_append_iff.1 heq with ⟨between, rfl, hrest⟩ | ⟨between, hfirst, hrest⟩
  · exact hb between after hrest
  · cases between with
    | nil => exact hb [] after hrest.symm
    | cons _ between =>
      obtain ⟨rfl, rfl⟩ := List.cons.inj hrest
      obtain ⟨start, hstart, hbegins⟩ := ha before between hfirst
      exact ⟨start, hstart, hbegins.trans (List.prefix_append _ _)⟩

/-- One tag. -/
theorem tagsStart_tag (start : List Char) (hstart : start ∈ starts) (hbegins : start <+: text)
    (h : '<' ∉ text) : TagsStart starts ('<' :: text) := by
  intro before after heq
  cases before with
  | nil => exact ⟨start, hstart, (List.cons.inj heq).2 ▸ hbegins⟩
  | cons _ before => exact tagsStart_of_notMem h before after (List.cons.inj heq).2

/-! ## Texts without tags -/

theorem notMem_of_isReference {name : List Char} (h : isReference name = true) : '<' ∉ name := by
  unfold isReference at h
  split at h
  · rename_i digits
    rw [Bool.and_eq_true, List.all_eq_true] at h
    intro hmem
    simp only [List.mem_cons, Char.reduceEq, false_or] at hmem
    exact absurd (h.2 '<' hmem) (by decide)
  · have hnames : ∀ name ∈ ["amp".toList, "lt".toList, "gt".toList, "quot".toList], '<' ∉ name := by
      decide
    exact hnames name (of_decide_eq_true h)

/-- Character data and values of attributes hold no tags. -/
theorem notMem_of_isDataAfter (hplain : plain '<' = false) :
    ∀ (before : Option (List Char)) (text : List Char), isDataAfter plain before text = true →
      '<' ∉ text ∧ ∀ name ∈ before, '<' ∉ name
  | none, [], _ => ⟨List.not_mem_nil, nofun⟩
  | some name, [], h => by simp [isDataAfter] at h
  | none, c :: rest, h => by
    rw [isDataAfter] at h
    split at h
    · rename_i hc
      have ih := notMem_of_isDataAfter hplain (some []) rest h
      exact ⟨by simp [hc, ih.1], nofun⟩
    · rw [Bool.and_eq_true] at h
      have ih := notMem_of_isDataAfter hplain none rest h.2
      refine ⟨?_, nofun⟩
      rw [List.mem_cons, not_or]
      refine ⟨?_, ih.1⟩
      rintro rfl
      rw [hplain] at h
      cases h.1
  | some name, c :: rest, h => by
    rw [isDataAfter] at h
    split at h
    · rename_i hc
      rw [Bool.and_eq_true] at h
      have ih := notMem_of_isDataAfter hplain none rest h.2
      refine ⟨by simp [hc, ih.1], ?_⟩
      rintro _ ⟨⟩
      exact notMem_of_isReference h.1
    · have ih := notMem_of_isDataAfter hplain (some (name ++ [c])) rest h
      have hname := ih.2 _ rfl
      rw [List.mem_append, not_or, List.mem_singleton] at hname
      refine ⟨by simp [hname.2, ih.1], ?_⟩
      rintro _ ⟨⟩
      exact hname.1

theorem notMem_of_isData (hplain : plain '<' = false) (h : isData plain text = true) : '<' ∉ text :=
  (notMem_of_isDataAfter hplain none text h).1

theorem notMem_of_isContent (h : isData isContentCharacter text = true) : '<' ∉ text :=
  notMem_of_isData rfl h

/-! ## Tags of elements -/

/-- How the tags of a node begin. All names but that of the element for the source begin so. -/
def elementStarts : List (List Char) := [['m'], ['s'], ['/', 'm'], ['/', 's']]

theorem Tag.starts_name {tag : Tag} (h : tag ≠ .sourceText) :
    ∃ letter ∈ ['m', 's'], ∃ rest, tag.name.toList = letter :: rest ∧ '<' ∉ rest := by
  cases tag with
  | sourceText => exact absurd rfl h
  | semantics => exact ⟨'s', by decide, "emantics".toList, by decide⟩
  | _ => exact ⟨'m', by decide, _, rfl, by decide⟩

theorem notMem_attribute (attr : Attribute) : '<' ∉ attr.write := by
  have hvalue : '<' ∉ attr.value := notMem_of_isData rfl (isData_value attr)
  have hname : '<' ∉ attr.name.toList := fun hmem => absurd (attr.isName.2 '<' hmem) (by decide)
  unfold Attribute.write
  simp [hvalue, hname]

theorem tagsStart_startTag (tag : Tag) (h : tag ≠ .sourceText) (attributes : List Attribute) :
    TagsStart elementStarts (startTag tag attributes) := by
  obtain ⟨letter, hletter, rest, hname, hfree⟩ := Tag.starts_name h
  have hattributes : '<' ∉ attributes.flatMap Attribute.write := by
    rw [List.mem_flatMap]
    rintro ⟨attr, -, hmem⟩
    exact notMem_attribute attr hmem
  have hstart : ∀ letter ∈ ['m', 's'], [letter] ∈ elementStarts ∧ '<' ≠ letter := by
    simp [elementStarts]
  have htext : startTag tag attributes =
      '<' :: letter :: (rest ++ (attributes.flatMap Attribute.write ++ ['>'])) := by
    simp [startTag, hname]
  rw [htext]
  refine tagsStart_tag _ (hstart letter hletter).1 ⟨_, rfl⟩ ?_
  simp [(hstart letter hletter).2, hfree, hattributes]

theorem tagsStart_endTag (tag : Tag) (h : tag ≠ .sourceText) : TagsStart elementStarts (endTag tag) := by
  obtain ⟨letter, hletter, rest, hname, hfree⟩ := Tag.starts_name h
  have hstart : ∀ letter ∈ ['m', 's'], ['/', letter] ∈ elementStarts ∧ '<' ≠ letter := by
    simp [elementStarts]
  have htext : endTag tag = '<' :: '/' :: letter :: (rest ++ ['>']) := by simp [endTag, hname]
  rw [htext]
  refine tagsStart_tag _ (hstart letter hletter).1 ⟨_, rfl⟩ ?_
  simp [(hstart letter hletter).2, hfree]

theorem tagsStart_lineBreak (layout : Layout) : TagsStart starts layout.lineBreak := by
  refine tagsStart_of_notMem ?_
  cases layout with
  | compact => exact List.not_mem_nil
  | indented level => simp [Layout.lineBreak]

theorem tagsStart_writeElements_of {layout : Layout} : ∀ {es : List Element},
    (∀ e ∈ es, TagsStart elementStarts (e.write layout)) →
      TagsStart elementStarts (writeElements layout es)
  | [], _ => by
    rw [writeElements]
    exact tagsStart_of_notMem List.not_mem_nil
  | e :: es, h => by
    obtain ⟨he, hes⟩ := List.forall_mem_cons.1 h
    rw [writeElements]
    exact (tagsStart_lineBreak layout).append (he.append (tagsStart_writeElements_of hes))

theorem tagsStart_leaf {tag : Tag} {content : CharacterData} (htag : tag ≠ .sourceText)
    (hcontent : '<' ∉ content.toChars) (layout : Layout) :
    TagsStart elementStarts ((Element.leaf tag [] content).write layout) := by
  have hdata : TagsStart elementStarts content.toChars := tagsStart_of_notMem hcontent
  rw [Element.write]
  exact ((tagsStart_startTag tag htag []).append hdata).append (tagsStart_endTag tag htag)

theorem tagsStart_write {q : String → Prop} {e : Element} (h : e.Holds IsGlyph q) :
    ∀ layout : Layout, TagsStart elementStarts (e.write layout) := by
  induction h with
  | @glyph tag text htag hglyph =>
    have hname : tag ≠ .sourceText := by
      rintro rfl
      simp at htag
    exact tagsStart_leaf hname (notMem_of_isContent hglyph)
  | @plain text => exact tagsStart_leaf nofun (notMem_of_isContent (isData_escapeContent text.toList))
  | @node tag attributes children htag _ _ _ ih =>
    intro layout
    have hname : tag ≠ .sourceText := by
      rintro rfl
      cases htag
    rw [Element.write]
    refine (tagsStart_startTag tag hname attributes).append ?_
    exact (tagsStart_writeElements_of fun child hchild => ih child hchild layout.nested).append
      ((tagsStart_lineBreak layout).append (tagsStart_endTag tag hname))
  | space =>
    intro layout
    rw [Element.write]
    exact tagsStart_tag ['m'] (by decide) (by decide) (by decide)

/-- **What is written for a node has only the tags of a node**, whatever its texts and colours are. -/
theorem tagsStart_writeElements {q : String → Prop} {node : Node} (h : node.Holds IsGlyph q)
    (layout : Layout) : TagsStart elementStarts (writeElements layout node.elements) :=
  tagsStart_writeElements_of fun e he => tagsStart_write (h.elements e he) layout

/-! ## Tags that begin otherwise -/

/-- No text begins both ways. -/
def BeginsOtherwise (starts : List (List Char)) (word : List Char) : Prop :=
  ∀ start ∈ starts, start.length ≤ word.length ∧ ¬start <+: word

instance (starts : List (List Char)) (word : List Char) : Decidable (BeginsOtherwise starts word) :=
  inferInstanceAs (Decidable (∀ start ∈ starts, _))

theorem BeginsOtherwise.not_prefix (h : BeginsOtherwise starts word) {start : List Char}
    (hstart : start ∈ starts) (behind : List Char) : ¬start <+: word ++ behind := by
  intro hbegins
  obtain ⟨hlength, hnot⟩ := h start hstart
  exact hnot (List.prefix_of_prefix_length_le hbegins (List.prefix_append _ _) hlength)

/-- **A tag that begins otherwise than all others around it occurs in one place.** -/
theorem occurs_iff_of_tagsStart (hword : BeginsOtherwise starts word) (hfree : '<' ∉ word)
    (hfront : TagsStart starts front) (hback : TagsStart starts back) :
    Occurs ('<' :: word) (front ++ ('<' :: word ++ back)) n ↔ n = front.length := by
  constructor
  · rintro ⟨hle, after, hafter⟩
    have hsplit : front ++ ('<' :: word ++ back) =
        (front ++ ('<' :: word ++ back)).take n ++ ('<' :: word ++ after) := by
      rw [hafter, List.take_append_drop]
    have hn : n = ((front ++ ('<' :: word ++ back)).take n).length := (List.length_take_of_le hle).symm
    rw [hn]
    generalize (front ++ ('<' :: word ++ back)).take n = before at hsplit
    rcases List.append_eq_append_iff.1 hsplit with ⟨between, rfl, hrest⟩ | ⟨between, hfront', hrest⟩
    · cases between with
      | nil => rw [List.append_nil]
      | cons _ between =>
        -- the occurrence would lie behind the `<` of the tag
        simp only [List.cons_append, List.cons.injEq] at hrest
        obtain ⟨rfl, hrest⟩ := hrest
        rcases List.append_eq_append_iff.1 hrest with ⟨between', rfl, hback'⟩ | ⟨between', hword', hback'⟩
        · obtain ⟨start, hstart, hbegins⟩ := hback between' (word ++ after) hback'
          exact absurd hbegins (hword.not_prefix hstart after)
        · cases between' with
          | nil =>
            obtain ⟨start, hstart, hbegins⟩ := hback [] (word ++ after) hback'.symm
            exact absurd hbegins (hword.not_prefix hstart after)
          | cons _ between' =>
            obtain ⟨rfl, -⟩ := List.cons.inj hback'
            exact absurd (hword' ▸ List.mem_append_right _ List.mem_cons_self) hfree
    · cases between with
      | nil => rw [hfront', List.append_nil]
      | cons _ between =>
        -- the occurrence would start in the front
        simp only [List.cons_append, List.cons.injEq] at hrest
        obtain ⟨rfl, hrest⟩ := hrest
        obtain ⟨start, hstart, hbegins⟩ := hfront before between hfront'
        have hwhole : start <+: word ++ after := hrest ▸ hbegins.trans (List.prefix_append _ _)
        exact absurd hwhole (hword.not_prefix hstart after)
  · rintro rfl
    refine ⟨by simp, ?_⟩
    rw [List.drop_left]
    exact List.prefix_append _ _

end MathMarkup.Markup
