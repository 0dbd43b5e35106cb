import MathMarkup.Proofs.Conversion.Juxtaposition
import MathMarkup.Proofs.Markup.Tags

/-!
# The source beside a formula

* `unescape` — the references `&amp;`, `&lt;` and `&gt;` as the characters they stand for.
* `beforeSource`, `behindSource` — what encloses the source of a formula.

Principal result: `convert_keepSource` — the source stands in the markup once, and nothing else does in
its element.
-/

namespace MathMarkup.Text

/-! ## Unescaping -/

/-- The text that was escaped between tags. -/
def unescape : List Char → List Char
  | '&' :: 'a' :: 'm' :: 'p' :: ';' :: rest => '&' :: unescape rest
  | '&' :: 'l' :: 't' :: ';' :: rest => '<' :: unescape rest
  | '&' :: 'g' :: 't' :: ';' :: rest => '>' :: unescape rest
  | c :: rest => c :: unescape rest
  | [] => []

theorem unescape_cons_of_ne {c : Char} (h : c ≠ '&') (rest : List Char) :
    unescape (c :: rest) = c :: unescape rest := by
  rw [unescape.eq_def]
  split <;> simp_all

theorem unescape_escapeMarked (c : Char) (rest : List Char) :
    unescape (escapeMarked contentMarks c ++ rest) = c :: unescape rest := by
  by_cases hc : c ∈ contentMarks
  · rw [escapeMarked_of_mem hc]
    simp only [contentMarks, List.mem_cons, List.not_mem_nil, or_false] at hc
    rcases hc with rfl | rfl | rfl
    · rfl
    · rfl
    · rfl
  · rw [escapeMarked_of_notMem hc]
    exact unescape_cons_of_ne (ne_of_mem_of_not_mem (by decide) hc).symm rest

/-- **Unescaping undoes escaping.** -/
theorem unescape_escapeContent (text : List Char) : unescape (escapeContent text) = text := by
  induction text with
  | nil => rfl
  | cons c text ih =>
    rw [escapeContent, List.flatMap_cons, unescape_escapeMarked]
    exact congrArg _ ih

end MathMarkup.Text

namespace MathMarkup

open Document Formula Markup Presentation Text

variable {settings : Settings} {display : Display} {source markup : String} {nodes : List Node}

/-! ## What encloses the source -/

def sourceStart : List Char := "<annotation encoding=\"text/x-asciimath\">".toList

def sourceEnd : List Char := "</annotation>".toList

/-- The markup of a formula up to its source: the formula as one node, and tags and line breaks. -/
def beforeSource (settings : Settings) (display : Display) (nodes : List Node) : List Char :=
  let inner := (settings.layout display).nested
  markupStart settings.mathNamespace display ++ (inner.lineBreak ++ ("<semantics>".toList ++
    (writeElements inner.nested (asOneNode nodes).elements ++ inner.nested.lineBreak)))

def behindSource (settings : Settings) (display : Display) : List Char :=
  (settings.layout display).nested.lineBreak ++
    ("</semantics>".toList ++ markupEnd settings.prettyPrint display)

/-- The source is written without a line break on either side. -/
theorem write_mathElement_source (hs : settings.keepSource = true) (source : String) (nodes : List Node) :
    (mathElement settings display source nodes).write (settings.layout display) =
      beforeSource settings display nodes ++ (sourceStart ++ (escapeContent source.toList ++
        (sourceEnd ++ behindSource settings display))) := by
  have hstart : startTag .sourceText [.encoding] = sourceStart := by decide
  have hend : endTag .sourceText = sourceEnd := by decide
  have hsemantics : startTag .semantics [] = "<semantics>".toList := by decide
  have hsemantics' : endTag .semantics = "</semantics>".toList := by decide
  rw [mathElement, hs, if_pos rfl, annotated]
  simp only [Element.write, writeElements, writeElements_append, CharacterData.toChars, startTag_math,
    lineBreak_endTag_math, hstart, hend, hsemantics, hsemantics', beforeSource, behindSource,
    List.append_assoc, List.append_nil]

/-! ## The tags around the source -/

theorem holds_asOneNode {p q : String → Prop} (h : ∀ node ∈ nodes, node.Holds p q) :
    (asOneNode nodes).Holds p q := asOneNode_of_forall h (Node.holds_row h)

theorem tagsStart_beforeSource {q : String → Prop} (h : ∀ node ∈ nodes, node.Holds IsGlyph q) :
    TagsStart elementStarts (beforeSource settings display nodes) := by
  have hmath : TagsStart elementStarts (markupStart settings.mathNamespace display) := by
    rw [← startTag_math]
    exact tagsStart_startTag .math nofun _
  have hsemantics : TagsStart elementStarts "<semantics>".toList :=
    tagsStart_startTag .semantics nofun []
  exact hmath.append ((tagsStart_lineBreak _).append (hsemantics.append
    ((tagsStart_writeElements (holds_asOneNode h) _).append (tagsStart_lineBreak _))))

theorem tagsStart_behindSource : TagsStart elementStarts (behindSource settings display) := by
  have hmath : TagsStart elementStarts (markupEnd settings.prettyPrint display) := by
    rw [← lineBreak_endTag_math]
    exact (tagsStart_lineBreak _).append (tagsStart_endTag .math nofun)
  have hsemantics : TagsStart elementStarts "</semantics>".toList := tagsStart_endTag .semantics nofun
  exact (tagsStart_lineBreak _).append (hsemantics.append hmath)

/-- **The source is kept beside the formula.** The tags around it occur once each in the markup, whatever
texts, letters and colours the formula has, and what stands between them is the source, escaped, with
nothing added in any layout. In front of it stands the formula as one node, which is a row unless the
formula is exactly one node. -/
theorem convert_keepSource (hs : settings.keepSource = true)
    (h : convert settings display source = .ok markup) :
    ∃ expression between, readFormula source = .ok expression ∧
      markup.toList = beforeSource settings display (typeset expression) ++ (sourceStart ++ (between ++
        (sourceEnd ++ behindSource settings display))) ∧
      unescape between = source.toList ∧
      (∀ n, Occurs sourceStart markup.toList n ↔
        n = (beforeSource settings display (typeset expression)).length) ∧
      ∀ n, Occurs sourceEnd markup.toList n ↔
        n = (beforeSource settings display (typeset expression) ++ (sourceStart ++ between)).length := by
  obtain ⟨expression, hread, rfl⟩ := convert_eq_ok_iff.1 h
  obtain ⟨d, tokens, hd, rfl, -, hm⟩ := derives_of_readFormula hread
  rw [← hd.tokens_eq] at hm
  have hholds : ∀ node ∈ typeset (expressionOf d), node.Holds IsGlyph fun _ => True :=
    holds_sequence d fun t ht => holds_isGlyph_of_munched (hm t ht)
  have hbefore : TagsStart elementStarts (beforeSource settings display (typeset (expressionOf d))) :=
    tagsStart_beforeSource hholds
  have hcontent : '<' ∉ escapeContent source.toList := notMem_of_isContent (isData_escapeContent _)
  refine ⟨_, escapeContent source.toList, hread, ?_, unescape_escapeContent _, fun n => ?_, fun n => ?_⟩
  · rw [String.toList_ofList, write_mathElement_source hs]
  · rw [String.toList_ofList, write_mathElement_source hs]
    have hend : TagsStart (['/', 'a'] :: elementStarts) sourceEnd :=
      tagsStart_tag ['/', 'a'] (by decide) (by decide) (by decide)
    have hotherwise : BeginsOtherwise (['/', 'a'] :: elementStarts) sourceStart.tail := by decide
    refine occurs_iff_of_tagsStart hotherwise (by decide) (hbefore.mono (List.subset_cons_self _ _)) ?_
    exact (tagsStart_of_notMem hcontent).append
      (hend.append (tagsStart_behindSource.mono (List.subset_cons_self _ _)))
  · rw [String.toList_ofList, write_mathElement_source hs, ← List.append_assoc sourceStart,
      ← List.append_assoc (beforeSource _ _ _)]
    have hstart : TagsStart (['a'] :: elementStarts) sourceStart :=
      tagsStart_tag ['a'] (by decide) (by decide) (by decide)
    have hotherwise : BeginsOtherwise (['a'] :: elementStarts) sourceEnd.tail := by decide
    refine occurs_iff_of_tagsStart hotherwise (by decide) ?_
      (tagsStart_behindSource.mono (List.subset_cons_self _ _))
    exact (hbefore.mono (List.subset_cons_self _ _)).append
      (hstart.append (tagsStart_of_notMem hcontent))

/-- A text that ends the element of the source, in a formula that is spread over lines. -/
theorem convert_keepSource_hostile :
    ∃ markup between, convert ⟨.always, false, true⟩ .inline "\"</annotation>&lt;\"" = .ok markup ∧
      unescape between = "\"</annotation>&lt;\"".toList ∧ ∃! n, Occurs sourceEnd markup.toList n := by
  have h : convert ⟨.always, false, true⟩ .inline "\"</annotation>&lt;\"" =
      .ok ("<math display=\"inline\">\n    <semantics>\n" ++
        "        <mtext>&lt;/annotation&gt;&amp;lt;</mtext>\n" ++
        "        <annotation encoding=\"text/x-asciimath\">" ++
        "\"&lt;/annotation&gt;&amp;lt;\"</annotation>\n    </semantics>\n</math>") := by
    decide +kernel
  obtain ⟨_, between, -, -, hbetween, -, hend⟩ := convert_keepSource rfl h
  exact ⟨_, between, h, hbetween, _, (hend _).2 rfl, fun n hn => (hend n).1 hn⟩

end MathMarkup
