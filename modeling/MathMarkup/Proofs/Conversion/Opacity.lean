import MathMarkup.Proofs.Conversion.Juxtaposition
import MathMarkup.Proofs.Conversion.Spacing
import MathMarkup.Proofs.Formula.Verbatim
import MathMarkup.Proofs.Presentation.Dropped

/-!
# Formulas with another verbatim text

What stands in a verbatim text has no influence on anything but what is written for it.

* `shownTexts` — the texts in the markup of an expression.

Principal results: `readFormula_fill` — with another text in its place a formula is read as the same
expression with the other text, or has the same fault; `convert_opaque` — the outcome of its conversion is
the same for all texts.
-/

namespace MathMarkup

open Formula Markup Presentation Text

variable {v : Verbatim} {marker content source : String} {expression : Expression} {fault : Fault}
  {settings : Settings} {display : Display}

/-! ## Reading -/

/-- **With another text in its place** a formula is read as the same expression with the other text, or
its fault is told at the corresponding place. -/
theorem readFormula_fill (hfresh : v.Fresh marker) (hmarker : v.closer ∉ marker.toList)
    (hfree : v.closer ∉ content.toList) :
    readFormula (v.fill content) =
      ((readFormula (v.fill marker)).map (expressionMapTexts (putFor marker content))).mapError
        (Fault.relocate (v.followSpan marker content)) := by
  have hscan := v.scan_reword hfresh hmarker hfree
  cases hfault : (scan (v.fill marker)).fault with
  | none =>
    have hfault' : (scan (v.fill content)).fault = none := by
      rw [hscan, Scan.reword, hfault, Option.map_none]
    have hlexemes : (scan (v.fill content)).lexemes =
        (scan (v.fill marker)).lexemes.map (Lexeme.reword (v.rewording marker content)) := by
      rw [hscan, Scan.reword]
    have hfinish :
        finishOf ((scan (v.fill marker)).lexemes.map (Lexeme.reword (v.rewording marker content))) =
          (finishOf (scan (v.fill marker)).lexemes).reword (v.rewording marker content) := by
      have hlast := (finishOf_scan hfault').2
      rw [hlexemes, List.getLast?_map, (finishOf_scan hfault).2] at hlast
      exact (Option.some.inj hlast).symm
    rw [readFormula_eq_parse hfault, readFormula_eq_parse hfault', hlexemes]
    exact parse_reword hfinish
  | some fault =>
    rw [readFormula, readFormula, hscan, Scan.reword, hfault, openBrackets_reword]
    cases openBrackets (scan (v.fill marker)).lexemes <;> rfl

theorem readFormula_fill_ok (hfresh : v.Fresh marker) (hmarker : v.closer ∉ marker.toList)
    (h : readFormula (v.fill marker) = .ok expression) (hfree : v.closer ∉ content.toList) :
    readFormula (v.fill content) = .ok (expressionMapTexts (putFor marker content) expression) := by
  rw [readFormula_fill hfresh hmarker hfree, h]
  rfl

/-- An expression has the verbatim texts of the formula, each as often as it stands there. -/
theorem texts_readFormula (h : readFormula source = .ok expression) :
    (expressionTexts expression).Perm
      ((scan source).lexemes.flatMap fun lexeme => lexeme.token.texts) := by
  obtain ⟨hfault, d, hd, rfl, -⟩ := readFormula_eq_ok_iff.1 h
  obtain ⟨last, hlast, htoken⟩ := (scan_sealed hfault).eq_append
  have htexts := texts_sequence d
  rw [hd.tokens_eq, List.flatMap_map] at htexts
  rw [hlast, List.flatMap_append, List.flatMap_singleton, htoken]
  exact htexts.trans (List.Perm.of_eq (List.append_nil _).symm)

/-! ## Markup -/

/-- The texts in the markup of an expression. -/
def shownTexts (expression : Expression) : List String :=
  elementsTexts (sequenceElements (typeset expression))

/-- The text is shown once, or dropped once. -/
theorem count_shown_add_dropped (hfresh : v.Fresh marker) (hmarker : v.closer ∉ marker.toList)
    (h : readFormula (v.fill marker) = .ok expression) :
    (shownTexts expression).count marker + (expressionDropped expression).count marker = 1 := by
  rw [shownTexts, elementsTexts_sequenceElements, ← List.count_append,
    ← (texts_typeset expression).count_eq, (texts_readFormula h).count_eq]
  exact v.count_texts hfresh hmarker

theorem sequenceElements_mapTexts_typeset (f : String → String) (expression : Expression) :
    sequenceElements (typeset (expressionMapTexts f expression)) =
      elementsMapTexts f (sequenceElements (typeset expression)) := by
  rw [typeset_mapTexts, ← sequenceMapTexts_eq_map, sequenceElements_mapTexts]

theorem convert_of_readFormula (hs : settings.keepSource = false) (display : Display)
    (h : readFormula source = .ok expression) :
    convert settings display source = .ok (String.ofList (markupStart settings.mathNamespace display ++
      (writeElements (settings.layout display).nested (sequenceElements (typeset expression)) ++
        markupEnd settings.prettyPrint display))) := by
  obtain ⟨markup, hconvert, hbody⟩ := isBody_of_convert display hs h
  rw [IsBody] at hbody
  rw [hconvert, ← hbody, String.ofList_toList]

/-- A fault is told at the corresponding place. -/
theorem convert_fill_error (hfresh : v.Fresh marker) (hmarker : v.closer ∉ marker.toList)
    (h : readFormula (v.fill marker) = .error fault) (hfree : v.closer ∉ content.toList) :
    convert settings display (v.fill content) =
      .error (fault.relocate (v.followSpan marker content)) := by
  rw [convert, readFormula_fill hfresh hmarker hfree, h]
  rfl

/-- A text that is shown stands in one place of the markup. -/
theorem convert_fill_shown (hs : settings.keepSource = false) (display : Display)
    (hfresh : v.Fresh marker) (hmarker : v.closer ∉ marker.toList)
    (h : readFormula (v.fill marker) = .ok expression) (hcount : (shownTexts expression).count marker = 1) :
    ∃ front hole back, ∀ content, v.closer ∉ content.toList →
      convert settings display (v.fill content) =
        .ok (String.ofList (front ++ (Hole.fill content hole ++ back))) := by
  obtain ⟨d, tokens, hd, rfl, -, hm⟩ := derives_of_readFormula h
  rw [← hd.tokens_eq] at hm
  have hholds : ∀ e ∈ sequenceElements (typeset (expressionOf d)), e.Holds IsGlyph fun _ => True :=
    forall_mem_sequenceElements.2 fun node hnode =>
      (holds_sequence d (fun t ht => holds_isGlyph_of_munched (hm t ht)) node hnode).elements
  obtain ⟨front, hole, back, hwrite⟩ :=
    (hasHole_writeElements hholds hcount (settings.layout display).nested).surround
      (markupStart settings.mathNamespace display) (markupEnd settings.prettyPrint display)
  refine ⟨front, hole, back, fun content hfree => ?_⟩
  rw [convert_of_readFormula hs display (readFormula_fill_ok hfresh hmarker h hfree),
    sequenceElements_mapTexts_typeset, ← hwrite]

/-- The markup does not depend on a text that is not shown. -/
theorem convert_fill_dropped (hs : settings.keepSource = false) (display : Display)
    (hfresh : v.Fresh marker) (hmarker : v.closer ∉ marker.toList)
    (h : readFormula (v.fill marker) = .ok expression) (hshown : marker ∉ shownTexts expression) :
    ∃ markup, ∀ content, v.closer ∉ content.toList →
      convert settings display (v.fill content) = .ok markup := by
  have hmarkup := convert_of_readFormula hs display h
  refine ⟨_, fun content hfree => Eq.trans ?_ hmarkup⟩
  rw [convert_of_readFormula hs display (readFormula_fill_ok hfresh hmarker h hfree),
    sequenceElements_mapTexts_typeset, elementsMapTexts_eq_self _ (putFor_of_notMem hshown content), hmarkup]

/-- **What stands in a verbatim text has no influence on anything but what is written for it.** Every token
of a verbatim text stands in a place for one. Conversions with any other text in this place, but for the
character that closes it, have the same outcome if the source is not kept beside the formula. They all fail
with the same cause, each at the corresponding place. Or they all succeed, and their markup is the same but
for the text, escaped, in one element of its own or in one name of a colour. Or the text stands in a column
of a matrix that is shown as a line, and their markup is the same. -/
theorem convert_opaque {source content : String} {lexeme : Lexeme}
    (hmem : lexeme ∈ (scan source).lexemes) (htoken : lexeme.token = .text content) :
    ∃ v : Verbatim, source = v.fill content ∧ v.closer ∉ content.toList ∧
      lexeme.span = v.span content ∧
      ∀ settings display, settings.keepSource = false →
        (∃ fault, convert settings display source = .error fault ∧
          ∀ content', v.closer ∉ content'.toList → convert settings display (v.fill content') =
            .error (fault.relocate (v.followSpan content content'))) ∨
        (∃ front hole back, ∀ content', v.closer ∉ content'.toList →
          convert settings display (v.fill content') =
            .ok (String.ofList (front ++ (Hole.fill content' hole ++ back)))) ∨
        ∃ markup, ∀ content', v.closer ∉ content'.toList →
          convert settings display (v.fill content') = .ok markup ∧
            ∃ expression, readFormula (v.fill content') = .ok expression ∧
              content' ∈ expressionDropped expression := by
  obtain ⟨v, rfl, hfree, hspan⟩ := exists_verbatim hmem htoken
  -- every text is compared with one that stands nowhere else in the formula
  obtain ⟨marker, hmarker, hfresh⟩ := v.exists_fresh
  refine ⟨v, rfl, hfree, hspan, fun settings display hs => ?_⟩
  cases hread : readFormula (v.fill marker) with
  | error fault =>
    refine .inl ⟨_, convert_fill_error hfresh hmarker hread hfree, fun content' hfree' => ?_⟩
    have hplace := v.followSpan_followSpan marker content content' fault.span
    rw [convert_fill_error hfresh hmarker hread hfree']
    exact congrArg (fun span => Except.error (Fault.mk fault.cause span)) hplace.symm
  | ok expression =>
    have hcount := count_shown_add_dropped hfresh hmarker hread
    by_cases hshown : marker ∈ shownTexts expression
    · have hpos := List.count_pos_iff.2 hshown
      exact .inr (.inl (convert_fill_shown hs display hfresh hmarker hread (by omega)))
    · have hzero := List.count_eq_zero.2 hshown
      have hdropped : marker ∈ expressionDropped expression := List.count_pos_iff.1 (by omega)
      obtain ⟨markup, hmarkup⟩ := convert_fill_dropped hs display hfresh hmarker hread hshown
      refine .inr (.inr ⟨markup, fun content' hfree' => ⟨hmarkup content' hfree', _,
        readFormula_fill_ok hfresh hmarker hread hfree', ?_⟩⟩)
      rw [expressionDropped_mapTexts]
      exact List.mem_map.2 ⟨marker, hdropped, putFor_self marker content'⟩

/-- A text with a bracket, a comma and a bar in a cell of a matrix. -/
theorem convert_opaque_cell :
    ∃ v : Verbatim, "[[1,\"|,]\"],[2,3]]" = v.fill "|,]" ∧
      ∃ front hole back, ∀ content', v.closer ∉ content'.toList →
        convert ⟨.never, false, false⟩ .inline (v.fill content') =
          .ok (String.ofList (front ++ (Hole.fill content' hole ++ back))) := by
  have hmem : (⟨.text "|,]", ⟨4, 9⟩⟩ : Lexeme) ∈ (scan "[[1,\"|,]\"],[2,3]]").lexemes := by
    decide +kernel
  have hconvert : (convert ⟨.never, false, false⟩ .inline "[[1,\"|,]\"],[2,3]]").toBool = true := by
    decide +kernel
  have hdropped : ((readFormula "[[1,\"|,]\"],[2,3]]").map expressionDropped).toOption = some [] := by
    decide +kernel
  obtain ⟨v, hsource, hfree, -, hopaque⟩ := convert_opaque hmem rfl
  rw [hsource] at hconvert hdropped
  refine ⟨v, hsource, ?_⟩
  rcases hopaque ⟨.never, false, false⟩ .inline rfl with ⟨fault, hfail, -⟩ | hshown | ⟨markup, hsame⟩
  · rw [hsource] at hfail
    rw [hfail] at hconvert
    cases hconvert
  · exact hshown
  · obtain ⟨-, expression, hread, htext⟩ := hsame "|,]" hfree
    rw [hread] at hdropped
    rw [Option.some.inj hdropped] at htext
    cases htext

end MathMarkup
