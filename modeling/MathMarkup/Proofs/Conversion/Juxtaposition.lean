import MathMarkup.Proofs.Conversion.WellFormed
import MathMarkup.Proofs.Formula.Separation

/-!
# Formulas behind one another

A formula neither takes up nor changes what stands behind it on a new line.

* `markupStart`, `markupEnd` — what encloses the markup of every formula.
* `IsBody` — what a formula puts between them.

Principal results: `readFormula_append` — two formulas on two lines are read as one sequence;
`convert_append` — their markup is that of the first and then that of the second.
-/

namespace MathMarkup

open Formula Markup Presentation Text

variable {settings : Settings} {display : Display} {u v source markup : String}
  {e e' : Expression}

/-! ## Reading -/

/-- **Two formulas on two lines are read as one sequence.** -/
theorem readFormula_append (hu : readFormula u = .ok e) (hv : readFormula v = .ok e') :
    readFormula (u ++ "\n" ++ v) = .ok (e ++ e') := by
  obtain ⟨hfault, d, hd, rfl, hlevels⟩ := readFormula_eq_ok_iff.1 hu
  obtain ⟨hfault', d', hd', rfl, hlevels'⟩ := readFormula_eq_ok_iff.1 hv
  have hplain : bracketsAfter false (scan u).lexemes.dropLast = false := by
    refine EndsPlainly.bracketsAfter ?_
    rw [← hd.tokens_eq]
    exact endsPlainly_sequence d
  have hscan := scan_append (v := v) isSeparator_newLine hfault hplain
  have hline : "\n" = String.singleton '\n' := rfl
  rw [← hline] at hscan
  have htokens := Scan.tokens_dropLast_behind (scan u).lexemes.dropLast
    ((scan_sealed hfault').shift (byteLength u.toList + '\n'.utf8Size))
  rw [← hscan, Scan.tokens_dropLast_shift] at htokens
  refine readFormula_eq_ok_iff.2 ⟨?_, d ++ d', ?_, expressionOf_append d d', ?_⟩
  · rw [hscan, Scan.behind, Scan.shift, hfault']
    rfl
  · rw [htokens]
    exact hd.append hd'
  · rw [expressionLevels_append]
    exact Nat.max_le.2 ⟨hlevels, hlevels'⟩

/-! ## Markup -/

/-- The tag that the markup of a formula starts with. -/
def markupStart (mathNamespace : Bool) (display : Display) : List Char :=
  "<math".toList ++
    (if mathNamespace then " xmlns=\"http://www.w3.org/1998/Math/MathML\"".toList else []) ++
    (match display with
      | .inline => " display=\"inline\">".toList
      | .block => " display=\"block\">".toList)

/-- The tag that the markup of a formula ends with, on a line of its own if the formula is spread
over several lines. -/
def markupEnd (prettyPrint : PrettyPrint) (display : Display) : List Char :=
  (match prettyPrint, display with
    | .never, _ => []
    | .always, _ => ['\n']
    | .auto, .block => ['\n']
    | .auto, .inline => []) ++ "</math>".toList

/-- The markup of a formula is a start tag, the given body and an end tag. -/
def IsBody (settings : Settings) (display : Display) (markup : String) (body : List Char) : Prop :=
  markup.toList = markupStart settings.mathNamespace display ++
    (body ++ markupEnd settings.prettyPrint display)

theorem startTag_math (settings : Settings) (display : Display) :
    startTag .math (mathAttributes settings display) =
      markupStart settings.mathNamespace display := by
  obtain ⟨_, mathNamespace, _⟩ := settings
  cases mathNamespace <;> cases display <;> rfl

theorem lineBreak_endTag_math (settings : Settings) (display : Display) :
    (settings.layout display).lineBreak ++ endTag .math =
      markupEnd settings.prettyPrint display := by
  obtain ⟨prettyPrint, _, _⟩ := settings
  cases prettyPrint <;> cases display <;> rfl

/-- The body of a formula without its source beside it. -/
theorem isBody_of_convert (display : Display) (hs : settings.keepSource = false)
    (h : readFormula source = .ok e) :
    ∃ markup, convert settings display source = .ok markup ∧ IsBody settings display markup
      (writeElements (settings.layout display).nested (sequenceElements (typeset e))) := by
  refine ⟨_, convert_eq_ok_iff.2 ⟨e, h, rfl⟩, ?_⟩
  rw [IsBody, String.toList_ofList, mathElement, hs, if_neg Bool.false_ne_true, Element.write,
    startTag_math, lineBreak_endTag_math]

theorem sequenceElements_append (a b : List Node) :
    sequenceElements (a ++ b) = sequenceElements a ++ sequenceElements b := by
  induction a with
  | nil => simp [sequenceElements]
  | cons node a ih => simp [sequenceElements, ih]

theorem typeset_append (e e' : Expression) : typeset (e ++ e') = typeset e ++ typeset e' := by
  rw [typeset_eq_map, typeset_eq_map, typeset_eq_map, List.map_append]

theorem IsBody.unique {body body' : List Char} (h : IsBody settings display markup body)
    (h' : IsBody settings display markup body') : body = body' := by
  rw [IsBody] at h h'
  exact List.append_cancel_right (List.append_cancel_left (h.symm.trans h'))

/-- **The markup of two formulas on two lines is that of the first and then that of the second.** Two
texts that convert do so together, with a new line between them, and the body of the markup is that
of the first text followed by that of the second. The namespace may be named in any of the three. -/
theorem convert_append (prettyPrint : PrettyPrint) (display : Display) (n n' n'' : Bool)
    {u v markup markup' : String}
    (hu : convert ⟨prettyPrint, n, false⟩ display u = .ok markup)
    (hv : convert ⟨prettyPrint, n', false⟩ display v = .ok markup') :
    ∃ body body' markup'',
      convert ⟨prettyPrint, n'', false⟩ display (u ++ "\n" ++ v) = .ok markup'' ∧
      IsBody ⟨prettyPrint, n, false⟩ display markup body ∧
      IsBody ⟨prettyPrint, n', false⟩ display markup' body' ∧
      IsBody ⟨prettyPrint, n'', false⟩ display markup'' (body ++ body') := by
  obtain ⟨e, he, -⟩ := convert_eq_ok_iff.1 hu
  obtain ⟨e', he', -⟩ := convert_eq_ok_iff.1 hv
  have hplain : ∀ named, (Settings.mk prettyPrint named false).keepSource = false := fun _ => rfl
  obtain ⟨written, hwritten, hbody⟩ := isBody_of_convert display (hplain n) he
  obtain ⟨written', hwritten', hbody'⟩ := isBody_of_convert display (hplain n') he'
  obtain ⟨written'', hwritten'', hbody''⟩ :=
    isBody_of_convert display (hplain n'') (readFormula_append he he')
  obtain rfl := Except.ok.inj (hu.symm.trans hwritten)
  obtain rfl := Except.ok.inj (hv.symm.trans hwritten')
  refine ⟨_, _, written'', hwritten'', hbody, hbody', ?_⟩
  -- all three bodies are written in the layout of the same display
  rw [typeset_append, sequenceElements_append, writeElements_append] at hbody''
  exact hbody''

/-- Behind a point that ends a number, a digit on the next line starts a number of its own. -/
theorem convert_append_point :
    ∃ markup markup' body body' markup'',
      convert ⟨.auto, true, false⟩ .block "2." = .ok markup ∧
      convert ⟨.auto, false, false⟩ .block "5" = .ok markup' ∧
      convert ⟨.auto, false, false⟩ .block "2.\n5" = .ok markup'' ∧
      IsBody ⟨.auto, true, false⟩ .block markup body ∧
      IsBody ⟨.auto, false, false⟩ .block markup' body' ∧
      IsBody ⟨.auto, false, false⟩ .block markup'' (body ++ body') := by
  have hu : convert ⟨.auto, true, false⟩ .block "2." =
      .ok ("<math xmlns=\"http://www.w3.org/1998/Math/MathML\" display=\"block\">\n" ++
        "    <mn>2</mn>\n    <mi>.</mi>\n</math>") := by
    decide +kernel
  have hv : convert ⟨.auto, false, false⟩ .block "5" =
      .ok "<math display=\"block\">\n    <mn>5</mn>\n</math>" := by
    decide +kernel
  obtain ⟨body, body', markup'', h, hbody, hbody', hbody''⟩ :=
    convert_append .auto .block true false false hu hv
  exact ⟨_, _, body, body', markup'', hu, hv, h, hbody, hbody', hbody''⟩

end MathMarkup
