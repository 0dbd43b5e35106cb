import MathMarkup.Proofs.Formula.Syntax

/-!
# Formulas with other texts

The verbatim texts of a formula, the names of colours among them, and the formula with others in their
place.

* `Token.texts`, `Operand.texts` and its like — the verbatim texts, in the order of the tree.
* `Token.mapText`, `Operand.mapTexts` and its like — each of them replaced.
* `putFor` — one text replaced by another one.

Principal result: `texts_sequence` — an expression has the texts of the tokens that it was derived from.
-/

namespace MathMarkup.Formula

/-! ## Other texts -/

/-- The marker is replaced, and other texts stay. -/
def putFor (marker content : String) : String → String := fun text =>
  if text = marker then content else text

theorem putFor_self (marker content : String) : putFor marker content marker = content := if_pos rfl

theorem putFor_of_notMem {marker : String} {texts : List String} (h : marker ∉ texts) (content : String) :
    ∀ text ∈ texts, putFor marker content text = text :=
  fun _ hmem => if_neg (ne_of_mem_of_not_mem hmem h)

def Token.mapText (f : String → String) : Token → Token
  | text content => text (f content)
  | t => t

def Leaf.mapText (f : String → String) : Leaf → Leaf
  | text content => text (f content)
  | l => l

mutual

def Operand.mapTexts (f : String → String) : Operand → Operand
  | .leaf l => .leaf (l.mapText f)
  | .words content => .words (f content)
  | .group opening closing content => .group opening closing (expressionMapTexts f content)
  | .unary g operand => .unary g (operand.mapTexts f)
  | .binary g first second => .binary g (first.mapTexts f) (second.mapTexts f)
  | .color name operand => .color (f name) (operand.mapTexts f)

def Term.mapTexts (f : String → String) : Term → Term
  | .bare base => .bare (base.mapTexts f)
  | .sub base script => .sub (base.mapTexts f) (script.mapTexts f)
  | .sup base script => .sup (base.mapTexts f) (script.mapTexts f)
  | .subSup base lower upper => .subSup (base.mapTexts f) (lower.mapTexts f) (upper.mapTexts f)

def Ratio.mapTexts (f : String → String) : Ratio → Ratio
  | .term t => .term (t.mapTexts f)
  | .divided numerator denominator => .divided (numerator.mapTexts f) (denominator.mapTexts f)

def expressionMapTexts (f : String → String) : List Ratio → List Ratio
  | [] => []
  | q :: rest => q.mapTexts f :: expressionMapTexts f rest

end

theorem Term.mapTexts_withScript (f : String → String) (base script : Operand) (side : ScriptSide) :
    (Term.withScript base script side).mapTexts f =
      .withScript (base.mapTexts f) (script.mapTexts f) side := by
  cases side <;> rw [withScript, withScript, mapTexts]

theorem Term.mapTexts_withScripts (f : String → String) (base first second : Operand)
    (side : ScriptSide) :
    (Term.withScripts base first second side).mapTexts f =
      .withScripts (base.mapTexts f) (first.mapTexts f) (second.mapTexts f) side := by
  cases side <;> rw [withScripts, withScripts, mapTexts]

theorem Token.mapText_id (t : Token) : t.mapText id = t := by
  cases t <;> rfl

theorem Leaf.mapText_id (l : Leaf) : l.mapText id = l := by
  cases l <;> rfl

mutual

theorem Operand.mapTexts_id : ∀ operand : Operand, operand.mapTexts id = operand
  | .leaf l => by rw [Operand.mapTexts, l.mapText_id]
  | .words content => by rw [Operand.mapTexts, id]
  | .group opening closing content => by rw [Operand.mapTexts, expressionMapTexts_id content]
  | .unary g operand => by rw [Operand.mapTexts, operand.mapTexts_id]
  | .binary g first second => by rw [Operand.mapTexts, first.mapTexts_id, second.mapTexts_id]
  | .color name operand => by rw [Operand.mapTexts, operand.mapTexts_id, id]

theorem Term.mapTexts_id : ∀ term : Term, term.mapTexts id = term
  | .bare base => by rw [Term.mapTexts, base.mapTexts_id]
  | .sub base script => by rw [Term.mapTexts, base.mapTexts_id, script.mapTexts_id]
  | .sup base script => by rw [Term.mapTexts, base.mapTexts_id, script.mapTexts_id]
  | .subSup base lower upper => by
    rw [Term.mapTexts, base.mapTexts_id, lower.mapTexts_id, upper.mapTexts_id]

theorem Ratio.mapTexts_id : ∀ ratio : Ratio, ratio.mapTexts id = ratio
  | .term t => by rw [Ratio.mapTexts, t.mapTexts_id]
  | .divided numerator denominator => by
    rw [Ratio.mapTexts, numerator.mapTexts_id, denominator.mapTexts_id]

theorem expressionMapTexts_id : ∀ expression : List Ratio, expressionMapTexts id expression = expression
  | [] => by rw [expressionMapTexts]
  | q :: rest => by rw [expressionMapTexts, q.mapTexts_id, expressionMapTexts_id rest]

end

/-! ## The texts of a formula -/

def Token.texts : Token → List String
  | text content => [content]
  | _ => []

def Leaf.texts : Leaf → List String
  | text content => [content]
  | _ => []

mutual

def Operand.texts : Operand → List String
  | .leaf l => l.texts
  | .words content => [content]
  | .group _ _ content => expressionTexts content
  | .unary _ operand => operand.texts
  | .binary _ first second => first.texts ++ second.texts
  | .color name operand => name :: operand.texts

def Term.texts : Term → List String
  | .bare base => base.texts
  | .sub base script => base.texts ++ script.texts
  | .sup base script => base.texts ++ script.texts
  | .subSup base lower upper => base.texts ++ (lower.texts ++ upper.texts)

def Ratio.texts : Ratio → List String
  | .term t => t.texts
  | .divided numerator denominator => numerator.texts ++ denominator.texts

def expressionTexts : List Ratio → List String
  | [] => []
  | q :: rest => q.texts ++ expressionTexts rest

end

theorem Leaf.texts_token (l : Leaf) : l.token.texts = l.texts := by
  cases l <;> rfl

theorem ScriptSide.texts_token (side : ScriptSide) : side.token.texts = [] := by
  cases side <;> rfl

mutual

theorem OperandSyntax.texts_operand : ∀ d : OperandSyntax,
    d.operand.texts.Perm (d.tokens.flatMap Token.texts)
  | .leaf l => by
    rw [OperandSyntax.operand, OperandSyntax.tokens, Operand.texts, List.flatMap_singleton, l.texts_token]
  | .words content => by
    rw [OperandSyntax.operand, OperandSyntax.tokens, Operand.texts]
    rfl
  | .group opening closing content => by
    rw [OperandSyntax.operand, OperandSyntax.tokens, Operand.texts, List.flatMap_cons,
      List.flatMap_append]
    simpa [Token.texts] using texts_sequence content
  | .unary f operand => by
    rw [OperandSyntax.operand, OperandSyntax.tokens, Operand.texts, List.flatMap_cons]
    exact operand.texts_operand
  | .binary f first second => by
    rw [OperandSyntax.operand, OperandSyntax.tokens, Operand.texts, List.flatMap_cons,
      List.flatMap_append]
    exact first.texts_operand.append second.texts_operand
  | .color name operand => by
    rw [OperandSyntax.operand, OperandSyntax.tokens, Operand.texts, List.flatMap_cons,
      List.flatMap_cons]
    exact operand.texts_operand.cons name

theorem TermSyntax.texts_term : ∀ d : TermSyntax, d.term.texts.Perm (d.tokens.flatMap Token.texts)
  | .bare base => by
    rw [TermSyntax.term, TermSyntax.tokens, Term.texts]
    exact base.texts_operand
  | .one base side script => by
    have hboth := base.texts_operand.append script.texts_operand
    rw [TermSyntax.term, TermSyntax.tokens, List.flatMap_append, List.flatMap_cons, side.texts_token,
      List.nil_append]
    cases side <;> rwa [Term.withScript, Term.texts]
  | .two base side first second => by
    have hall := base.texts_operand.append (first.texts_operand.append second.texts_operand)
    rw [TermSyntax.term, TermSyntax.tokens, List.flatMap_append, List.flatMap_cons, side.texts_token,
      List.nil_append, List.flatMap_append, List.flatMap_cons, ScriptSide.texts_token, List.nil_append]
    -- which of the two scripts was written first is not kept
    cases side with
    | lower => rwa [Term.withScripts, Term.texts]
    | upper =>
      rw [Term.withScripts, Term.texts]
      exact (List.perm_append_comm.append_left _).trans hall

theorem RatioSyntax.texts_ratio : ∀ d : RatioSyntax,
    d.ratio.texts.Perm (d.tokens.flatMap Token.texts)
  | .term t => by
    rw [RatioSyntax.ratio, RatioSyntax.tokens, Ratio.texts]
    exact t.texts_term
  | .divided numerator denominator => by
    rw [RatioSyntax.ratio, RatioSyntax.tokens, Ratio.texts, List.flatMap_append, List.flatMap_cons]
    exact numerator.texts_term.append denominator.texts_ratio

/-- **An expression has the texts of its tokens**, each as often as it stands there. -/
theorem texts_sequence : ∀ d : List RatioSyntax,
    (expressionTexts (expressionOf d)).Perm ((sequenceTokens d).flatMap Token.texts)
  | [] => by
    rw [expressionOf, expressionTexts, sequenceTokens, List.flatMap_nil]
  | q :: d => by
    rw [expressionOf, expressionTexts, sequenceTokens, List.flatMap_append]
    exact q.texts_ratio.append (texts_sequence d)

end

end MathMarkup.Formula
