import MathMarkup.Proofs.Markup.ReadBack

/-!
# Elements with a fixed number of elements in them

* `Xml.operandCount` — how many elements stand in an element of a name, where the number is fixed.
* `Xml.isFilled` — whether all elements of a tree have as many elements in them.

Principal results: `isFilled_counted_iff`, `isFilled_uncounted_iff` — when the tree of an element is
filled.
-/

namespace MathMarkup.Markup

namespace Xml

/-- The number of elements in an element, if its name fixes one. -/
def operandCount (name : String) : Option Nat :=
  if name ∈ ["mfrac", "mroot", "msub", "msup", "munder", "mover", "semantics"] then some 2
  else if name ∈ ["msubsup", "munderover"] then some 3
  else none

/-- The first element in one of these can be a stacked base. -/
def takesStackedBase (name : String) : Bool := name ∈ ["munder", "mover", "munderover"]

/-- A stacked base stands alone in an element of its own. -/
def isStackedBase : Xml → Bool
  | .element name _ content => name ∈ ["munder", "mover"] && content.length = 1

mutual

/-- Whether all elements of a tree have as many elements in them as their names fix. A stacked base
is an exception where it is allowed. -/
def isFilled (stacked : Bool) : Xml → Bool
  | .element name attributes content =>
    ((operandCount name).all (content.length = ·) ||
      stacked && isStackedBase (.element name attributes content)) &&
    allFilled (takesStackedBase name) content

/-- Whether all trees are filled. Only the first one can be a stacked base. -/
def allFilled (stacked : Bool) : List Xml → Bool
  | [] => true
  | first :: rest => first.isFilled stacked && allFilled false rest

end

end Xml

open Xml

variable {stacked : Bool} {tag : Tag} {attributes : List Attribute} {children a b : List Element}

theorem length_xmlOf (children : List Element) : (xmlOf children).length = children.length := by
  induction children with
  | nil => rw [xmlOf, List.length_nil, List.length_nil]
  | cons e rest ih => rw [xmlOf, List.length_cons, List.length_cons, ih]

theorem allFilled_false_iff :
    allFilled false (xmlOf children) = true ↔ ∀ e ∈ children, e.xml.isFilled false = true := by
  induction children with
  | nil => simp [xmlOf, allFilled]
  | cons e rest ih => simp [xmlOf, allFilled, ih]

theorem allFilled_append (ha : a ≠ []) :
    allFilled stacked (xmlOf (a ++ b)) = true ↔
      allFilled stacked (xmlOf a) = true ∧ allFilled false (xmlOf b) = true := by
  cases a with
  | nil => exact absurd rfl ha
  | cons e rest =>
    rw [List.cons_append, xmlOf, xmlOf, allFilled, allFilled, Bool.and_eq_true, Bool.and_eq_true,
      and_assoc, allFilled_false_iff, allFilled_false_iff, allFilled_false_iff,
      List.forall_mem_append]

/-- An element whose name fixes no number is filled if its content is. -/
theorem isFilled_uncounted_iff (h : operandCount tag.name = none) :
    (Element.node tag attributes children).xml.isFilled stacked = true ↔
      allFilled (takesStackedBase tag.name) (xmlOf children) = true := by
  rw [Element.xml, isFilled, h]
  simp

/-- An element whose name fixes a number, and which does not hold one element alone. -/
theorem isFilled_counted_iff {n : Nat} (h : operandCount tag.name = some n)
    (hl : children.length ≠ 1) :
    (Element.node tag attributes children).xml.isFilled stacked = true ↔
      children.length = n ∧ allFilled (takesStackedBase tag.name) (xmlOf children) = true := by
  rw [Element.xml, isFilled, h, isStackedBase, length_xmlOf]
  simp [hl]

/-- An element for a stacked base holds it alone. -/
theorem isFilled_stackedBase_iff (h : tag = .munder ∨ tag = .mover) :
    (Element.node tag attributes children).xml.isFilled true = true ↔
      (children.length = 2 ∨ children.length = 1) ∧ allFilled true (xmlOf children) = true := by
  rw [Element.xml, isFilled, isStackedBase, length_xmlOf]
  rcases h with rfl | rfl
  · simp [operandCount, Tag.name, takesStackedBase]
  · simp [operandCount, Tag.name, takesStackedBase]

end MathMarkup.Markup
