import MathMarkup.Markup.Writer
import MathMarkup.Proofs.Presentation.Texts

/-!
# Pieces of markup on lines of their own

Written markup is a list of pieces: start tags and end tags of elements that hold elements, and whole
elements that hold text. A line break can only stand before a piece.

* `Piece`, `Element.pieces` — the pieces of an element.
* `Spread level openTags pieces text` — the text shows each piece on a line of its own, indented by the
  given level and by one level for each element that is open there.
* `Element.TextApart` — no element holds text beside other elements.

Principal results: `writeElements_compact` — on one line the pieces follow each other without anything
between them; `spread_writeElements` — with an indentation they are spread over lines.
-/

namespace MathMarkup.Markup

/-- A part of written markup in which no line is broken. -/
inductive Piece where
  | startTag (tag : Tag) (attributes : List Attribute)
  | endTag (tag : Tag)
  /-- An element that holds text, from its start tag to its end tag. -/
  | leaf (tag : Tag) (attributes : List Attribute) (content : CharacterData)
  | space
  deriving DecidableEq, Repr

def Piece.write : Piece → List Char
  | startTag tag attributes => Markup.startTag tag attributes
  | endTag tag => Markup.endTag tag
  | leaf tag attributes content =>
    Markup.startTag tag attributes ++ content.toChars ++ Markup.endTag tag
  | space => spaceTag

mutual

def Element.pieces : Element → List Piece
  | .leaf tag attributes content => [.leaf tag attributes content]
  | .node tag attributes children => .startTag tag attributes :: (piecesOf children ++ [.endTag tag])
  | .space => [.space]

def piecesOf : List Element → List Piece
  | [] => []
  | e :: rest => e.pieces ++ piecesOf rest

end

/-- Pieces on lines of their own. The tags of the elements that are open before the first piece stand in
`openTags`, the innermost one first. An end tag stands on the level of its start tag. -/
inductive Spread (level : Nat) : List Tag → List Piece → List Char → Prop
  | done : Spread level [] [] []
  | startTag {openTags pieces text tag attributes} : tag.holdsText = false →
      Spread level (tag :: openTags) pieces text →
      Spread level openTags (.startTag tag attributes :: pieces)
        ('\n' :: List.replicate (4 * (level + openTags.length)) ' ' ++
          (Markup.startTag tag attributes ++ text))
  | endTag {openTags pieces text tag} : Spread level openTags pieces text →
      Spread level (tag :: openTags) (.endTag tag :: pieces)
        ('\n' :: List.replicate (4 * (level + openTags.length)) ' ' ++ (Markup.endTag tag ++ text))
  | leaf {openTags pieces text tag attributes content} : tag.holdsText = true →
      Spread level openTags pieces text →
      Spread level openTags (.leaf tag attributes content :: pieces)
        ('\n' :: List.replicate (4 * (level + openTags.length)) ' ' ++
          ((Piece.leaf tag attributes content).write ++ text))
  | space {openTags pieces text} : Spread level openTags pieces text →
      Spread level openTags (.space :: pieces)
        ('\n' :: List.replicate (4 * (level + openTags.length)) ' ' ++ (spaceTag ++ text))

/-- Text is in the elements that hold text, and in no others. -/
inductive Element.TextApart : Element → Prop
  | leaf {tag attributes content} : tag.holdsText = true → TextApart (.leaf tag attributes content)
  | node {tag attributes children} : tag.holdsText = false → (∀ e ∈ children, e.TextApart) →
      TextApart (.node tag attributes children)
  | space : TextApart .space

theorem Element.Holds.textApart {p q : String → Prop} {e : Element} (h : e.Holds p q) :
    e.TextApart := by
  induction h with
  | @glyph tag text htag hp =>
    apply TextApart.leaf
    simp only [List.mem_cons, List.not_mem_nil, or_false] at htag
    rcases htag with rfl | rfl | rfl | rfl <;> rfl
  | plain _ => exact .leaf rfl
  | node htag _ _ _ ih => exact .node htag ih
  | space => exact .space

/-! ## On one line -/

mutual

theorem write_compact : ∀ e : Element, e.write .compact = e.pieces.flatMap Piece.write
  | .leaf tag attributes content => by
    rw [Element.write, Element.pieces, List.flatMap_singleton, Piece.write]
  | .node tag attributes children => by
    rw [Element.write, Element.pieces, List.flatMap_cons, List.flatMap_append,
      List.flatMap_singleton, Piece.write, Piece.write]
    have hchildren := writeElements_compact children
    simp only [Layout.nested, Layout.lineBreak, List.nil_append, hchildren]
  | .space => by
    rw [Element.write, Element.pieces, List.flatMap_singleton, Piece.write]

theorem writeElements_compact : ∀ es : List Element,
    writeElements .compact es = (piecesOf es).flatMap Piece.write
  | [] => by
    rw [writeElements, piecesOf, List.flatMap_nil]
  | e :: rest => by
    rw [writeElements, piecesOf, List.flatMap_append, write_compact e, writeElements_compact rest]
    rfl

end

/-! ## On several lines -/

variable {level : Nat}

theorem Spread.of_eq {openTags : List Tag} {pieces : List Piece} {text text' : List Char}
    (h : Spread level openTags pieces text) (heq : text = text') :
    Spread level openTags pieces text' :=
  heq ▸ h

mutual

/-- An element is spread over lines in front of what is spread behind it. Its own children stand one
level deeper, because the tag of the element is open there. -/
theorem spread_write : ∀ e : Element, e.TextApart →
    ∀ {openTags : List Tag} {pieces : List Piece} {text : List Char},
      Spread level openTags pieces text →
      Spread level openTags (e.pieces ++ pieces)
        (Layout.lineBreak (.indented (level + openTags.length)) ++
          (e.write (.indented (level + openTags.length)) ++ text))
  | .leaf tag attributes content, .leaf htag, openTags, pieces, text, h => by
    rw [Element.pieces, Element.write]
    exact .leaf htag h
  | .node tag attributes children, .node htag hchildren, openTags, pieces, text, h => by
    have hend : Spread level (tag :: openTags) (.endTag tag :: pieces)
        (Layout.lineBreak (.indented (level + openTags.length)) ++ (endTag tag ++ text)) :=
      .endTag h
    have hinner := spread_writeElements children hchildren hend
    have hdeeper : level + (tag :: openTags).length = level + openTags.length + 1 := by
      simp only [List.length_cons]
      omega
    rw [hdeeper] at hinner
    rw [Element.pieces, Element.write, Layout.nested, List.cons_append, List.append_assoc,
      List.singleton_append]
    refine (Spread.startTag htag hinner).of_eq ?_
    simp only [Layout.lineBreak, List.append_assoc]
  | .space, .space, openTags, pieces, text, h => by
    rw [Element.pieces, Element.write]
    exact .space h

theorem spread_writeElements : ∀ es : List Element, (∀ e ∈ es, e.TextApart) →
    ∀ {openTags : List Tag} {pieces : List Piece} {text : List Char},
      Spread level openTags pieces text →
      Spread level openTags (piecesOf es ++ pieces)
        (writeElements (.indented (level + openTags.length)) es ++ text)
  | [], _, openTags, pieces, text, h => by
    rw [piecesOf, writeElements, List.nil_append, List.nil_append]
    exact h
  | e :: rest, hall, openTags, pieces, text, h => by
    obtain ⟨he, hrest⟩ := List.forall_mem_cons.1 hall
    have htail := spread_writeElements rest hrest h
    rw [piecesOf, writeElements, List.append_assoc]
    refine (spread_write e he htail).of_eq ?_
    simp only [List.append_assoc]

end

/-- **Elements with an indentation are their pieces on lines of their own.** -/
theorem spread_indented {es : List Element} (h : ∀ e ∈ es, e.TextApart) (level : Nat) :
    Spread level [] (piecesOf es) (writeElements (.indented level) es) := by
  have hall := spread_writeElements es h (Spread.done : Spread level [] [] [])
  simpa using hall

end MathMarkup.Markup
