import MathMarkup.Program.Arguments
import MathMarkup.Proofs.Conversion.Alphabet
import MathMarkup.Proofs.Document.Splitting

/-!
# Replacing formulas twice

* `backtickRules` — formulas between backticks, blocks between two of them.

Principal results: `mem_decodeReferences` — where the characters of a decoded text come from;
`not_mem_replaced` — a document with its formulas replaced has no backtick, unless a formula in it spells
one with a reference; `replaceFormulas_again` — to replace the formulas again changes nothing, unless there
is a backtick.
-/

namespace MathMarkup.Document

open MathMarkup.Formula MathMarkup.Markup MathMarkup.Text

variable {text before rest last : List Char} {passage : Passage} {display : Display} {n : Nat}
  {edge : Edge} {converter : Converter}

/-! ## Decoded texts -/

/-- **The characters of a decoded text are those of the text and those that its references name.** -/
theorem mem_decodeReferences {c : Char} (h : c ∈ decodeReferences text) :
    c ∈ text ∨ ∃ name, references.lookup name = some c ∧ '&' :: (name ++ [';']) <:+: text := by
  fun_induction decodeReferences text with
  | case1 => exact .inl h
  | case2 rest hsplit => exact .inl h
  | case3 rest name after hsplit character hlookup ih =>
    obtain ⟨rfl, -⟩ := splitAtFirst_eq_some hsplit
    rcases List.mem_cons.1 h with rfl | h
    · refine .inr ⟨name, hlookup, [], after, ?_⟩
      simp
    · rcases ih h with hc | ⟨other, hother, before, behind, rfl⟩
      · exact .inl (by simp [hc])
      · exact .inr ⟨other, hother, '&' :: (name ++ ';' :: before), behind, by simp⟩
  | case4 rest name after hsplit hlookup ih =>
    obtain ⟨rfl, -⟩ := splitAtFirst_eq_some hsplit
    rw [List.mem_append] at h
    rcases h with h | h
    · refine .inl ?_
      rcases List.mem_cons.1 h with rfl | h
      · exact List.mem_cons_self
      · exact List.mem_cons_of_mem _ (List.mem_append_left _ h)
    rcases List.mem_cons.1 h with rfl | h
    · simp
    · rcases ih h with hc | ⟨other, hother, before, behind, rfl⟩
      · exact .inl (by simp [hc])
      · exact .inr ⟨other, hother, '&' :: (name ++ ';' :: before), behind, by simp⟩
  | case5 c' rest hne ih =>
    rcases List.mem_cons.1 h with rfl | h
    · exact .inl List.mem_cons_self
    · rcases ih h with hc | ⟨name, hlookup, hinfix⟩
      · exact .inl (List.mem_cons_of_mem _ hc)
      · exact .inr ⟨name, hlookup, hinfix.trans (List.suffix_cons _ _).isInfix⟩

/-- The references that name the backtick. -/
theorem eq_of_lookup_backtick {name : List Char} (h : references.lookup name = some '`') :
    name = "#96".toList ∨ name = "grave".toList := by
  have hnames : ∀ entry ∈ references, entry.2 = '`' →
      entry.1 = "#96".toList ∨ entry.1 = "grave".toList := by
    decide
  exact hnames (name, '`') (mem_of_lookup h) rfl

/-! ## Backticks as marks -/

/-- Formulas stand between backticks and blocks between two of them, and nothing is tolerated. -/
def backtickRules : Rules := ⟨.both "`".toList, .both "``".toList, false, false⟩

/-- These are the rules of a command line that names a file and nothing else. -/
example (path : String) : (Program.commandOf [.path path]).rules = backtickRules := rfl

/-- All marks start with a backtick. -/
theorem mark_backtickRules (edge : Edge) (display : Display) :
    ∃ others, backtickRules.mark edge display = '`' :: others := by
  cases edge <;> cases display <;> exact ⟨_, rfl⟩

/-- A backtick is a mark by itself. -/
theorem accepted_backtick (edge : Edge) (before rest : List Char) :
    Accepted backtickRules.skipEscaped (backtickRules.mark edge .inline) (before ++ '`' :: rest)
      before.length := by
  have hmark : backtickRules.mark edge .inline = ['`'] := by cases edge <;> rfl
  rw [hmark]
  have hoccurs : Occurs ['`'] (before ++ '`' :: rest) before.length :=
    (occurs_length before).2 ⟨rest, rfl⟩
  exact acceptedFrom_of_clear (List.cons_ne_nil _ _) hoccurs (fun hskipped => nomatch hskipped.2.1)
    (fun a ha _ => ha) (Nat.zero_le _)

theorem unmarked_backtickRules_iff : Unmarked backtickRules edge text ↔ '`' ∉ text := by
  constructor
  · intro h hmem
    obtain ⟨before, rest, rfl⟩ := List.append_of_mem hmem
    exact h .inline before.length (accepted_backtick edge before rest)
  · intro h display n haccepted
    obtain ⟨others, hmark⟩ := mark_backtickRules edge display
    obtain ⟨behind, hprefix⟩ := haccepted.occurs.2
    rw [hmark] at hprefix
    refine h (List.drop_subset n text ?_)
    rw [← hprefix]
    exact List.mem_cons_self

/-- No backtick stands before the first mark. -/
theorem FirstMark.not_mem (h : FirstMark backtickRules edge (before ++ rest) display before.length) :
    '`' ∉ before := by
  intro hmem
  obtain ⟨start, others, rfl⟩ := List.append_of_mem hmem
  have haccepted := accepted_backtick edge start (others ++ rest)
  have hle := h.leftmost .inline start.length (by simpa using haccepted)
  rw [List.length_append, List.length_cons] at hle
  omega

theorem FirstPassage.not_mem_before (h : FirstPassage backtickRules text before passage rest) :
    '`' ∉ before := by
  have hopens := h.opens
  rw [h.split, List.append_assoc] at hopens
  exact hopens.not_mem

/-! ## What replacing leaves -/

/-- What a converter puts in place of a passage. -/
theorem Replaces.exists_markup {output replacement : List Char}
    (h : Replaces backtickRules (.ofConverter converter) () output passage () replacement) :
    ∃ markup, converter passage.display (String.ofList (decodeReferences passage.content)) =
      .ok markup ∧ replacement = markup.toList := by
  cases h with
  | converted hanswer =>
    unfold Callback.ofConverter at hanswer
    split at hanswer
    · next markup hmarkup =>
      have houtput := congrArg Callback.Answer.output hanswer
      exact ⟨markup, hmarkup, (List.append_cancel_left houtput).symm⟩
    · next fault _ =>
      have hfault := congrArg Callback.Answer.fault hanswer
      cases hfault
  | kept hkeep _ => cases hkeep

theorem splits_of_replaceFormulas {document out : List Char}
    (h : replaceFormulas backtickRules converter document = .ok out) :
    ∃ passages last replaced, Splits backtickRules document passages last ∧
      Renders backtickRules (.ofConverter converter) () [] passages replaced ∧
      out = interleave replaced last := by
  obtain ⟨hnone, rfl⟩ := replace_eq_ok.1 h
  obtain ⟨passages, last, replaced, hsplits, hrenders, houtput⟩ :=
    splits_of_replaceFrom (ofConverter_appends converter) hnone
  exact ⟨passages, last, replaced, hsplits, hrenders, houtput⟩

/-- A text without a backtick is left as it is. -/
theorem replaceFormulas_of_not_mem (converter : Converter) (h : '`' ∉ text) :
    replaceFormulas backtickRules converter text = .ok text := by
  have hsplits : Splits backtickRules text [] text := .last (unmarked_backtickRules_iff.2 h)
  obtain ⟨hnone, houtput⟩ :=
    replaceFrom_of_splits (ofConverter_appends converter) hsplits ⟨(), [], []⟩ 0 .nil
  exact replace_eq_ok.2 ⟨hnone, houtput⟩

variable {settings : Settings}

/-- The markup of a formula has no backtick, unless the formula spells one with a reference. -/
theorem not_mem_of_replaces {output replacement : List Char}
    (h : Replaces backtickRules (.ofConverter (convert settings)) () output passage () replacement)
    (hcontent : '`' ∉ passage.content) (hnumbered : ¬ "&#96;".toList <:+: passage.content)
    (hnamed : ¬ "&grave;".toList <:+: passage.content) : '`' ∉ replacement := by
  obtain ⟨markup, hconvert, rfl⟩ := h.exists_markup
  intro hmem
  have hdecoded : '`' ∈ decodeReferences passage.content := by
    have hdrawn := drawn_convert hconvert '`' hmem
    rw [String.toList_ofList] at hdrawn
    exact hdrawn.resolve_left (by decide)
  rcases mem_decodeReferences hdecoded with hmem | ⟨name, hlookup, hinfix⟩
  · exact hcontent hmem
  · rcases eq_of_lookup_backtick hlookup with rfl | rfl
    · exact hnumbered hinfix
    · exact hnamed hinfix

/-- **A document with its formulas replaced has no backtick**, unless a formula in it spells one with a
reference. The induction is on the passages. -/
theorem not_mem_replaced {passages : List (List Char × Passage)}
    {replaced : List (List Char × List Char)} {output : List Char}
    (hsplits : Splits backtickRules text passages last)
    (hrenders : Renders backtickRules (.ofConverter (convert settings)) () output passages replaced)
    (hspelled : ∀ p ∈ passages, ¬ "&#96;".toList <:+: p.2.content ∧
      ¬ "&grave;".toList <:+: p.2.content) : '`' ∉ interleave replaced last := by
  induction hsplits generalizing output replaced with
  | last hunmarked =>
    cases hrenders
    exact unmarked_backtickRules_iff.1 hunmarked
  | passage hfirst _ ih =>
    obtain ⟨⟨hnumbered, hnamed⟩, hothers⟩ := List.forall_mem_cons.1 hspelled
    cases hrenders with
    | cons hreplaces hrenders =>
      have hcontent := unmarked_backtickRules_iff.1 hfirst.unnested
      have hmarkup := not_mem_of_replaces hreplaces hcontent hnumbered hnamed
      rw [interleave, List.mem_append, List.mem_append]
      rintro ((hmem | hmem) | hmem)
      · exact hfirst.not_mem_before hmem
      · exact hmarkup hmem
      · exact ih hrenders hothers hmem

/-- A document that is left as it is has no backtick: at its first one there would be a tag. -/
theorem not_mem_of_replaceFormulas_eq_self
    (h : replaceFormulas backtickRules (convert settings) text = .ok text) : '`' ∉ text := by
  obtain ⟨passages, last, replaced, hsplits, hrenders, heq⟩ := splits_of_replaceFormulas h
  cases hsplits with
  | last hunmarked => exact unmarked_backtickRules_iff.1 hunmarked
  | @passage _ before rest _ passage passages hfirst _ =>
    cases hrenders with
    | cons hreplaces _ =>
      obtain ⟨markup, hconvert, rfl⟩ := hreplaces.exists_markup
      obtain ⟨others, hmarkup⟩ := toList_eq_cons_of_convert hconvert
      obtain ⟨behind, hmark⟩ := mark_backtickRules .opening passage.display
      have hsplit := hfirst.split
      rw [Passage.source, hfirst.opening, hmark, List.append_assoc before] at hsplit
      rw [interleave, hmarkup, List.append_assoc] at heq
      have hboth := List.append_cancel_left (hsplit.symm.trans heq)
      cases hboth

/-- **To replace the formulas of a document again changes nothing, unless a backtick is left.** A formula
leaves one only if it spells it with a reference. -/
theorem replaceFormulas_again {document out : List Char}
    (h : replaceFormulas backtickRules (convert settings) document = .ok out) :
    (∃ passages last, Splits backtickRules document passages last ∧
      ((∀ p ∈ passages, ¬ "&#96;".toList <:+: p.2.content ∧ ¬ "&grave;".toList <:+: p.2.content) →
        '`' ∉ out)) ∧
    (replaceFormulas backtickRules (convert settings) out = .ok out ↔ '`' ∉ out) := by
  obtain ⟨passages, last, replaced, hsplits, hrenders, rfl⟩ := splits_of_replaceFormulas h
  refine ⟨⟨passages, last, hsplits, not_mem_replaced hsplits hrenders⟩, ?_⟩
  exact ⟨not_mem_of_replaceFormulas_eq_self, replaceFormulas_of_not_mem _⟩

/-- A formula and a block, and another reference. -/
theorem replaceFormulas_again_block :
    ∃ out, replaceFormulas backtickRules (convert {}) "`a` and ``b&lt;c``".toList = .ok out ∧
      replaceFormulas backtickRules (convert {}) out = .ok out := by
  have h : replaceFormulas backtickRules (convert {}) "`a` and ``b&lt;c``".toList =
      .ok ("<math display=\"inline\"><mi>a</mi></math> and " ++
        "<math display=\"block\"><mi>b</mi><mo>&lt;</mo><mi>c</mi></math>").toList := by
    decide +kernel
  exact ⟨_, h, (replaceFormulas_again h).2.2 (by decide +kernel)⟩

/-- A backtick that a formula spells is one in the markup, and opens a formula there. -/
theorem replaceFormulas_spelled_backtick :
    replaceFormulas backtickRules (convert {}) "`&#96;`".toList =
        .ok "<math display=\"inline\"><mi>`</mi></math>".toList ∧
      '`' ∈ "<math display=\"inline\"><mi>`</mi></math>".toList ∧
      replaceFormulas backtickRules (convert {}) "<math display=\"inline\"><mi>`</mi></math>".toList =
        .error ⟨27, .unclosed⟩ := by
  decide +kernel

end MathMarkup.Document
