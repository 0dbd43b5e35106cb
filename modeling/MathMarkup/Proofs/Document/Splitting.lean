import MathMarkup.Proofs.Conversion.WellFormed
import MathMarkup.Document.Replacement
import MathMarkup.Proofs.Document.Occurrences

/-!
# How a document splits into text and formulas

* `Splits` — the text and the passages of a document: each passage starts at the first accepted
  opening delimiter of what is left, and ends at the first accepted closing delimiter behind it.
* `Renders` — what a callback writes in place of the passages, one after the other.

Principal results: `Reached.replace_eq` — a replacer that was used before does what a new one does;
`replace_eq_ok_iff` — it returns the text of the document with the replacements between its parts.
-/

namespace MathMarkup.Document

open MathMarkup.Formula MathMarkup.Markup MathMarkup.Text

/-- Parts of a document, each with what stands behind it, and the last part. -/
def interleave : List (List Char × List Char) → List Char → List Char
  | [], last => last
  | (part, between) :: rest, last => part ++ between ++ interleave rest last

/-! ## Passages -/

/-- The first formula of a text, the text before it and the text after it. -/
structure FirstPassage (rules : Rules) (text before : List Char) (passage : Passage)
    (rest : List Char) : Prop where
  split : text = before ++ passage.source ++ rest
  opening : passage.opening = rules.mark .opening passage.display
  opens : FirstMark rules .opening text passage.display before.length
  /-- The closing delimiter is the first of either display. -/
  closes : ∃ display, passage.closing = rules.mark .closing display ∧
    FirstMark rules .closing (passage.content ++ passage.closing ++ rest) display
      passage.content.length ∧
    (rules.sharesClosing = true ∨ display = passage.display)
  unnested : Unmarked rules .opening passage.content

/-- The passages of a text, each with the text before it, and the text after the last one. -/
inductive Splits (rules : Rules) :
    List Char → List (List Char × Passage) → List Char → Prop
  | last {text : List Char} : Unmarked rules .opening text → Splits rules text [] text
  | passage {text before rest last : List Char} {passage : Passage}
      {passages : List (List Char × Passage)} :
      FirstPassage rules text before passage rest → Splits rules rest passages last →
      Splits rules text ((before, passage) :: passages) last

variable {rules : Rules} {text before rest last : List Char} {passage : Passage}
  {passages : List (List Char × Passage)}

/-- The parts and the passages make up the text. -/
theorem Splits.eq_interleave (h : Splits rules text passages last) :
    text = interleave (passages.map fun p => (p.1, p.2.source)) last := by
  induction h with
  | last _ => rfl
  | passage hfirst _ ih => rw [List.map_cons, interleave, ← ih, hfirst.split]

/-- What is read behind an opening delimiter. -/
theorem readPassage_eq_ok_iff {display : Display} {openingAt : Nat} {tail : List Char} :
    readPassage rules display openingAt tail = .ok (passage, rest) ↔
      passage.display = display ∧ passage.opening = rules.mark .opening display ∧
      tail = passage.content ++ passage.closing ++ rest ∧
      (∃ closed, passage.closing = rules.mark .closing closed ∧
        FirstMark rules .closing tail closed passage.content.length ∧
        (rules.sharesClosing = true ∨ closed = display)) ∧
      Unmarked rules .opening passage.content := by
  unfold readPassage
  dsimp only
  constructor
  · intro h
    split at h
    · cases h
    · next closed hclosed =>
      obtain ⟨hsplit, hfirst⟩ := findFirst_eq_some_iff.1 hclosed
      split at h
      · cases h
      · next hmatch =>
        split at h
        · cases h
        · next hinner =>
          simp only [Except.ok.injEq, Prod.mk.injEq] at h
          obtain ⟨rfl, rfl⟩ := h
          refine ⟨rfl, rfl, hsplit, ⟨closed.display, rfl, hfirst, ?_⟩,
            findFirst_eq_none_iff.1 hinner⟩
          cases hshares : rules.sharesClosing with
          | true => exact .inl rfl
          | false => exact .inr (by simpa [hshares] using hmatch)
  · rintro ⟨rfl, hopening, htail, ⟨closed, hclosing, hfirst, hmatch⟩, hunnested⟩
    have hclosed : rules.findFirst .closing tail = some ⟨closed, passage.content, rest⟩ :=
      findFirst_eq_some_iff.2 ⟨hclosing ▸ htail, hfirst⟩
    have hpaired : ¬(!rules.sharesClosing && decide (closed ≠ passage.display)) = true := by
      obtain hshares | hdisplay := hmatch
      · simp [hshares]
      · simp [hdisplay]
    simp only [hclosed, if_neg hpaired, findFirst_eq_none_iff.2 hunnested, ← hopening, ← hclosing]

/-- The first passage is what the replacement reads. -/
theorem firstPassage_iff (openingAt : Nat) :
    FirstPassage rules text before passage rest ↔
      ∃ found, rules.findFirst .opening text = some found ∧ found.before = before ∧
        readPassage rules found.display openingAt found.after = .ok (passage, rest) := by
  constructor
  · intro h
    have hsource : passage.source ++ rest =
        rules.mark .opening passage.display ++ (passage.content ++ passage.closing ++ rest) := by
      rw [Passage.source, h.opening]
      simp only [List.append_assoc]
    refine ⟨⟨passage.display, before, passage.content ++ passage.closing ++ rest⟩,
      findFirst_eq_some_iff.2 ⟨?_, h.opens⟩, rfl,
      readPassage_eq_ok_iff.2 ⟨rfl, h.opening, rfl, h.closes, h.unnested⟩⟩
    rw [h.split, List.append_assoc, hsource]
    exact (List.append_assoc ..).symm
  · rintro ⟨found, hfound, rfl, hread⟩
    obtain ⟨hsplit, hfirst⟩ := findFirst_eq_some_iff.1 hfound
    obtain ⟨hdisplay, hopening, htail, hcloses, hunnested⟩ := readPassage_eq_ok_iff.1 hread
    rw [← hdisplay] at hopening hfirst hcloses
    refine ⟨?_, hopening, hfirst, htail ▸ hcloses, hunnested⟩
    rw [hsplit, htail, ← hdisplay, Passage.source, hopening]
    simp

/-! ## Replacements -/

variable {σ : Type} {callback : Callback σ}

/-- A callback that only appends to the output, and leaves it unchanged when it fails. -/
structure Callback.Appends (callback : Callback σ) : Prop where
  failed : ∀ memory output formula display fault,
    (callback memory output formula display).fault = some fault →
      (callback memory output formula display).output = output
  converted : ∀ memory output formula display,
    (callback memory output formula display).fault = none →
      output <+: (callback memory output formula display).output

theorem ofConverter_appends (converter : Converter) : (Callback.ofConverter converter).Appends where
  failed memory output formula display fault h := by
    unfold Callback.ofConverter at h ⊢
    split <;> simp_all
  converted memory output formula display h := by
    unfold Callback.ofConverter at h ⊢
    split <;> simp_all

/-- What comes in place of a passage: what the callback appends to the output for its decoded
content, or the passage itself if the callback fails and failed formulas are kept. -/
inductive Replaces (rules : Rules) (callback : Callback σ) (memory : σ) (output : List Char)
    (passage : Passage) : σ → List Char → Prop
  | converted {memory' : σ} {replacement : List Char} :
      callback memory output (String.ofList (decodeReferences passage.content)) passage.display =
        ⟨memory', output ++ replacement, none⟩ →
      Replaces rules callback memory output passage memory' replacement
  | kept {memory' : σ} {output' : List Char} {fault : Fault} : rules.keepFailed = true →
      callback memory output (String.ofList (decodeReferences passage.content)) passage.display =
        ⟨memory', output', some fault⟩ →
      Replaces rules callback memory output passage memory' passage.source

/-- What comes in place of the passages of a text, each with the text before it. The output grows
by both, and the memory is handed from one passage to the next. -/
inductive Renders (rules : Rules) (callback : Callback σ) :
    σ → List Char → List (List Char × Passage) → List (List Char × List Char) → Prop
  | nil {memory : σ} {output : List Char} : Renders rules callback memory output [] []
  | cons {memory memory' : σ} {output before replacement : List Char} {passage : Passage}
      {passages : List (List Char × Passage)} {replaced : List (List Char × List Char)} :
      Replaces rules callback memory (output ++ before) passage memory' replacement →
      Renders rules callback memory' (output ++ before ++ replacement) passages replaced →
      Renders rules callback memory output ((before, passage) :: passages)
        ((before, replacement) :: replaced)

theorem convert_of_replaces (happends : callback.Appends) (progress : Progress σ) {memory' : σ}
    {replacement : List Char} (contentAt : Nat)
    (h : Replaces rules callback progress.memory progress.output passage memory' replacement) :
    progress.convert rules callback passage contentAt =
      (⟨memory', decodeReferences passage.content, progress.output ++ replacement⟩, none) := by
  cases h with
  | converted hanswer => simp only [Progress.convert, hanswer]
  | kept hkeep hanswer =>
    have houtput := happends.failed progress.memory progress.output
      (String.ofList (decodeReferences passage.content)) passage.display
    rw [hanswer] at houtput
    obtain rfl := houtput _ rfl
    simp only [Progress.convert, hanswer, hkeep, if_true, Progress.copy]

theorem replaces_of_convert (happends : callback.Appends) {progress progress' : Progress σ}
    {contentAt : Nat}
    (h : progress.convert rules callback passage contentAt = (progress', none)) :
    ∃ replacement, progress'.output = progress.output ++ replacement ∧
      Replaces rules callback progress.memory progress.output passage progress'.memory
        replacement := by
  have hfailed := happends.failed progress.memory progress.output
    (String.ofList (decodeReferences passage.content)) passage.display
  have hconverted := happends.converted progress.memory progress.output
    (String.ofList (decodeReferences passage.content)) passage.display
  unfold Progress.convert at h
  rcases hanswer : callback progress.memory progress.output
    (String.ofList (decodeReferences passage.content)) passage.display with ⟨memory, output, fault⟩
  simp only [hanswer] at h hfailed hconverted
  cases fault with
  | none =>
    obtain ⟨replacement, rfl⟩ := hconverted rfl
    simp only [Prod.mk.injEq, and_true] at h
    subst h
    exact ⟨replacement, rfl, .converted hanswer⟩
  | some fault =>
    obtain rfl := hfailed fault rfl
    by_cases hkeep : rules.keepFailed = true
    · simp only [hkeep, if_true, Prod.mk.injEq, and_true] at h
      subst h
      exact ⟨passage.source, rfl, .kept hkeep hanswer⟩
    · simp [hkeep] at h

/-! ## The replacement as a whole -/

/-- The induction is on the rounds of the replacement; a round that fails ends it. -/
theorem splits_of_replaceFrom (happends : callback.Appends) {progress : Progress σ} {offset : Nat}
    (h : (replaceFrom rules callback progress offset text).2 = none) :
    ∃ passages last replaced, Splits rules text passages last ∧
      Renders rules callback progress.memory progress.output passages replaced ∧
      (replaceFrom rules callback progress offset text).1.output =
        progress.output ++ interleave replaced last := by
  fun_induction replaceFrom rules callback progress offset text with
  | case1 progress offset text hnone =>
    exact ⟨[], text, [], .last (findFirst_eq_none_iff.1 hnone), .nil, rfl⟩
  | case2 progress offset text found hfound openingAt failure hread => cases h
  | case3 progress offset text found hfound openingAt passage rest hread progress' failure
      hconvert => cases h
  | case4 progress offset text found hfound openingAt passage rest hread progress' hconvert ih =>
    obtain ⟨passages, last, replaced, hsplits, hrenders, houtput⟩ := ih h
    obtain ⟨replacement, hgrows, hreplaces⟩ := replaces_of_convert happends hconvert
    have hfirst : FirstPassage rules text found.before passage rest :=
      (firstPassage_iff openingAt).2 ⟨found, hfound, rfl, hread⟩
    rw [hgrows] at hrenders houtput
    refine ⟨(found.before, passage) :: passages, last, (found.before, replacement) :: replaced,
      .passage hfirst hsplits, .cons hreplaces hrenders, ?_⟩
    rw [houtput]
    simp only [Progress.copy, interleave, List.append_assoc]

/-- A round of the replacement. -/
theorem replaceFrom_of_firstPassage {progress progress' : Progress σ} {offset : Nat}
    (hfirst : FirstPassage rules text before passage rest)
    (hconvert : (progress.copy before).convert rules callback passage
      (offset + byteLength before + byteLength passage.opening) = (progress', none)) :
    replaceFrom rules callback progress offset text =
      replaceFrom rules callback progress'
        (offset + byteLength before + byteLength passage.source) rest := by
  obtain ⟨found, hfound, rfl, hread⟩ := (firstPassage_iff (offset + byteLength before)).1 hfirst
  rw [replaceFrom]
  split
  · next hnone => rw [hfound] at hnone; cases hnone
  · next found' hfound' =>
    obtain rfl : found = found' := by simpa [hfound] using hfound'
    dsimp only
    split
    · next hfailed => rw [hread] at hfailed; cases hfailed
    · next passage' rest' hread' =>
      obtain ⟨rfl, rfl⟩ : passage = passage' ∧ rest = rest' := by simpa [hread] using hread'
      rw [hconvert]

/-- The induction is on the passages. -/
theorem replaceFrom_of_splits (happends : callback.Appends) (hsplits : Splits rules text passages last)
    (progress : Progress σ) (offset : Nat) {replaced : List (List Char × List Char)}
    (hrenders : Renders rules callback progress.memory progress.output passages replaced) :
    (replaceFrom rules callback progress offset text).2 = none ∧
      (replaceFrom rules callback progress offset text).1.output =
        progress.output ++ interleave replaced last := by
  induction hsplits generalizing progress offset replaced with
  | last hunmarked =>
    cases hrenders
    rw [replaceFrom, findFirst_eq_none_iff.2 hunmarked]
    exact ⟨rfl, rfl⟩
  | @passage text before rest last passage passages hfirst _ ih =>
    cases hrenders with
    | cons hreplaces hrenders =>
      have hconvert := convert_of_replaces happends (progress.copy before)
        (offset + byteLength before + byteLength passage.opening) hreplaces
      rw [replaceFrom_of_firstPassage hfirst hconvert]
      have hrest := ih ⟨_, decodeReferences passage.content, _⟩
        (offset + byteLength before + byteLength passage.source) hrenders
      refine ⟨hrest.1, hrest.2.trans ?_⟩
      simp only [interleave, List.append_assoc]

/-! ## Replacers -/

/-- The replacers that come about when one document after the other is handled under some rules,
with whatever result and by whatever callback. -/
inductive Reached (rules : Rules) : Replacer → Prop
  | new : Reached rules (.new rules)
  | replace {τ : Type} {replacer : Replacer} (callback : Callback τ) (memory : τ)
      (document : List Char) : Reached rules replacer →
      Reached rules (replacer.replace callback memory document).2.2

theorem Reached.rules_eq {replacer : Replacer} (h : Reached rules replacer) :
    replacer.rules = rules := by
  induction h with
  | new => rfl
  | replace _ _ _ _ ih => exact ih

/-- The formula that was decoded before a text makes no difference to its replacement. -/
theorem replaceFrom_decoded (rules : Rules) (callback : Callback σ) (memory : σ)
    (decoded decoded' output : List Char) (offset : Nat) (text : List Char) :
    (replaceFrom rules callback ⟨memory, decoded, output⟩ offset text).2 =
        (replaceFrom rules callback ⟨memory, decoded', output⟩ offset text).2 ∧
      (replaceFrom rules callback ⟨memory, decoded, output⟩ offset text).1.memory =
        (replaceFrom rules callback ⟨memory, decoded', output⟩ offset text).1.memory ∧
      (replaceFrom rules callback ⟨memory, decoded, output⟩ offset text).1.output =
        (replaceFrom rules callback ⟨memory, decoded', output⟩ offset text).1.output := by
  rw [replaceFrom, replaceFrom]
  split
  · exact ⟨rfl, rfl, rfl⟩
  · -- a first formula overwrites what was decoded
    next found hfound =>
    dsimp only
    split
    · exact ⟨rfl, rfl, rfl⟩
    · exact ⟨rfl, rfl, rfl⟩

/-- **A replacer that has served other documents does what a new one does**, for every callback. -/
theorem Reached.replace_eq {replacer : Replacer} (h : Reached rules replacer)
    (callback : Callback σ) (memory : σ) (document : List Char) :
    (replacer.replace callback memory document).1 =
        ((Replacer.new rules).replace callback memory document).1 ∧
      (replacer.replace callback memory document).2.1 =
        ((Replacer.new rules).replace callback memory document).2.1 := by
  obtain ⟨hfailure, hmemory, houtput⟩ :=
    replaceFrom_decoded rules callback memory replacer.decoded [] [] 0 document
  unfold Replacer.replace
  rw [h.rules_eq]
  dsimp only [Replacer.new]
  rw [hfailure, hmemory, houtput]
  exact ⟨rfl, rfl⟩

theorem replace_eq_ok {replacer : Replacer} {memory : σ} {document out : List Char} :
    (replacer.replace callback memory document).1 = .ok out ↔
      (replaceFrom replacer.rules callback ⟨memory, replacer.decoded, []⟩ 0 document).2 = none ∧
      (replaceFrom replacer.rules callback ⟨memory, replacer.decoded, []⟩ 0 document).1.output =
        out := by
  unfold Replacer.replace
  rcases replaceFrom replacer.rules callback ⟨memory, replacer.decoded, []⟩ 0 document with
    ⟨progress, _ | failure⟩
  · simp
  · simp

/-- A replacer returns a text exactly where the document splits into text and passages and every
passage is replaced; it returns the text of the document with the replacements in it. What the
replacer did before makes no difference. -/
theorem replace_eq_ok_iff {replacer : Replacer} (hreached : Reached rules replacer)
    (happends : callback.Appends) (memory : σ) (document out : List Char) :
    (replacer.replace callback memory document).1 = .ok out ↔
      ∃ passages last replaced, Splits rules document passages last ∧
        Renders rules callback memory [] passages replaced ∧
        document = interleave (passages.map fun p => (p.1, p.2.source)) last ∧
        out = interleave replaced last := by
  rw [replace_eq_ok, hreached.rules_eq]
  constructor
  · rintro ⟨hnone, rfl⟩
    obtain ⟨passages, last, replaced, hsplits, hrenders, houtput⟩ :=
      splits_of_replaceFrom happends hnone
    exact ⟨passages, last, replaced, hsplits, hrenders, hsplits.eq_interleave, houtput⟩
  · rintro ⟨passages, last, replaced, hsplits, hrenders, -, rfl⟩
    exact replaceFrom_of_splits happends hsplits ⟨memory, replacer.decoded, []⟩ 0 hrenders

/-- Encloses a formula in brackets that tell its display, and refuses an empty one. -/
def bracketed : Converter := fun display formula =>
  if formula = "" then .error ⟨.unexpectedEnd, .empty 0⟩
  else
    match display with
    | .inline => .ok ("(" ++ formula ++ ")")
    | .block => .ok ("[" ++ formula ++ "]")

theorem replace_eq_ok_iff_reused :
    ∃ replacer, Reached ⟨.both "`".toList, .both "``".toList, true, true⟩ replacer ∧
      replacer.decoded = ">".toList ∧
      ∃ passages last replaced,
        Splits ⟨.both "`".toList, .both "``".toList, true, true⟩
          "5\\` ```` ``a&lt;b`` `c`.".toList passages last ∧
        Renders ⟨.both "`".toList, .both "``".toList, true, true⟩
          (.ofConverter bracketed) () [] passages replaced ∧
        "5\\` ```` ``a&lt;b`` `c`.".toList =
          interleave (passages.map fun p => (p.1, p.2.source)) last ∧
        "5\\` ```` [a<b] (c).".toList = interleave replaced last := by
  have hnew : Reached ⟨.both "`".toList, .both "``".toList, true, true⟩ _ := .new
  have hreached := hnew.replace (.ofConverter bracketed) () "`&gt;` ``b`".toList
  exact ⟨_, hreached, by decide +kernel,
    (replace_eq_ok_iff hreached (ofConverter_appends _) () _ _).1 (by decide +kernel)⟩

end MathMarkup.Document
