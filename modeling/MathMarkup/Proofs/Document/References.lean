import MathMarkup.Document.Replacement
import Mathlib.Data.List.Infix

/-!
# Known references and how they are decoded

* `Resolves` — every known reference of a text is replaced, and all else is copied.
* `Hides` — an ampersand before a known reference, with no semicolon between.

Principal results: `existsUnique_resolves` — a text resolves in one way; `decodeReferences_resolves_iff` —
decoding resolves a text exactly where no ampersand hides a reference of it. The ampersand takes the
semicolon of the reference that it hides, and both are copied.
-/

namespace MathMarkup.Text

open MathMarkup.Document MathMarkup.Markup

variable {text rest out before after name written written' : List Char} {c c' : Char}

/-- A known reference as it is written, and the character that it stands for. -/
def Refers (written : List Char) (c : Char) : Prop :=
  ∃ name, references.lookup name = some c ∧ written = '&' :: (name ++ [';'])

/-- Every known reference of a text is replaced by its character and all else is copied, in one pass
from left to right. What comes in place of a reference is not read again. -/
inductive Resolves : List Char → List Char → Prop
  | done : Resolves [] []
  | reference {written rest out : List Char} {c : Char} : Refers written c → Resolves rest out →
      Resolves (written ++ rest) (c :: out)
  | copied {c : Char} {rest out : List Char} :
      (∀ written character, Refers written character → ¬written <+: c :: rest) →
      Resolves rest out → Resolves (c :: rest) (c :: out)

/-- Behind an ampersand stands a known reference, and no semicolon comes between. -/
def Hides (text : List Char) : Prop :=
  ∃ between written c, ';' ∉ between ∧ Refers written c ∧ '&' :: (between ++ written) <:+: text

/-! ## Names -/

/-- Neither end of a reference occurs in a name. -/
theorem notMem_of_lookup (h : references.lookup name = some c) : '&' ∉ name ∧ ';' ∉ name := by
  have hnames : ∀ entry ∈ references, '&' ∉ entry.1 ∧ ';' ∉ entry.1 := by decide
  exact hnames (name, c) (mem_of_lookup h)

/-- No reference is the start of another one. -/
theorem Refers.unique (h : Refers written c) (h' : Refers written' c')
    (heq : written ++ rest = written' ++ after) : written = written' ∧ c = c' ∧ rest = after := by
  obtain ⟨name, hlookup, rfl⟩ := h
  obtain ⟨name', hlookup', rfl⟩ := h'
  simp only [List.cons_append, List.append_assoc, List.nil_append, List.cons.injEq, true_and] at heq
  obtain ⟨rfl, rfl⟩ :=
    append_cons_inj_of_notMem (notMem_of_lookup hlookup).2 (notMem_of_lookup hlookup').2 heq
  rw [hlookup, Option.some.injEq] at hlookup'
  exact ⟨rfl, hlookup', rfl⟩

theorem Refers.two_le_length (h : Refers written c) : 2 ≤ written.length := by
  obtain ⟨name, -, rfl⟩ := h
  simp

theorem Refers.semicolon_mem (h : Refers written c) : ';' ∈ written := by
  obtain ⟨name, -, rfl⟩ := h
  simp

/-- A reference starts with an ampersand. -/
theorem Refers.not_starts_of_ne (h : Refers written c) (hne : c' ≠ '&') : ¬written <+: c' :: rest := by
  obtain ⟨name, -, rfl⟩ := h
  intro hstarts
  exact hne (List.cons_prefix_cons.1 hstarts).1.symm

/-- A reference at the start of a text ends at the first semicolon. -/
theorem Refers.eq_of_prefix (h : Refers written c) (hstarts : written <+: before ++ ';' :: after)
    (hbefore : ';' ∉ before) :
    ∃ name, references.lookup name = some c ∧ before = '&' :: name ∧ written = before ++ [';'] := by
  obtain ⟨name, hlookup, rfl⟩ := h
  obtain ⟨behind, heq⟩ := hstarts
  have hname : ';' ∉ '&' :: name := by
    rw [List.mem_cons, not_or]
    exact ⟨by decide, (notMem_of_lookup hlookup).2⟩
  have heq' : ('&' :: name) ++ ';' :: behind = before ++ ';' :: after := by simpa using heq
  obtain ⟨rfl, -⟩ := append_cons_inj_of_notMem hname hbefore heq'
  exact ⟨name, hlookup, rfl, rfl⟩

/-! ## Resolved texts -/

theorem exists_resolves (text : List Char) : ∃ out, Resolves text out := by
  induction hn : text.length using Nat.strong_induction_on generalizing text with
  | _ n ih =>
    by_cases hstarts : ∃ written c, Refers written c ∧ written <+: text
    · obtain ⟨written, c, hrefers, rest, rfl⟩ := hstarts
      have hlength := hrefers.two_le_length
      rw [List.length_append] at hn
      obtain ⟨out, hout⟩ := ih rest.length (by omega) rest rfl
      exact ⟨c :: out, .reference hrefers hout⟩
    · cases text with
      | nil => exact ⟨[], .done⟩
      | cons c rest =>
        rw [List.length_cons] at hn
        obtain ⟨out, hout⟩ := ih rest.length (by omega) rest rfl
        exact ⟨c :: out, .copied (fun written c' hrefers hp => hstarts ⟨written, c', hrefers, hp⟩) hout⟩

/-- A text that starts with a reference resolves to its character and what the rest resolves to. -/
theorem Resolves.of_reference (h : Resolves text out) (hrefers : Refers written c)
    (htext : text = written ++ rest) : ∃ out', out = c :: out' ∧ Resolves rest out' := by
  cases h with
  | done =>
    have hlength := congrArg List.length htext
    have := hrefers.two_le_length
    simp at hlength
    omega
  | reference hrefers' hrest =>
    obtain ⟨rfl, rfl, rfl⟩ := hrefers'.unique hrefers htext
    exact ⟨_, rfl, hrest⟩
  | copied hnone _ => exact absurd ⟨rest, htext.symm⟩ (hnone _ _ hrefers)

/-- A character where no reference starts is copied. -/
theorem Resolves.of_copied (h : Resolves (c :: rest) out)
    (hnone : ∀ written character, Refers written character → ¬written <+: c :: rest) :
    ∃ out', out = c :: out' ∧ Resolves rest out' := by
  generalize htext : c :: rest = text at h
  cases h with
  | done => cases htext
  | reference hrefers _ => exact absurd ⟨_, htext.symm⟩ (hnone _ _ hrefers)
  | copied _ hrest =>
    obtain ⟨rfl, rfl⟩ := List.cons.inj htext
    exact ⟨_, rfl, hrest⟩

theorem Resolves.length_le (h : Resolves text out) : out.length ≤ text.length := by
  induction h with
  | done => exact Nat.le_refl _
  | reference hrefers _ ih =>
    have := hrefers.two_le_length
    rw [List.length_append, List.length_cons]
    omega
  | copied _ _ ih =>
    rw [List.length_cons, List.length_cons]
    omega

theorem Resolves.unique (h : Resolves text out) {out' : List Char} (h' : Resolves text out') :
    out = out' := by
  induction h generalizing out' with
  | done => exact (List.eq_nil_of_length_eq_zero (Nat.le_zero.1 h'.length_le)).symm
  | reference hrefers _ ih =>
    obtain ⟨out'', rfl, hrest⟩ := h'.of_reference hrefers rfl
    rw [ih hrest]
  | copied hnone _ ih =>
    obtain ⟨out'', rfl, hrest⟩ := h'.of_copied hnone
    rw [ih hrest]

/-- **A text resolves in exactly one way.** -/
theorem existsUnique_resolves (text : List Char) : ∃! out, Resolves text out := by
  obtain ⟨out, hout⟩ := exists_resolves text
  exact ⟨out, hout, fun out' hout' => hout'.unique hout⟩

/-- A piece in which no reference starts is copied. -/
theorem Resolves.copy (hrest : Resolves rest out) (piece : List Char)
    (hnone : ∀ written c, Refers written c → ∀ behind, behind <:+ piece → behind ≠ [] →
      ¬written <+: behind ++ rest) : Resolves (piece ++ rest) (piece ++ out) := by
  induction piece with
  | nil => exact hrest
  | cons c piece ih =>
    refine .copied (fun written c' hrefers => ?_) (ih fun written c' hrefers behind hsuffix => ?_)
    · exact hnone written c' hrefers _ List.suffix_rfl (List.cons_ne_nil _ _)
    · exact hnone written c' hrefers behind (hsuffix.trans (List.suffix_cons c piece))

/-- Without a semicolon there is nothing to replace. -/
theorem resolves_self (h : ';' ∉ text) : Resolves text text := by
  have hcopy := Resolves.done.copy text fun written c hrefers behind hsuffix _ hstarts => by
    rw [List.append_nil] at hstarts
    exact h (hsuffix.subset (hstarts.subset hrefers.semicolon_mem))
  rwa [List.append_nil] at hcopy

/-- In front of a reference a text without a semicolon is copied. -/
theorem Resolves.copy_before (hrest : Resolves rest out) (hrefers : Refers written c)
    (piece : List Char) (hpiece : ';' ∉ piece) :
    Resolves (piece ++ (written ++ rest)) (piece ++ c :: out) := by
  refine (Resolves.reference hrefers hrest).copy piece
    fun written' c' hrefers' behind hsuffix hne hstarts => ?_
  obtain ⟨name, hlookup, rfl⟩ := hrefers
  have hfree : ';' ∉ behind ++ '&' :: name := by
    have hbehind : ';' ∉ behind := fun hmem => hpiece (hsuffix.subset hmem)
    simp [hbehind, (notMem_of_lookup hlookup).2]
  have hstarts' : written' <+: (behind ++ '&' :: name) ++ ';' :: rest := by simpa using hstarts
  obtain ⟨name', hlookup', hname', -⟩ := hrefers'.eq_of_prefix hstarts' hfree
  -- the name would have to reach over the ampersand
  cases behind with
  | nil => exact hne rfl
  | cons _ behind =>
    obtain ⟨-, rfl⟩ := List.cons.inj hname'
    exact (notMem_of_lookup hlookup').1 (by simp)

/-- A reference anywhere in a text makes it shorter. -/
theorem Resolves.length_lt (h : Resolves text out) (hrefers : Refers written c)
    (hinside : written <:+: text) : out.length < text.length := by
  induction h with
  | done =>
    have := hinside.length_le
    have := hrefers.two_le_length
    simp only [List.length_nil] at *
    omega
  | reference hrefers' hrest _ =>
    have := hrefers'.two_le_length
    have := hrest.length_le
    rw [List.length_append, List.length_cons]
    omega
  | copied hnone _ ih =>
    rcases List.infix_cons_iff.1 hinside with hstarts | hinside
    · exact absurd hstarts (hnone _ _ hrefers)
    · have := ih hinside
      rw [List.length_cons, List.length_cons]
      omega

/-- No reference reaches over a semicolon, so that a text resolves part by part. -/
theorem Resolves.split (h : Resolves text out) (htext : text = before ++ ';' :: after) :
    ∃ first second, out = first ++ second ∧ Resolves (before ++ [';']) first ∧
      Resolves after second := by
  induction h generalizing before with
  | done => simp at htext
  | @reference written rest out c hrefers hrest ih =>
    cases hsplit : splitAtFirst ';' before with
    | none =>
      -- the reference ends at the semicolon
      have hfree := splitAtFirst_eq_none_iff.1 hsplit
      obtain ⟨-, -, -, rfl⟩ := hrefers.eq_of_prefix (htext ▸ List.prefix_append _ _) hfree
      have hrest' : rest = after := by simpa using htext
      have hwhole := Resolves.reference hrefers .done
      rw [List.append_nil] at hwhole
      exact ⟨[c], out, rfl, hwhole, hrest' ▸ hrest⟩
    | some parts =>
      -- the reference ends at an earlier one
      obtain ⟨start, others⟩ := parts
      obtain ⟨rfl, hfree⟩ := splitAtFirst_eq_some hsplit
      rw [List.append_assoc, List.cons_append] at htext
      obtain ⟨-, -, -, rfl⟩ := hrefers.eq_of_prefix (htext ▸ List.prefix_append _ _) hfree
      have hrest' : rest = others ++ ';' :: after := by simpa using htext
      obtain ⟨first, second, rfl, hfirst, hsecond⟩ := ih hrest'
      refine ⟨c :: first, second, rfl, ?_, hsecond⟩
      have hwhole := Resolves.reference hrefers hfirst
      rwa [show start ++ ';' :: others ++ [';'] = start ++ [';'] ++ (others ++ [';']) by simp]
  | @copied c rest out hnone hrest ih =>
    cases before with
    | nil =>
      obtain ⟨rfl, rfl⟩ := List.cons.inj htext
      have hsemicolon : Resolves [';'] [';'] := by
        refine .copied (fun written c hrefers hstarts => ?_) .done
        exact hnone written c hrefers (hstarts.trans (List.prefix_append [';'] rest))
      exact ⟨[';'], out, rfl, hsemicolon, hrest⟩
    | cons c' before =>
      obtain ⟨rfl, rfl⟩ := List.cons.inj htext
      obtain ⟨first, second, rfl, hfirst, hsecond⟩ := ih rfl
      refine ⟨c :: first, second, rfl, .copied (fun written c' hrefers hstarts => ?_) hfirst, hsecond⟩
      refine hnone written c' hrefers (hstarts.trans ?_)
      exact ⟨after, by simp⟩

/-! ## Hidden references -/

theorem Hides.mono (h : Hides rest) (hwithin : rest <:+: text) : Hides text := by
  obtain ⟨between, written, c, hfree, hrefers, hinside⟩ := h
  exact ⟨between, written, c, hfree, hrefers, hinside.trans hwithin⟩

theorem Hides.semicolon_mem (h : Hides text) : ';' ∈ text := by
  obtain ⟨between, written, c, -, hrefers, hinside⟩ := h
  refine hinside.subset (List.mem_cons_of_mem _ (List.mem_append_right _ hrefers.semicolon_mem))

theorem Hides.of_cons_of_ne (h : Hides (c :: text)) (hc : c ≠ '&') : Hides text := by
  obtain ⟨between, written, c', hfree, hrefers, hinside⟩ := h
  rcases List.infix_cons_iff.1 hinside with hstarts | hinside
  · exact absurd (List.cons_prefix_cons.1 hstarts).1.symm hc
  · exact ⟨between, written, c', hfree, hrefers, hinside⟩

/-- A hidden reference stands behind the first semicolon or ends there. -/
theorem Hides.cases_semicolon (h : Hides ('&' :: (name ++ ';' :: after))) (hname : ';' ∉ name) :
    Hides after ∨ ∃ between name' c, name = between ++ '&' :: name' ∧
      references.lookup name' = some c := by
  obtain ⟨between, written, c, hfree, ⟨name', hlookup, rfl⟩, before, behind, heq⟩ := h
  have hname' : ';' ∉ '&' :: name := by
    rw [List.mem_cons, not_or]
    exact ⟨by decide, hname⟩
  cases hsplit : splitAtFirst ';' before with
  | none =>
    have hbefore : ';' ∉ before ++ '&' :: (between ++ '&' :: name') := by
      have hfree' := splitAtFirst_eq_none_iff.1 hsplit
      have hname'' := (notMem_of_lookup hlookup).2
      simp [hfree', hfree, hname'']
    have heq' : (before ++ '&' :: (between ++ '&' :: name')) ++ ';' :: behind =
        ('&' :: name) ++ ';' :: after := by simpa using heq
    obtain ⟨hwhole, -⟩ := append_cons_inj_of_notMem hbefore hname' heq'
    right
    cases before with
    | nil => exact ⟨between, name', c, (List.cons.inj hwhole).2.symm, hlookup⟩
    | cons _ before =>
      refine ⟨before ++ '&' :: between, name', c, ?_, hlookup⟩
      simpa using (List.cons.inj hwhole).2.symm
  | some parts =>
    obtain ⟨start, others⟩ := parts
    obtain ⟨rfl, hfree'⟩ := splitAtFirst_eq_some hsplit
    have heq' : start ++ ';' :: (others ++ '&' :: (between ++ '&' :: (name' ++ [';'])) ++ behind) =
        ('&' :: name) ++ ';' :: after := by simpa using heq
    obtain ⟨-, rfl⟩ := append_cons_inj_of_notMem hfree' hname' heq'
    exact .inl ⟨between, _, c, hfree, ⟨name', hlookup, rfl⟩, others, behind, rfl⟩

/-- In what an ampersand and the next semicolon enclose, no reference starts, unless all of it is one or
the ampersand hides one. -/
theorem Refers.not_starts_within {behind : List Char} (h : Refers written c)
    (hunknown : references.lookup name = none) (hname : ';' ∉ name)
    (hhides : ¬Hides ('&' :: (name ++ ';' :: after))) (hsuffix : behind <:+ '&' :: name ++ [';'])
    (hne : behind ≠ []) : ¬written <+: behind ++ after := by
  intro hstarts
  obtain ⟨start, hstart⟩ := hsuffix
  obtain ⟨part, last, rfl⟩ := (List.eq_nil_or_concat' behind).resolve_left hne
  rw [← List.append_assoc] at hstart
  obtain ⟨hpart, hlast⟩ := List.append_inj' hstart rfl
  obtain rfl := List.singleton_inj.1 hlast
  have hfree : ';' ∉ part := by
    intro hmem
    have hmem' : ';' ∈ '&' :: name := hpart ▸ List.mem_append_right _ hmem
    simp [hname] at hmem'
  rw [List.append_assoc, List.singleton_append] at hstarts
  obtain ⟨name', hlookup, rfl, rfl⟩ := h.eq_of_prefix hstarts hfree
  cases start with
  | nil =>
    obtain ⟨-, rfl⟩ := List.cons.inj hpart
    rw [hunknown] at hlookup
    cases hlookup
  | cons _ between =>
    obtain ⟨-, rfl⟩ := List.cons.inj hpart
    refine hhides ⟨between, '&' :: (name' ++ [';']), c, ?_, h, [], after, by simp⟩
    exact fun hmem => hname (List.mem_append_left _ hmem)

/-! ## Decoding -/

/-- Decoding never leaves less than what a text resolves to, and leaves more where a reference is hidden.
The induction is on the rounds of the decoder. -/
theorem Resolves.length_le_decodeReferences (h : Resolves text out) :
    out.length ≤ (decodeReferences text).length ∧
      (Hides text → out.length < (decodeReferences text).length) := by
  fun_induction decodeReferences text generalizing out with
  | case1 => exact ⟨h.length_le, fun hhides => absurd hhides.semicolon_mem List.not_mem_nil⟩
  | case2 rest hsplit =>
    refine ⟨h.length_le, fun hhides => ?_⟩
    have hfree := splitAtFirst_eq_none_iff.1 hsplit
    exact absurd hhides.semicolon_mem (by simp [hfree])
  | case3 rest name after hsplit character hlookup ih =>
    obtain ⟨rfl, hfree⟩ := splitAtFirst_eq_some hsplit
    have htext : '&' :: (name ++ ';' :: after) = ('&' :: (name ++ [';'])) ++ after := by simp
    obtain ⟨out, rfl, hafter⟩ := h.of_reference ⟨name, hlookup, rfl⟩ htext
    obtain ⟨hle, hlt⟩ := ih hafter
    rw [List.length_cons, List.length_cons]
    refine ⟨by omega, fun hhides => ?_⟩
    rcases hhides.cases_semicolon hfree with hhides | ⟨between, name', c, rfl, -⟩
    · have := hlt hhides
      omega
    · exact absurd (by simp) (notMem_of_lookup hlookup).1
  | case4 rest name after hsplit hlookup ih =>
    obtain ⟨rfl, hfree⟩ := splitAtFirst_eq_some hsplit
    have htext : '&' :: (name ++ ';' :: after) = ('&' :: name) ++ ';' :: after := rfl
    obtain ⟨first, second, rfl, hfirst, hsecond⟩ := h.split htext
    obtain ⟨hle, hlt⟩ := ih hsecond
    have hfirst_le := hfirst.length_le
    simp only [List.length_append, List.length_cons, List.length_nil] at hfirst_le ⊢
    refine ⟨by omega, fun hhides => ?_⟩
    rcases hhides.cases_semicolon hfree with hhides | ⟨between, name', c, rfl, hlookup'⟩
    · have := hlt hhides
      omega
    · have hinside : '&' :: (name' ++ [';']) <:+: '&' :: (between ++ '&' :: name') ++ [';'] :=
        ⟨'&' :: between, [], by simp⟩
      have := hfirst.length_lt ⟨name', hlookup', rfl⟩ hinside
      simp only [List.length_append, List.length_cons, List.length_nil] at this ⊢
      omega
  | case5 c rest hne ih =>
    obtain ⟨out, rfl, hrest⟩ := h.of_copied fun _ _ hrefers => hrefers.not_starts_of_ne hne
    obtain ⟨hle, hlt⟩ := ih hrest
    rw [List.length_cons, List.length_cons]
    refine ⟨by omega, fun hhides => ?_⟩
    have := hlt (hhides.of_cons_of_ne hne)
    omega

/-- Where no reference is hidden, decoding resolves a text. -/
theorem resolves_decodeReferences (h : ¬Hides text) : Resolves text (decodeReferences text) := by
  fun_induction decodeReferences text with
  | case1 => exact .done
  | case2 rest hsplit => exact resolves_self (by simp [splitAtFirst_eq_none_iff.1 hsplit])
  | case3 rest name after hsplit character hlookup ih =>
    obtain ⟨rfl, -⟩ := splitAtFirst_eq_some hsplit
    have hafter := ih fun hhides => h (hhides.mono ⟨'&' :: (name ++ [';']), [], by simp⟩)
    have hwhole := Resolves.reference ⟨name, hlookup, rfl⟩ hafter
    simpa using hwhole
  | case4 rest name after hsplit hlookup ih =>
    obtain ⟨rfl, hfree⟩ := splitAtFirst_eq_some hsplit
    have hafter := ih fun hhides => h (hhides.mono ⟨'&' :: (name ++ [';']), [], by simp⟩)
    have hcopy := hafter.copy ('&' :: name ++ [';']) fun _ _ hrefers _ hsuffix hne =>
      hrefers.not_starts_within hlookup hfree h hsuffix hne
    simpa using hcopy
  | case5 c rest hne ih =>
    have hrest := ih fun hhides => h (hhides.mono (List.suffix_cons c rest).isInfix)
    exact .copied (fun _ _ hrefers => hrefers.not_starts_of_ne hne) hrest

/-- The buffer holds the decoded formula, whatever it held before. -/
theorem convert_decoded {σ : Type} (rules : Rules) (callback : Callback σ) (progress : Progress σ)
    (passage : Passage) (contentAt : Nat) :
    (progress.convert rules callback passage contentAt).1.decoded =
      decodeReferences passage.content := by
  unfold Progress.convert
  dsimp only
  split
  · rfl
  · split <;> rfl

/-- **Decoding replaces every known reference and nothing else, exactly where no ampersand hides one.**
A bare ampersand or an unknown reference does no harm as long as a semicolon comes before the next known
reference. What the buffer of a replacer held before makes no difference. -/
theorem decodeReferences_resolves_iff (text : List Char) :
    (∃! out, Resolves text out) ∧ (Resolves text (decodeReferences text) ↔ ¬Hides text) ∧
    ∀ (σ : Type) (rules : Rules) (callback : Callback σ) (progress : Progress σ) (buffer : List Char)
      (display : Display) (opening closing : List Char) (contentAt : Nat),
      (progress.convert rules callback ⟨display, opening, text, closing⟩ contentAt).1.decoded =
          decodeReferences text ∧
        Progress.convert rules callback { progress with decoded := buffer }
            ⟨display, opening, text, closing⟩ contentAt =
          progress.convert rules callback ⟨display, opening, text, closing⟩ contentAt := by
  refine ⟨existsUnique_resolves text, ⟨fun hresolves hhides => ?_, resolves_decodeReferences⟩, ?_⟩
  · exact Nat.lt_irrefl _ (hresolves.length_le_decodeReferences.2 hhides)
  · intro σ rules callback progress buffer display opening closing contentAt
    exact ⟨convert_decoded rules callback progress _ contentAt, rfl⟩

/-- A bare ampersand hides the reference behind it, and the reference stays. -/
theorem decodeReferences_hidden :
    Resolves "a & b &lt; c".toList "a & b < c".toList ∧
      decodeReferences "a & b &lt; c".toList = "a & b &lt; c".toList := by
  have hlast : Resolves " c".toList " c".toList := resolves_self (by decide)
  exact ⟨hlast.copy_before ⟨"lt".toList, rfl, rfl⟩ "a & b ".toList (by decide), by decide +kernel⟩

end MathMarkup.Text
