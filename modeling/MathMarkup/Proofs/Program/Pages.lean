import MathMarkup.Program.Run
import MathMarkup.Proofs.Document.Splitting
import MathMarkup.Proofs.Program.FileTree

/-!
# Pages in place

* `replacement?` — what a page is replaced with by a replacer of its own.
* `contentAfter` — the content of a file behind which the run goes on.
* `FilesHandled` — what the run makes of a list of files: all of them, or those before the first page that
  cannot be replaced.
* `Walked` — what the run makes of a tree.

Principal results: `walked_convertTree` — a run handles the files of a tree in their order;
`run_tree` — its exit code and the tree afterwards.
-/

namespace MathMarkup.Program

open MathMarkup.Document

variable {job : Job} {rules : Rules} {replacer : Replacer} {path : String} {content : ByteArray}

/-! ## One page -/

/-- What comes in place of the content of a page: nothing if it is no text, or if a formula in it cannot
be replaced. -/
def replacement? (rules : Rules) (settings : Settings) (content : ByteArray) : Option ByteArray :=
  match textOf content with
  | .error _ => none
  | .ok text =>
    match replaceFormulas rules (convert settings) text.toList with
    | .error _ => none
    | .ok converted => some (String.ofList converted).toUTF8

/-- The content of a file behind which the run goes on. -/
def contentAfter (rules : Rules) (job : Job) (path : String) (content : ByteArray) : ByteArray :=
  if hasHtmlExtension path && !job.dryRun then
    (replacement? rules job.settings content).getD content
  else content

/-- The file does not end the run. -/
def Passes (rules : Rules) (settings : Settings) (file : String × ByteArray) : Prop :=
  hasHtmlExtension file.1 = true → (replacement? rules settings file.2).isSome = true

theorem not_passes_iff {file : String × ByteArray} {settings : Settings} :
    ¬ Passes rules settings file ↔
      hasHtmlExtension file.1 = true ∧ replacement? rules settings file.2 = none := by
  rw [Passes, Classical.not_imp, Option.not_isSome_iff_eq_none]

theorem contentAfter_of_dryRun (h : job.dryRun = true) : contentAfter rules job path content = content := by
  simp [contentAfter, h]

theorem exitCode_ne_zero (stop : Stop) : stop.exitCode ≠ 0 := by
  cases stop <;> simp [Stop.exitCode]

/-- A replacer that has served other pages replaces a page as a new one does. -/
theorem replace_of_reached (job : Job) (h : Reached rules replacer) (document : List Char) :
    (job.replace replacer document).1 = replaceFormulas rules (convert job.settings) document ∧
      Reached rules (job.replace replacer document).2 :=
  ⟨(h.replace_eq (.ofConverter (convert job.settings)) () document).1, h.replace _ _ _⟩

/-- A page with a replacement has it afterwards, also where nothing is written because it is the page
itself. -/
theorem convertFile_of_replaced {text : String} {converted : List Char} {replacer' : Replacer}
    (hpage : hasHtmlExtension path = true) (htext : textOf content = .ok text)
    (hreplace : job.replace replacer text.toList = (.ok converted, replacer'))
    (hsome : replacement? rules job.settings content = some (String.ofList converted).toUTF8) :
    convertFile job replacer path content =
      ⟨contentAfter rules job path content, replacer', none⟩ := by
  have hafter : contentAfter rules job path content =
      if job.dryRun = true then content else (String.ofList converted).toUTF8 := by
    rw [contentAfter, hpage, hsome]
    cases job.dryRun <;> rfl
  rw [convertFile, htext, hafter]
  dsimp only
  rw [hreplace]
  dsimp only
  by_cases hsame : converted = text.toList
  · -- the bytes of the text are those that were read
    have hcontent : (String.ofList converted).toUTF8 = content := by
      rw [hsame, String.ofList_toList]
      exact (eq_toUTF8_of_textOf htext).symm
    rw [hcontent, ite_self, ite_self]
  · cases job.dryRun with
    | true => rw [if_pos (by simp), if_pos rfl]
    | false => rw [if_neg (by simp [hsame]), if_neg Bool.false_ne_true]

/-- **A page is replaced, or it ends the run and keeps its content.** -/
theorem convertFile_spec (job : Job) (h : Reached rules replacer)
    (hpage : hasHtmlExtension path = true) (content : ByteArray) :
    Reached rules (convertFile job replacer path content).replacer ∧
      (((convertFile job replacer path content).stop = none ∧
          Passes rules job.settings (path, content) ∧
          (convertFile job replacer path content).result = contentAfter rules job path content) ∨
        (∃ stop, (convertFile job replacer path content).stop = some stop) ∧
          ¬ Passes rules job.settings (path, content) ∧
          (convertFile job replacer path content).result = content) := by
  cases htext : textOf content with
  | error fault =>
    have hrefused : ¬ Passes rules job.settings (path, content) := by
      refine not_passes_iff.2 ⟨hpage, ?_⟩
      rw [replacement?, htext]
    rw [convertFile, htext]
    exact ⟨h, .inr ⟨⟨_, rfl⟩, hrefused, rfl⟩⟩
  | ok text =>
    obtain ⟨hresult, hreached⟩ := replace_of_reached job h text.toList
    rcases hreplace : job.replace replacer text.toList with ⟨result, replacer'⟩
    rw [hreplace] at hresult hreached
    cases result with
    | error failure =>
      have hrefused : ¬ Passes rules job.settings (path, content) := by
        refine not_passes_iff.2 ⟨hpage, ?_⟩
        rw [replacement?, htext]
        dsimp only
        rw [← hresult]
      rw [convertFile, htext]
      dsimp only
      rw [hreplace]
      exact ⟨hreached, .inr ⟨⟨_, rfl⟩, hrefused, rfl⟩⟩
    | ok converted =>
      have hsome : replacement? rules job.settings content =
          some (String.ofList converted).toUTF8 := by
        rw [replacement?, htext]
        dsimp only
        rw [← hresult]
      have hpasses : Passes rules job.settings (path, content) := by
        intro _
        rw [hsome]
        rfl
      rw [convertFile_of_replaced hpage htext hreplace hsome]
      exact ⟨hreached, .inl ⟨rfl, hpasses, rfl⟩⟩

/-! ## A list of files -/

/-- What the run makes of files: it handles all of them, or it ends at the first that does not pass. -/
inductive FilesHandled (rules : Rules) (job : Job) :
    List (String × ByteArray) → List (String × ByteArray) → Option Stop → Prop
  | all {files : List (String × ByteArray)} :
      (∀ file ∈ files, Passes rules job.settings file) →
      FilesHandled rules job files
        (files.map fun file => (file.1, contentAfter rules job file.1 file.2)) none
  | upTo {done rest : List (String × ByteArray)} {failing : String × ByteArray} {stop : Stop} :
      (∀ file ∈ done, Passes rules job.settings file) → ¬ Passes rules job.settings failing →
      FilesHandled rules job (done ++ failing :: rest)
        ((done.map fun file => (file.1, contentAfter rules job file.1 file.2)) ++ failing :: rest)
        (some stop)

variable {before after before' after' : List (String × ByteArray)} {stop : Option Stop} {s : Stop}

theorem FilesHandled.single (hpasses : Passes rules job.settings (path, content)) :
    FilesHandled rules job [(path, content)] [(path, contentAfter rules job path content)] none :=
  .all (by simpa using hpasses)

/-- A run that ended leaves the files behind as they are. -/
theorem FilesHandled.append_rest (h : FilesHandled rules job before after (some s))
    (rest : List (String × ByteArray)) :
    FilesHandled rules job (before ++ rest) (after ++ rest) (some s) := by
  cases h with
  | upTo hdone hfailing =>
    rw [List.append_assoc, List.append_assoc, List.cons_append]
    exact .upTo hdone hfailing

/-- A run that did not end goes on. -/
theorem FilesHandled.append (h : FilesHandled rules job before after none)
    (h' : FilesHandled rules job before' after' stop) :
    FilesHandled rules job (before ++ before') (after ++ after') stop := by
  cases h with
  | all hall =>
    cases h' with
    | all hall' =>
      rw [← List.map_append]
      exact .all (List.forall_mem_append.2 ⟨hall, hall'⟩)
    | upTo hdone hfailing =>
      rw [← List.append_assoc, ← List.append_assoc, ← List.map_append]
      exact .upTo (List.forall_mem_append.2 ⟨hall, hdone⟩) hfailing

/-- The run goes through exactly if all files pass. -/
theorem FilesHandled.stop_eq_none_iff (h : FilesHandled rules job before after stop) :
    stop = none ↔ ∀ file ∈ before, Passes rules job.settings file := by
  cases h with
  | all hall => exact iff_of_true rfl hall
  | upTo hdone hfailing =>
    refine iff_of_false (by simp) fun hall => hfailing (hall _ ?_)
    exact List.mem_append_right _ List.mem_cons_self

/-- A run that ended did so at the first file that does not pass. -/
theorem FilesHandled.exists_failing (h : FilesHandled rules job before after stop)
    (hstop : stop ≠ none) :
    ∃ done failing rest, before = done ++ failing :: rest ∧
      after = done.map (fun file => (file.1, contentAfter rules job file.1 file.2)) ++
        failing :: rest ∧ ¬ Passes rules job.settings failing := by
  cases h with
  | all _ => exact absurd rfl hstop
  | @upTo done rest failing _ _ hfailing => exact ⟨done, failing, rest, rfl, rfl, hfailing⟩

/-! ## A tree of files -/

/-- What the run makes of a tree at a path. -/
structure Walked (rules : Rules) (job : Job) (path : String) (tree : FileTree)
    (handled : Handled FileTree) : Prop where
  reached : Reached rules handled.replacer
  outline : handled.result.outline = tree.outline
  files : FilesHandled rules job (tree.files path) (handled.result.files path) handled.stop
  /-- Unless the run ended, the whole tree was handled. -/
  whole : handled.stop = none → handled.result = tree.mapFiles (contentAfter rules job) path
  dry : job.dryRun = true → handled.result = tree

theorem walked_file (h : Reached rules replacer) (path : String) (content : ByteArray) :
    Walked rules job path (.file content) (convertTree job replacer path (.file content)) := by
  rw [convertTree]
  by_cases hpage : hasHtmlExtension path = true
  · rw [if_pos hpage]
    obtain ⟨hreached, ⟨hstop, hpasses, hresult⟩ | ⟨⟨stop, hstop⟩, hrefused, hresult⟩⟩ :=
      convertFile_spec job h hpage content
    · refine ⟨hreached, rfl, ?_, ?_, ?_⟩
      · simp only [FileTree.files, hstop, hresult]
        exact .single hpasses
      · intro _
        simp only [FileTree.mapFiles, hresult]
      · intro hdry
        show FileTree.file (convertFile job replacer path content).result = .file content
        rw [hresult, contentAfter_of_dryRun hdry]
    · refine ⟨hreached, rfl, ?_, ?_, ?_⟩
      · simp only [FileTree.files, hstop, hresult]
        have hends : FilesHandled rules job ([] ++ [(path, content)]) ([] ++ [(path, content)])
            (some stop) := .upTo (by simp) hrefused
        exact hends
      · intro hnone
        rw [hstop] at hnone
        cases hnone
      · intro _
        show FileTree.file (convertFile job replacer path content).result = .file content
        rw [hresult]
  · rw [if_neg hpage]
    have hkept : contentAfter rules job path content = content := by
      rw [contentAfter, eq_false_of_ne_true hpage]
      rfl
    refine ⟨h, rfl, ?_, ?_, fun _ => rfl⟩
    · have hsingle : FilesHandled rules job [(path, content)]
          [(path, contentAfter rules job path content)] none :=
        .single fun hp => absurd hp hpage
      rw [hkept] at hsingle
      exact hsingle
    · intro _
      rw [FileTree.mapFiles, hkept]

mutual

/-- **The run handles the files of a tree in their order, up to the first one that does not pass.** The
induction is on the tree; the replacer that serves a page has served those before it. -/
theorem walked_convertTree : ∀ (tree : FileTree) (path : String) {replacer : Replacer},
    Reached rules replacer → Walked rules job path tree (convertTree job replacer path tree)
  | .file content, path, _, h => walked_file h path content
  | .directory entries, path, _, h => by
    rw [convertTree]
    exact walked_convertEntries entries path h

theorem walked_convertEntries : ∀ (entries : List (String × FileTree)) (path : String)
    {replacer : Replacer}, Reached rules replacer →
      Walked rules job path (.directory entries)
        ⟨.directory (convertEntries job replacer path entries).result,
          (convertEntries job replacer path entries).replacer,
          (convertEntries job replacer path entries).stop⟩
  | [], path, _, h => by
    rw [convertEntries]
    refine ⟨h, rfl, ?_, fun _ => ?_, fun _ => rfl⟩
    · exact .all (by simp [FileTree.files, FileTree.entryFiles])
    · rw [FileTree.mapFiles, FileTree.mapEntries]
  | (name, tree) :: rest, path, replacer, h => by
    have hfirst := walked_convertTree tree (joinPath path name) h
    rw [convertEntries]
    rcases hhandled : convertTree job replacer (joinPath path name) tree with
      ⟨result, replacer', stop⟩
    rw [hhandled] at hfirst
    cases stop with
    | some stop =>
      refine ⟨hfirst.reached, ?_, ?_, ?_, ?_⟩
      · exact FileTree.outline_directory_cons hfirst.outline rfl
      · rw [FileTree.files_directory_cons, FileTree.files_directory_cons]
        exact hfirst.files.append_rest _
      · intro hnone
        cases hnone
      · intro hdry
        rw [← hfirst.dry hdry]
    | none =>
      have hothers := walked_convertEntries rest path hfirst.reached
      refine ⟨hothers.reached, ?_, ?_, ?_, ?_⟩
      · exact FileTree.outline_directory_cons hfirst.outline hothers.outline
      · rw [FileTree.files_directory_cons, FileTree.files_directory_cons]
        exact hfirst.files.append hothers.files
      · intro hnone
        have hrest := hothers.whole hnone
        rw [FileTree.mapFiles] at hrest
        rw [FileTree.mapFiles, FileTree.mapEntries, ← hfirst.whole rfl, ← FileTree.directory.inj hrest]
      · intro hdry
        have hresult : result = tree := hfirst.dry hdry
        have hrest := FileTree.directory.inj (hothers.dry hdry)
        show FileTree.directory ((name, result) :: (convertEntries job replacer' path rest).result) = _
        rw [hrest, hresult]

end

/-! ## A whole run -/

variable {command : Command} {surroundings : Surroundings} {settings : Settings} {tree : FileTree}

theorem Outcome.exitCode_eq_zero_iff (outcome : Outcome) :
    outcome.exitCode = 0 ↔ outcome.stop = none := by
  cases hstop : outcome.stop with
  | none => simp [Outcome.exitCode, hstop]
  | some stop => simp [Outcome.exitCode, hstop, exitCode_ne_zero]

/-- What a run makes of the tree at its path. -/
theorem exists_walked (htask : command.task = .tree path)
    (hsettings : command.settings surroundings.settingsFile = .ok settings)
    (htarget : surroundings.target = .ok tree) :
    ∃ handled, Walked command.rules ⟨settings, command.dryRun⟩ path tree handled ∧
      run command surroundings = ⟨[], handled.stop, some handled.result⟩ := by
  have hnew : Reached command.rules (.new command.rules) := .new
  refine ⟨_, walked_convertTree tree path hnew, ?_⟩
  rw [run, hsettings]
  dsimp only
  rw [htask, htarget]
  rfl

/-- The run exits with zero exactly if all pages of the tree can be replaced. -/
theorem exitCode_eq_zero_iff (htask : command.task = .tree path)
    (hsettings : command.settings surroundings.settingsFile = .ok settings)
    (htarget : surroundings.target = .ok tree) :
    (run command surroundings).exitCode = 0 ↔
      ∀ file ∈ tree.files path, Passes command.rules settings file := by
  obtain ⟨handled, hwalked, hrun⟩ := exists_walked htask hsettings htarget
  rw [Outcome.exitCode_eq_zero_iff, hrun]
  exact hwalked.files.stop_eq_none_iff

/-- Then every page of the tree has its replacement. -/
theorem target_of_exitCode_eq_zero (htask : command.task = .tree path)
    (hsettings : command.settings surroundings.settingsFile = .ok settings)
    (htarget : surroundings.target = .ok tree) (h : (run command surroundings).exitCode = 0) :
    (run command surroundings).target =
      some (tree.mapFiles (contentAfter command.rules ⟨settings, command.dryRun⟩) path) := by
  obtain ⟨handled, hwalked, hrun⟩ := exists_walked htask hsettings htarget
  rw [Outcome.exitCode_eq_zero_iff, hrun] at h
  rw [hrun, hwalked.whole h]

/-- **A run over a directory replaces all its pages, or it ends at one of them.**

It exits with zero exactly if all pages are texts that are replaced without a failure, whether they are
written or not. Then every page has its replacement, and everything else is as it was; in another order of
the entries the run leaves the same tree. If it exits with another code, the files are as they were from
some page on that cannot be replaced, and those before it are handled. A dry run changes nothing. -/
theorem run_tree {entries : List (String × FileTree)} (htask : command.task = .tree path)
    (hsettings : command.settings surroundings.settingsFile = .ok settings)
    (htarget : surroundings.target = .ok (.directory entries)) :
    let tree := FileTree.directory entries
    let outcome := run command surroundings
    let after := contentAfter command.rules ⟨settings, command.dryRun⟩
    (outcome.exitCode = 0 ↔ ∀ file ∈ tree.files path, hasHtmlExtension file.1 = true →
      (replacement? command.rules settings file.2).isSome = true) ∧
    (outcome.exitCode = 0 → outcome.target = some (tree.mapFiles after path)) ∧
    (outcome.exitCode ≠ 0 → ∃ left done failing rest, outcome.target = some left ∧
      left.outline = tree.outline ∧ tree.files path = done ++ failing :: rest ∧
      left.files path = done.map (fun file => (file.1, after file.1 file.2)) ++ failing :: rest ∧
      hasHtmlExtension failing.1 = true ∧ replacement? command.rules settings failing.2 = none) ∧
    (command.dryRun = true → outcome.target = some tree) ∧
    ∀ tree', tree.Relisted tree' →
      let outcome' := run command { surroundings with target := .ok tree' }
      (outcome'.exitCode = 0 ↔ outcome.exitCode = 0) ∧
      (outcome.exitCode = 0 → ∃ left left', outcome.target = some left ∧
        outcome'.target = some left' ∧ left.Relisted left') := by
  intro tree outcome after
  obtain ⟨handled, hwalked, hrun⟩ := exists_walked htask hsettings htarget
  have hzero := exitCode_eq_zero_iff htask hsettings htarget
  refine ⟨hzero, target_of_exitCode_eq_zero htask hsettings htarget, ?_, ?_, ?_⟩
  · intro hcode
    have hstop : handled.stop ≠ none := by
      rw [Ne, Outcome.exitCode_eq_zero_iff] at hcode
      rwa [show outcome = _ from hrun] at hcode
    obtain ⟨done, failing, rest, hbefore, hafter, hfailing⟩ := hwalked.files.exists_failing hstop
    obtain ⟨hpage, hnone⟩ := not_passes_iff.1 hfailing
    exact ⟨_, done, failing, rest, congrArg Outcome.target hrun, hwalked.outline, hbefore, hafter,
      hpage, hnone⟩
  · intro hdry
    rw [show outcome = _ from hrun, hwalked.dry hdry]
  · intro tree' hrelisted outcome'
    have hzero' : outcome'.exitCode = 0 ↔ ∀ file ∈ tree'.files path,
        Passes command.rules settings file := exitCode_eq_zero_iff htask hsettings rfl
    have hsame : outcome'.exitCode = 0 ↔ outcome.exitCode = 0 := by
      rw [hzero', hzero]
      have hperm := hrelisted.files_perm path
      exact ⟨fun h file hmem => h file (hperm.mem_iff.1 hmem),
        fun h file hmem => h file (hperm.mem_iff.2 hmem)⟩
    refine ⟨hsame, fun hcode => ⟨_, _, target_of_exitCode_eq_zero htask hsettings htarget hcode,
      target_of_exitCode_eq_zero htask hsettings rfl (hsame.2 hcode), ?_⟩⟩
    exact hrelisted.mapFiles _ path

/-- A page, and a note that is no page, in a directory beside it. -/
theorem run_tree_site :
    let site := fun page : String => FileTree.directory
      [("a.html", .file page.toUTF8), ("nested", .directory [("notes.txt", .file "`z`".toUTF8)])]
    let command : Command :=
      ⟨.tree "site", ⟨.both "`".toList, .both "``".toList, false, false⟩, none, false, false, false⟩
    let outcome := run command ⟨.empty, .error .notFound, .ok (site "<p>`x`</p>")⟩
    outcome.exitCode = 0 ∧ outcome.target =
      some (site "<p><math display=\"inline\"><mi>x</mi></math></p>") := by
  intro site command outcome
  have hreplaced : replacement? command.rules {} "<p>`x`</p>".toUTF8 =
      some "<p><math display=\"inline\"><mi>x</mi></math></p>".toUTF8 := by
    have hconverted : replaceFormulas command.rules (convert {}) "<p>`x`</p>".toList =
        .ok "<p><math display=\"inline\"><mi>x</mi></math></p>".toList := by
      decide +kernel
    rw [replacement?, textOf_toUTF8]
    dsimp only
    rw [hconverted]
    rfl
  have hpage : hasHtmlExtension "site/a.html" = true := by decide +kernel
  have hnote : hasHtmlExtension "site/nested/notes.txt" = false := by decide +kernel
  obtain ⟨hzero, htarget, -⟩ := @run_tree "site" command
    ⟨.empty, .error .notFound, .ok (site "<p>`x`</p>")⟩ {} _ rfl rfl rfl
  have hfiles : (site "<p>`x`</p>").files "site" =
      [("site/a.html", "<p>`x`</p>".toUTF8), ("site/nested/notes.txt", "`z`".toUTF8)] := by
    rfl
  have hcode : outcome.exitCode = 0 := by
    refine hzero.2 ?_
    intro file hmem
    have hmem' : file ∈ (site "<p>`x`</p>").files "site" := hmem
    rw [hfiles] at hmem'
    simp only [List.mem_cons, List.not_mem_nil, or_false] at hmem'
    rcases hmem' with rfl | rfl
    · intro _
      rw [hreplaced]
      rfl
    · intro h
      rw [hnote] at h
      cases h
  refine ⟨hcode, (htarget hcode).trans ?_⟩
  have hjoin : joinPath "site" "a.html" = "site/a.html" := by decide +kernel
  have hjoin' : joinPath (joinPath "site" "nested") "notes.txt" = "site/nested/notes.txt" := by
    decide +kernel
  have hpageAfter : contentAfter command.rules ⟨{}, command.dryRun⟩ "site/a.html"
      "<p>`x`</p>".toUTF8 = "<p><math display=\"inline\"><mi>x</mi></math></p>".toUTF8 := by
    rw [contentAfter, hpage, hreplaced]
    rfl
  have hnoteAfter : contentAfter command.rules ⟨{}, command.dryRun⟩ "site/nested/notes.txt"
      "`z`".toUTF8 = "`z`".toUTF8 := by
    rw [contentAfter, hnote]
    rfl
  simp only [site, FileTree.mapFiles, FileTree.mapEntries, hjoin, hjoin', hpageAfter, hnoteAfter]

end MathMarkup.Program
