import MathMarkup.Program.FileTree

/-!
# Trees of files

* `FileTree.mapFiles` — a tree with the contents of its files changed.
* `FileTree.outline` — the directories and names of a tree.
* `FileTree.Relisted` — the same tree, with its directories listed in another order.

Principal results: `FileTree.files_mapFiles` — the files of a changed tree;
`FileTree.Relisted.files_perm`, `FileTree.Relisted.mapFiles` — another order of the entries only reorders
the files and is kept by every change.
-/

namespace MathMarkup.Program

variable {content : ByteArray} {text : String}

/-! ## Contents as texts -/

/-- A text is read from its own bytes. -/
theorem textOf_toUTF8 (text : String) : textOf text.toUTF8 = .ok text := by
  have hread : String.fromUTF8? text.toUTF8 = some text := by
    simp only [String.fromUTF8?, String.toUTF8_eq_toByteArray, dif_pos text.isValidUTF8]
    rfl
  rw [textOf, hread]

theorem eq_toUTF8_of_textOf (h : textOf content = .ok text) : content = text.toUTF8 := by
  unfold textOf at h
  split at h
  · next read hread =>
    obtain rfl := Except.ok.inj h
    unfold String.fromUTF8? at hread
    split at hread
    · rw [Option.some.injEq] at hread
      subst hread
      rfl
    · cases hread
  · cases h

namespace FileTree

variable {path : String} {tree tree' : FileTree} {entries : List (String × FileTree)}

/-! ## Files -/

theorem files_directory_cons (path name : String) (tree : FileTree)
    (entries : List (String × FileTree)) :
    files path (.directory ((name, tree) :: entries)) =
      files (joinPath path name) tree ++ files path (.directory entries) := by
  rw [files, entryFiles, files]

theorem entryFiles_append (path : String) (a b : List (String × FileTree)) :
    entryFiles path (a ++ b) = entryFiles path a ++ entryFiles path b := by
  induction a with
  | nil => simp [entryFiles]
  | cons entry a ih => simp [entryFiles, ih]

mutual

/-- A tree at a path with another content of every file. -/
def mapFiles (change : String → ByteArray → ByteArray) (path : String) : FileTree → FileTree
  | .file content => .file (change path content)
  | .directory entries => .directory (mapEntries change path entries)

def mapEntries (change : String → ByteArray → ByteArray) (path : String) :
    List (String × FileTree) → List (String × FileTree)
  | [] => []
  | (name, tree) :: rest =>
    (name, mapFiles change (joinPath path name) tree) :: mapEntries change path rest

end

theorem mapEntries_append (change : String → ByteArray → ByteArray) (path : String)
    (a b : List (String × FileTree)) :
    mapEntries change path (a ++ b) = mapEntries change path a ++ mapEntries change path b := by
  induction a with
  | nil => simp [mapEntries]
  | cons entry a ih => simp [mapEntries, ih]

mutual

/-- **The files of a changed tree are the files of the tree, changed.** -/
theorem files_mapFiles (change : String → ByteArray → ByteArray) :
    ∀ (path : String) (tree : FileTree), files path (mapFiles change path tree) =
      (files path tree).map fun file => (file.1, change file.1 file.2)
  | path, .file content => by
    rw [mapFiles, files, files, List.map_singleton]
  | path, .directory entries => by
    rw [mapFiles, files, files]
    exact entryFiles_mapEntries change path entries

theorem entryFiles_mapEntries (change : String → ByteArray → ByteArray) :
    ∀ (path : String) (entries : List (String × FileTree)),
      entryFiles path (mapEntries change path entries) =
        (entryFiles path entries).map fun file => (file.1, change file.1 file.2)
  | path, [] => by
    rw [mapEntries, entryFiles, List.map_nil]
  | path, (name, tree) :: rest => by
    rw [mapEntries, entryFiles, entryFiles, List.map_append, files_mapFiles,
      entryFiles_mapEntries change path rest]

end

/-! ## Outlines -/

mutual

/-- A tree with all its files empty. -/
def outline : FileTree → FileTree
  | .file _ => .file .empty
  | .directory entries => .directory (outlineEntries entries)

def outlineEntries : List (String × FileTree) → List (String × FileTree)
  | [] => []
  | (name, tree) :: rest => (name, outline tree) :: outlineEntries rest

end

theorem outline_directory_cons {name : String} {entries' : List (String × FileTree)}
    (htree : tree.outline = tree'.outline)
    (hentries : (directory entries).outline = (directory entries').outline) :
    (directory ((name, tree) :: entries)).outline =
      (directory ((name, tree') :: entries')).outline := by
  simp only [outline, outlineEntries, directory.injEq] at hentries ⊢
  rw [htree, hentries]

/-! ## The order of the entries -/

/-- A tree with its directories listed in another order: neighbours change places, in the tree itself or
in a directory in it. -/
inductive Relisted : FileTree → FileTree → Prop
  | refl (tree : FileTree) : Relisted tree tree
  | swap (before after : List (String × FileTree)) (a b : String × FileTree) :
      Relisted (.directory (before ++ a :: b :: after)) (.directory (before ++ b :: a :: after))
  | entry {tree tree' : FileTree} (before after : List (String × FileTree)) (name : String) :
      Relisted tree tree' → Relisted (.directory (before ++ (name, tree) :: after))
        (.directory (before ++ (name, tree') :: after))
  | trans {tree tree' tree'' : FileTree} : Relisted tree tree' → Relisted tree' tree'' →
      Relisted tree tree''

/-- **Another order of the entries only reorders the files.** -/
theorem Relisted.files_perm (h : Relisted tree tree') (path : String) :
    (files path tree).Perm (files path tree') := by
  induction h generalizing path with
  | refl tree => exact .refl _
  | swap before after a b =>
    simp only [files, entryFiles_append, entryFiles]
    refine .append_left _ ?_
    rw [← List.append_assoc, ← List.append_assoc]
    exact .append_right _ List.perm_append_comm
  | entry before after name _ ih =>
    simp only [files, entryFiles_append, entryFiles]
    exact .append_left _ (.append_right _ (ih (joinPath path name)))
  | trans _ _ ih ih' => exact (ih path).trans (ih' path)

/-- **Every change of the contents keeps the order of the entries.** -/
theorem Relisted.mapFiles (h : Relisted tree tree') (change : String → ByteArray → ByteArray)
    (path : String) : Relisted (tree.mapFiles change path) (tree'.mapFiles change path) := by
  induction h generalizing path with
  | refl tree => exact .refl _
  | swap before after a b =>
    simp only [FileTree.mapFiles, mapEntries_append, mapEntries]
    exact .swap _ _ _ _
  | entry before after name _ ih =>
    simp only [FileTree.mapFiles, mapEntries_append, mapEntries]
    exact .entry _ _ _ (ih (joinPath path name))
  | trans _ _ ih ih' => exact (ih path).trans (ih' path)

end FileTree

end MathMarkup.Program
