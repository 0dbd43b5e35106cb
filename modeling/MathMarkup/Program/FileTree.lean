/-!
# Files and directories

* `FileTree` — a file or a directory with all that is in it.
* `FileFault` — why a file cannot be read as a text.
* `FileTree.resolve` — what a path leads to; `FileTree.put` puts something in its place.
* `hasHtmlExtension` — whether a path names a page.
-/

namespace MathMarkup.Program

/-- A file with its bytes, or a directory with its entries in the order in which it lists them. -/
inductive FileTree where
  | file (content : ByteArray)
  | directory (entries : List (String × FileTree))

/-- Why a file cannot be read as a text. -/
inductive FileFault where
  | notFound
  | notDirectory
  | isDirectory
  | invalidText
  deriving DecidableEq, Repr

/-- The wording of the operating system, or of the reader of texts. -/
def FileFault.message : FileFault → String
  | notFound => "No such file or directory (os error 2)"
  | notDirectory => "Not a directory (os error 20)"
  | isDirectory => "Is a directory (os error 21)"
  | invalidText => "stream did not contain valid UTF-8"

/-- Bytes as a text. -/
def textOf (content : ByteArray) : Except FileFault String :=
  match String.fromUTF8? content with
  | some text => .ok text
  | none => .error .invalidText

/-- The text of what a path leads to. -/
def readText : Except FileFault FileTree → Except FileFault String
  | .error fault => .error fault
  | .ok (.directory _) => .error .isDirectory
  | .ok (.file content) => textOf content

/-! ## Paths -/

/-- The parts of a path between its slashes. -/
def splitAtSlashes : List Char → List (List Char)
  | [] => [[]]
  | c :: rest =>
    if c = '/' then [] :: splitAtSlashes rest
    else
      match splitAtSlashes rest with
      | [] => [[c]]
      | part :: parts => (c :: part) :: parts

/-- The parts of a path that name something: neither empty nor a single dot. -/
def isNamePart (part : List Char) : Bool := !part.isEmpty && part ≠ ['.']

/-- The path of an entry of a directory. An empty path stands for the directory where the program runs. -/
def joinPath (directory name : String) : String :=
  if directory.isEmpty || directory.toList.getLast? = some '/' then directory ++ name
  else directory ++ "/" ++ name

/-- The part of a name after its last dot, unless the name starts with that dot. -/
def extensionOf (name : List Char) : Option (List Char) :=
  let reversed := name.reverse
  let extension := (reversed.takeWhile (· ≠ '.')).reverse
  let stem := (reversed.dropWhile (· ≠ '.')).drop 1
  if stem.isEmpty || name = ['.', '.'] then none else some extension

/-- A path names a page if the extension of its last part is `html`. -/
def hasHtmlExtension (path : String) : Bool :=
  match ((splitAtSlashes path.toList).filter isNamePart).getLast? with
  | none => false
  | some name => extensionOf name = some "html".toList

namespace FileTree

/-- Follows the parts of a path from a directory. `above` holds the directories around it with the
names that lead down, the nearest first. Yields the names from the top and what they lead to. -/
def follow (above : List (String × FileTree)) (here : FileTree) :
    List (List Char) → Except FileFault (List String × FileTree)
  | [] => .ok ((above.map (·.1)).reverse, here)
  | part :: parts =>
    match here with
    | .file _ => .error .notDirectory
    | .directory entries =>
      if part = ['.', '.'] then
        match above with
        | [] => .error .notFound
        | (_, outer) :: above => follow above outer parts
      else if isNamePart part then
        match entries.lookup (String.ofList part) with
        | none => .error .notFound
        | some inner => follow ((String.ofList part, here) :: above) inner parts
      else follow above here parts

/-- What a relative path leads to from a directory, and the names on the way there. -/
def resolve (root : FileTree) (path : String) : Except FileFault (List String × FileTree) :=
  if path.toList.head? = some '/' then .error .notFound
  else follow [] root (splitAtSlashes path.toList)

/-- Puts a tree in the place of the entry with its name, or after all entries. -/
def putEntry (name : String) (new : FileTree) :
    List (String × FileTree) → List (String × FileTree)
  | [] => [(name, new)]
  | (n, tree) :: rest => if n = name then (n, new) :: rest else (n, tree) :: putEntry name new rest

/-- Puts a tree at the end of a way of names. Directories on the way are made if need be. -/
def put (new : FileTree) : List String → FileTree → FileTree
  | [], _ => new
  | name :: names, .file _ => .directory [(name, put new names (.directory []))]
  | name :: names, .directory entries =>
    let inner := (entries.lookup name).getD (.directory [])
    .directory (putEntry name (put new names inner) entries)

mutual

/-- The files of a tree with their paths, the tree itself standing at `path`. -/
def files (path : String) : FileTree → List (String × ByteArray)
  | .file content => [(path, content)]
  | .directory entries => entryFiles path entries

def entryFiles (path : String) : List (String × FileTree) → List (String × ByteArray)
  | [] => []
  | (name, tree) :: rest =>
    files (joinPath path name) tree ++ entryFiles path rest

end

/-- A directory that holds the given files. -/
def ofFiles (files : List (String × ByteArray)) : FileTree :=
  files.foldl
    (fun tree (path, content) =>
      put (.file content) ((splitAtSlashes path.toList).map String.ofList) tree)
    (.directory [])

end FileTree

end MathMarkup.Program
