import MathMarkup.Document.Replacement
import MathMarkup.Formula.Report
import MathMarkup.Program.Arguments
import MathMarkup.Program.FileTree
import MathMarkup.SettingsFile

/-!
# Carrying out commands

* `Stop` — why a run ends without success, with its exit code.
* `convertFile`, `convertTree` — pages in place.
* `run` — a command, given what it may read.
* `runIn` — a command line in a directory.
-/

namespace MathMarkup.Program

open MathMarkup.Document MathMarkup.Formula MathMarkup.Markup

/-- Why a run ends without success. -/
inductive Stop where
  | usage
  | unreadableSettings (fault : FileFault)
  | malformedSettings
  | unreadable (fault : FileFault)
  /-- A document, at its path if it has one, that cannot be converted. -/
  | document (path : Option String) (content : List Char) (failure : Failure)
  | formula (source : String) (fault : Fault)
  deriving DecidableEq, Repr

/-- The exit code tells faults of the input from faults of the surroundings. -/
def Stop.exitCode : Stop → Nat
  | usage => 2
  | unreadableSettings _ => 1
  | malformedSettings => 1
  | unreadable _ => 1
  | document _ _ _ => 2
  | formula _ _ => 2

/-- What the program says when it stops. -/
def Stop.message : Stop → String
  | usage => "error: the arguments cannot be understood; try --help"
  | unreadableSettings fault => "Config error: cannot read the file: " ++ fault.message
  | malformedSettings => "Config error: invalid TOML"
  | unreadable fault => "IO error: " ++ fault.message
  | document none content failure => "Conversion error: " ++ failure.message content
  | document (some path) content failure =>
    "Conversion error in '" ++ path ++ "': " ++ failure.message content
  | formula source fault =>
    let report := fault.report source
    report.title ++ "\n  " ++ report.place "<input>" ++ " " ++ report.label

/-- How documents are converted. -/
structure Job where
  settings : Settings
  dryRun : Bool
  deriving DecidableEq, Repr

/-- A document with its formulas converted, and the replacer afterwards. -/
def Job.replace (job : Job) (replacer : Replacer) (document : List Char) :
    Except Failure (List Char) × Replacer :=
  let (result, _, replacer) :=
    replacer.replace (.ofConverter (convert job.settings)) () document
  (result, replacer)

/-- What became of a part of the input, the replacer afterwards, and why the run stopped there, if it
did. -/
structure Handled (α : Type) where
  result : α
  replacer : Replacer
  stop : Option Stop

/-- The content of a page after the run. A page without formulas, a dry run and a failure leave it as
it is. -/
def convertFile (job : Job) (replacer : Replacer) (path : String) (content : ByteArray) :
    Handled ByteArray :=
  match textOf content with
  | .error fault => ⟨content, replacer, some (.unreadable fault)⟩
  | .ok text =>
    match job.replace replacer text.toList with
    | (.error failure, replacer) =>
      ⟨content, replacer, some (.document (some path) text.toList failure)⟩
    | (.ok converted, replacer) =>
      if converted = text.toList || job.dryRun then ⟨content, replacer, none⟩
      else ⟨(String.ofList converted).toUTF8, replacer, none⟩

mutual

/-- A tree at a path after the run. Files that are no pages stay as they are; the first failure
ends the run, and what was converted before it stays so. One replacer serves all pages. -/
def convertTree (job : Job) (replacer : Replacer) (path : String) : FileTree → Handled FileTree
  | .file content =>
    if hasHtmlExtension path then
      let page := convertFile job replacer path content
      ⟨.file page.result, page.replacer, page.stop⟩
    else ⟨.file content, replacer, none⟩
  | .directory entries =>
    let listed := convertEntries job replacer path entries
    ⟨.directory listed.result, listed.replacer, listed.stop⟩

/-- The entries of a directory after the run, in their order. -/
def convertEntries (job : Job) (replacer : Replacer) (path : String) :
    List (String × FileTree) → Handled (List (String × FileTree))
  | [] => ⟨[], replacer, none⟩
  | (name, tree) :: rest =>
    let first := convertTree job replacer (joinPath path name) tree
    match first.stop with
    | some stop => ⟨(name, first.result) :: rest, first.replacer, some stop⟩
    | none =>
      let others := convertEntries job first.replacer path rest
      ⟨(name, first.result) :: others.result, others.replacer, others.stop⟩

end

/-- What a command may read: standard input, and what its two paths lead to. -/
structure Surroundings where
  standardInput : ByteArray
  settingsFile : Except FileFault FileTree
  target : Except FileFault FileTree

/-- What a run leaves behind: its output, why it stopped, if it did, and what the path of its task
leads to afterwards, if it led to something. -/
structure Outcome where
  output : List Char
  stop : Option Stop
  target : Option FileTree

/-- A run that reads and writes no files. -/
def Outcome.ofOutput (output : List Char) : Outcome := ⟨output, none, none⟩

/-- A run that ends without having changed anything. -/
def Outcome.ofStop (stop : Stop) : Outcome := ⟨[], some stop, none⟩

/-- The settings of a command. -/
def Command.settings (command : Command) (file : Except FileFault FileTree) :
    Except Stop Settings :=
  let chosen : Except Stop Settings :=
    match command.settingsFile with
    | none => .ok {}
    | some _ =>
      match readText file with
      | .error fault => .error (.unreadableSettings fault)
      | .ok text =>
        match Settings.ofToml? text with
        | none => .error .malformedSettings
        | some settings => .ok settings
  match chosen with
  | .error stop => .error stop
  | .ok settings =>
    .ok (if command.pretty then { settings with prettyPrint := .always } else settings)

/-- Converts a formula for standard output. -/
def runFormula (settings : Settings) (display : Display) (source : String) : Outcome :=
  match convert settings display source with
  | .error fault => .ofStop (.formula source fault)
  | .ok markup => .ofOutput (markup.toList ++ ['\n'])

/-- Converts the document on standard input. -/
def runDocument (job : Job) (replacer : Replacer) (input : ByteArray) : Outcome :=
  match textOf input with
  | .error fault => .ofStop (.unreadable fault)
  | .ok text =>
    match (job.replace replacer text.toList).1 with
    | .error failure => .ofStop (.document none text.toList failure)
    | .ok converted => .ofOutput converted

/-- Converts one file, whatever its name. -/
def runFile (job : Job) (replacer : Replacer) (path : String) :
    Except FileFault FileTree → Outcome
  | .error fault => .ofStop (.unreadable fault)
  | .ok (.directory _) => .ofStop (.unreadable .isDirectory)
  | .ok (.file content) =>
    let page := convertFile job replacer path content
    ⟨[], page.stop, some (.file page.result)⟩

/-- Converts the pages below a path. A path that leads nowhere is no page, unless its name says
so. -/
def runTree (job : Job) (replacer : Replacer) (path : String) :
    Except FileFault FileTree → Outcome
  | .error fault =>
    if hasHtmlExtension path then .ofStop (.unreadable fault) else .ofOutput []
  | .ok tree =>
    let handled := convertTree job replacer path tree
    ⟨[], handled.stop, some handled.result⟩

/-- Carries out a command. -/
def run (command : Command) (surroundings : Surroundings) : Outcome :=
  match command.settings surroundings.settingsFile with
  | .error stop => .ofStop stop
  | .ok settings =>
    let job : Job := ⟨settings, command.dryRun⟩
    let replacer := Replacer.new command.rules
    match command.task with
    | .formula (some source) display => runFormula settings display source
    | .formula none display =>
      match textOf surroundings.standardInput with
      | .error fault => .ofStop (.unreadable fault)
      | .ok source => runFormula settings display source
    | .document => runDocument job replacer surroundings.standardInput
    | .file path => runFile job replacer path surroundings.target
    | .tree path => runTree job replacer path surroundings.target

/-- The name and the version of the program. -/
def versionText : String := "asciimath-cli 0.1.0\n"

/-- What the program can do. -/
def helpText : String :=
  "Converts AsciiMath formulas to MathML\n\n" ++
  "Usage: asciimath [OPTIONS] [PATH]\n\n" ++
  "  PATH                      file whose formulas are replaced in place; - is standard input\n" ++
  "  -r, --recursive           convert every .html file below PATH\n" ++
  "      --dry-run             convert, but leave files as they are\n" ++
  "      --inline-del STR      mark on both sides of inline formulas\n" ++
  "      --block-del STR       mark on both sides of block formulas\n" ++
  "      --inline-open STR     mark before inline formulas\n" ++
  "      --inline-close STR    mark after inline formulas\n" ++
  "      --block-open STR      mark before block formulas\n" ++
  "      --block-close STR     mark after block formulas\n" ++
  "      --ignore-escaped-delim  marks after a backslash are plain text\n" ++
  "      --continue-on-error   leave formulas that fail as they are\n" ++
  "  -f, --formula FORMULA     a single formula\n" ++
  "  -i, --inline              convert the formula inline\n" ++
  "  -b, --block               convert the formula as a block\n" ++
  "  -c, --config FILE         settings in TOML\n" ++
  "      --pretty              spread the markup over lines\n" ++
  "  -v, --verbose             say more\n" ++
  "  -h, --help                this text\n" ++
  "  -V, --version             the version\n"

/-- What a command line that is not carried out leaves behind. -/
def Halt.outcome : Halt → Outcome
  | usage => .ofStop .usage
  | help => .ofOutput helpText.toList
  | version => .ofOutput versionText.toList

/-- The exit code of a run. -/
def Outcome.exitCode (outcome : Outcome) : Nat :=
  match outcome.stop with
  | none => 0
  | some stop => stop.exitCode

/-- The path of the files that a task converts. -/
def Task.path? : Task → Option String
  | formula _ _ => none
  | document => none
  | file path => some path
  | tree path => some path

/-- What a path leads to in a directory; without a path there is nothing. -/
def FileTree.lookUp (root : FileTree) : Option String → Except FileFault (List String × FileTree)
  | none => .error .notFound
  | some path => root.resolve path

/-- A command line in a directory: its outcome, and the directory afterwards. -/
def runIn (root : FileTree) (arguments : List String) (input : ByteArray) : Outcome × FileTree :=
  match readCommand arguments with
  | .error halt => (halt.outcome, root)
  | .ok command =>
    let target := root.lookUp command.task.path?
    let outcome := run command
      { standardInput := input
        settingsFile := (root.lookUp command.settingsFile).map (·.2)
        target := target.map (·.2) }
    match target, outcome.target with
    | .ok (names, _), some new => (outcome, .put new names root)
    | _, _ => (outcome, root)

end MathMarkup.Program
