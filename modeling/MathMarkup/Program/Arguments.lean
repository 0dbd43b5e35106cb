import MathMarkup.Document.Delimiters

/-!
# The command line

* `Item` — an argument that was understood: a flag, an option with its value, or a path.
* `readItems` — the items of a list of arguments, in their order.
* `checkItems` — which items may stand together, and which need each other.
* `Command`, `readCommand` — what a command line asks for.
-/

namespace MathMarkup.Program

open MathMarkup.Document MathMarkup.Markup

/-- Arguments without a value. -/
inductive Flag where
  | recursive
  | dryRun
  | ignoreEscaped
  | continueOnError
  | inline
  | block
  | pretty
  | verbose
  | help
  | version
  deriving DecidableEq, Repr

/-- Arguments with a value. -/
inductive Parameter where
  | inlineMark
  | blockMark
  | inlineOpening
  | inlineClosing
  | blockOpening
  | blockClosing
  | formula
  | settingsFile
  deriving DecidableEq, Repr

/-- An argument that was understood. -/
inductive Item where
  | flag (f : Flag)
  | parameter (s : Parameter) (value : String)
  | path (path : String)
  deriving DecidableEq, Repr

/-- Why a command line is not carried out. -/
inductive Halt where
  /-- It has no meaning. -/
  | usage
  /-- It asks for help. -/
  | help
  /-- It asks for the version. -/
  | version
  deriving DecidableEq, Repr

/-! ## Names -/

def longFlags : List (String × Flag) :=
  [("recursive", .recursive), ("dry-run", .dryRun), ("ignore-escaped-delim", .ignoreEscaped),
   ("continue-on-error", .continueOnError), ("inline", .inline), ("block", .block),
   ("pretty", .pretty), ("verbose", .verbose), ("help", .help), ("version", .version)]

def shortFlags : List (Char × Flag) :=
  [('r', .recursive), ('i', .inline), ('b', .block), ('v', .verbose), ('h', .help),
   ('V', .version)]

def longParameters : List (String × Parameter) :=
  [("inline-del", .inlineMark), ("block-del", .blockMark), ("inline-open", .inlineOpening),
   ("inline-close", .inlineClosing), ("block-open", .blockOpening),
   ("block-close", .blockClosing), ("formula", .formula), ("config", .settingsFile)]

def shortParameters : List (Char × Parameter) := [('f', .formula), ('c', .settingsFile)]

/-! ## Reading arguments -/

/-- What a part of an argument means by itself. -/
inductive Word where
  | item (i : Item)
  /-- An option whose value is the next argument. -/
  | awaits (s : Parameter)
  | unknown
  deriving DecidableEq, Repr

/-- An argument after its two hyphens. A value follows an equals sign; flags take none. -/
def longWord (text : List Char) : Word :=
  let name := String.ofList (text.takeWhile (· ≠ '='))
  match text.dropWhile (· ≠ '='), longFlags.lookup name, longParameters.lookup name with
  | [], some f, _ => .item (.flag f)
  | [], none, some s => .awaits s
  | _ :: value, none, some s => .item (.parameter s (String.ofList value))
  | _, _, _ => .unknown

/-- Letters after one hyphen. The value of an option is what follows its letter, with or without an
equals sign between them, or else the next argument. -/
def shortWords : List Char → List Word
  | [] => []
  | c :: rest =>
    match shortFlags.lookup c, shortParameters.lookup c with
    | some f, _ => .item (.flag f) :: shortWords rest
    | none, some s =>
      match rest with
      | [] => [.awaits s]
      | '=' :: value => [.item (.parameter s (String.ofList value))]
      | value => [.item (.parameter s (String.ofList value))]
    | none, none => [.unknown]

/-- An argument that starts with a hyphen and is more than that is no value. -/
def looksLikeOption (argument : String) : Bool :=
  match argument.toList with
  | '-' :: _ :: _ => true
  | _ => false

/-- The words of an argument. -/
def wordsOf (argument : String) : List Word :=
  match argument.toList with
  | '-' :: '-' :: text => [longWord text]
  | '-' :: c :: text => shortWords (c :: text)
  | _ => [.item (.path argument)]

/-- Two items of one kind. -/
def Item.sameKind : Item → Item → Bool
  | flag f, flag g => f = g
  | parameter s _, parameter t _ => s = t
  | path _, path _ => true
  | _, _ => false

/-- Names of files must not be empty. -/
def Item.isEmptyPath : Item → Bool
  | path p => p.isEmpty
  | parameter .settingsFile p => p.isEmpty
  | _ => false

/-- Adds an item. Every kind may stand once; help and version end the reading. -/
def addItem (given : List Item) (item : Item) : Except Halt (List Item) :=
  if item = .flag .help then .error .help
  else if item = .flag .version then .error .version
  else if given.any item.sameKind || item.isEmptyPath then .error .usage
  else .ok (given ++ [item])

/-- Adds the items of an argument; the option that awaits its value is left over. -/
def addWords (given : List Item) : List Word → Except Halt (List Item × Option Parameter)
  | [] => .ok (given, none)
  | .item item :: words =>
    match addItem given item with
    | .error halt => .error halt
    | .ok given => addWords given words
  | .awaits s :: _ => .ok (given, some s)
  | .unknown :: _ => .error .usage

/-- After two hyphens alone every argument is a path. -/
def addPaths (given : List Item) : List String → Except Halt (List Item)
  | [] => .ok given
  | argument :: rest =>
    match addItem given (.path argument) with
    | .error halt => .error halt
    | .ok given => addPaths given rest

/-- Adds the items of a list of arguments. -/
def addArguments (given : List Item) : List String → Except Halt (List Item)
  | [] => .ok given
  | argument :: rest =>
    if argument = "--" then addPaths given rest
    else
      match addWords given (wordsOf argument) with
      | .error halt => .error halt
      | .ok (given, none) => addArguments given rest
      | .ok (given, some parameter) =>
        match rest with
        | [] => .error .usage
        | value :: rest =>
          if looksLikeOption value then .error .usage
          else
            match addItem given (.parameter parameter value) with
            | .error halt => .error halt
            | .ok given => addArguments given rest

/-- The items of a list of arguments. -/
def readItems (arguments : List String) : Except Halt (List Item) := addArguments [] arguments

/-! ## Commands -/

/-- A kind of item. -/
inductive Kind where
  | flag (f : Flag)
  | parameter (s : Parameter)
  | path
  deriving DecidableEq, Repr

def Item.kind : Item → Kind
  | flag f => .flag f
  | parameter s _ => .parameter s
  | path _ => .path

/-- Kinds of items that exclude each other. -/
def conflicts : List (Kind × Kind) :=
  [(.parameter .formula, .path), (.parameter .formula, .parameter .inlineMark),
   (.parameter .formula, .parameter .blockMark), (.parameter .formula, .flag .recursive),
   (.parameter .formula, .flag .dryRun), (.parameter .formula, .flag .ignoreEscaped),
   (.parameter .formula, .flag .continueOnError), (.path, .flag .inline), (.path, .flag .block),
   (.flag .inline, .flag .block), (.parameter .inlineMark, .parameter .inlineOpening),
   (.parameter .inlineMark, .parameter .inlineClosing),
   (.parameter .blockMark, .parameter .blockOpening),
   (.parameter .blockMark, .parameter .blockClosing)]

/-- Kinds of items that come together or not at all. -/
def companions : List (Kind × Kind) :=
  [(.parameter .inlineOpening, .parameter .inlineClosing),
   (.parameter .blockOpening, .parameter .blockClosing)]

/-- Whether the items may stand together. -/
def checkItems (items : List Item) : Bool :=
  let given (kind : Kind) : Bool := items.any fun item => item.kind = kind
  conflicts.all (fun (a, b) => !(given a && given b)) &&
    companions.all (fun (a, b) => given a == given b)

/-- What is to be converted. -/
inductive Task where
  /-- A formula, from standard input if it is not given. -/
  | formula (source : Option String) (display : Display)
  /-- A document from standard input, written to standard output. -/
  | document
  /-- A file, in place. -/
  | file (path : String)
  /-- The pages below a directory, in place. -/
  | tree (path : String)
  deriving DecidableEq, Repr

/-- What a command line asks for. -/
structure Command where
  task : Task
  rules : Rules
  settingsFile : Option String
  pretty : Bool
  dryRun : Bool
  verbose : Bool
  deriving DecidableEq, Repr

/-- Whether a flag is among the items. -/
def hasFlag (items : List Item) (f : Flag) : Bool := items.contains (.flag f)

/-- The value of an option. -/
def parameterValue (items : List Item) (s : Parameter) : Option String :=
  items.findSome? fun
    | .parameter t value => if t = s then some value else none
    | _ => none

/-- The path among the items. -/
def pathOf (items : List Item) : Option String :=
  items.findSome? fun
    | .path p => some p
    | _ => none

/-- Delimiters from an opening and a closing mark, or else from one mark for both sides. -/
def delimitersOf (opening closing mark : Option String) (default : String) : Delimiters :=
  match opening, closing with
  | some opening, some closing => ⟨opening.toList, closing.toList⟩
  | _, _ => .both (mark.getD default).toList

/-- The task of a command line. A lone hyphen stands for standard input. -/
def taskOf (items : List Item) : Task :=
  match pathOf items with
  | none =>
    .formula (parameterValue items .formula) (if hasFlag items .inline then .inline else .block)
  | some path =>
    if path = "-" then .document
    else if hasFlag items .recursive then .tree path
    else .file path

/-- The command that items make up. -/
def commandOf (items : List Item) : Command where
  task := taskOf items
  rules :=
    { inline := delimitersOf (parameterValue items .inlineOpening)
        (parameterValue items .inlineClosing) (parameterValue items .inlineMark) "`"
      block := delimitersOf (parameterValue items .blockOpening)
        (parameterValue items .blockClosing) (parameterValue items .blockMark) "``"
      skipEscaped := hasFlag items .ignoreEscaped
      keepFailed := hasFlag items .continueOnError }
  settingsFile := parameterValue items .settingsFile
  pretty := hasFlag items .pretty
  dryRun := hasFlag items .dryRun
  verbose := hasFlag items .verbose

/-- What a command line asks for, or why it is not carried out. -/
def readCommand (arguments : List String) : Except Halt Command :=
  match readItems arguments with
  | .error halt => .error halt
  | .ok items => if checkItems items then .ok (commandOf items) else .error .usage

end MathMarkup.Program
