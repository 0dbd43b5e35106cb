import MathMarkup.Conversion
import MathMarkup.Toml.Document

/-!
# Settings in a file

Settings are keys of a TOML document. Keys that are missing keep their defaults, and keys that are
no settings are passed over.

* `Settings.ofToml?` — the settings of a document, if it is one and they have the right form.
-/

namespace MathMarkup

open Toml

/-- The name of a way of pretty-printing. -/
def PrettyPrint.name : PrettyPrint → String
  | never => "never"
  | always => "always"
  | auto => "auto"

def PrettyPrint.ofName? (name : String) : Option PrettyPrint :=
  [never, always, auto].find? fun p => p.name = name

/-- A way of pretty-printing is given by its name, or as a table whose one key is the name and
whose value is an empty table. -/
def PrettyPrint.ofValue? : Value → Option PrettyPrint
  | .string name => ofName? name
  | .table [(name, .table [])] => ofName? name
  | _ => none

/-- A truth value. -/
def switch? : Value → Option Bool
  | .boolean b => some b
  | _ => none

/-- The value of a key in the form that it must have, or the default where the key is missing. -/
def entryOr {α : Type} (entries : List (String × Value)) (key : String) (read : Value → Option α)
    (missing : α) : Option α :=
  match Value.get? key entries with
  | none => some missing
  | some value => read value

/-- The settings of a TOML document. -/
def Settings.ofToml? (text : String) : Option Settings :=
  let defaults : Settings := {}
  match document? text with
  | none => none
  | some entries =>
    match entryOr entries "pretty-print" PrettyPrint.ofValue? defaults.prettyPrint,
      entryOr entries "xml-namespace" switch? defaults.mathNamespace,
      entryOr entries "annotation" switch? defaults.keepSource with
    | some prettyPrint, some mathNamespace, some keepSource =>
      some ⟨prettyPrint, mathNamespace, keepSource⟩
    | _, _, _ => none

end MathMarkup
