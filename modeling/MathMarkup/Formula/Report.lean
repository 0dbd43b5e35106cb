import MathMarkup.Formula.Fault
import MathMarkup.Markup.Element
import MathMarkup.Text.Escape
import MathMarkup.Text.Location

/-!
# Showing faults

* `Fault.toHtml` — a fault as a snippet for a page.
* `Fault.report` — the parts of a report for a terminal.
-/

namespace MathMarkup.Formula

open MathMarkup.Markup MathMarkup.Text

/-- The element that stands in for a formula that failed. -/
def failureTag : Display → String
  | .inline => "span"
  | .block => "p"

/-- The source of a faulty formula, with the message of the fault as its title. -/
def Fault.toHtml (fault : Fault) (source : String) (display : Display)
    (cssClass : String) : String :=
  let tag := (failureTag display).toList
  let title := (toString fault.span.start ++ ": ").toList ++
    escapeAttribute fault.cause.sentence.toList
  String.ofList
    ('<' :: tag ++ " class=\"".toList ++ escapeAttribute cssClass.toList ++
      "\" title=\"".toList ++ title ++ "\"><code>".toList ++ escapeContent source.toList ++
      "</code></".toList ++ tag ++ ">".toList)

/-- The class of a failed formula, unless the caller names another. -/
def failureClass : String := "asciimath-error"

/-- A report of a fault: its headline, its place and the note at that place. -/
structure Report where
  title : String
  location : Location
  label : String
  deriving DecidableEq, Repr

/-- The report of a fault in a source. -/
def Fault.report (fault : Fault) (source : String) : Report where
  title := "Error: " ++ fault.cause.sentence
  location := .inReport source.toList fault.span.start
  label := fault.cause.label

/-- The place of a report in a source of the given name. -/
def Report.place (report : Report) (name : String) : String :=
  name ++ ":" ++ toString report.location.line ++ ":" ++ toString report.location.column

end MathMarkup.Formula
