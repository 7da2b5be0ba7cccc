import CallForest.Report.Document
import CallForest.Report.Drawing

/-!
# Report formats

## Main definitions

* `ReportFormat` — how a forest is written;
* `EntryForest.render` — a forest in a format.
-/

namespace CallForest

/-- How a forest is written. -/
inductive ReportFormat where
  | json
  | dot
deriving DecidableEq, Repr

/-- The name of a format. -/
def ReportFormat.name : ReportFormat → String
  | .json => "json"
  | .dot => "dot"

/-- The format with a name. -/
def ReportFormat.ofName? (name : String) : Option ReportFormat :=
  [ReportFormat.json, ReportFormat.dot].find? (·.name = name)

/-- A forest in a format. -/
def EntryForest.render (f : EntryForest) : ReportFormat → String
  | .json => f.toDocument
  | .dot => f.toDrawing

end CallForest
