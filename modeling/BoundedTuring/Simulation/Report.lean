import BoundedTuring.Alphabet.Input
import BoundedTuring.Json
import BoundedTuring.Run
/-!
# What a simulation reports

The report of a simulation holds its records, the tested words in order with the report of the run on each, and what
is to be known of them without walking them again: how many runs ended in each way, the headline, and where the record
of a word is.
-/
namespace BoundedTuring

structure Tallies where
  accepted : Nat
  rejected : Nat
  stepBoundExceeded : Nat
  timeBoundExceeded : Nat
  deriving DecidableEq, Repr, Inhabited

namespace Tallies

def zero : Tallies := ⟨0, 0, 0, 0⟩

def record (t : Tallies) : Outcome → Tallies
  | .accepted => { t with accepted := t.accepted + 1 }
  | .rejected => { t with rejected := t.rejected + 1 }
  | .stepBoundExceeded => { t with stepBoundExceeded := t.stepBoundExceeded + 1 }
  | .timeBoundExceeded => { t with timeBoundExceeded := t.timeBoundExceeded + 1 }

def get (t : Tallies) : Outcome → Nat
  | .accepted => t.accepted
  | .rejected => t.rejected
  | .stepBoundExceeded => t.stepBoundExceeded
  | .timeBoundExceeded => t.timeBoundExceeded

def total (t : Tallies) : Nat := t.accepted + t.rejected + t.stepBoundExceeded + t.timeBoundExceeded

def ofOutcomes (outcomes : List Outcome) : Tallies := outcomes.foldl record zero

def toJson (t : Tallies) : Json := .ofFields [
  ("accepted", .number t.accepted),
  ("rejected", .number t.rejected),
  ("step_bound_exceeded", .number t.stepBoundExceeded),
  ("time_bound_exceeded", .number t.timeBoundExceeded)]

end Tallies

abbrev TestRecord := Word × RunReport

/-- The headline: nothing was tested, one word was, or several were. -/
inductive Summary where
  | noResult
  | single (record : TestRecord)
  | aggregate (tallies : Tallies)
  deriving DecidableEq, Repr

def Summary.ofRecords (records : List TestRecord) (tallies : Tallies) : Summary :=
  match records with
  | [] => .noResult
  | [record] => .single record
  | _ => .aggregate tallies

/-- The places of words in a list of records, the last record in front: a record hides earlier ones of its word. -/
def indexRecords (records : List TestRecord) : List (Word × Nat) :=
  records.zipIdx.foldl (fun index (record, place) => (record.1, place) :: index) []

structure SimulationReport where
  summary : Summary
  tallies : Tallies
  records : List TestRecord
  index : List (Word × Nat)
  deriving DecidableEq, Repr

namespace SimulationReport

def ofRecords (records : List TestRecord) : SimulationReport :=
  let tallies := .ofOutcomes (records.map (·.2.outcome))
  ⟨.ofRecords records tallies, tallies, records, indexRecords records⟩

def tested (r : SimulationReport) : Nat := r.records.length

/-- The report of the run on a word, if it was tested. -/
def record? (r : SimulationReport) (w : Word) : Option RunReport :=
  match r.index.lookup w with
  | some place => r.records[place]?.map Prod.snd
  | none => none

/-- A simulation takes no measurable time. -/
def elapsed (_ : SimulationReport) : Nat := 0

/-! ## As JSON -/

def recordJson (text : String) (r : RunReport) : Json := .ofFields [
  ("input", .text text),
  ("outcome", .text r.outcome.name),
  ("step_count", .number r.stepCount),
  ("elapsed_ms", .ofNat? r.elapsed)]

def summaryJson (a : InputAlphabet) : Summary → Result Json
  | .noResult => return .text "NoResult"
  | .single (w, r) => do
    let text ← a.render w
    return .ofFields [("Single", .ofFields [
      ("input", .text text),
      ("outcome", .text r.outcome.name),
      ("step_count", .number r.stepCount)])]
  | .aggregate tallies => return .ofFields [("Aggregate", tallies.toJson)]

/-- The report with its words spelled over an alphabet. -/
def toJson (r : SimulationReport) (a : InputAlphabet) : Result Json := do
  let records ← r.records.mapM (fun (w, report) => do return recordJson (← a.render w) report)
  let summary ← summaryJson a r.summary
  return .ofFields [
    ("summary", summary),
    ("tested", .number r.tested),
    ("tallies", r.tallies.toJson),
    ("elapsed_ms", .number r.elapsed),
    ("records", .list records)]

end SimulationReport
end BoundedTuring
