/-!
# Runs and their bounds

What is said about a run: how it may end, what bounds it, what it looks like between two steps and what is
reported when it is over.

Time is not measured.  A step takes some time, but never as much as a millisecond: a bound of none at all is
crossed by the first step, and no other bound ever is.
-/
namespace BoundedTuring

inductive Outcome where
  | accepted
  | rejected
  | stepBoundExceeded
  | timeBoundExceeded
  deriving DecidableEq, Repr, Inhabited

namespace Outcome

def isHalted : Outcome → Bool
  | accepted | rejected => true
  | stepBoundExceeded | timeBoundExceeded => false

def name : Outcome → String
  | accepted => "Accepted"
  | rejected => "Rejected"
  | stepBoundExceeded => "StepBoundExceeded"
  | timeBoundExceeded => "TimeBoundExceeded"

def phrase : Outcome → String
  | accepted => "accepted"
  | rejected => "rejected"
  | stepBoundExceeded => "step bound exceeded"
  | timeBoundExceeded => "time bound exceeded"

end Outcome

/-- The step bound of a run that is given none: the greatest number of sixty-four bits. -/
def defaultMaxSteps : Nat := 18446744073709551615

/-- The longest time bound, in milliseconds: a bound has at most sixty-four bits when counted in nanoseconds. -/
def maxTimeBound : Nat := defaultMaxSteps / 1000000

structure Limits where
  maxSteps : Nat
  maxTime : Option Nat
  deriving DecidableEq, Repr

namespace Limits

def unbounded : Limits := ⟨defaultMaxSteps, none⟩

instance : Inhabited Limits := ⟨unbounded⟩

def stepCrossesTime (l : Limits) : Bool := l.maxTime == some 0

/-- The time a report gives, which is there only if a time bound is. -/
def elapsed (l : Limits) : Option Nat := l.maxTime.map (fun _ => 0)

end Limits

/-- A machine between two steps. -/
structure Configuration where
  state : Nat
  tape : Array Nat
  head : Nat
  step : Nat
  deriving DecidableEq, Repr, Inhabited

structure RunReport where
  outcome : Outcome
  stepCount : Nat
  elapsed : Option Nat
  deriving DecidableEq, Repr, Inhabited

end BoundedTuring
