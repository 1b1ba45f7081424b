/-!
# Transitions

A transition is what a machine does in one state on one symbol: it writes a symbol, moves the head and enters a
state.  The state and the symbol read are its key.
-/
namespace BoundedTuring

inductive Direction where
  | left
  | right
  | still
  deriving DecidableEq, Repr, Inhabited

namespace Direction

def letter : Direction → String
  | left => "L"
  | right => "R"
  | still => "S"

def ofLetter? (text : String) : Option Direction :=
  [left, right, still].find? (fun d => d.letter == text)

theorem ofLetter?_letter (d : Direction) : ofLetter? d.letter = some d := by
  cases d <;> decide

end Direction

/-- The state a machine is in and the symbol under its head. -/
structure Key where
  state : Nat
  symbol : Nat
  deriving DecidableEq, Repr, Inhabited

structure Transition where
  next : Nat
  write : Nat
  direction : Direction
  deriving DecidableEq, Repr, Inhabited

/-- What a machine does on a key nobody defined: keep the state, rewrite the symbol and move right. -/
def Transition.identity (key : Key) : Transition := ⟨key.state, key.symbol, .right⟩

def Transition.isStill (t : Transition) : Bool := t.direction == .still

abbrev Entry := Key × Transition

end BoundedTuring
