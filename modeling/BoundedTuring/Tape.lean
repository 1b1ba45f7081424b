import BoundedTuring.Alphabet.Tape
import BoundedTuring.Transition
/-!
# Tapes

A tape keeps the cells that have been reached and reads as blank beyond them.  It grows to the right when the
head leaves it there.  On a two-way tape a move to the left of cell 0 puts a blank in front, which renumbers the
cells; a tape with a marker never grows that way.

`read` is the view of a tape: two tapes that read the same everywhere differ only in how far they are padded.
-/
namespace BoundedTuring

structure Tape where
  cells : Array Nat
  head : Nat
  /-- How many symbols the tape alphabet has. -/
  alphabetSize : Nat
  blank : Nat
  marker : Option Nat
  deriving DecidableEq, Repr, Inhabited

namespace Tape

/-- A fresh tape with a word on it and the head on the word's first symbol. -/
def ofInput (input : Word) (a : Alphabet) : Result Tape :=
  if a.input.containsAll input then
    .ok ⟨(a.marker?.toList ++ input).toArray, a.mode.initialHead, a.size, a.blank, a.marker?⟩
  else Result.fail (.foreignInput input a.inputSize)

def mode (t : Tape) : TapeMode := if t.marker.isSome then .leftEnd else .twoWay

def length (t : Tape) : Nat := t.cells.size

/-- The symbol at a position, which is the blank beyond the last cell. -/
def read (t : Tape) (position : Nat) : Nat := t.cells.getD position t.blank

def current (t : Tape) : Nat := t.read t.head

/-- Cells padded with blanks so that there is one at a position. -/
def reach (blank : Nat) (cells : Array Nat) (position : Nat) : Array Nat :=
  if position < cells.size then cells
  else cells ++ Array.replicate (position + 1 - cells.size) blank

/-- Puts the head at a position, which becomes a cell. -/
def withHead (t : Tape) (head : Nat) : Tape :=
  { t with cells := reach t.blank t.cells head, head := head }

/-- Writes a symbol of the alphabet at a position; the marker stays where it is. -/
def write (t : Tape) (position symbol : Nat) : Result Tape :=
  if t.alphabetSize ≤ symbol then Result.fail (.tapeSymbolOutOfRange symbol (t.alphabetSize - 1))
  else if t.marker.isSome ∧ position = 0 ∧ t.marker ≠ some symbol then Result.fail .markerOverwritten
  else .ok { t with cells := (reach t.blank t.cells position).setIfInBounds position symbol }

/-- Moves the head.  Standing still takes a machine that allows it, and is a move to the right otherwise. -/
def move (t : Tape) (direction : Direction) (stillAllowed : Bool) : Tape :=
  match direction, stillAllowed with
  | .still, true => t
  | .still, false | .right, _ => t.withHead (t.head + 1)
  | .left, _ =>
    if 0 < t.head then { t with head := t.head - 1 }
    else if t.marker.isNone then { t with cells := #[t.blank] ++ t.cells }
    else t

def apply (t : Tape) (symbol : Nat) (direction : Direction) (stillAllowed : Bool) : Tape :=
  move { t with cells := (reach t.blank t.cells t.head).setIfInBounds t.head symbol } direction stillAllowed

end Tape
end BoundedTuring
