/-!
# Words in shortlex order

A word over an alphabet of `base` symbols is the list of their indices.  Shortlex order puts shorter words first
and words of one length in lexicographic order, so a word is followed by the one a counter shows next: the last
symbol moves on, and a symbol that was the greatest becomes the least and moves the one before it on.  The word
after the greatest of its length is the least of the next.
-/
namespace BoundedTuring

abbrev Word := List Nat

namespace Word

def least (length : Nat) : Word := List.replicate length 0

def greatest (length base : Nat) : Word := List.replicate length (base - 1)

def isLeast (w : Word) : Bool := w.all (· == 0)

def isGreatest (base : Nat) (w : Word) : Bool := w.all (fun s => s + 1 == base)

/-- Moves on the last symbol that can, of a word given last symbol first; `done` holds the symbols after it. -/
def carry (base : Nat) : Word → Word → Word
  | [], done => 0 :: done
  | s :: rest, done => if s + 1 < base then rest.reverseAux ((s + 1) :: done) else carry base rest (0 :: done)

def successor (base : Nat) (w : Word) : Word := carry base w.reverse []

/-- At most `count` words from `w` on, none of them longer than `maxLength`, after the words in `done`, which are
held last first. -/
def enumerateFrom (base maxLength : Nat) (done : List Word) : Nat → Word → List Word
  | 0, _ => done.reverse
  | count + 1, w =>
    if maxLength < w.length then done.reverse
    else enumerateFrom base maxLength (w :: done) count (successor base w)

/-- The first `count` words from `start` on, up to a length. -/
def enumerate (base maxLength count : Nat) (start : Word) : List Word :=
  enumerateFrom base maxLength [] count start

/-! ## How many there are -/

/-- Counts of words stop growing at the greatest number of a hundred and twenty-eight bits. -/
def countCeiling : Nat := 340282366920938463463374607431768211455

/-- A number, unless it passes the ceiling. -/
def checked (n : Nat) : Option Nat := if n ≤ countCeiling then some n else none

/-- `power * base ^ n`, unless it passes the ceiling on the way. -/
def powerBelow (base : Nat) : Nat → Nat → Option Nat
  | 0, power => some power
  | n + 1, power => (checked (power * base)).bind (powerBelow base n)

/-- Adds `n` powers in a row to `total`, the first of them `power`.  A power past the ceiling takes the total to the
ceiling, and there it stays. -/
def addPowers (base : Nat) : Nat → Option Nat → Nat → Nat
  | 0, _, total => total
  | _ + 1, none, _ => countCeiling
  | n + 1, some power, total =>
    let total := min (total + power) countCeiling
    if total = countCeiling then total else addPowers base n (checked (power * base)) total

/-- How many words of the lengths `start` to `max` there are, or the ceiling if that is less. -/
def estimate (base start max : Nat) : Nat :=
  if max < start then 0
  else if base ≤ 1 then base * (max - start + 1)
  else addPowers base (max - start + 1) (powerBelow base start 1) 0

def display (w : Word) : String := "[" ++ ", ".intercalate (w.map toString) ++ "]"

end Word
end BoundedTuring
