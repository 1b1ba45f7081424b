/-!
# Tape modes

A machine runs on one of two tapes.  With a left end, position 0 holds a marker for good and the tape grows to
the right only.  A two-way tape has no marker and grows on either side.
-/
namespace BoundedTuring

inductive TapeMode where
  | leftEnd
  | twoWay
  deriving DecidableEq, Repr, Inhabited

/-- The name of the symbol a cell holds before anything is written to it. -/
def blankName : String := "blank"

/-- The name of the marker at the left end of a tape. -/
def markerName : String := "leftend"

namespace TapeMode

/-- The symbols a tape alphabet gets on top of the user's, in index order. -/
def specialSymbols : TapeMode → List String
  | leftEnd => [markerName, blankName]
  | twoWay => [blankName]

/-- Where the head stands on a freshly loaded input: on its first symbol. -/
def initialHead : TapeMode → Nat
  | leftEnd => 1
  | twoWay => 0

end TapeMode
end BoundedTuring
