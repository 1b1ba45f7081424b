import BoundedTuring.Error
import BoundedTuring.Text.Line
import BoundedTuring.Text.Numeral
import BoundedTuring.Description.Picture
/-!
# Reading descriptions

A description is read line by line, from its lines alone: what is read, and the line number in every error, does
not depend on which line endings the text has.  A reader refuses a line for its layout or for what it says.  Only
when a whole text is read does a refused layout become an error with a picture of the line in the text.
-/
namespace BoundedTuring

def maxDescriptionSize : Nat := 1048576

/-- Why a line is refused: it isn't laid out as expected, or something it says is wrong. -/
inductive Refusal where
  | layout (number : Nat) (expectation : Expectation)
  | error (e : Error)
  deriving DecidableEq, Repr

abbrev Reading := Except Refusal

/-- A line of a description and its number, from 1. -/
structure Line where
  number : Nat
  text : List Char
  deriving DecidableEq, Repr

namespace Line

def refuseLayout {α : Type} (line : Line) (expectation : Expectation) : Reading α :=
  .error (.layout line.number expectation)

/-- A result in which errors say that they were met on this line. -/
def check {α : Type} (line : Line) : Result α → Reading α
  | .ok a => .ok a
  | .error e => .error (.error (e.onLine line.number))

def refuse {α : Type} (line : Line) (fault : Fault) : Reading α := line.check (Result.fail fault)

def fields (line : Line) : Reading (List String) :=
  match Text.fields? line.text with
  | some fields => .ok fields
  | none => line.refuseLayout .fields

/-- The fields of a line that must have a certain number of them. -/
def fieldsOf (line : Line) (what : String) (count : Nat) : Reading (List String) := do
  let fields ← line.fields
  if fields.length = count then return fields
  else line.refuseLayout (.fieldCount count what fields.length)

def readNumber (line : Line) (name text : String) : Reading Nat :=
  match Text.numeral? text.toList with
  | some n => .ok n
  | none => line.refuse (.notNumber name text)

end Line

/-- The lines that have not been read yet, and the number of the first of them. -/
structure Remaining where
  next : Nat
  lines : List (List Char)
  deriving DecidableEq, Repr

namespace Remaining

def line? : Remaining → Option (Line × Remaining)
  | ⟨_, []⟩ => none
  | ⟨next, text :: rest⟩ => some (⟨next, text⟩, ⟨next + 1, rest⟩)

/-- The next line, which there must be. -/
def line (r : Remaining) (what : String) : Reading (Line × Remaining) :=
  match r.line? with
  | some found => .ok found
  | none => .error (.error (.ofFault (.missingLine what r.next)))

/-- The remaining lines as one text, without the empty lines at its end. -/
def comments (r : Remaining) : String :=
  String.ofList (['\n'].intercalate (r.lines.reverse.dropWhile List.isEmpty).reverse)

end Remaining

/-- Reads a whole text with a reader of its lines. -/
def readDescription {α : Type} (reader : Remaining → Reading α) (text : String) : Result α :=
  if maxDescriptionSize < text.utf8ByteSize then
    Result.fail (.descriptionTooLong text.utf8ByteSize maxDescriptionSize)
  else
    match reader ⟨1, Text.lines text.toList⟩ with
    | .ok a => .ok a
    | .error (.error e) => .error e
    | .error (.layout number expectation) => Result.fail (.layout (picture text.toList number expectation))

end BoundedTuring
