/-!
# Lines and fields

A text is cut into lines at every line feed, carriage return, and carriage return with line feed; what follows
the last of them is a line too, so a text always has at least one.  A line that is not empty has fields when no
tab is in it and cutting it at each single space leaves no empty piece.
-/
namespace BoundedTuring
namespace Text

/-- The lines of a text: `line` holds the characters of the current line and `done` the lines before it, both
last first. -/
def linesFrom (line : List Char) (done : List (List Char)) : List Char → List (List Char)
  | [] => (line.reverse :: done).reverse
  | '\r' :: '\n' :: rest => linesFrom [] (line.reverse :: done) rest
  | '\r' :: rest => linesFrom [] (line.reverse :: done) rest
  | '\n' :: rest => linesFrom [] (line.reverse :: done) rest
  | c :: rest => linesFrom (c :: line) done rest

def lines (text : List Char) : List (List Char) := linesFrom [] [] text

/-- How many characters of a text come before each of its lines. -/
def lineStartsFrom (count : Nat) (done : List Nat) : List Char → List Nat
  | [] => done.reverse
  | '\r' :: '\n' :: rest => lineStartsFrom (count + 2) ((count + 2) :: done) rest
  | '\r' :: rest => lineStartsFrom (count + 1) ((count + 1) :: done) rest
  | '\n' :: rest => lineStartsFrom (count + 1) ((count + 1) :: done) rest
  | _ :: rest => lineStartsFrom (count + 1) done rest

def lineStarts (text : List Char) : List Nat := lineStartsFrom 0 [0] text

/-- The fields of a line, or nothing if it is not laid out in fields. -/
def fields? (line : List Char) : Option (List String) :=
  if line.contains '\t' then none
  else
    let pieces := line.splitOn ' '
    if pieces.any (·.isEmpty) then none else some (pieces.map String.ofList)

end Text
end BoundedTuring
