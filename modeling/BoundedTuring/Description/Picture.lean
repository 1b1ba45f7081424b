import BoundedTuring.Error
import BoundedTuring.Text.Line
/-!
# Pictures of a line

A fault of layout shows the line it was met on, with its place and an underline.  Rows and columns count from 1.
Only a line feed ends a row here: a line that a lone carriage return ends shares its row with the next one, and
the row is shown whole, without its carriage returns.
-/
namespace BoundedTuring

/-- A place in a text and how much is underlined there. -/
structure Span where
  row : Nat
  column : Nat
  /-- The whole row, without carriage returns. -/
  shown : List Char
  /-- How many columns are underlined; one mark is drawn even for none. -/
  width : Nat
  deriving DecidableEq, Repr

namespace Span

def rowStart (before : List Char) : List Char := before.takeWhile (· != '\n')

/-- The span of a line of `width` characters at the beginning of `after`, where `before` holds the characters in
front of it, last first.  The end of an empty line that starts a row is looked for one character back, in the
row before: its underline is as long as that row and one more. -/
def ofLine (before after : List Char) (width : Nat) : Span where
  row := before.count '\n' + 1
  column := (rowStart before).length + 1
  shown :=
    if after.isEmpty then []
    else ((rowStart before).reverse ++ after.takeWhile (· != '\n')).filter (· != '\r')
  width :=
    if width = 0 ∧ (rowStart before).isEmpty then (rowStart (before.drop 1)).length + 1
    else width

/-- The span of a line of a text, by its number. -/
def ofText (text : List Char) (number : Nat) : Span :=
  let start := (Text.lineStarts text).getD (number - 1) 0
  let width := ((Text.lines text).getD (number - 1) []).length
  ofLine (text.take start).reverse (text.drop start) width

/-- What stands in front of the underline: tabs where the row has them, so that the columns agree. -/
def indent (s : Span) : List Char :=
  (s.shown.take (s.column - 1)).map (fun c => if c = '\t' then '\t' else ' ')

/-- A mark at each end of the span and a line between them. -/
def underline (s : Span) : List Char :=
  if s.width ≤ 1 then ['^'] else '^' :: List.replicate (s.width - 2) '-' ++ ['^']

/-- The row under its number, with the underline and a message. -/
def draw (s : Span) (message : String) : String :=
  let number := toString s.row
  let margin := "".pushn ' ' number.length
  "\n".intercalate [
    s!"{margin}--> {s.row}:{s.column}",
    s!"{margin} |",
    s!"{number} | " ++ String.ofList s.shown,
    s!"{margin} | " ++ String.ofList (s.indent ++ s.underline),
    s!"{margin} |",
    s!"{margin} = {message}"]

end Span

/-- The picture of a line that is not laid out as expected. -/
def picture (text : List Char) (number : Nat) (expectation : Expectation) : String :=
  (Span.ofText text number).draw expectation.cause

end BoundedTuring
