/-!
# The bundled machines

Three small machines that come with the library, written for the tape with a left end.
-/
namespace BoundedTuring

/-- Binary words with a 1 in them. -/
def containsOneText : String := "\n".intercalate [
  "3 4 2",
  "0 1",
  "3",
  "0 0 0 0 R",
  "0 1 1 1 R",
  "0 blank 2 blank R",
  "100 0 4 1000",
  "Accepts binary strings containing at least one 1.",
  ""]

/-- Words of even length. -/
def evenLengthText : String := "\n".intercalate [
  "4 4 2",
  "a b",
  "6",
  "0 a 1 a R",
  "0 b 1 b R",
  "1 a 0 a R",
  "1 b 0 b R",
  "0 blank 2 blank R",
  "1 blank 3 blank R",
  "100 0 3 1000",
  "Accepts strings of even length over \x7ba, b\x7d.",
  "States 0 and 1 track the parity of the symbols read so far.",
  ""]

/-- Words of some letters a and as many letters b after them. -/
def anbnText : String := "\n".intercalate [
  "6 6 2",
  "a b X Y",
  "20",
  "0 a 1 X R",
  "0 Y 3 Y R",
  "0 blank 4 blank R",
  "0 b 5 b R",
  "0 X 5 X R",
  "1 a 1 a R",
  "1 Y 1 Y R",
  "1 b 2 Y L",
  "1 blank 5 blank R",
  "1 X 5 X R",
  "2 a 2 a L",
  "2 Y 2 Y L",
  "2 X 0 X R",
  "2 b 5 b R",
  "2 blank 5 blank R",
  "3 Y 3 Y R",
  "3 blank 4 blank R",
  "3 a 5 a R",
  "3 b 5 b R",
  "3 X 5 X R",
  "100 0 4 10000",
  "Accepts a^n b^n for n >= 0.",
  "Each pass marks the leftmost a as X and the leftmost b as Y, then returns to the last X.",
  "State 3 checks that only Ys remain once the as are used up.",
  ""]

def bundledDescriptions : List (String × String) :=
  [("contains-one", containsOneText), ("even-length", evenLengthText), ("anbn", anbnText)]

end BoundedTuring
