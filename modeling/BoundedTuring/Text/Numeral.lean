/-!
# Decimal numerals

A numeral is one or more ASCII digits, with a plus sign in front if the writer likes, whose value fits in
sixty-four bits.  Leading zeros are allowed; a minus sign is not, even before a zero.
-/
namespace BoundedTuring
namespace Text

/-- The first number that needs more than sixty-four bits.  A numeral stands for a number below it. -/
def numeralBound : Nat := 18446744073709551616

def digit? (c : Char) : Option Nat :=
  if c.isDigit then some (c.toNat - '0'.toNat) else none

/-- The value of digits that follow digits of value `n`, as long as it stays below the bound. -/
def digitsValue? (n : Nat) : List Char → Option Nat
  | [] => some n
  | c :: rest => match digit? c with
    | none => none
    | some d => if n * 10 + d < numeralBound then digitsValue? (n * 10 + d) rest else none

def numeral? : List Char → Option Nat
  | [] => none
  | '+' :: c :: rest => digitsValue? 0 (c :: rest)
  | c :: rest => digitsValue? 0 (c :: rest)

end Text
end BoundedTuring
