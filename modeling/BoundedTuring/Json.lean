/-!
# JSON text

The values a report is made of and their text over several lines: two spaces for each level, an element or field
a line, the fields of an object in the order of their names, nothing between the brackets of an empty value.
-/
namespace BoundedTuring

inductive Json where
  | null
  | number (n : Nat)
  | text (s : String)
  | list (items : List Json)
  | object (fields : List (String × Json))
  deriving Inhabited

namespace Json

def ofFields (fields : List (String × Json)) : Json :=
  object (fields.mergeSort (fun a b => !decide (b.1 < a.1)))

def ofNat? : Option Nat → Json
  | none => null
  | some n => number n

def hexDigit (n : Nat) : Char := if n < 10 then Char.ofNat (48 + n) else Char.ofNat (87 + n)

/-- A character inside quotes: quotes, backslashes and control characters are escaped, all else stands as it is. -/
def escapeChar (c : Char) : List Char :=
  if c = '"' then ['\\', '"']
  else if c = '\\' then ['\\', '\\']
  else if c = '\n' then ['\\', 'n']
  else if c = '\r' then ['\\', 'r']
  else if c = '\t' then ['\\', 't']
  else if c.toNat = 8 then ['\\', 'b']
  else if c.toNat = 12 then ['\\', 'f']
  else if c.toNat < 32 then ['\\', 'u', '0', '0', hexDigit (c.toNat / 16), hexDigit (c.toNat % 16)]
  else [c]

def quote (s : String) : String := "\"" ++ String.ofList (s.toList.flatMap escapeChar) ++ "\""

def newline (level : Nat) : String := "\n" ++ "".pushn ' ' (2 * level)

mutual

/-- Writes a value at a level behind the text so far. -/
def write (level : Nat) (text : String) : Json → String
  | null => text ++ "null"
  | number n => text ++ toString n
  | .text s => text ++ quote s
  | list [] => text ++ "[]"
  | list (item :: items) =>
    writeItems level (write (level + 1) (text ++ "[" ++ newline (level + 1)) item) items ++ newline level ++ "]"
  | object [] => text ++ "\x7b\x7d"
  | object ((name, value) :: fields) =>
    writeFields level
      (write (level + 1) (text ++ "\x7b" ++ newline (level + 1) ++ quote name ++ ": ") value) fields
      ++ newline level ++ "\x7d"

def writeItems (level : Nat) (text : String) : List Json → String
  | [] => text
  | item :: items => writeItems level (write (level + 1) (text ++ "," ++ newline (level + 1)) item) items

def writeFields (level : Nat) (text : String) : List (String × Json) → String
  | [] => text
  | (name, value) :: fields =>
    writeFields level
      (write (level + 1) (text ++ "," ++ newline (level + 1) ++ quote name ++ ": ") value) fields

end

def render (value : Json) : String := write 0 "" value

end Json
end BoundedTuring
