/-!
# White space

The characters Unicode calls white space.  A tape symbol may hold none of them.
-/
namespace BoundedTuring
namespace Text

/-- The white space characters: the ASCII controls from tab to carriage return, the space, and the
separators and fixed-width spaces above ASCII. -/
def isBlank (c : Char) : Bool :=
  let n := c.toNat
  (9 ≤ n && n ≤ 13) || n == 0x20 || n == 0x85 || n == 0xA0 || n == 0x1680 || (0x2000 ≤ n && n ≤ 0x200A) ||
    n == 0x2028 || n == 0x2029 || n == 0x202F || n == 0x205F || n == 0x3000

end Text
end BoundedTuring
