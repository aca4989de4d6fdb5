import StackParser.Text.CharClass

/-!
# White space

`isBlank` : the characters with the Unicode property White_Space. A word ends where one stands.
-/

namespace StackParser

/-- The 25 characters of the Unicode property White_Space. -/
def CharClass.blank : CharClass where
  ranges := [
    (0x9, 0xD), (0x20, 0x20), (0x85, 0x85), (0xA0, 0xA0), (0x1680, 0x1680), (0x2000, 0x200A),
    (0x2028, 0x2029), (0x202F, 0x202F), (0x205F, 0x205F), (0x3000, 0x3000)]

/-- Whether `c` separates words. -/
def isBlank (c : Char) : Bool := CharClass.blank.contains c

end StackParser
