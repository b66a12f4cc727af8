/-! Blank characters and words. Blank means the Unicode property White_Space together with the four
    information separators U+001C to U+001F; words are made of ASCII letters, digits and the underscore. -/

namespace FormDirectives.Text

def isBlank (c : Char) : Bool :=
  (0x9 ≤ c.toNat && c.toNat ≤ 0xd) || (0x1c ≤ c.toNat && c.toNat ≤ 0x20) || c.toNat = 0x85 || c.toNat = 0xa0 ||
    c.toNat = 0x1680 || (0x2000 ≤ c.toNat && c.toNat ≤ 0x200a) || c.toNat = 0x2028 || c.toNat = 0x2029 ||
    c.toNat = 0x202f || c.toNat = 0x205f || c.toNat = 0x3000

/-- The characters without the blanks at either end. -/
def strip (cs : List Char) : List Char :=
  ((cs.dropWhile isBlank).reverse.dropWhile isBlank).reverse

def isWord (c : Char) : Bool := c.isAlphanum || c = '_'

end FormDirectives.Text
