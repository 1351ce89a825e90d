/-!
White space as Unicode has it: the characters with the property `White_Space`, and the trimming of
a text at both ends.
-/

namespace CardRules.Text

/-- The characters with the Unicode property `White_Space`. -/
def isBlank (c : Char) : Bool :=
  let n := c.val
  (0x9 ≤ n && n ≤ 0xD) || n == 0x20 || n == 0x85 || n == 0xA0 || n == 0x1680 ||
    (0x2000 ≤ n && n ≤ 0x200A) || n == 0x2028 || n == 0x2029 || n == 0x202F || n == 0x205F ||
    n == 0x3000

/-- The text without the white space at its start and end. -/
def trim (text : String) : String :=
  let started := text.toList.dropWhile isBlank
  String.ofList (started.reverse.dropWhile isBlank).reverse

/-- Whether nothing but white space is there. -/
def isBlankText (text : String) : Bool := text.toList.all isBlank

end CardRules.Text
