/-!
# Blank characters

The characters with Unicode's `White_Space` property, and `trim`, which takes them off
both ends of a text. Zero-width spaces and the byte order mark are not among them.
-/

namespace ResourcePack

namespace Text

/-- The ranges of code points with the `White_Space` property. -/
def blankRanges : List (Nat × Nat) :=
  [(0x09, 0x0D), (0x20, 0x20), (0x85, 0x85), (0xA0, 0xA0), (0x1680, 0x1680),
    (0x2000, 0x200A), (0x2028, 0x2029), (0x202F, 0x202F), (0x205F, 0x205F), (0x3000, 0x3000)]

def isBlank (c : Char) : Bool :=
  blankRanges.any fun (first, last) => first ≤ c.toNat && c.toNat ≤ last

def trimChars (text : List Char) : List Char :=
  ((text.dropWhile isBlank).reverse.dropWhile isBlank).reverse

def trim (text : String) : String :=
  String.ofList (trimChars text.toList)

example : trim "\u2003 a b\u00a0\n" = "a b" ∧ trim "\u200ba" = "\u200ba" := by decide

end Text

end ResourcePack
