import QueryDigest.Text.Ranges

/-!
# QueryDigest.Text.Blank

White space in the sense of Unicode (property `White_Space`), and trimming a text of it. It is
wider than the whitespace a scan collapses: it has the no-break space and the ideographic space,
for example.
-/

namespace QueryDigest
namespace Text

/-- The code points with property `White_Space`. -/
def blankRanges : Ranges :=
  [(0x9, 0xD), (0x20, 0x20), (0x85, 0x85), (0xA0, 0xA0), (0x1680, 0x1680), (0x2000, 0x200A),
   (0x2028, 0x2029), (0x202F, 0x202F), (0x205F, 0x205F), (0x3000, 0x3000)]

/-- Is the character white space? -/
def isBlank (c : Char) : Bool :=
  blankRanges.hold c

/-- The characters without the blank ones at the front. -/
def trimStart (cs : List Char) : List Char :=
  cs.dropWhile isBlank

/-- The characters without the blank ones at the end. -/
def trimEnd (cs : List Char) : List Char :=
  (cs.reverse.dropWhile isBlank).reverse

/-- Is every character blank? -/
def allBlank (text : String) : Bool :=
  text.all isBlank

end Text
end QueryDigest
