/-!
# QueryDigest.Text.Ranges

Sets of characters given by ranges of code points, as the tables of character properties are.
-/

namespace QueryDigest
namespace Text

/-- Code point ranges, both ends included. -/
abbrev Ranges := List (Nat × Nat)

/-- Does a range hold the code point of the character? -/
def Ranges.hold (ranges : Ranges) (c : Char) : Bool :=
  ranges.any fun (first, last) => first ≤ c.toNat && c.toNat ≤ last

end Text
end QueryDigest
