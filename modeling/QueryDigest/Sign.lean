import QueryDigest.ByteClass
import QueryDigest.Bytes

/-!
# QueryDigest.Sign

When a minus belongs to the number after it. In `a = -1` it does, in `1 - 1` it does not; what
stands next to it, whitespace apart, decides: a digit after it, and before it an operator, a
letter or `_`. A minus with nothing before it is no sign.

All positions are byte offsets and may lie past the end, where nothing is found.
-/

namespace QueryDigest
namespace Sign

/-- The position of the digit that follows the minus at `minus`, whitespace between them. -/
def digitAfter (bytes : ByteArray) (minus : Nat) : Option Nat :=
  match bytes.findIdx? (fun b => !ByteClass.whitespace.has b) (minus + 1) with
  | some i => if bytes[i]?.any ByteClass.digit.has then some i else none
  | none => none

/-- The last byte before position `n` that is not whitespace, for `n` at most the size. -/
def lastVisible (bytes : ByteArray) : Nat → Option UInt8
  | 0 => none
  | n + 1 =>
    match bytes[n]? with
    | some b => if ByteClass.whitespace.has b then lastVisible bytes n else some b
    | none => none

/-- The last byte before `pos` that is not whitespace; none where `pos` is past the end. -/
def byteBefore (bytes : ByteArray) (pos : Nat) : Option UInt8 :=
  if pos ≤ bytes.size then lastVisible bytes pos else none

/-- Does what stands before the minus at `minus` allow it to be a sign? -/
def hasContext (bytes : ByteArray) (minus : Nat) : Bool :=
  (byteBefore bytes minus).any fun b => ByteClass.operator.has b || ByteClass.nameStart.has b

/-- The position of the digit that the minus at `minus` is a sign of. -/
def foldedDigit (bytes : ByteArray) (minus : Nat) : Option Nat :=
  if hasContext bytes minus then digitAfter bytes minus else none

/-- The digit stands behind the minus. -/
theorem lt_of_foldedDigit {bytes : ByteArray} {minus i : Nat}
    (h : foldedDigit bytes minus = some i) : minus < i := by
  unfold foldedDigit at h
  split at h
  · unfold digitAfter at h
    split at h
    · rename_i j hj
      have hle := (Bytes.findIdx?_eq_some_iff.1 hj).1
      split at h
      · cases h
        omega
      · cases h
    · cases h
  · cases h

end Sign
end QueryDigest
