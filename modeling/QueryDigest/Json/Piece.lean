/-!
# QueryDigest.Json.Piece

The inside of a JSON string: characters that stand for themselves and escapes. An escape by number
names a UTF-16 unit, so a character beyond the first 65536 takes two of them, and a string with
half of such a pair has no text (`text?`).
-/

namespace QueryDigest
namespace Json

/-- A character of a string, or a unit that an escape names. -/
inductive Piece where
  | char (c : Char)
  | unit (code : Nat)
deriving DecidableEq, Repr

/-- Is the unit the first half of a pair? -/
def isHighHalf (code : Nat) : Bool :=
  0xD800 ≤ code && code ≤ 0xDBFF

/-- Is the unit the second half of a pair? -/
def isLowHalf (code : Nat) : Bool :=
  0xDC00 ≤ code && code ≤ 0xDFFF

/-- The character of a pair. -/
def joinHalves (high low : Nat) : Char :=
  Char.ofNat (0x10000 + (high - 0xD800) * 0x400 + (low - 0xDC00))

/-- The characters of the pieces; none if half of a pair stands alone. -/
def text? : List Piece → Option (List Char)
  | [] => some []
  | .char c :: rest => (text? rest).map (c :: ·)
  | .unit high :: .unit low :: rest =>
    if isHighHalf high then
      if isLowHalf low then (text? rest).map (joinHalves high low :: ·) else none
    else if isLowHalf high then none
    else (text? (.unit low :: rest)).map (Char.ofNat high :: ·)
  | .unit code :: rest =>
    if isHighHalf code || isLowHalf code then none
    else (text? rest).map (Char.ofNat code :: ·)

/-- The value of a hexadecimal digit. -/
def hexValue? (c : Char) : Option Nat :=
  if '0' ≤ c && c ≤ '9' then some (c.toNat - '0'.toNat)
  else if 'a' ≤ c && c ≤ 'f' then some (c.toNat - 'a'.toNat + 10)
  else if 'A' ≤ c && c ≤ 'F' then some (c.toNat - 'A'.toNat + 10)
  else none

/-- The value of four hexadecimal digits. -/
def hexValue4? (a b c d : Char) : Option Nat := do
  let a ← hexValue? a
  let b ← hexValue? b
  let c ← hexValue? c
  let d ← hexValue? d
  return ((a * 16 + b) * 16 + c) * 16 + d

/-- The character that a backslash and this letter stand for. -/
def shortEscape? : Char → Option Char
  | '\x22' => some '\x22'
  | '\x5c' => some '\x5c'
  | '/' => some '/'
  | 'b' => some '\x08'
  | 'f' => some '\x0c'
  | 'n' => some '\n'
  | 'r' => some '\r'
  | 't' => some '\t'
  | _ => none

/-- The pieces up to the quotation mark that ends a string, and what follows it. A control
character has to be escaped. -/
def readPieces? : List Char → Option (List Piece × List Char)
  | [] => none
  | '\x22' :: rest => some ([], rest)
  | '\x5c' :: 'u' :: a :: b :: c :: d :: rest => do
    let code ← hexValue4? a b c d
    let (pieces, rest) ← readPieces? rest
    return (.unit code :: pieces, rest)
  | '\x5c' :: letter :: rest => do
    let c ← shortEscape? letter
    let (pieces, rest) ← readPieces? rest
    return (.char c :: pieces, rest)
  | c :: rest =>
    if 0x20 ≤ c.toNat && c != '\x5c' then do
      let (pieces, rest) ← readPieces? rest
      return (.char c :: pieces, rest)
    else none

/-- What follows a string is shorter than the string and it. -/
theorem length_of_readPieces? {s rest : List Char} {pieces : List Piece}
    (h : readPieces? s = some (pieces, rest)) : rest.length < s.length := by
  fun_induction readPieces? s generalizing pieces with
  | case1 => cases h
  | case2 r => cases h; simp
  | case3 a b c d r ih =>
    simp only [Option.bind_eq_bind, Option.bind_eq_some_iff, Option.pure_def, Option.some.injEq,
      Prod.mk.injEq, Prod.exists] at h
    obtain ⟨code, _, ps, r', hr, rfl, rfl⟩ := h
    have := ih hr
    simp only [List.length_cons]
    omega
  | case4 letter r _ ih =>
    simp only [Option.bind_eq_bind, Option.bind_eq_some_iff, Option.pure_def, Option.some.injEq,
      Prod.mk.injEq, Prod.exists] at h
    obtain ⟨code, _, ps, r', hr, rfl, rfl⟩ := h
    have := ih hr
    simp only [List.length_cons]
    omega
  | case5 c r _ _ _ _ ih =>
    simp only [Option.bind_eq_bind, Option.bind_eq_some_iff, Option.pure_def, Option.some.injEq,
      Prod.mk.injEq, Prod.exists] at h
    obtain ⟨ps, r', hr, rfl, rfl⟩ := h
    have := ih hr
    simp only [List.length_cons]
    omega
  | case6 => cases h

end Json
end QueryDigest
