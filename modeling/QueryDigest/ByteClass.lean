/-!
# QueryDigest.ByteClass

The byte classes a scan decides by. They are ASCII classes, free of any locale: a letter or digit
outside ASCII belongs to none of them, so it never starts a name or a number.

Each class is given on characters (`ByteClass.hasChar`) and read on bytes through the character
of the same number (`ByteClass.has`). A byte of a longer UTF-8 sequence is at least `0x80`, so
the two readings agree on every text (`has_toUInt8`, `has_eq_false`).
-/

namespace QueryDigest

/-- A set of ASCII characters. -/
inductive ByteClass where
  /-- A letter or `_`: the first byte of a bare name. -/
  | nameStart
  /-- A letter, a digit or `_`: a byte that continues a bare name. -/
  | nameContinue
  /-- A decimal digit. -/
  | digit
  /-- A hexadecimal digit, `.` or `x`: a byte that continues a number. -/
  | numberContinue
  /-- Space, tab, CR and LF. -/
  | whitespace
  /-- Tab, CR and LF: whitespace that is written as one space when runs are kept. -/
  | lineWhitespace
  /-- A byte after which a minus is a sign; of a longer operator, its last byte. -/
  | operator
deriving DecidableEq, Repr

namespace ByteClass

/-- Every class. -/
def all : List ByteClass :=
  [.nameStart, .nameContinue, .digit, .numberContinue, .whitespace, .lineWhitespace, .operator]

theorem mem_all (k : ByteClass) : k ∈ all := by
  cases k <;> decide

/-- The operator characters. -/
def operators : List Char :=
  ['<', '>', '=', '+', '-', '/', '*', '%', '&', '~', '|', '^', '(', ',']

/-- Does the class hold the character? -/
def hasChar : ByteClass → Char → Bool
  | nameStart, c => c.isAlpha || c == '_'
  | nameContinue, c => c.isAlphanum || c == '_'
  | digit, c => c.isDigit
  | numberContinue, c =>
    c.isDigit || ('a' ≤ c && c ≤ 'f') || ('A' ≤ c && c ≤ 'F') || c == '.' || c == 'x'
  | whitespace, c => c == ' ' || c == '\t' || c == '\r' || c == '\n'
  | lineWhitespace, c => c == '\t' || c == '\r' || c == '\n'
  | operator, c => operators.contains c

/-- Does the class hold the byte? -/
def has (k : ByteClass) (b : UInt8) : Bool :=
  k.hasChar (Char.ofUInt8 b)

/-- The classes that hold the byte, in the order of `all`. -/
def classesOf (b : UInt8) : List ByteClass :=
  all.filter (·.has b)

/-- An ASCII character and its byte are in the same classes. -/
theorem has_toUInt8 (k : ByteClass) (c : Char) (h : c.val < 128) :
    k.has c.toUInt8 = k.hasChar c := by
  have : Char.ofUInt8 c.toUInt8 = c := by
    apply Char.ext
    apply UInt32.toNat_inj.1
    have : c.val.toNat < 128 := UInt32.lt_iff_toNat_lt.1 h
    show c.val.toUInt8.toUInt32.toNat = c.val.toNat
    rw [UInt8.toNat_toUInt32, UInt32.toNat_toUInt8]
    omega
  rw [has, this]

/-- No byte outside ASCII is in a class. -/
theorem has_eq_false (k : ByteClass) (b : UInt8) (h : 128 ≤ b) : k.has b = false := by
  have key : ∀ n : Fin 256, 128 ≤ UInt8.ofNat n → ∀ k ∈ all, k.has (UInt8.ofNat n) = false := by
    decide +kernel
  have hb := key ⟨b.toNat, b.toNat_lt⟩
  simp only [UInt8.ofNat_toNat] at hb
  exact hb h k (mem_all k)

/-- The zero byte, which ends a padded text, is in no class. -/
theorem has_zero (k : ByteClass) : k.has 0 = false := by
  cases k <;> decide

end ByteClass

end QueryDigest
