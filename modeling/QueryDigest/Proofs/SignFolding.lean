import QueryDigest.Sign

/-!
# QueryDigest.Proofs.SignFolding

Which minuses are signs. The search behind a minus stops at the first byte that is not whitespace, and
so does the search before it (`digitAfter_eq_some_iff`, `byteBefore_eq_some_iff`). Hence a minus is the
sign of a digit exactly where only whitespace is between the two and the last byte before the minus,
whitespace apart, allows a sign (`foldedDigit_exact`).

Of two minuses the earlier one has no digit behind the later one, for a minus is not whitespace. So a
number has one sign at most.
-/

namespace QueryDigest
namespace Sign

/-! ## Bytes -/

/-- Space, tab, CR or LF. -/
def IsBlankByte (b : UInt8) : Prop :=
  b = ' '.toUInt8 ∨ b = '\t'.toUInt8 ∨ b = '\r'.toUInt8 ∨ b = '\n'.toUInt8

/-- A decimal digit. -/
def IsDigitByte (b : UInt8) : Prop :=
  '0'.toUInt8 ≤ b ∧ b ≤ '9'.toUInt8

/-- A byte that a sign may follow: an operator, a letter or `_`. -/
def AllowsSign (b : UInt8) : Prop :=
  b ∈ ['<', '>', '=', '+', '-', '/', '*', '%', '&', '~', '|', '^', '(', ','].map Char.toUInt8 ∨
    ('A'.toUInt8 ≤ b ∧ b ≤ 'Z'.toUInt8) ∨ ('a'.toUInt8 ≤ b ∧ b ≤ 'z'.toUInt8) ∨ b = '_'.toUInt8

theorem forall_byte {p : UInt8 → Prop} (h : ∀ n : Fin 256, p (UInt8.ofNat n)) (b : UInt8) : p b := by
  have hb := h ⟨b.toNat, b.toNat_lt⟩
  rwa [UInt8.ofNat_toNat] at hb

theorem whitespace_iff (b : UInt8) : ByteClass.whitespace.has b = true ↔ IsBlankByte b := by
  revert b
  refine forall_byte ?_
  simp only [IsBlankByte]
  decide +kernel

theorem digit_iff (b : UInt8) : ByteClass.digit.has b = true ↔ IsDigitByte b := by
  revert b
  refine forall_byte ?_
  simp only [IsDigitByte]
  decide +kernel

theorem operator_or_nameStart_iff (b : UInt8) :
    (ByteClass.operator.has b || ByteClass.nameStart.has b) = true ↔ AllowsSign b := by
  revert b
  refine forall_byte ?_
  simp only [AllowsSign]
  decide +kernel

theorem AllowsSign.not_blank {b : UInt8} (h : AllowsSign b) :
    ByteClass.whitespace.has b = false := by
  have key : ∀ b : UInt8, (ByteClass.operator.has b || ByteClass.nameStart.has b) = true →
      ByteClass.whitespace.has b = false := forall_byte (by decide +kernel)
  exact key b ((operator_or_nameStart_iff b).2 h)

theorem IsDigitByte.not_blank {b : UInt8} (h : IsDigitByte b) :
    ByteClass.whitespace.has b = false := by
  have key : ∀ b : UInt8, ByteClass.digit.has b = true → ByteClass.whitespace.has b = false :=
    forall_byte (by decide +kernel)
  exact key b ((digit_iff b).2 h)

/-! ## The two searches -/

/-- Every byte between the two positions is whitespace. -/
def BlankBetween (bytes : ByteArray) (i j : Nat) : Prop :=
  ∀ k, i < k → k < j → ∃ b, bytes[k]? = some b ∧ IsBlankByte b

section Search

variable {bytes : ByteArray} {i j n minus first : Nat} {b : UInt8}

theorem blankBetween_succ_self (bytes : ByteArray) (n : Nat) : BlankBetween bytes n (n + 1) := by
  intro k hlt hgt
  omega

theorem BlankBetween.succ (h : BlankBetween bytes j n) (hb : bytes[n]? = some b)
    (hblank : IsBlankByte b) : BlankBetween bytes j (n + 1) := by
  intro k hlt hgt
  by_cases hkn : k = n
  · subst hkn
    exact ⟨b, hb, hblank⟩
  · exact h k hlt (by omega)

theorem BlankBetween.of_succ (h : BlankBetween bytes j (n + 1)) : BlankBetween bytes j n := by
  intro k hlt hgt
  exact h k hlt (by omega)

/-- The search backwards finds the last byte that is not whitespace. -/
theorem lastVisible_eq_some_iff : lastVisible bytes n = some b ↔
    ∃ j < n, bytes[j]? = some b ∧ ByteClass.whitespace.has b = false ∧ BlankBetween bytes j n := by
  induction n with
  | zero =>
    constructor
    · intro h
      cases h
    · rintro ⟨j, hj, -⟩
      omega
  | succ n ih =>
    rw [lastVisible]
    cases hn : bytes[n]? with
    | none =>
      constructor
      · intro h
        cases h
      · rintro ⟨j, hj, hb, -, hbetween⟩
        by_cases hjn : j = n
        · subst hjn
          cases hn.symm.trans hb
        · obtain ⟨c, hc, -⟩ := hbetween n (by omega) (by omega)
          cases hn.symm.trans hc
    | some c =>
      simp only
      by_cases hc : ByteClass.whitespace.has c = true
      · rw [if_pos hc, ih]
        constructor
        · rintro ⟨j, hj, hb, hvisible, hbetween⟩
          exact ⟨j, by omega, hb, hvisible, hbetween.succ hn ((whitespace_iff c).1 hc)⟩
        · rintro ⟨j, hj, hb, hvisible, hbetween⟩
          refine ⟨j, ?_, hb, hvisible, hbetween.of_succ⟩
          have hjn : j ≠ n := by
            rintro rfl
            obtain rfl := Option.some.inj (hn.symm.trans hb)
            rw [hc] at hvisible
            cases hvisible
          omega
      · rw [if_neg hc]
        constructor
        · intro h
          obtain rfl := Option.some.inj h
          exact ⟨n, by omega, hn, Bool.eq_false_iff.2 hc, blankBetween_succ_self bytes n⟩
        · rintro ⟨j, hj, hb, -, hbetween⟩
          by_cases hjn : j = n
          · subst hjn
            exact hn.symm.trans hb
          · -- a byte further on is not whitespace
            obtain ⟨d, hd, hblank⟩ := hbetween n (by omega) (by omega)
            obtain rfl := Option.some.inj (hn.symm.trans hd)
            exact absurd ((whitespace_iff c).2 hblank) hc

theorem byteBefore_eq_some_iff : byteBefore bytes n = some b ↔
    ∃ j < n, bytes[j]? = some b ∧ ByteClass.whitespace.has b = false ∧ BlankBetween bytes j n := by
  rw [← lastVisible_eq_some_iff, byteBefore]
  by_cases hn : n ≤ bytes.size
  · rw [if_pos hn]
  · rw [if_neg hn]
    -- past the end there is no byte to begin with
    obtain ⟨n, rfl⟩ : ∃ m, n = m + 1 := ⟨n - 1, by omega⟩
    rw [lastVisible, getElem?_neg bytes n (by omega)]

theorem hasContext_iff : hasContext bytes minus = true ↔
    ∃ j < minus, (∃ b, bytes[j]? = some b ∧ AllowsSign b) ∧ BlankBetween bytes j minus := by
  rw [hasContext, Option.any_eq_true]
  constructor
  · rintro ⟨b, hb, hsign⟩
    obtain ⟨j, hj, hjb, -, hbetween⟩ := byteBefore_eq_some_iff.1 hb
    exact ⟨j, hj, ⟨b, hjb, (operator_or_nameStart_iff b).1 hsign⟩, hbetween⟩
  · rintro ⟨j, hj, ⟨b, hjb, hsign⟩, hbetween⟩
    exact ⟨b, byteBefore_eq_some_iff.2 ⟨j, hj, hjb, hsign.not_blank, hbetween⟩,
      (operator_or_nameStart_iff b).2 hsign⟩

/-- The search forwards finds the first byte that is not whitespace, and accepts a digit. -/
theorem digitAfter_eq_some_iff : digitAfter bytes minus = some first ↔
    minus < first ∧ (∃ b, bytes[first]? = some b ∧ IsDigitByte b) ∧
      BlankBetween bytes minus first := by
  have hfind : (∃ b, bytes[first]? = some b ∧ ByteClass.whitespace.has b = false) →
      (bytes.findIdx? (fun b => !ByteClass.whitespace.has b) (minus + 1) = some first ↔
        minus < first ∧ BlankBetween bytes minus first) := by
    rintro ⟨b, hb, hvisible⟩
    obtain ⟨hlt, hbyte⟩ := getElem?_eq_some_iff.1 hb
    rw [Bytes.findIdx?_eq_some_iff]
    constructor
    · rintro ⟨hle, -, hmin⟩
      refine ⟨hle, fun k hlow hhigh => ?_⟩
      have hk : k < bytes.size := by omega
      have := hmin k hk hlow hhigh
      rw [Bool.not_eq_false', whitespace_iff] at this
      exact ⟨bytes[k], getElem?_pos bytes k hk, this⟩
    · rintro ⟨hle, hbetween⟩
      refine ⟨hle, ⟨hlt, by rw [hbyte, hvisible]; rfl⟩, fun k hk hlow hhigh => ?_⟩
      obtain ⟨c, hc, hblank⟩ := hbetween k hlow hhigh
      rw [getElem?_pos bytes k hk, Option.some.injEq] at hc
      rw [hc, Bool.not_eq_false', whitespace_iff]
      exact hblank
  rw [digitAfter]
  constructor
  · intro h
    split at h
    · rename_i i hi
      by_cases hdigit : bytes[i]?.any ByteClass.digit.has = true
      · rw [if_pos hdigit, Option.some.injEq] at h
        subst h
        obtain ⟨b, hb, hd⟩ := (Option.any_eq_true _ _).1 hdigit
        have hd := (digit_iff b).1 hd
        obtain ⟨hlt, hbetween⟩ := (hfind ⟨b, hb, hd.not_blank⟩).1 hi
        exact ⟨hlt, ⟨b, hb, hd⟩, hbetween⟩
      · rw [if_neg hdigit] at h
        cases h
    · cases h
  · rintro ⟨hlt, ⟨b, hb, hd⟩, hbetween⟩
    rw [(hfind ⟨b, hb, hd.not_blank⟩).2 ⟨hlt, hbetween⟩]
    simp only [hb, Option.any_some]
    exact if_pos ((digit_iff b).2 hd)

end Search

/-! ## Signs -/

/-- The minus at `minus` is the sign of the digit at `first`. -/
structure SignOf (bytes : ByteArray) (minus first : Nat) : Prop where
  lt : minus < first
  digit : ∃ b, bytes[first]? = some b ∧ IsDigitByte b
  blanks : BlankBetween bytes minus first
  context : ∃ j < minus, (∃ b, bytes[j]? = some b ∧ AllowsSign b) ∧ BlankBetween bytes j minus

theorem foldedDigit_eq_some_iff {bytes : ByteArray} {minus first : Nat} :
    foldedDigit bytes minus = some first ↔ SignOf bytes minus first := by
  rw [foldedDigit]
  by_cases hcontext : hasContext bytes minus = true
  · rw [if_pos hcontext, digitAfter_eq_some_iff]
    constructor
    · rintro ⟨hlt, hdigit, hblanks⟩
      exact ⟨hlt, hdigit, hblanks, hasContext_iff.1 hcontext⟩
    · rintro ⟨hlt, hdigit, hblanks, -⟩
      exact ⟨hlt, hdigit, hblanks⟩
  · rw [if_neg hcontext]
    constructor
    · intro h
      cases h
    · intro h
      exact absurd (hasContext_iff.2 h.context) hcontext

/-- No minus stands between a sign and its digit. -/
theorem SignOf.not_minus_between {bytes : ByteArray} {minus first k : Nat}
    (h : SignOf bytes minus first) (hlow : minus < k) (hhigh : k < first) :
    bytes[k]? ≠ some '-'.toUInt8 := by
  intro hk
  obtain ⟨b, hb, hblank⟩ := h.blanks k hlow hhigh
  obtain rfl := Option.some.inj (hk.symm.trans hb)
  rw [← whitespace_iff] at hblank
  exact absurd hblank (by decide)

/-- A minus is the sign of the digit behind it, whitespace between them, if the last visible byte
before it allows a sign, and of no other digit. Two minuses are not signs of one digit. -/
theorem foldedDigit_exact (bytes : ByteArray) (minus : Nat)
    (hminus : bytes[minus]? = some '-'.toUInt8) :
    (∀ first, foldedDigit bytes minus = some first ↔ SignOf bytes minus first) ∧
      (foldedDigit bytes minus = none ↔ ¬ ∃ first, SignOf bytes minus first) ∧
      ∀ minus' first first', minus ≠ minus' → bytes[minus']? = some '-'.toUInt8 →
        foldedDigit bytes minus = some first → foldedDigit bytes minus' = some first' →
        first ≠ first' := by
  refine ⟨fun first => foldedDigit_eq_some_iff, ?_, ?_⟩
  · simp only [← foldedDigit_eq_some_iff, Option.eq_none_iff_forall_ne_some, not_exists, ne_eq]
  · rintro minus' first _ hne hminus' h h' rfl
    rw [foldedDigit_eq_some_iff] at h h'
    rcases Nat.lt_or_gt_of_ne hne with hlt | hlt
    · exact h.not_minus_between hlt h'.lt hminus'
    · exact h'.not_minus_between hlt h.lt hminus

/-- `(- 1,--2`: the last of the two minuses behind the comma is the sign. -/
theorem foldedDigit_exact_signs : ∃ bytes : ByteArray, bytes = "(- 1,--2".toUTF8 ∧
    bytes[1]? = some '-'.toUInt8 ∧ bytes[6]? = some '-'.toUInt8 ∧
    foldedDigit bytes 1 = some 3 ∧ foldedDigit bytes 5 = none ∧ foldedDigit bytes 6 = some 7 ∧
    SignOf bytes 1 3 ∧ (¬ ∃ first, SignOf bytes 5 first) ∧ 3 ≠ 7 := by
  refine ⟨_, rfl, ?_⟩
  have hfirst : "(- 1,--2".toUTF8[1]? = some '-'.toUInt8 := by decide +kernel
  have hmiddle : "(- 1,--2".toUTF8[5]? = some '-'.toUInt8 := by decide +kernel
  have hlast : "(- 1,--2".toUTF8[6]? = some '-'.toUInt8 := by decide +kernel
  have h₁ : foldedDigit "(- 1,--2".toUTF8 1 = some 3 := by decide +kernel
  have h₅ : foldedDigit "(- 1,--2".toUTF8 5 = none := by decide +kernel
  have h₆ : foldedDigit "(- 1,--2".toUTF8 6 = some 7 := by decide +kernel
  obtain ⟨hiff, -, hdistinct⟩ := foldedDigit_exact _ 1 hfirst
  obtain ⟨-, hnone, -⟩ := foldedDigit_exact _ 5 hmiddle
  exact ⟨hfirst, hlast, h₁, h₅, h₆, (hiff 3).1 h₁, hnone.1 h₅,
    hdistinct 6 3 7 (by decide) hlast h₁ h₆⟩

end Sign
end QueryDigest
