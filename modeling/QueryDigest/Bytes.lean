/-!
# QueryDigest.Bytes

Searching a byte array from a position on. `findIdx?` of the standard library looks for one byte,
`findPair?` for two adjacent ones; both answer with the first position that fits
(`findIdx?_eq_some_iff`, `findPair?_eq_some_iff`) and with `none` only if none does
(`findIdx?_eq_none_iff`, `findPair?_eq_none_iff`).
-/

namespace QueryDigest
namespace Bytes

/-- The first position at or after `i` that holds `a` and has `b` right behind it. -/
def findPair? (bytes : ByteArray) (a b : UInt8) (i : Nat) : Option Nat :=
  if h : i + 1 < bytes.size then
    if bytes[i] == a && bytes[i + 1] == b then some i else findPair? bytes a b (i + 1)
  else
    none
termination_by bytes.size - i

theorem findIdx?_eq_some_iff {bytes : ByteArray} {p : UInt8 → Bool} {i j : Nat} :
    bytes.findIdx? p i = some j ↔
      i ≤ j ∧ (∃ h : j < bytes.size, p bytes[j] = true) ∧
        ∀ k (h : k < bytes.size), i ≤ k → k < j → p bytes[k] = false := by
  unfold ByteArray.findIdx?
  fun_induction ByteArray.findIdx?.loop bytes p i with
  | case1 x hx hp =>
    constructor
    · rintro h
      cases h
      exact ⟨Nat.le_refl _, ⟨hx, hp⟩, fun k _ _ _ => by omega⟩
    · rintro ⟨hle, _, hmin⟩
      by_cases hxj : x = j
      · rw [hxj]
      · have := hmin x hx (Nat.le_refl _) (by omega)
        simp [hp] at this
  | case2 x hx hp ih =>
    rw [ih]
    constructor
    · rintro ⟨hle, hj, hmin⟩
      refine ⟨by omega, hj, fun k hk hxk hkj => ?_⟩
      by_cases hkx : k = x
      · subst hkx
        simpa using hp
      · exact hmin k hk (by omega) hkj
    · rintro ⟨hle, ⟨hj, hpj⟩, hmin⟩
      have hne : x ≠ j := by
        rintro rfl
        exact hp hpj
      exact ⟨by omega, ⟨hj, hpj⟩, fun k hk hxk hkj => hmin k hk (by omega) hkj⟩
  | case3 x hx =>
    simp only [reduceCtorEq, false_iff]
    rintro ⟨hle, ⟨hj, _⟩, _⟩
    omega

theorem findIdx?_eq_none_iff {bytes : ByteArray} {p : UInt8 → Bool} {i : Nat} :
    bytes.findIdx? p i = none ↔ ∀ k (h : k < bytes.size), i ≤ k → p bytes[k] = false := by
  unfold ByteArray.findIdx?
  fun_induction ByteArray.findIdx?.loop bytes p i with
  | case1 x hx hp =>
    simp only [reduceCtorEq, false_iff]
    intro h
    have := h x hx (Nat.le_refl _)
    simp [hp] at this
  | case2 x hx hp ih =>
    rw [ih]
    constructor
    · intro h k hk hxk
      by_cases hkx : k = x
      · subst hkx
        simpa using hp
      · exact h k hk (by omega)
    · intro h k hk hxk
      exact h k hk (by omega)
  | case3 x hx =>
    simp only [true_iff]
    intro k hk hxk
    omega

theorem findPair?_eq_some_iff {bytes : ByteArray} {a b : UInt8} {i j : Nat} :
    findPair? bytes a b i = some j ↔
      i ≤ j ∧ (∃ h : j + 1 < bytes.size, bytes[j] = a ∧ bytes[j + 1] = b) ∧
        ∀ k (h : k + 1 < bytes.size), i ≤ k → k < j → ¬ (bytes[k] = a ∧ bytes[k + 1] = b) := by
  fun_induction findPair? bytes a b i with
  | case1 x hx hp =>
    simp only [Bool.and_eq_true, beq_iff_eq] at hp
    constructor
    · rintro h
      cases h
      exact ⟨Nat.le_refl _, ⟨hx, hp⟩, fun k _ _ _ => by omega⟩
    · rintro ⟨hle, _, hmin⟩
      by_cases hxj : x = j
      · rw [hxj]
      · exact absurd hp (hmin x hx (Nat.le_refl _) (by omega))
  | case2 x hx hp ih =>
    simp only [Bool.and_eq_true, beq_iff_eq] at hp
    rw [ih]
    constructor
    · rintro ⟨hle, hj, hmin⟩
      refine ⟨by omega, hj, fun k hk hxk hkj => ?_⟩
      by_cases hkx : k = x
      · subst hkx
        exact hp
      · exact hmin k hk (by omega) hkj
    · rintro ⟨hle, ⟨hj, hpj⟩, hmin⟩
      have hne : x ≠ j := by
        rintro rfl
        exact hp hpj
      exact ⟨by omega, ⟨hj, hpj⟩, fun k hk hxk hkj => hmin k hk (by omega) hkj⟩
  | case3 x hx =>
    simp only [reduceCtorEq, false_iff]
    rintro ⟨hle, ⟨hj, _⟩, _⟩
    omega

theorem findPair?_eq_none_iff {bytes : ByteArray} {a b : UInt8} {i : Nat} :
    findPair? bytes a b i = none ↔
      ∀ k (h : k + 1 < bytes.size), i ≤ k → ¬ (bytes[k] = a ∧ bytes[k + 1] = b) := by
  fun_induction findPair? bytes a b i with
  | case1 x hx hp =>
    simp only [Bool.and_eq_true, beq_iff_eq] at hp
    simp only [reduceCtorEq, false_iff]
    intro h
    exact h x hx (Nat.le_refl _) hp
  | case2 x hx hp ih =>
    simp only [Bool.and_eq_true, beq_iff_eq] at hp
    rw [ih]
    constructor
    · intro h k hk hxk
      by_cases hkx : k = x
      · subst hkx
        exact hp
      · exact h k hk (by omega)
    · intro h k hk hxk
      exact h k hk (by omega)
  | case3 x hx =>
    simp only [true_iff]
    intro k hk hxk
    omega

end Bytes
end QueryDigest
