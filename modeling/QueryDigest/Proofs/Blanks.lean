import QueryDigest.Proofs.Reading
import QueryDigest.Text.Blank

/-!
# QueryDigest.Proofs.Blanks

White space in the sense of Unicode among the tokens of a query. No name, no number and no quote has
it, so in front of a visible character it is a token by itself (`Reads.eq_of_last_blank`).
-/

namespace QueryDigest

open Text

namespace Scan

open ByteClass (whitespace digit nameStart nameContinue)

section Blanks

variable {r : Rules} {before rest : List Char} {t : Token} {c : Char}

/-- Which ASCII characters are blank can be tried out. -/
theorem not_isBlank_of_ascii {p : Char → Bool} (h : p c = true) (hc : c.toNat < 128)
    (hp : ∀ n : Fin 128, p (Char.ofNat n) = true → isBlank (Char.ofNat n) = false) :
    isBlank c = false := by
  have hblank := hp ⟨c.toNat, hc⟩
  rw [Char.ofNat_toNat] at hblank
  exact hblank h

theorem isBlank_of_whitespace (h : whitespace.hasChar c = true) : isBlank c = true := by
  rcases eq_of_whitespace h with rfl | rfl | rfl | rfl <;> decide

theorem not_isBlank_of_nameContinue (h : nameContinue.hasChar c = true) : isBlank c = false :=
  not_isBlank_of_ascii h (toNat_lt_of_hasChar h) (by decide +kernel)

theorem not_nameContinue_of_isBlank (hc : isBlank c = true) : nameContinue.hasChar c = false := by
  rw [Bool.eq_false_iff]
  intro h
  rw [not_isBlank_of_nameContinue h] at hc
  cases hc

theorem nameContinue_eq (c : Char) :
    nameContinue.hasChar c = (nameStart.hasChar c || digit.hasChar c) := by
  simp only [ByteClass.hasChar, Char.isAlphanum]
  cases c.isAlpha <;> cases c.isDigit <;> cases c == '_' <;> rfl

theorem not_isBlank_of_continuesDigits {prev : Char} (h : continuesDigits prev c = true) :
    isBlank c = false := by
  rw [continuesDigits, Bool.or_eq_true, Bool.and_eq_true, beq_iff_eq] at h
  rcases h with h | ⟨rfl, -⟩
  · exact not_isBlank_of_ascii h (toNat_lt_of_hasChar h) (by decide +kernel)
  · decide

theorem not_isBlank_of_continueDigits {prev : Char} {more : List Char}
    (h : continueDigits prev more = true) (hc : c ∈ more) : isBlank c = false := by
  induction more generalizing prev with
  | nil => cases hc
  | cons d more ih =>
    rw [continueDigits, Bool.and_eq_true] at h
    rcases List.mem_cons.1 hc with rfl | hc
    · exact not_isBlank_of_continuesDigits h.1
    · exact ih h.2 hc

theorem not_isBlank_of_beginsIdentifier {q : Quotes} (h : q.beginsIdentifier c = true) :
    isBlank c = false := by
  rw [Quotes.beginsIdentifier, Bool.or_eq_true, beq_iff_eq, beq_iff_eq] at h
  rcases h with rfl | rfl
  · exact not_isBlank_of_ascii q.delimiter_punctuation (toNat_lt_of_isAscii q.isAscii_delimiter)
      (by decide +kernel)
  · generalize q.dialect = d
    cases d <;> decide

/-- White space in front of a visible character is no part of a longer token. -/
theorem Reads.eq_of_last_blank (h : Reads r before t rest) (ht : t.spelling.getLast? = some c)
    (hc : isBlank c = true) (hrest : ∃ d ∈ rest.head?, endsLine d = false) :
    t = .blank c ∨ t = .other c := by
  have hno : isBlank c = false → t = .blank c ∨ t = .other c := by
    intro hblank
    rw [hc] at hblank
    cases hblank
  have hdigits : ∀ {first more}, digit.hasChar first = true → continueDigits first more = true →
      (first :: more).getLast? = some c → isBlank c = false := by
    intro first more hfirst hmore hlast
    rcases List.mem_cons.1 (List.mem_of_getLast? hlast) with rfl | hmem
    · have hdigit : continuesDigits c c = true := continuesDigits_of_digit hfirst
      exact not_isBlank_of_continuesDigits hdigit
    · exact not_isBlank_of_continueDigits hmore hmem
  cases h with
  | blank _ _ =>
    obtain rfl := Option.some.inj ht
    exact .inl rfl
  | other _ =>
    obtain rfl := Option.some.inj ht
    exact .inr rfl
  | @identifier q inner _ hq _ =>
    rw [Token.spelling, ← List.cons_append, List.getLast?_concat] at ht
    obtain rfl := Option.some.inj ht
    exact hno (not_isBlank_of_beginsIdentifier hq)
  | @string q body _ hq _ _ =>
    rw [Token.spelling, ← List.cons_append, List.getLast?_concat] at ht
    obtain rfl := Option.some.inj ht
    rcases (eq_of_beginsString hq).2 with rfl | rfl <;> cases hc
  | lineComment _ _ _ hr =>
    obtain ⟨d, hd, hline⟩ := hrest
    rw [hr d hd] at hline
    cases hline
  | @blockComment body _ _ _ =>
    have hslash : (Token.blockComment body).spelling = ('/' :: '*' :: (body ++ ['*'])) ++ ['/'] := by
      simp [Token.spelling]
    rw [hslash, List.getLast?_concat] at ht
    obtain rfl := Option.some.inj ht
    cases hc
  | number hfirst hmore _ => exact hno (hdigits hfirst hmore ht)
  | @signedNumber blanks first more _ _ _ _ hfirst hmore _ =>
    have hlast : (first :: more).getLast? = some c := by
      rw [Token.spelling, List.getLast?_append] at ht
      rwa [List.getLast?_cons] at ht ⊢
    exact hno (hdigits hfirst hmore hlast)
  | @name first more _ _ hfirst hmore _ =>
    refine hno (not_isBlank_of_nameContinue ?_)
    rcases List.mem_cons.1 (List.mem_of_getLast? ht) with rfl | hmem
    · rw [nameContinue_eq, hfirst, Bool.true_or]
    · exact hmore c hmem

end Blanks

end Scan
end QueryDigest
