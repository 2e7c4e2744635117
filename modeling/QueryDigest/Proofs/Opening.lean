import QueryDigest.Proofs.Beginning

/-!
# QueryDigest.Proofs.Opening

How a token begins that is more than one character. The scan passes its `Opening` in one step and
is then in the mode of the opening. `Opens r before op rest` says that `op` may be passed between
`before` and `rest`; what begins there is then the lead of the opening (`Opens.lead`).
-/

namespace QueryDigest

open Text

namespace Scan

/-! ## Characters of different kinds -/

theorem eq_of_whitespace {c : Char} (h : ByteClass.whitespace.hasChar c = true) :
    c = ' ' ∨ c = '\t' ∨ c = '\r' ∨ c = '\n' := by
  simp only [ByteClass.hasChar, Bool.or_eq_true, beq_iff_eq, or_assoc] at h
  exact h

theorem not_lineWhitespace {c : Char} (h : ByteClass.whitespace.hasChar c = false) :
    ByteClass.lineWhitespace.hasChar c = false := by
  simp only [ByteClass.hasChar, Bool.or_eq_false_iff] at h ⊢
  exact ⟨⟨h.1.1.2, h.1.2⟩, h.2⟩

/-- Where runs are written as one space, no white space is a token by itself. -/
theorem Alone.not_whitespace {r : Rules} {before rest : List Char} {c : Char}
    (h : Alone r before c rest) (hs : r.strip = true) : ByteClass.whitespace.hasChar c = false := by
  have hblank := h.blank
  rwa [hs, Bool.true_and] at hblank

theorem not_whitespace_of {p : Char → Bool} {c : Char} (h : p c = true)
    (hp : p ' ' = false ∧ p '\t' = false ∧ p '\r' = false ∧ p '\n' = false) :
    ByteClass.whitespace.hasChar c = false := by
  obtain ⟨hspace, htab, hreturn, hline⟩ := hp
  rw [Bool.eq_false_iff]
  intro hw
  rcases eq_of_whitespace hw with rfl | rfl | rfl | rfl
  · exact absurd h (Bool.eq_false_iff.1 hspace)
  · exact absurd h (Bool.eq_false_iff.1 htab)
  · exact absurd h (Bool.eq_false_iff.1 hreturn)
  · exact absurd h (Bool.eq_false_iff.1 hline)

theorem not_whitespace_of_beginsIdentifier {q : Quotes} {c : Char}
    (h : q.beginsIdentifier c = true) : ByteClass.whitespace.hasChar c = false := by
  simp only [Quotes.beginsIdentifier, Bool.or_eq_true, beq_iff_eq] at h
  rcases h with rfl | rfl
  · exact not_whitespace_of q.delimiter_punctuation (by decide)
  · cases q.dialect <;> decide

theorem not_digit_of_beginsIdentifier {q : Quotes} {c : Char}
    (h : q.beginsIdentifier c = true) : ByteClass.digit.hasChar c = false := by
  simp only [Quotes.beginsIdentifier, Bool.or_eq_true, beq_iff_eq] at h
  rcases h with rfl | rfl
  · have hp := q.delimiter_punctuation
    simp only [isAsciiPunctuation, Bool.and_eq_true, Bool.not_eq_true', Char.isAlphanum,
      Bool.or_eq_false_iff] at hp
    exact hp.2.2
  · cases q.dialect <;> decide

theorem eq_of_beginsString {q : Quotes} {c : Char} (h : q.beginsString c = true) :
    q.beginsIdentifier c = false ∧ (c = '\x27' ∨ c = '\x22') := by
  simp only [Quotes.beginsString, Bool.and_eq_true, Bool.not_eq_true', Bool.or_eq_true,
    beq_iff_eq] at h
  refine ⟨h.1, ?_⟩
  rcases h.2 with rfl | rfl
  · exact .inl rfl
  · cases q.dialect
    · exact .inr rfl
    · exact .inl rfl

theorem not_beginsString {q : Quotes} {c : Char} (h₁ : c ≠ '\x27') (h₂ : c ≠ '\x22') :
    q.beginsString c = false := by
  rw [Bool.eq_false_iff]
  intro h
  rcases (eq_of_beginsString h).2 with rfl | rfl
  · exact h₁ rfl
  · exact h₂ rfl

theorem ne_of_hasChar {k : ByteClass} {c d : Char} (hc : k.hasChar c = true)
    (hd : k.hasChar d = false) : c ≠ d := by
  rintro rfl
  rw [hc] at hd
  cases hd

theorem not_whitespace_of_digit {c : Char} (h : ByteClass.digit.hasChar c = true) :
    ByteClass.whitespace.hasChar c = false :=
  not_whitespace_of h (by decide)

theorem not_whitespace_of_nameStart {c : Char} (h : ByteClass.nameStart.hasChar c = true) :
    ByteClass.whitespace.hasChar c = false :=
  not_whitespace_of h (by decide)

theorem not_digit_of_nameStart {c : Char} (h : ByteClass.nameStart.hasChar c = true) :
    ByteClass.digit.hasChar c = false := by
  rw [Bool.eq_false_iff]
  intro hd
  simp only [ByteClass.hasChar, isAlpha_iff, Char.isDigit, Bool.or_eq_true, Bool.and_eq_true,
    decide_eq_true_eq, beq_iff_eq, Char.le_def, UInt32.le_iff_toNat_le] at h hd
  have hnine : '9'.val.toNat = 57 := rfl
  rcases h with (h | h) | rfl
  · have : 'A'.val.toNat = 65 := rfl
    omega
  · have : 'a'.val.toNat = 97 := rfl
    omega
  · exact absurd hd.2 (by decide)

theorem ne_backslash_of_beginsString {q : Quotes} {c : Char} (h : q.beginsString c = true) :
    c ≠ '\\' := by
  rcases (eq_of_beginsString h).2 with rfl | rfl <;> decide

theorem minusAndBlank_cons (c : Char) (cs : List Char) :
    minusAndBlank (c :: cs) = (c == '-' && cs.head?.any fun m => m == ' ' || m == '\t') := by
  by_cases hc : c = '-'
  · subst hc
    cases cs <;> rfl
  · rw [beq_false_of_ne hc, Bool.false_and]
    unfold minusAndBlank
    split
    · rename_i heq
      cases heq
      exact absurd rfl hc
    · rfl

theorem minusAndBlank_of_head {cs : List Char} (h : ∀ c ∈ cs.head?, c ≠ '-') :
    minusAndBlank cs = false := by
  cases cs with
  | nil => rfl
  | cons c cs => rw [minusAndBlank_cons, beq_false_of_ne (h c rfl), Bool.false_and]

theorem not_minusAndBlank {blanks rest : List Char} {first : Char}
    (hb : ∀ c ∈ blanks, ByteClass.whitespace.hasChar c = true)
    (hd : ByteClass.digit.hasChar first = true) :
    minusAndBlank (blanks ++ first :: rest) = false := by
  refine minusAndBlank_of_head ?_
  cases blanks with
  | nil =>
    rintro c ⟨⟩
    exact ne_of_hasChar hd (by decide)
  | cons d ds =>
    rintro c ⟨⟩
    exact ne_of_hasChar (hb d List.mem_cons_self) (by decide)

/-! ## Openings -/

/-- The first part of a token. -/
inductive Opening where
  | identifier (quote : Char)
  | string (quote : Char)
  | lineComment (mark : Char)
  | blockComment
  | number (sign : List Char)
  | name (first : Char)
deriving DecidableEq, Repr

namespace Opening

/-- The characters passed. -/
def passed : Opening → List Char
  | identifier quote | string quote => [quote]
  | lineComment mark => ['-', '-', mark]
  | blockComment => ['/', '*']
  | number sign => sign
  | name first => [first]

/-- The mode behind it. -/
def mode : Opening → Mode
  | identifier quote => .identifier quote.toUInt8
  | string quote => .string quote.toUInt8
  | lineComment _ => .lineComment
  | blockComment => .blockComment
  | number _ => .number
  | name _ => .name

/-- What has been written for it. -/
def begun (r : Rules) : Opening → List Char
  | identifier _ => [r.quotes.delimiter]
  | name first => [first]
  | string _ | lineComment _ | blockComment | number _ => []

/-- What a scan sees of it, with `before` in front. -/
def lead (before : List Char) : Opening → Lead
  | identifier quote => .identifierQuote quote.toUInt8
  | string quote => .stringQuote quote.toUInt8
  | lineComment _ => .lineComment
  | blockComment => .blockComment
  | number [] => .number
  | number (c :: sign) => .signedNumber (width (before ++ c :: sign))
  | name first => .name first

end Opening

/-- Between `before` and `rest`, the opening is passed. -/
inductive Opens (r : Rules) (before : List Char) : Opening → List Char → Prop where
  | identifier {q : Char} {rest : List Char} :
      r.quotes.beginsIdentifier q = true → Opens r before (.identifier q) rest
  | string {q : Char} {rest : List Char} :
      r.quotes.beginsString q = true → Opens r before (.string q) rest
  | lineComment {mark : Char} {rest : List Char} :
      r.quotes.beginsIdentifier '-' = false → mark = ' ' ∨ mark = '\t' →
      Opens r before (.lineComment mark) rest
  | blockComment {rest : List Char} :
      r.quotes.beginsIdentifier '/' = false → Opens r before .blockComment rest
  | number {first : Char} {rest : List Char} :
      ByteClass.digit.hasChar first = true → Opens r before (.number []) (first :: rest)
  | signedNumber {blanks : List Char} {first : Char} {rest : List Char} :
      r.quotes.beginsIdentifier '-' = false → signMayFollow before = true →
      (∀ c ∈ blanks, ByteClass.whitespace.hasChar c = true) →
      ByteClass.digit.hasChar first = true →
      Opens r before (.number ('-' :: blanks)) (first :: rest)
  | name {first : Char} {rest : List Char} :
      r.quotes.beginsIdentifier first = false → ByteClass.nameStart.hasChar first = true →
      Opens r before (.name first) rest

theorem Opens.lead {r : Rules} {before rest : List Char} {op : Opening}
    (h : Opens r before op rest) :
    Lead.ofText r before (op.passed ++ rest) = op.lead before := by
  cases h with
  | identifier hq =>
    simp [Opening.passed, Lead.ofText, not_whitespace_of_beginsIdentifier hq, hq, Opening.lead]
  | @string q _ hq =>
    obtain ⟨hid, hc⟩ := eq_of_beginsString hq
    have hw : ByteClass.whitespace.hasChar q = false := by rcases hc with rfl | rfl <;> decide
    simp [Opening.passed, Lead.ofText, hw, hid, hq, Opening.lead]
  | @lineComment mark _ hid hm =>
    have hw : ByteClass.whitespace.hasChar '-' = false := by decide
    have hs : r.quotes.beginsString '-' = false := not_beginsString (by decide) (by decide)
    have hb : ∀ cs, minusAndBlank ('-' :: mark :: cs) = true := by
      intro cs
      simpa [minusAndBlank] using hm
    simp [Opening.passed, Lead.ofText, hw, hid, hs, hb, Opening.lead]
  | blockComment hid =>
    have hw : ByteClass.whitespace.hasChar '/' = false := by decide
    have hs : r.quotes.beginsString '/' = false := not_beginsString (by decide) (by decide)
    simp [Opening.passed, Lead.ofText, hw, hid, hs, Opening.lead]
  | @number first _ hd =>
    have hw := not_whitespace_of_digit hd
    have hid : r.quotes.beginsIdentifier first = false := by
      rw [Bool.eq_false_iff]
      intro hid
      rw [not_digit_of_beginsIdentifier hid] at hd
      cases hd
    have hs : r.quotes.beginsString first = false :=
      not_beginsString (ne_of_hasChar hd (by decide)) (ne_of_hasChar hd (by decide))
    have hm : first ≠ '-' := ne_of_hasChar hd (by decide)
    have hsl : first ≠ '/' := ne_of_hasChar hd (by decide)
    simp [Opening.passed, Lead.ofText, hw, hid, hs, hm, hsl, hd, Opening.lead]
  | @signedNumber blanks first rest hid hctx hb hd =>
    have hw : ByteClass.whitespace.hasChar '-' = false := by decide
    have hs : r.quotes.beginsString '-' = false := not_beginsString (by decide) (by decide)
    have hdw := not_whitespace_of_digit hd
    have hfollow : digitFollows (blanks ++ first :: rest) = true := by
      rw [digitFollows_append hb, digitFollows_of_head (by simp [hdw])]
      simp [hd]
    have hline : minusAndBlank (blanks ++ first :: rest) = false := not_minusAndBlank hb hd
    have htake : (blanks ++ first :: rest).takeWhile ByteClass.whitespace.hasChar = blanks :=
      takeWhile_of_run hb (by simp [hdw])
    simp [Opening.passed, Lead.ofText, hw, hid, hs, hline, hctx, hfollow, htake, Opening.lead]
  | @name first _ hid hn =>
    have hw := not_whitespace_of_nameStart hn
    have hs : r.quotes.beginsString first = false :=
      not_beginsString (ne_of_hasChar hn (by decide)) (ne_of_hasChar hn (by decide))
    have hm : first ≠ '-' := ne_of_hasChar hn (by decide)
    have hsl : first ≠ '/' := ne_of_hasChar hn (by decide)
    simp [Opening.passed, Lead.ofText, hw, hid, hs, hm, hsl, not_digit_of_nameStart hn, hn,
      Opening.lead]

end Scan
end QueryDigest
