import QueryDigest.Proofs.Grammar
import QueryDigest.Proofs.Position
import QueryDigest.Scan.Lead

/-!
# QueryDigest.Proofs.Beginning

What begins at a place, said of characters. `Lead.ofText` asks the questions of `Lead.ofBytes` in
the same order, but of the characters behind the place; `At.lead?` says that a cursor at the place
finds the same. The two sign questions need the text around a minus: `hasContext_eq` for what
stands before it, `digitAfter_eq` for what follows.
-/

namespace QueryDigest

open Text

/-! ## Quotes -/

namespace Quotes

theorem isAscii_delimiter (q : Quotes) : isAscii q.delimiter = true := by
  have h := q.delimiter_punctuation
  simp only [isAsciiPunctuation, Bool.and_eq_true, decide_eq_true_eq] at h
  exact isAscii_of_toNat_lt (by omega)

theorem isAscii_identifierQuote (d : Dialect) : isAscii d.identifierQuote = true := by
  cases d <;> decide

theorem isAscii_stringQuote (d : Dialect) : isAscii d.stringQuote = true := by
  cases d <;> decide

theorem opensIdentifier_firstByte (q : Quotes) (d : Char) (ds : List Char) :
    q.opensIdentifier (firstByte (d :: ds)) = q.beginsIdentifier d := by
  rw [opensIdentifier, firstByte_cons_beq q.isAscii_delimiter,
    firstByte_cons_beq (isAscii_identifierQuote _), beginsIdentifier]

theorem opensString_firstByte (q : Quotes) {d : Char} (hd : q.beginsIdentifier d = false)
    (ds : List Char) : q.opensString (firstByte (d :: ds)) = q.beginsString d := by
  rw [opensString, firstByte_cons_beq (by decide), firstByte_cons_beq (isAscii_stringQuote _),
    beginsString, hd, Bool.not_false, Bool.true_and]

theorem isAscii_of_beginsIdentifier {q : Quotes} {c : Char} (h : q.beginsIdentifier c = true) :
    isAscii c = true := by
  simp only [beginsIdentifier, Bool.or_eq_true, beq_iff_eq] at h
  rcases h with rfl | rfl
  · exact q.isAscii_delimiter
  · exact isAscii_identifierQuote _

theorem isAscii_of_beginsString {q : Quotes} {c : Char} (h : q.beginsString c = true) :
    isAscii c = true := by
  simp only [beginsString, Bool.and_eq_true, Bool.or_eq_true, beq_iff_eq] at h
  rcases h.2 with rfl | rfl
  · decide
  · exact isAscii_stringQuote _

end Quotes

namespace Scan

/-! ## Signs -/

theorem digitFollows_append {blanks : List Char}
    (h : ∀ c ∈ blanks, ByteClass.whitespace.hasChar c = true) (rest : List Char) :
    digitFollows (blanks ++ rest) = digitFollows rest := by
  rw [digitFollows, find?_append_of_run h, digitFollows]

theorem digitFollows_of_head {rest : List Char}
    (h : ∀ c ∈ rest.head?, ByteClass.whitespace.hasChar c = false) :
    digitFollows rest = rest.head?.any ByteClass.digit.hasChar := by
  rw [digitFollows, find?_of_head h]

theorem lastVisible_of_isAscii {s : Source} {before rest : List Char} {c : Char}
    (h : s.text.toList = before ++ c :: rest) (hc : isAscii c = true) :
    Sign.lastVisible s.bytes (width (before ++ [c])) =
      if ByteClass.whitespace.hasChar c then Sign.lastVisible s.bytes (width before)
      else some c.toUInt8 := by
  obtain ⟨hk, he⟩ := Source.getElem_eq_firstByte h (List.cons_ne_nil c rest)
  rw [firstByte_cons_of_isAscii hc] at he
  have hws : ByteClass.whitespace.has c.toUInt8 = ByteClass.whitespace.hasChar c :=
    ByteClass.whitespace.has_toUInt8 c (of_decide_eq_true hc)
  rw [width_append, width_singleton, utf8Size_of_isAscii hc, Sign.lastVisible,
    getElem?_pos s.bytes _ hk, he]
  simp only [hws]

theorem lastVisible_of_not_isAscii {s : Source} {before rest : List Char} {c : Char}
    (h : s.text.toList = before ++ c :: rest) (hc : isAscii c = false) :
    ∃ b, 128 ≤ b ∧ Sign.lastVisible s.bytes (width (before ++ [c])) = some b := by
  have hsize := Source.size_eq s
  rw [h, width_append, width_cons] at hsize
  have hpos := c.utf8Size_pos
  obtain ⟨n, hn⟩ : ∃ n, c.utf8Size = n + 1 := ⟨c.utf8Size - 1, by omega⟩
  have hk : width before + n < s.bytes.size := by
    rw [Source.size_bytes]
    omega
  have hge : 128 ≤ s.bytes[width before + n] := by
    apply le_of_mem_utf8EncodeChar hc
    have hmem : s.bytes[width before + n] ∈ encode [c] := by
      refine Source.getElem_mem_encode (y := rest) h hk (by omega) ?_
      rw [width_singleton]
      omega
    rwa [encode_cons, encode_nil, List.append_nil] at hmem
  refine ⟨_, hge, ?_⟩
  rw [width_append, width_singleton, hn, ← Nat.add_assoc, Sign.lastVisible,
    getElem?_pos s.bytes _ hk]
  simp only [ByteClass.has_eq_false _ _ hge, Bool.false_eq_true, if_false]

theorem lastVisible_any {s : Source} {p : UInt8 → Bool} (hp : AsciiTest p) (rev : List Char) :
    ∀ rest, s.text.toList = rev.reverse ++ rest →
      (Sign.lastVisible s.bytes (width rev.reverse)).any p =
        (rev.find? fun c => !ByteClass.whitespace.hasChar c).any (onChar p) := by
  -- the search goes back byte by byte, the list is the text before it from its last character on
  induction rev with
  | nil =>
    intro rest _
    rfl
  | cons c cs ih =>
    intro rest h
    have h' : s.text.toList = cs.reverse ++ (c :: rest) := by
      rw [h, List.reverse_cons, List.append_assoc]
      rfl
    rw [List.reverse_cons, List.find?_cons]
    cases hc : isAscii c with
    | true =>
      rw [lastVisible_of_isAscii h' hc]
      cases hb : ByteClass.whitespace.hasChar c with
      | true =>
        simp only [if_true, Bool.not_true]
        exact ih (c :: rest) h'
      | false => simp [onChar, hc]
    | false =>
      obtain ⟨b, hge, hb⟩ := lastVisible_of_not_isAscii h' hc
      have hvis : ByteClass.whitespace.hasChar c = false := by
        rw [← onChar_has, onChar, hc, Bool.false_and]
      rw [hb, hvis]
      simp [hp _ hge, onChar, hc]

theorem hasContext_eq {s : Source} {before rest : List Char}
    (h : s.text.toList = before ++ rest) :
    Sign.hasContext s.bytes (width before) = signMayFollow before := by
  have hle : width before ≤ s.bytes.size := by
    rw [Source.size_bytes, Source.size_eq, h, width_append]
    omega
  have hlast := lastVisible_any
    ((asciiTest_has .operator).or (asciiTest_has .nameStart)) before.reverse rest
    (by rw [List.reverse_reverse]; exact h)
  rw [List.reverse_reverse] at hlast
  rw [Sign.hasContext, Sign.byteBefore, if_pos hle, hlast, signMayFollow,
    List.findRev?_eq_find?_reverse]
  congr 1
  funext c
  have hop := onChar_has .operator c
  have hname := onChar_has .nameStart c
  rw [← hop, ← hname]
  cases hc : isAscii c <;> simp [onChar, hc]

theorem digitAfter_eq {s : Source} {before blanks rest : List Char}
    (h : s.text.toList = before ++ '-' :: (blanks ++ rest))
    (hb : ∀ c ∈ blanks, ByteClass.whitespace.hasChar c = true)
    (hr : ∀ c ∈ rest.head?, ByteClass.whitespace.hasChar c = false) :
    Sign.digitAfter s.bytes (width before) =
      if rest.head?.any ByteClass.digit.hasChar then some (width (before ++ '-' :: blanks))
      else none := by
  have hat : Cursor.At ⟨s, width before + 1⟩ (before ++ ['-']) (blanks ++ rest) := by
    constructor
    · rw [h, List.append_assoc]
      rfl
    · rw [width_append]
      rfl
  have htoward := (hat.toward fun b => !ByteClass.whitespace.has b).append
    (by intro b hb'; simp [has_of_mem_encode hb b hb'])
  rw [List.append_assoc, List.singleton_append] at htoward
  rw [Sign.digitAfter]
  cases rest with
  | nil =>
    have := htoward.findIdx?_none
    simp only at this
    rw [this]
    rfl
  | cons d ds =>
    have hd := hr d rfl
    have := htoward.findIdx?_some (by simp [has_firstByte_cons, hd])
    obtain ⟨hk, he⟩ := Source.getElem_eq_firstByte htoward.text (List.cons_ne_nil d ds)
    simp only at this hk he
    simp only [this]
    rw [getElem?_pos s.bytes (width (before ++ '-' :: blanks)) hk, he]
    simp [has_firstByte_cons]

theorem foldedDigit_eq {s : Source} {before blanks rest : List Char}
    (h : s.text.toList = before ++ '-' :: (blanks ++ rest))
    (hb : ∀ c ∈ blanks, ByteClass.whitespace.hasChar c = true)
    (hr : ∀ c ∈ rest.head?, ByteClass.whitespace.hasChar c = false) :
    Sign.foldedDigit s.bytes (width before) =
      if signMayFollow before && rest.head?.any ByteClass.digit.hasChar then
        some (width (before ++ '-' :: blanks))
      else none := by
  rw [Sign.foldedDigit, hasContext_eq h, digitAfter_eq h hb hr]
  cases signMayFollow before <;> simp

/-! ## What begins -/

/-- What begins with the characters, `before` standing in front of them. -/
def Lead.ofText (r : Rules) (before : List Char) : List Char → Lead
  | [] => .character
  | c :: rest =>
    if r.strip && ByteClass.whitespace.hasChar c then
      .blank
    else if r.quotes.beginsIdentifier c then
      .identifierQuote c.toUInt8
    else if r.quotes.beginsString c then
      .stringQuote c.toUInt8
    else if c == '-' && minusAndBlank rest then
      .lineComment
    else if c == '/' && rest.head? == some '*' then
      .blockComment
    else if c == '-' then
      if signMayFollow before && digitFollows rest then
        .signedNumber (width (before ++ '-' :: rest.takeWhile ByteClass.whitespace.hasChar))
      else
        .minus
    else if ByteClass.digit.hasChar c then
      .number
    else if ByteClass.nameStart.hasChar c then
      .name c
    else if ByteClass.lineWhitespace.hasChar c then
      .lineBlank
    else
      .character

theorem minusAndBlank_eq (cs : List Char) :
    minusAndBlank cs = (firstByte cs == '-'.toUInt8 &&
      ((encode cs).getD 1 0 == ' '.toUInt8 || (encode cs).getD 1 0 == '\t'.toUInt8)) := by
  rw [firstByte_beq (by decide) (by decide)]
  match cs with
  | [] => rfl
  | [c] =>
    by_cases hc : c = '-'
    · subst hc
      rfl
    · simp [minusAndBlank, hc]
  | c :: m :: cs =>
    by_cases hc : c = '-'
    · subst hc
      rw [getD_one (by decide), firstByte_cons_beq (by decide), firstByte_cons_beq (by decide)]
      simp [minusAndBlank]
    · have : minusAndBlank (c :: m :: cs) = false := by
        unfold minusAndBlank
        split
        · rename_i heq
          cases heq
          exact absurd rfl hc
        · rfl
      simp [this, hc]

theorem opensLineComment_eq (d : Char) (rest : List Char) :
    (firstByte (d :: rest) == '-'.toUInt8 && (encode (d :: rest)).getD 1 0 == '-'.toUInt8 &&
      ((encode (d :: rest)).getD 2 0 == ' '.toUInt8 ||
        (encode (d :: rest)).getD 2 0 == '\t'.toUInt8)) = (d == '-' && minusAndBlank rest) := by
  rw [firstByte_cons_beq (by decide)]
  by_cases hd : d = '-'
  · subst hd
    rw [getD_one (by decide), getD_two (by decide), minusAndBlank_eq]
    rfl
  · rw [beq_false_of_ne hd]
    rfl

theorem opensBlockComment_eq (d : Char) (rest : List Char) :
    (firstByte (d :: rest) == '/'.toUInt8 && (encode (d :: rest)).getD 1 0 == '*'.toUInt8) =
      (d == '/' && rest.head? == some '*') := by
  rw [firstByte_cons_beq (by decide)]
  by_cases hd : d = '/'
  · subst hd
    rw [getD_one (by decide), firstByte_beq (by decide) (by decide)]
  · rw [beq_false_of_ne hd]
    rfl

end Scan

namespace Cursor.At

open Scan

theorem foldedDigit {c : Cursor} {before rest : List Char} (h : c.At before ('-' :: rest)) :
    Sign.foldedDigit c.source.bytes c.pos =
      if signMayFollow before && digitFollows rest then
        some (width (before ++ '-' :: rest.takeWhile ByteClass.whitespace.hasChar))
      else none := by
  obtain ⟨blanks, y, rfl, hblanks, hy⟩ := exists_run ByteClass.whitespace.hasChar rest
  rw [h.pos, foldedDigit_eq h.text hblanks hy, digitFollows_append hblanks,
    digitFollows_of_head hy, takeWhile_of_run hblanks hy]

/-- A cursor sees what begins behind it. -/
theorem lead? (r : Rules) {c : Cursor} {before rest : List Char} {d : Char}
    (h : c.At before (d :: rest)) : Lead.at? r c = some (Lead.ofText r before (d :: rest)) := by
  have hpeek := h.byte? (k := 1) (by omega)
  have hpeek2 := h.byte? (k := 2) (by omega)
  rw [Lead.at?_eq_some_iff]
  refine ⟨_, _, _, h.current?, hpeek, hpeek2, ?_⟩
  rw [Lead.ofBytes, Lead.ofText, opensLineComment_eq, opensBlockComment_eq, has_firstByte_cons,
    has_firstByte_cons, has_firstByte_cons, has_firstByte_cons, Quotes.opensIdentifier_firstByte,
    firstByte_cons_beq (by decide)]
  by_cases hblank : (r.strip && ByteClass.whitespace.hasChar d) = true
  · rw [if_pos hblank, if_pos hblank]
  rw [if_neg hblank, if_neg hblank]
  by_cases hid : r.quotes.beginsIdentifier d = true
  · rw [if_pos hid, if_pos hid,
      firstByte_cons_of_isAscii (Quotes.isAscii_of_beginsIdentifier hid)]
  rw [if_neg hid, if_neg hid, Quotes.opensString_firstByte _ (Bool.eq_false_iff.2 hid)]
  by_cases hstr : r.quotes.beginsString d = true
  · rw [if_pos hstr, if_pos hstr, firstByte_cons_of_isAscii (Quotes.isAscii_of_beginsString hstr)]
  rw [if_neg hstr, if_neg hstr]
  by_cases hl : (d == '-' && minusAndBlank rest) = true
  · rw [if_pos hl, if_pos hl]
  rw [if_neg hl, if_neg hl]
  by_cases hbl : (d == '/' && rest.head? == some '*') = true
  · rw [if_pos hbl, if_pos hbl]
  rw [if_neg hbl, if_neg hbl]
  by_cases hminus : (d == '-') = true
  · rw [if_pos hminus, if_pos hminus]
    obtain rfl := beq_iff_eq.1 hminus
    rw [h.foldedDigit]
    by_cases hsign : (signMayFollow before && digitFollows rest) = true
    · rw [if_pos hsign, if_pos hsign]
    · rw [if_neg hsign, if_neg hsign]
  rw [if_neg hminus, if_neg hminus]
  by_cases hdigit : ByteClass.digit.hasChar d = true
  · rw [if_pos hdigit, if_pos hdigit]
  rw [if_neg hdigit, if_neg hdigit]
  by_cases hname : ByteClass.nameStart.hasChar d = true
  · have hascii := isAscii_of_hasChar hname
    rw [if_pos hname, if_pos hname, firstByte_cons_of_isAscii hascii, ofUInt8_toUInt8 hascii]
  rw [if_neg hname, if_neg hname]

end Cursor.At

end QueryDigest
