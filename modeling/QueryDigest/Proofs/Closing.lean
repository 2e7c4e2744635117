import QueryDigest.Proofs.Grammar
import QueryDigest.Proofs.Position
import QueryDigest.Scan.Step

/-!
# QueryDigest.Proofs.Closing

Where a cursor inside a token is led. Each search of the scan is met by the characters it has to
pass: a string body and its closing quote, a comment body and its star and slash, the characters of
a number, a single character of any width. An open scope leads the search to the end of the text.
-/

namespace QueryDigest

open Text

namespace Scan

/-! ## Strings -/

/-- What one round of the search for a closing quote comes to. -/
inductive Round where
  | again (c : Cursor)
  | done (c : Cursor) (closed : Bool)

/-- One round of the search for a closing quote. -/
def closeRound (quote : UInt8) (c : Cursor) : Option Round :=
  match c.toQuoteOrBackslash quote with
  | (c', none) => some (.done c' false)
  | (c', some b) =>
    if b == '\\'.toUInt8 then
      some (.again (c'.advance 2))
    else
      c'.peek?.map fun next =>
        if next == quote then .again (c'.advance 2) else .done (c'.advance 1) true

theorem closeString_round (quote : UInt8) (c : Cursor) :
    closeString quote c = match closeRound quote c with
      | none => none
      | some (.again c') => closeString quote c'
      | some (.done c' closed) => some (c', closed) := by
  rw [closeString, closeRound]
  split
  · rename_i c' h
    rw [h]
  · rename_i c' b h
    simp only [h]
    by_cases hb : (b == '\\'.toUInt8) = true
    · rw [if_pos hb, if_pos hb]
    · rw [if_neg hb, if_neg hb]
      cases hpeek : c'.peek? with
      | none => rfl
      | some next =>
        simp only [Option.map_some]
        by_cases hn : (next == quote) = true
        · rw [if_pos hn, if_pos hn]
        · rw [if_neg hn, if_neg hn]

section Strings

variable {q : Char} {c : Cursor} {before rest : List Char}

/-- Does the search of a string opened by `q` stop at the byte? -/
def haltsString (q : Char) (b : UInt8) : Bool :=
  b == q.toUInt8 || b == '\\'.toUInt8

theorem toQuoteOrBackslash_eq (q : Char) (c : Cursor) :
    c.toQuoteOrBackslash q.toUInt8 = c.seek (haltsString q) := rfl

theorem asciiTest_haltsString (hq : isAscii q = true) : AsciiTest (haltsString q) :=
  (asciiTest_eq hq).or (asciiTest_eq (by decide))

theorem haltsString_firstByte (hq : isAscii q = true) (d : Char) (ds : List Char) :
    haltsString q (firstByte (d :: ds)) = (d == q || d == '\\') := by
  rw [haltsString, firstByte_cons_beq hq, firstByte_cons_beq (by decide)]

theorem not_haltsString (hq : isAscii q = true) {d : Char} (hd : d ≠ q) (hb : d ≠ '\\') :
    ∀ b ∈ encode [d], haltsString q b = false := by
  apply (asciiTest_haltsString hq).not_of_mem_encode
  intro e he
  rw [List.mem_singleton] at he
  subst he
  cases hc : isAscii e with
  | false => rw [onChar, hc, Bool.false_and]
  | true =>
    have := haltsString_firstByte hq e []
    rw [firstByte_cons_of_isAscii hc, beq_false_of_ne hd, beq_false_of_ne hb] at this
    rw [onChar, this, Bool.or_false, Bool.and_false]

theorem toward_plain (hq : isAscii q = true) {d : Char} (hd : d ≠ q) (hb : d ≠ '\\')
    (hc : c.Toward (haltsString q) before (d :: rest)) :
    c.Toward (haltsString q) (before ++ [d]) rest :=
  hc.append (x := [d]) (not_haltsString hq hd hb)

theorem toward_doubled (hq : isAscii q = true)
    (hc : c.Toward (haltsString q) before (q :: q :: rest)) :
    Cursor.Toward (haltsString q) ⟨c.source, width before + 2⟩ (before ++ [q, q]) rest := by
  apply Cursor.At.toward
  constructor
  · rw [hc.text, List.append_assoc]
    rfl
  · rw [width_append, width_cons, width_singleton, utf8Size_of_isAscii hq]

/-- A backslash sends the search two bytes on, which may be inside the character it hides. -/
theorem closeRound_escaped (hq : isAscii q = true) {d : Char}
    (hc : c.Toward (haltsString q) before ('\\' :: d :: rest)) :
    ∃ c', closeRound q.toUInt8 c = some (.again c') ∧ c'.source = c.source ∧
      c'.Toward (haltsString q) (before ++ ['\\', d]) rest := by
  have hseek := hc.seek_some (by rw [haltsString_firstByte hq, beq_self_eq_true, Bool.or_true])
  refine ⟨Cursor.advance ⟨c.source, width before⟩ 2, ?_, rfl, ?_, ?_, ?_⟩
  · rw [closeRound, toQuoteOrBackslash_eq, hseek, firstByte_cons_of_isAscii (by decide)]
    rfl
  · rw [Cursor.source_advance, hc.text, List.append_assoc]
    rfl
  · have hpos := d.utf8Size_pos
    have : '\\'.utf8Size = 1 := rfl
    rw [Cursor.pos_advance, width_append, width_cons, width_singleton]
    simp only
    omega
  · intro k hk hle hlt
    rw [Cursor.pos_advance] at hle
    have htext : c.source.text.toList = (before ++ ['\\']) ++ d :: rest := by
      rw [hc.text, List.append_assoc]
      rfl
    have hone : width (before ++ ['\\']) = width before + 1 := by
      rw [width_append]
      rfl
    simp only at hle
    exact asciiTest_haltsString hq _ (Source.le_getElem_inside htext hk (by omega)
      (by rw [List.append_assoc]; exact hlt))

/-- At a quote the search looks one byte further. -/
theorem closeRound_quote (hq : isAscii q = true) (hne : q ≠ '\\') (h0 : 0 < q.toNat)
    (hc : c.Toward (haltsString q) before (q :: rest)) :
    closeRound q.toUInt8 c = some (if rest.head? = some q
      then .again ⟨c.source, width before + 2⟩ else .done ⟨c.source, width before + 1⟩ true) := by
  have hseek := hc.seek_some (by rw [haltsString_firstByte hq, beq_self_eq_true, Bool.true_or])
  rw [firstByte_cons_of_isAscii hq] at hseek
  have hback : (q.toUInt8 == '\\'.toUInt8) = false :=
    beq_false_of_ne fun h => hne (toUInt8_inj hq (by decide) h)
  have hat : Cursor.At ⟨c.source, width before⟩ before (q :: rest) := ⟨hc.text, rfl⟩
  have hpeek : Cursor.peek? ⟨c.source, width before⟩ = some (firstByte rest) := by
    have := hat.byte? (k := 1) (by omega)
    rwa [getD_one hq] at this
  rw [closeRound, toQuoteOrBackslash_eq, hseek]
  simp only [hback, Bool.false_eq_true, if_false, hpeek, Option.map_some, firstByte_beq hq h0]
  by_cases hr : rest.head? = some q
  · rw [if_pos hr, if_pos (beq_iff_eq.2 hr)]
    rfl
  · rw [if_neg hr, if_neg (by rwa [beq_iff_eq])]
    rfl

/-- Behind a string body the search finds the closing quote. -/
theorem closeString_of_body (hq : isAscii q = true) (hne : q ≠ '\\') (h0 : 0 < q.toNat)
    {body : List Char} (h : StringBody q body) (hr : rest.head? ≠ some q)
    (hc : c.Toward (haltsString q) before (body ++ q :: rest)) :
    ∃ c', closeString q.toUInt8 c = some (c', true) ∧ c'.source = c.source ∧
      c'.At (before ++ (body ++ [q])) rest := by
  -- behind a backslash the cursor may be inside a character, so `Toward` is the invariant
  induction h generalizing c before with
  | nil =>
    refine ⟨⟨c.source, width before + 1⟩, ?_, rfl, ?_, ?_⟩
    · rw [closeString_round, closeRound_quote hq hne h0 hc, if_neg hr]
    · rw [hc.text, List.append_assoc]
      rfl
    · rw [List.nil_append, width_append, width_singleton, utf8Size_of_isAscii hq]
  | plain hd hb _ ih =>
    obtain ⟨c', h', hs, hat⟩ := ih (toward_plain hq hd hb hc)
    exact ⟨c', h', hs, by rwa [List.append_assoc] at hat⟩
  | escaped _ ih =>
    obtain ⟨c₁, h₁, hs₁, hc₁⟩ := closeRound_escaped hq hc
    obtain ⟨c', h', hs, hat⟩ := ih hc₁
    refine ⟨c', ?_, hs.trans hs₁, by rwa [List.append_assoc] at hat⟩
    rw [closeString_round, h₁, ← h']
  | doubled _ ih =>
    obtain ⟨c', h', hs, hat⟩ := ih (toward_doubled hq hc)
    refine ⟨c', ?_, hs, by rwa [List.append_assoc] at hat⟩
    have hround := closeRound_quote hq hne h0 hc
    rw [if_pos (by rfl)] at hround
    rw [closeString_round, hround, ← h']

/-- Behind the quote of an open string the search ends with the text. -/
theorem closeString_of_open (hq : isAscii q = true) (hne : q ≠ '\\') (h0 : 0 < q.toNat)
    {text : List Char} (h : OpenBody q text) (hc : c.Toward (haltsString q) before text) :
    closeString q.toUInt8 c = some (c.toEnd, false) := by
  induction h generalizing c before with
  | nil => rw [closeString_round, closeRound, toQuoteOrBackslash_eq, hc.seek_none]
  | backslash =>
    have hseek := hc.seek_some (by rw [haltsString_firstByte hq, beq_self_eq_true, Bool.or_true])
    have hsize := hc.size
    have hout : c.source.size ≤ width before + 2 := by
      rw [hsize, width_singleton]
      have : '\\'.utf8Size = 1 := rfl
      omega
    have hround : closeRound q.toUInt8 c = some (.again ⟨c.source, width before + 2⟩) := by
      rw [closeRound, toQuoteOrBackslash_eq, hseek, firstByte_cons_of_isAscii (by decide)]
      rfl
    rw [closeString_round, hround]
    simp only
    rw [closeString_round, closeRound, toQuoteOrBackslash_eq, Cursor.seek_of_size_le hout]
    rfl
  | plain hd hb _ ih => exact ih (toward_plain hq hd hb hc)
  | escaped _ ih =>
    obtain ⟨c₁, h₁, hs₁, hc₁⟩ := closeRound_escaped hq hc
    rw [closeString_round, h₁]
    simp only [ih hc₁, Cursor.toEnd, hs₁]
  | doubled _ ih =>
    have hround := closeRound_quote hq hne h0 hc
    rw [if_pos (by rfl)] at hround
    rw [closeString_round, hround]
    exact ih (toward_doubled hq hc)

end Strings

/-! ## Bytes and line ends -/

section Searches

variable {c : Cursor} {before rest : List Char}

theorem not_mem_of_ne {q : Char} (hq : isAscii q = true) {inner : List Char} (h : q ∉ inner) :
    ∀ b ∈ encode inner, (b == q.toUInt8) = false := by
  apply (asciiTest_eq hq).not_of_mem_encode
  intro d hd
  rw [onChar_eq hq]
  exact beq_false_of_ne fun he => h (he ▸ hd)

theorem toByte_of_mem {q : Char} (hq : isAscii q = true) {inner : List Char} (h : q ∉ inner)
    (hc : c.At before (inner ++ q :: rest)) :
    ∃ c', c.toByte q.toUInt8 = (c', true) ∧ c'.source = c.source ∧
      c'.At (before ++ inner) (q :: rest) := by
  have htoward := (hc.toward _).append (not_mem_of_ne hq h)
  have hseek := htoward.seek_some (by rw [firstByte_cons_of_isAscii hq, beq_self_eq_true])
  refine ⟨⟨c.source, width (before ++ inner)⟩, ?_, rfl, htoward.text, rfl⟩
  rw [Cursor.toByte, hseek]
  rfl

theorem toByte_of_not_mem {q : Char} (hq : isAscii q = true) {text : List Char} (h : q ∉ text)
    (hc : c.At before text) : c.toByte q.toUInt8 = (c.toEnd, false) := by
  rw [← List.append_nil text] at hc
  have hseek := ((hc.toward _).append (not_mem_of_ne hq h)).seek_none
  rw [Cursor.toByte, hseek]
  rfl

theorem toLineEnd_of_text {text : List Char} (ht : ∀ d ∈ text, endsLine d = false)
    (hr : ∀ d ∈ rest.head?, endsLine d = true) (hc : c.At before (text ++ rest)) :
    c.toLineEnd.source = c.source ∧ c.toLineEnd.At (before ++ text) rest := by
  have hascii : AsciiTest fun b => b == '\r'.toUInt8 || b == '\n'.toUInt8 :=
    (asciiTest_eq (by decide)).or (asciiTest_eq (by decide))
  have htext : ∀ b ∈ encode text, (b == '\r'.toUInt8 || b == '\n'.toUInt8) = false := by
    apply hascii.not_of_mem_encode
    intro d hd
    have := ht d hd
    rw [endsLine, ← onChar_eq (by decide), ← onChar_eq (by decide), onChar, onChar,
      ← Bool.and_or_distrib_left] at this
    exact this
  have htoward := (hc.toward _).append htext
  cases rest with
  | nil =>
    rw [Cursor.toLineEnd, htoward.seek_none]
    exact ⟨rfl, htoward.text, by rw [Cursor.pos_toEnd, htoward.size, width_nil, Nat.add_zero]⟩
  | cons d ds =>
    have hd := hr d rfl
    rw [Cursor.toLineEnd, htoward.seek_some]
    · exact ⟨rfl, htoward.text, rfl⟩
    · rw [firstByte_cons_beq (by decide), firstByte_cons_beq (by decide)]
      exact hd

/-! ## Block comments -/

theorem findPair?_of_body {body : List Char} (h : ¬ ['*', '/'] <:+: body) (s : Source)
    (before : List Char) (hs : s.text.toList = before ++ (body ++ '*' :: '/' :: rest)) :
    Bytes.findPair? s.bytes '*'.toUInt8 '/'.toUInt8 (width before) =
      some (width (before ++ body)) := by
  induction body generalizing before with
  | nil =>
    have hs' : s.text.toList = (before ++ ['*']) ++ '/' :: rest := by
      rw [hs, List.append_assoc]
      rfl
    have hone : width (before ++ ['*']) = width before + 1 := by
      rw [width_append]
      rfl
    obtain ⟨_, hstar⟩ := Source.getElem_eq_firstByte hs (List.cons_ne_nil _ _)
    obtain ⟨hlt, hslash⟩ := Source.getElem_eq_firstByte hs' (List.cons_ne_nil _ _)
    simp only [hone] at hlt hslash
    rw [List.append_nil, Bytes.findPair?_eq_some_iff]
    refine ⟨Nat.le_refl _, ⟨hlt, ?_, ?_⟩, fun k _ hle hk => by omega⟩
    · rw [hstar, List.nil_append, firstByte_cons_of_isAscii (by decide)]
    · rw [hslash, firstByte_cons_of_isAscii (by decide)]
  | cons d body ih =>
    rw [List.infix_cons_iff, not_or] at h
    rw [Cursor.findPair?_cons (by decide) (by decide) hs, ih h.2, List.append_assoc]
    · rfl
    · rw [hs, List.append_assoc]
      rfl
    · rintro ⟨rfl, hhead⟩
      cases body with
      | nil => cases hhead
      | cons e body =>
        injection hhead with hhead
        exact h.1 ⟨body, by rw [hhead]; rfl⟩

theorem findPair?_of_open {text : List Char} (h : ¬ ['*', '/'] <:+: text) (s : Source)
    (before : List Char) (hs : s.text.toList = before ++ text) :
    Bytes.findPair? s.bytes '*'.toUInt8 '/'.toUInt8 (width before) = none := by
  induction text generalizing before with
  | nil =>
    rw [Bytes.findPair?_eq_none_iff]
    intro k hk hle
    rw [Source.size_bytes, Source.size_eq, hs, List.append_nil] at hk
    omega
  | cons d text ih =>
    rw [List.infix_cons_iff, not_or] at h
    rw [Cursor.findPair?_cons (by decide) (by decide) hs, ih h.2]
    · rw [hs, List.append_assoc]
      rfl
    · rintro ⟨rfl, hhead⟩
      obtain ⟨text', rfl⟩ := List.head?_eq_some_iff.1 hhead
      exact h.1 ⟨text', rfl⟩

theorem pastBlockComment_of_body {body : List Char} (h : ¬ ['*', '/'] <:+: body)
    (hc : c.At before (body ++ '*' :: '/' :: rest)) :
    ∃ c', c.pastBlockComment = (c', true) ∧ c'.source = c.source ∧
      c'.At (before ++ (body ++ ['*', '/'])) rest := by
  refine ⟨⟨c.source, width (before ++ body) + 2⟩, ?_, rfl, ?_, ?_⟩
  · rw [Cursor.pastBlockComment, hc.pos, findPair?_of_body h _ _ hc.text]
  · rw [hc.text, List.append_assoc, List.append_assoc]
    rfl
  · rw [width_append, width_append, width_append]
    rfl

theorem pastBlockComment_of_open {text : List Char} (h : ¬ ['*', '/'] <:+: text)
    (hc : c.At before text) : c.pastBlockComment = (c.toEnd, false) := by
  rw [Cursor.pastBlockComment, hc.pos, findPair?_of_open h _ _ hc.text]

/-! ## Numbers -/

theorem isAscii_of_continuesDigits {prev d : Char} (h : continuesDigits prev d = true) :
    isAscii d = true := by
  rw [continuesDigits, Bool.or_eq_true, Bool.and_eq_true, beq_iff_eq] at h
  rcases h with h | ⟨rfl, _⟩
  · exact isAscii_of_hasChar h
  · decide

theorem continuesNumber_eq {prev : Char} (hp : isAscii prev = true) (d : Char) (ds : List Char) :
    continuesNumber prev.toUInt8 (firstByte (d :: ds)) = continuesDigits prev d := by
  have hletter : ∀ e : Char, isAscii e = true → (prev.toUInt8 == e.toUInt8) = (prev == e) := by
    intro e he
    rw [← onChar_eq he, onChar, hp, Bool.true_and]
  rw [continuesNumber, has_firstByte_cons, firstByte_cons_beq (by decide),
    hletter 'e' (by decide), hletter 'E' (by decide), continuesDigits]

theorem skipNumber_eq_of_current? {b : UInt8} {prev : UInt8} (h : c.current? = some b) :
    skipNumber prev c = if continuesNumber prev b then skipNumber b (c.advance 1) else some c := by
  rw [skipNumber]
  split
  · rename_i h'
    rw [h] at h'
    cases h'
  · rename_i b' h'
    rw [h, Option.some.injEq] at h'
    subst h'
    rfl

theorem skipNumber_of_digits {prev : Char} (hp : isAscii prev = true) {more : List Char}
    (hm : continueDigits prev more = true)
    (hr : ∀ d ∈ rest.head?, continuesDigits (more.getLastD prev) d = false)
    (hc : c.At before (more ++ rest)) :
    ∃ c', skipNumber prev.toUInt8 c = some c' ∧ c'.source = c.source ∧
      c'.At (before ++ more) rest := by
  induction more generalizing prev before c with
  | nil =>
    refine ⟨c, ?_, rfl, by rwa [List.append_nil]⟩
    rw [skipNumber_eq_of_current? hc.current?]
    cases rest with
    | nil => rfl
    | cons d ds =>
      have hd := hr d rfl
      rw [List.nil_append, continuesNumber_eq hp, ← List.getLastD_nil (a := prev), hd]
      rfl
  | cons d more ih =>
    rw [continueDigits, Bool.and_eq_true] at hm
    rw [List.getLastD_cons] at hr
    have hd := isAscii_of_continuesDigits hm.1
    have hadv : (c.advance 1).At (before ++ [d]) (more ++ rest) :=
      hc.advance (x := [d]) (by rw [width_singleton, utf8Size_of_isAscii hd])
    obtain ⟨c', h', hs, hat⟩ := ih hd hm.2 hr hadv
    refine ⟨c', ?_, hs, by rwa [List.append_assoc] at hat⟩
    rw [skipNumber_eq_of_current? hc.current?, List.cons_append, continuesNumber_eq hp, hm.1,
      if_pos rfl, firstByte_cons_of_isAscii hd, h']

/-! ## Single characters -/

theorem charWidth_eq (b : UInt8) : Cursor.charWidth b =
    if 192 ≤ b.toNat ∧ b.toNat ≤ 223 then 2
    else if 224 ≤ b.toNat ∧ b.toNat ≤ 239 then 3
    else if 240 ≤ b.toNat ∧ b.toNat ≤ 247 then 4
    else 1 := by
  simp only [Cursor.charWidth, UInt8.le_iff_toNat_le]
  rfl

theorem utf8Size_eq (d : Char) : d.utf8Size =
    if d.val.toNat ≤ 127 then 1 else if d.val.toNat ≤ 2047 then 2
    else if d.val.toNat ≤ 65535 then 3 else 4 := by
  simp only [Char.utf8Size, UInt32.le_iff_toNat_le]
  rfl

theorem charWidth_firstByte (d : Char) (ds : List Char) :
    Cursor.charWidth (firstByte (d :: ds)) = d.utf8Size := by
  have hle : d.val.toNat ≤ 1114111 := by
    have hvalid := d.valid
    simp only [UInt32.isValidChar, Nat.isValidChar] at hvalid
    omega
  rw [firstByte, encode_cons, charWidth_eq, utf8Size_eq, String.utf8EncodeChar]
  generalize d.val.toNat = v at hle
  by_cases h1 : v ≤ 127
  · simp only [h1, if_true, List.cons_append, List.headD_cons, UInt8.toNat_ofNat']
    rw [if_neg (by omega), if_neg (by omega), if_neg (by omega)]
  by_cases h2 : v ≤ 2047
  · simp only [h1, h2, if_true, if_false, List.cons_append, List.headD_cons, UInt8.toNat_ofNat']
    rw [if_pos (by omega)]
  by_cases h3 : v ≤ 65535
  · simp only [h1, h2, h3, if_true, if_false, List.cons_append, List.headD_cons,
      UInt8.toNat_ofNat']
    rw [if_neg (by omega), if_pos (by omega)]
  · simp only [h1, h2, h3, if_false, List.cons_append, List.headD_cons, UInt8.toNat_ofNat']
    rw [if_neg (by omega), if_neg (by omega), if_pos (by omega)]

theorem advanceChar?_eq_of_cons {d : Char} (hc : c.At before (d :: rest)) :
    c.advanceChar? = some (c.advance d.utf8Size) := by
  rw [Cursor.advanceChar?, hc.current?, Option.map_some, charWidth_firstByte]

end Searches

end Scan
end QueryDigest
