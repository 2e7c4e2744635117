import QueryDigest.Proofs.Exchange

/-!
# QueryDigest.Proofs.NextSign

What the text before a place decides. The reading of a text looks back at what stands before it only
where the text begins with a minus and a digit, blanks between them (`SignedDigitNext`). Otherwise
it is the same behind any text (`ReadsAll.of_not_signedDigitNext`). There, the minus is the sign of
the number behind one text and a token of its own behind another, and the rest is read alike
(`exists_readings_of_signedDigitNext`).
-/

namespace QueryDigest

open Text

namespace Scan

/-- The text goes on with a minus and a digit, blanks around the minus. -/
def SignedDigitNext (r : Rules) (text : List Char) : Prop :=
  r.quotes.beginsIdentifier '-' = false ∧ ∃ blanks rest, text = blanks ++ '-' :: rest ∧
    (∀ c ∈ blanks, ByteClass.whitespace.hasChar c = true) ∧ digitFollows rest = true

section Before

variable {r : Rules} {before before' rest : List Char}

/-- A minus stands alone if it opens no comment and belongs to no digit. -/
theorem Alone.minus (hid : r.quotes.beginsIdentifier '-' = false)
    (hline : minusAndBlank rest = false)
    (hsign : (signMayFollow before && digitFollows rest) = false) : Alone r before '-' rest where
  blank := by rw [show ByteClass.whitespace.hasChar '-' = false by decide, Bool.and_false]
  identifier := hid
  string := not_beginsString (by decide) (by decide)
  digit := by decide
  name := by decide
  lineComment _ := hline
  sign _ := hsign
  blockComment hc := absurd hc (by decide)

theorem signMayFollow_append_blanks {blanks : List Char}
    (h : ∀ c ∈ blanks, ByteClass.whitespace.hasChar c = true) :
    signMayFollow (before ++ blanks) = signMayFollow before := by
  rw [signMayFollow, signMayFollow, List.findRev?_eq_find?_reverse,
    List.findRev?_eq_find?_reverse, List.reverse_append, find?_append_of_run (by simpa using h)]

theorem signMayFollow_append_visible {x : List Char} {c : Char} (hc : c ∈ x)
    (hv : ByteClass.whitespace.hasChar c = false) :
    signMayFollow (before ++ x) = signMayFollow (before' ++ x) := by
  simp only [signMayFollow, List.findRev?_eq_find?_reverse, List.reverse_append,
    List.find?_append]
  cases hfind : x.reverse.find? fun c => !ByteClass.whitespace.hasChar c with
  | some d => rfl
  | none =>
    rw [List.find?_eq_none] at hfind
    have := hfind c (List.mem_reverse.2 hc)
    simp [hv] at this

theorem Reads.of_not_signedDigitNext {t : Token} (h : Reads r before t rest)
    (hno : ¬ SignedDigitNext r (t.spelling ++ rest)) : Reads r before' t rest := by
  cases h with
  | blank hs hw => exact .blank hs hw
  | identifier hq hi => exact .identifier hq hi
  | string hq hbody hr => exact .string hq hbody hr
  | lineComment hid hm ht hr => exact .lineComment hid hm ht hr
  | blockComment hid hbody => exact .blockComment hid hbody
  | number hd hm hr => exact .number hd hm hr
  | @signedNumber blanks first more _ hid hs hb hd hm hr =>
    refine absurd ⟨hid, [], _, rfl, by simp, ?_⟩ hno
    rw [List.append_eq, List.append_eq, List.append_assoc, digitFollows_append hb,
      digitFollows_of_head (by simp [not_whitespace_of_digit hd])]
    simp [hd]
  | name hid hn hm hr => exact .name hid hn hm hr
  | @other c _ h =>
    refine .other { h with sign := fun hc => ?_ }
    rw [Bool.and_eq_false_iff]
    refine .inr (Bool.eq_false_iff.2 fun hd => hno ?_)
    subst hc
    exact ⟨h.identifier, [], rest, rfl, by simp, hd⟩

/-- With no sign ahead, a text is read in the same way behind any other. -/
theorem ReadsAll.of_not_signedDigitNext {us : List Token} {tail : List Char}
    (h : ReadsAll r before us tail) (hno : ¬ SignedDigitNext r (spelling us ++ tail)) :
    ReadsAll r before' us tail := by
  induction h generalizing before' with
  | nil => exact .nil
  | @cons before tail t ts hread hreads ih =>
    rw [spelling_cons, List.append_assoc] at hno
    refine .cons (hread.of_not_signedDigitNext hno) ?_
    -- behind a visible character the text before is out of sight; behind a blank no sign is ahead
    by_cases hv : ∃ c ∈ t.spelling, ByteClass.whitespace.hasChar c = false
    · obtain ⟨c, hc, hv⟩ := hv
      exact hreads.congr_before (signMayFollow_append_visible hc hv)
    · refine ih fun ⟨hid, blanks, rest, htext, hb, hd⟩ => hno ⟨hid, t.spelling ++ blanks, rest, ?_,
        ?_, hd⟩
      · rw [htext, List.append_assoc]
      · intro c hc
        rcases List.mem_append.1 hc with hc | hc
        · by_cases hw : ByteClass.whitespace.hasChar c = true
          · exact hw
          · exact absurd ⟨c, hc, Bool.eq_false_iff.2 hw⟩ hv
        · exact hb c hc

end Before

/-! ## Blanks -/

/-- The token of a whitespace character. -/
def blankToken (r : Rules) (c : Char) : Token :=
  if r.strip then .blank c else .other c

section Blanks

variable {r : Rules} {blanks : List Char}

theorem spelling_blankToken (r : Rules) (c : Char) : (blankToken r c).spelling = [c] := by
  rw [blankToken]
  cases r.strip <;> rfl

theorem spelling_blankTokens (r : Rules) (blanks : List Char) :
    spelling (blanks.map (blankToken r)) = blanks := by
  induction blanks with
  | nil => rfl
  | cons c cs ih =>
    rw [List.map_cons, spelling_cons, ih, spelling_blankToken]
    rfl

theorem reads_blankToken {c : Char} (hw : ByteClass.whitespace.hasChar c = true)
    (before rest : List Char) : Reads r before (blankToken r c) rest := by
  rw [blankToken]
  cases hs : r.strip with
  | true => exact .blank hs hw
  | false =>
    have hne : ∀ d, ByteClass.whitespace.hasChar d = false → c ≠ d := fun d hd =>
      ne_of_hasChar hw hd
    refine .other ⟨by rw [hs, Bool.false_and], ?_, not_beginsString (hne _ (by decide))
      (hne _ (by decide)), ?_, ?_, fun hc => absurd hc (hne _ (by decide)),
      fun hc => absurd hc (hne _ (by decide)), fun hc => absurd hc (hne _ (by decide))⟩
    · rw [Bool.eq_false_iff]
      intro h
      rw [not_whitespace_of_beginsIdentifier h] at hw
      cases hw
    · rw [Bool.eq_false_iff]
      intro h
      rw [not_whitespace_of_digit h] at hw
      cases hw
    · rw [Bool.eq_false_iff]
      intro h
      rw [not_whitespace_of_nameStart h] at hw
      cases hw

theorem readsAll_blankTokens (hb : ∀ c ∈ blanks, ByteClass.whitespace.hasChar c = true)
    (before rest : List Char) : ReadsAll r before (blanks.map (blankToken r)) rest := by
  induction blanks generalizing before with
  | nil => exact .nil
  | cons c cs ih =>
    rw [List.map_cons]
    exact .cons (reads_blankToken (hb c List.mem_cons_self) _ _)
      (ih (fun d hd => hb d (List.mem_cons_of_mem _ hd)) _)

theorem written_blankToken {c : Char} (hw : ByteClass.whitespace.hasChar c = true)
    (out : List Char) :
    (blankToken r c).written r out = [] ∨ (blankToken r c).written r out = [' '] := by
  rw [blankToken]
  cases r.strip with
  | true =>
    rw [if_pos rfl, Token.written]
    split
    · exact .inl rfl
    · exact .inr rfl
  | false =>
    rw [if_neg Bool.false_ne_true, Token.written]
    by_cases hl : ByteClass.lineWhitespace.hasChar c = true
    · rw [if_pos hl]
      exact .inr rfl
    · rw [if_neg hl]
      simp only [ByteClass.hasChar, Bool.or_eq_true, beq_iff_eq, not_or] at hw hl
      obtain ⟨⟨ht, hr⟩, hn⟩ := hl
      simp only [ht, hr, hn, or_false] at hw
      rw [hw]
      exact .inr rfl

theorem exists_writtenFrom_blankTokens (hb : ∀ c ∈ blanks, ByteClass.whitespace.hasChar c = true)
    (out : List Char) :
    ∃ n, writtenFrom r out (blanks.map (blankToken r)) = out ++ List.replicate n ' ' := by
  induction blanks generalizing out with
  | nil => exact ⟨0, by simp [writtenFrom]⟩
  | cons c cs ih =>
    obtain ⟨n, hn⟩ := ih (fun d hd => hb d (List.mem_cons_of_mem _ hd))
      (out ++ (blankToken r c).written r out)
    rcases written_blankToken (hb c List.mem_cons_self) out with h | h
    · refine ⟨n, hn.trans ?_⟩
      rw [h, List.append_nil]
    · refine ⟨n + 1, hn.trans ?_⟩
      rw [h, List.append_assoc, List.replicate_succ, List.singleton_append]

end Blanks

/-! ## A sign ahead -/

/-- What is written for tokens depends on the text before them only by its last space. -/
theorem exists_writtenFrom {r : Rules} {out out' : List Char}
    (h : out.getLast? = some ' ' ↔ out'.getLast? = some ' ') (us : List Token) :
    ∃ z, writtenFrom r out us = out ++ z ∧ writtenFrom r out' us = out' ++ z := by
  induction us generalizing out out' with
  | nil => exact ⟨[], by simp [writtenFrom], by simp [writtenFrom]⟩
  | cons t us ih =>
    have hsame : t.written r out = t.written r out' := by
      cases t with
      | blank c =>
        rw [Token.written, Token.written]
        by_cases hout : out.getLast? = some ' '
        · rw [if_pos hout, if_pos (h.1 hout)]
        · rw [if_neg hout, if_neg fun h' => hout (h.2 h')]
      | _ => rfl
    have hlast : (out ++ t.written r out).getLast? = some ' ' ↔
        (out' ++ t.written r out').getLast? = some ' ' := by
      rw [← hsame]
      cases hw : t.written r out with
      | nil => simpa using h
      | cons d ds => simp [List.getLast?_append]
    obtain ⟨z, hz, hz'⟩ := ih hlast
    refine ⟨t.written r out ++ z, ?_, ?_⟩
    · rw [← List.append_assoc]
      exact hz
    · rw [hsame, ← List.append_assoc]
      exact hz'

/-- Where a sign is ahead, the text is read with the minus in the number behind a text that a sign
may follow, and with a minus of its own behind one that none may. -/
theorem exists_readings_of_signedDigitNext {r : Rules} {before before' text : List Char}
    (h : SignedDigitNext r text) (hb : signMayFollow before = true)
    (hb' : signMayFollow before' = false) :
    ∃ blanks inner first more us tail scope,
      (∀ c ∈ blanks, ByteClass.whitespace.hasChar c = true) ∧
      (∀ c ∈ inner, ByteClass.whitespace.hasChar c = true) ∧
      text = blanks ++ '-' :: (inner ++ first :: (more ++ (spelling us ++ tail))) ∧
      ReadsAll r before (blanks.map (blankToken r) ++ .number ('-' :: inner) first more :: us)
        tail ∧
      ReadsAll r before' (blanks.map (blankToken r) ++
        .other '-' :: (inner.map (blankToken r) ++ .number [] first more :: us)) tail ∧
      Ending r scope tail := by
  obtain ⟨hid, blanks, z, rfl, hblanks, hz⟩ := h
  obtain ⟨inner, y, rfl, hinner, hy⟩ := exists_run ByteClass.whitespace.hasChar z
  rw [digitFollows_append hinner, digitFollows_of_head hy] at hz
  cases y with
  | nil => cases hz
  | cons first y =>
    obtain ⟨more, rest, rfl, hmore, hrest⟩ := exists_digits first y
    obtain ⟨us, tail, scope, rfl, hus, hend⟩ := exists_reading r
      (before ++ blanks ++ '-' :: (inner ++ first :: more)) rest
    have hfirst : ByteClass.digit.hasChar first = true := hz
    refine ⟨blanks, inner, first, more, us, tail, scope, hblanks, hinner, rfl, ?_, ?_, hend⟩
    · refine .append (readsAll_blankTokens hblanks _ _) (.cons ?_ ?_)
      · refine .signedNumber hid ?_ hinner hfirst hmore hrest
        rw [spelling_blankTokens, signMayFollow_append_blanks hblanks, hb]
      · rw [spelling_blankTokens]
        exact hus
    · refine .append (readsAll_blankTokens hblanks _ _) (.cons (.other ?_) ?_)
      · rw [spelling_blankTokens, spelling_append, spelling_blankTokens, spelling_cons]
        refine .minus hid ?_ ?_
        · simpa [Token.spelling] using not_minusAndBlank hinner hfirst
        · rw [signMayFollow_append_blanks hblanks, hb', Bool.false_and]
      · refine .append (readsAll_blankTokens hinner _ _) (.cons (.number hfirst hmore hrest) ?_)
        refine hus.congr_before ?_
        rw [show before ++ blanks ++ '-' :: (inner ++ first :: more) =
          (before ++ blanks ++ '-' :: inner) ++ first :: more by simp]
        exact signMayFollow_append_visible List.mem_cons_self (not_whitespace_of_digit hfirst)

/-- The minus of its own is written, the other one is not. -/
theorem count_writtenFrom_sign {r : Rules} {blanks inner : List Char}
    (hb : ∀ c ∈ blanks, ByteClass.whitespace.hasChar c = true)
    (hi : ∀ c ∈ inner, ByteClass.whitespace.hasChar c = true) (out : List Char) (first : Char)
    (more : List Char) (us : List Token) :
    (writtenFrom r out (blanks.map (blankToken r) ++
        .other '-' :: (inner.map (blankToken r) ++ .number [] first more :: us))).count '-' =
      (writtenFrom r out (blanks.map (blankToken r) ++
        .number ('-' :: inner) first more :: us)).count '-' + 1 := by
  obtain ⟨n, hn⟩ := exists_writtenFrom_blankTokens (r := r) hb out
  obtain ⟨m, hm⟩ := exists_writtenFrom_blankTokens (r := r) hi (out ++ List.replicate n ' ' ++ ['-'])
  have hlast : (out ++ List.replicate n ' ' ++ ['-'] ++ List.replicate m ' ' ++ ['?']).getLast? =
      some ' ' ↔ (out ++ List.replicate n ' ' ++ ['?']).getLast? = some ' ' := by
    rw [List.getLast?_concat, List.getLast?_concat]
  obtain ⟨z, hz, hz'⟩ := exists_writtenFrom (r := r) hlast us
  have hsplit : writtenFrom r (out ++ List.replicate n ' ')
      (.other '-' :: (inner.map (blankToken r) ++ .number [] first more :: us)) =
      out ++ List.replicate n ' ' ++ ['-'] ++ List.replicate m ' ' ++ ['?'] ++ z := by
    refine Eq.trans (writtenFrom_append (out ++ List.replicate n ' ' ++ ['-']) _ _) ?_
    rw [hm]
    exact hz
  have hfolded : writtenFrom r (out ++ List.replicate n ' ')
      (.number ('-' :: inner) first more :: us) = out ++ List.replicate n ' ' ++ ['?'] ++ z := hz'
  rw [writtenFrom_append, writtenFrom_append, hn, hsplit, hfolded]
  have hspace : ∀ k, (List.replicate k ' ').count '-' = 0 := by
    intro k
    rw [List.count_replicate]
    rfl
  have hminus : ['-'].count '-' = 1 := rfl
  have hmark : ['?'].count '-' = 0 := rfl
  simp only [List.count_append, hspace, hminus, hmark]
  omega

end Scan
end QueryDigest
