import QueryDigest.Proofs.Blanks
import QueryDigest.Proofs.Whitespace

/-!
# QueryDigest.Proofs.Comments

What a comment between blanks changes. Nothing is written for it, but a minus looks for its digit,
and for what stands before it, in the query itself, where the comment still is. So a comment can
come between a minus and its digit (`SignWaits`), and a minus behind it can take its end for an
operator. In all other places a comment can be left out (`digest_comment_agree_iff`).
-/

namespace QueryDigest

open Text

namespace Scan

/-- The characters are a comment, with `rest` behind it. -/
inductive CommentBefore (r : Rules) (rest : List Char) : List Char → Prop where
  | block {body : List Char} :
      r.quotes.beginsIdentifier '/' = false → ¬ ['*', '/'] <:+: body →
      CommentBefore r rest ('/' :: '*' :: (body ++ ['*', '/']))
  | line {mark : Char} {text : List Char} :
      r.quotes.beginsIdentifier '-' = false → mark = ' ' ∨ mark = '\t' →
      (∀ c ∈ text, endsLine c = false) → (∀ c ∈ rest.head?, endsLine c = true) →
      CommentBefore r rest ('-' :: '-' :: mark :: text)

/-- A minus of the query waits for its digit where `before` ends: it stands between two tokens with
nothing but blanks behind it, and what is before it allows a sign. -/
def SignWaits (r : Rules) (query before : String) : Prop :=
  ∃ (p : String) (blanks : List Char), before.toList = p.toList ++ '-' :: blanks ∧
    (∀ c ∈ blanks, ByteClass.whitespace.hasChar c = true) ∧
    r.quotes.beginsIdentifier '-' = false ∧ signMayFollow p.toList = true ∧ Reaches r query p

/-- What a comment is to the text around it: a token wherever it stands, with nothing written for it,
whose first character is neither a blank nor a digit. -/
structure Silent (r : Rules) (rest : List Char) (t : Token) : Prop where
  reads : ∀ before, Reads r before t rest
  written : ∀ out, t.written r out = []
  head : ∃ c x, t.spelling = c :: x ∧ (c = '/' ∨ c = '-')

theorem CommentBefore.silent {r : Rules} {rest comment : List Char}
    (h : CommentBefore r rest comment) : ∃ t, t.spelling = comment ∧ Silent r rest t := by
  cases h with
  | block hid hno =>
    exact ⟨.blockComment _, rfl, fun _ => .blockComment hid hno, fun _ => rfl, _, _, rfl, .inl rfl⟩
  | line hid hm ht hr =>
    exact ⟨.lineComment _ _, rfl, fun _ => .lineComment hid hm ht hr, fun _ => rfl, _, _, rfl,
      .inr rfl⟩

theorem Silent.not_digitFollows {r : Rules} {rest : List Char} {t : Token} (h : Silent r rest t)
    (y : List Char) : digitFollows (t.spelling ++ y) = false := by
  obtain ⟨c, x, hx, hc⟩ := h.head
  rw [hx, digitFollows_of_head (by rcases hc with rfl | rfl <;> (rintro d ⟨⟩; decide))]
  rcases hc with rfl | rfl <;> rfl

theorem writtenFrom_silent {r : Rules} {rest : List Char} {t : Token} (h : Silent r rest t)
    (out : List Char) (ts us : List Token) :
    writtenFrom r out (ts ++ t :: us) = writtenFrom r out (ts ++ us) := by
  have ht : ∀ out, writtenFrom r out (t :: us) = writtenFrom r out us := by
    intro out
    rw [writtenFrom, List.foldl_cons, h.written, List.append_nil, writtenFrom]
  rw [writtenFrom_append, writtenFrom_append, ht]

/-! ## In front of a comment -/

section Before

variable {r : Rules} {before rest x y : List Char} {t : Token} {ts : List Token} {d : Char}

theorem digitFollows_append_visible {z : List Char}
    (hz : ∃ c ∈ z, ByteClass.whitespace.hasChar c = false) (x y : List Char) :
    digitFollows (z ++ x) = digitFollows (z ++ y) := by
  simp only [digitFollows, List.find?_append]
  cases hfind : z.find? fun c => !ByteClass.whitespace.hasChar c with
  | some c => rfl
  | none =>
    obtain ⟨c, hc, hv⟩ := hz
    rw [List.find?_eq_none] at hfind
    exact absurd hv (by simpa using hfind c hc)

/-- Where runs are written as one space, a blank in front of a visible character is a token. -/
theorem Reads.eq_blank (h : Reads r before t rest) (hs : r.strip = true)
    (ht : t.spelling = x ++ [d]) (hd : ByteClass.whitespace.hasChar d = true)
    (hrest : ∃ c ∈ rest.head?, endsLine c = false) : t = .blank d := by
  have hlast : t.spelling.getLast? = some d := by
    rw [ht, List.getLast?_concat]
  rcases h.eq_of_last_blank hlast (isBlank_of_whitespace hd) hrest with hblank | hother
  · exact hblank
  · rw [hother] at h
    cases h with
    | other halone =>
      rw [halone.not_whitespace hs] at hd
      cases hd

theorem minusAndBlank_append_blank (z : List Char) (hd : ByteClass.whitespace.hasChar d = true)
    (x y : List Char) : minusAndBlank (z ++ d :: x) = minusAndBlank (z ++ d :: y) := by
  match z with
  | [] =>
    have hne : d ≠ '-' := ne_of_hasChar hd (by decide)
    simp only [List.nil_append, minusAndBlank_cons, beq_false_of_ne hne, Bool.false_and]
  | [c] => simp only [List.cons_append, List.nil_append, minusAndBlank_cons, List.head?_cons]
  | c :: e :: z => simp only [List.cons_append, minusAndBlank_cons, List.head?_cons]

/-- Tokens that end in a blank see of the text behind it only whether a digit comes, and that only if
a minus waits for it. -/
theorem ReadsAll.behind_blank (h : ReadsAll r [] (ts ++ [.blank d]) x)
    (hd : ByteClass.whitespace.hasChar d = true)
    (hsign : ∀ us vs, ts ++ [.blank d] = us ++ .other '-' :: vs →
      (∀ c ∈ spelling vs, ByteClass.whitespace.hasChar c = true) →
      signMayFollow (spelling us) = true → digitFollows y = false) :
    ReadsAll r [] (ts ++ [.blank d]) y := by
  refine h.transfer fun us t vs hts hread => ?_
  rcases List.eq_nil_or_concat vs with rfl | ⟨vs, v, rfl⟩
  · obtain ⟨-, ht⟩ := List.append_inj' hts rfl
    rw [← List.singleton_inj.1 ht] at hread ⊢
    cases hread with
    | blank hs hw => exact .blank hs hw
  · rw [List.concat_eq_append] at hts hread ⊢
    have hlast := hts
    rw [← List.cons_append, ← List.append_assoc] at hlast
    obtain ⟨-, hv⟩ := List.append_inj' hlast rfl
    obtain rfl := List.singleton_inj.1 hv
    have hz : ∀ y, spelling (vs ++ [.blank d]) ++ y = spelling vs ++ d :: y := by
      intro y
      simp [Token.spelling]
    refine hread.of_endsBefore (fun c hc => hread.endsBefore c ?_) fun ht => ?_
    · rw [hz] at hc ⊢
      cases hvs : spelling vs with
      | nil => rwa [hvs] at hc
      | cons e z => rwa [hvs] at hc
    · subst ht
      cases hread with
      | other h =>
        have hline := h.lineComment rfl
        have hfold := h.sign rfl
        rw [hz] at hline ⊢
        rw [minusAndBlank_append_blank _ hd y x]
        refine ⟨hline, ?_⟩
        by_cases hvis : ∃ c ∈ spelling (vs ++ [.blank d]), ByteClass.whitespace.hasChar c = false
        · rw [← hz, digitFollows_append_visible hvis y x]
          exact hfold
        · have hblank : ∀ c ∈ spelling (vs ++ [.blank d]), ByteClass.whitespace.hasChar c = true :=
            fun c hc => Classical.not_not.1 fun hne => hvis ⟨c, hc, Bool.eq_false_iff.2 hne⟩
          rw [← hz, digitFollows_append hblank, Bool.and_eq_false_iff]
          refine Classical.or_iff_not_imp_left.2 fun hmay => hsign us _ hts hblank ?_
          simpa using hmay

end Before

/-! ## Around a comment -/

section Around

variable {r : Rules} {before blanks s : List Char} {t : Token}

theorem not_digitFollows_of_signedDigitNext (h : SignedDigitNext r s) : digitFollows s = false := by
  obtain ⟨-, blanks, rest, rfl, hb, -⟩ := h
  rw [digitFollows_append hb, digitFollows_of_head (by rintro c ⟨⟩; decide)]
  rfl

/-- A minus that waits for its digit stays alone in front of a comment and is the sign of the number
without it. -/
theorem exists_readings_around (hid : r.quotes.beginsIdentifier '-' = false)
    (hsign : signMayFollow before = true) (hb : BlankRun blanks) (ht : Silent r s t)
    (hs : digitFollows s = true) :
    ∃ inner first more us tail scope,
      (∀ c ∈ inner, ByteClass.whitespace.hasChar c = true) ∧
      s = inner ++ first :: (more ++ (spelling us ++ tail)) ∧
      ReadsAll r before (.other '-' :: (blanks.map (blankToken r) ++
        t :: (inner.map (blankToken r) ++ .number [] first more :: us))) tail ∧
      ReadsAll r before (.number ('-' :: (blanks ++ inner)) first more :: us) tail ∧
      Ending r scope tail := by
  obtain ⟨inner, z, rfl, hinner, hz⟩ := exists_run ByteClass.whitespace.hasChar s
  rw [digitFollows_append hinner, digitFollows_of_head hz] at hs
  cases z with
  | nil => cases hs
  | cons first z =>
    obtain ⟨more, rest, rfl, hmore, hrest⟩ := exists_digits first z
    obtain ⟨us, tail, scope, rfl, hus, hend⟩ := exists_reading r
      (before ++ ('-' :: (blanks ++ inner) ++ first :: more)) rest
    have hfirst : ByteClass.digit.hasChar first = true := hs
    refine ⟨inner, first, more, us, tail, scope, hinner, rfl, ?_, ?_, hend⟩
    · refine .cons (.other (.minus hid ?_ ?_)) (.append (readsAll_blankTokens hb.blank _ _) ?_)
      · rw [spelling_append, spelling_blankTokens, List.append_assoc]
        exact minusAndBlank_of_head fun c hc => ne_of_hasChar (hb.head_append _ c hc) (by decide)
      · simp only [spelling_append, spelling_blankTokens, spelling_cons, List.append_assoc]
        rw [digitFollows_append hb.blank, ht.not_digitFollows, Bool.and_false]
      · refine .cons ?_ (.append (readsAll_blankTokens hinner _ _) ?_)
        · simpa [spelling_blankTokens, Token.spelling] using ht.reads _
        · refine .cons (.number hfirst hmore hrest) (hus.congr_before ?_)
          simp only [Token.spelling, List.nil_append, ← List.append_assoc]
          exact signMayFollow_append_visible List.mem_cons_self (not_whitespace_of_digit hfirst)
    · refine .cons (.signedNumber hid hsign (fun c hc => ?_) hfirst hmore hrest) hus
      rcases List.mem_append.1 hc with hc | hc
      · exact hb.blank c hc
      · exact hinner c hc

end Around

section Digests

variable {o : Options} {r : Rules} {query query' : String} {ts : List Token} {t : Token}
  {blanks s : List Char}

theorem occurrences_of_waiting (hr : Rules.ofOptions o = .ok r)
    (hid : r.quotes.beginsIdentifier '-' = false) (hsign : signMayFollow (spelling ts) = true)
    (hb : BlankRun blanks) (ht : Silent r s t) (hs : digitFollows s = true)
    (hq : query.toList = spelling ts ++ '-' :: (blanks ++ (t.spelling ++ s)))
    (hq' : query'.toList = spelling ts ++ '-' :: (blanks ++ s))
    (hts : ReadsAll r [] ts ('-' :: (blanks ++ (t.spelling ++ s)))) :
    occurrences '-' (digest o query) = occurrences '-' (digest o query') + 1 := by
  obtain ⟨inner, first, more, us, tail, scope, hi, rfl, halone, hfolded, hend⟩ :=
    exists_readings_around hid hsign hb ht hs
  have hts' : ReadsAll r [] ts ('-' :: (blanks ++ (inner ++ first :: (more ++
      (spelling us ++ tail))))) := by
    obtain ⟨d, blanks, rfl, -⟩ := hb.exists_cons
    exact hts.alike (.of_cons_cons (by decide) d _ _)
  have rd : Reading r query.toList (ts ++ .other '-' :: (blanks.map (blankToken r) ++
      t :: (inner.map (blankToken r) ++ .number [] first more :: us))) scope tail := by
    refine ⟨?_, .append ?_ halone, hend⟩
    · rw [hq]
      simp [spelling_blankTokens, Token.spelling]
    · simpa [spelling_blankTokens, Token.spelling] using hts
  have rd' : Reading r query'.toList (ts ++ .number ('-' :: (blanks ++ inner)) first more :: us)
      scope tail := by
    refine ⟨?_, .append ?_ hfolded, hend⟩
    · rw [hq']
      simp [Token.spelling]
    · simpa [Token.spelling] using hts'
  have hocc := occurrences_digest (c := '-') (by decide) hr rd rd'
  have hall : ∀ c ∈ blanks ++ inner, ByteClass.whitespace.hasChar c = true := by
    intro c hc
    rcases List.mem_append.1 hc with hc | hc
    · exact hb.blank c hc
    · exact hi c hc
  have hnone : ∀ c ∈ ([] : List Char), ByteClass.whitespace.hasChar c = true := by simp
  have hcount := count_writtenFrom_sign (r := r) hnone hall (written r ts) first more us
  rw [List.map_append, List.append_assoc] at hcount
  have herase := writtenFrom_silent ht (written r ts) (.other '-' :: blanks.map (blankToken r))
    (inner.map (blankToken r) ++ .number [] first more :: us)
  rw [written_append, written_append] at hocc
  simp only [List.map_nil, List.nil_append, List.cons_append] at hcount herase
  rw [herase, hcount] at hocc
  omega

/-- What is before a comment and ends in a blank is read as tokens that end in it. -/
theorem Reaches.reads_blank {p : String} {x : List Char} {d : Char} (hstrip : r.strip = true)
    (hreach : Reaches r query p) (hp : p.toList = x ++ [d])
    (hd : ByteClass.whitespace.hasChar d = true) (ht : Silent r s t)
    (hq : query.toList = p.toList ++ (t.spelling ++ s)) :
    ∃ ts, spelling (ts ++ [.blank d]) = p.toList ∧
      ReadsAll r [] (ts ++ [.blank d]) (t.spelling ++ s) := by
  obtain ⟨ts, hts, hreads⟩ := hreach.reads hq
  rcases List.eq_nil_or_concat ts with rfl | ⟨us, u, rfl⟩
  · rw [hp] at hts
    exact absurd hts.symm (by simp)
  · rw [List.concat_eq_append] at hts hreads
    have hread := hreads.split.2
    cases hread with
    | cons hread _ =>
      have hu : u = .blank d := by
        have hsplit := hts.trans hp
        rw [spelling_snoc, ← List.dropLast_concat_getLast u.spelling_ne_nil,
          ← List.append_assoc] at hsplit
        obtain ⟨-, hlast⟩ := List.append_inj' hsplit rfl
        have hspell := List.dropLast_concat_getLast u.spelling_ne_nil
        rw [List.singleton_inj.1 hlast] at hspell
        refine hread.eq_blank hstrip hspell.symm hd ?_
        obtain ⟨c, y, hy, hc⟩ := ht.head
        refine ⟨c, by rw [hy]; rfl, ?_⟩
        rcases hc with rfl | rfl <;> rfl
      subst hu
      exact ⟨us, hts, hreads⟩

/-- A minus among the last tokens with nothing but blanks behind it waits for its digit. -/
theorem SignWaits.of_tokens {p : String} {us vs : List Token} {rest : List Char}
    (hp : p.toList = spelling (us ++ .other '-' :: vs)) (hq : query.toList = p.toList ++ rest)
    (hreads : ReadsAll r [] (us ++ .other '-' :: vs) rest)
    (hblank : ∀ c ∈ spelling vs, ByteClass.whitespace.hasChar c = true)
    (hsign : signMayFollow (spelling us) = true) : SignWaits r query p := by
  obtain ⟨hus, hvs⟩ := hreads.split
  refine ⟨.ofList (spelling us), spelling vs, ?_, hblank, ?_, ?_, ?_⟩
  · rw [hp, String.toList_ofList, spelling_append, spelling_cons]
    rfl
  · cases hvs with
    | cons hread _ =>
      cases hread with
      | other h => exact h.identifier
  · rwa [String.toList_ofList]
  · refine (reaches_iff ?_ ?_).2 ⟨us, String.toList_ofList.symm, hus⟩
    · simp [Token.spelling]
    · rw [hq, hp, String.toList_ofList, spelling_append, List.append_assoc]

/-- A minus that waits for its digit is written, if a comment stands before the digit. -/
theorem SignWaits.occurrences_minus {p : String} {x : List Char} {d : Char}
    (h : SignWaits r query p) (hr : Rules.ofOptions o = .ok r) (hp : p.toList = x ++ [d])
    (hd : ByteClass.whitespace.hasChar d = true) (ht : Silent r s t) (hs : digitFollows s = true)
    (hq : query.toList = p.toList ++ (t.spelling ++ s)) (hq' : query'.toList = p.toList ++ s) :
    occurrences '-' (digest o query) = occurrences '-' (digest o query') + 1 := by
  obtain ⟨q, blanks, hbefore, hb, hid, hsign, hreach⟩ := h
  have hne : blanks ≠ [] := by
    rintro rfl
    rw [hp] at hbefore
    obtain ⟨-, hminus⟩ := List.append_inj' hbefore rfl
    rw [List.singleton_inj.1 hminus] at hd
    cases hd
  rw [hbefore, List.append_assoc, List.cons_append] at hq hq'
  obtain ⟨us, hus, hbehind⟩ := hreach.reads hq
  rw [← hus] at hq hq' hsign
  exact occurrences_of_waiting hr hid hsign ⟨hne, hb⟩ ht hs hq hq' hbehind

/-- Readings with a comment between tokens and without it have digests that agree, if the text behind
it is read alike. -/
theorem agree_of_silent (hr : Rules.ofOptions o = .ok r) (ht : Silent r s t)
    (hq : query.toList = spelling ts ++ (t.spelling ++ s)) (hq' : query'.toList = spelling ts ++ s)
    (hts : ReadsAll r [] ts (t.spelling ++ s)) (hleft : ReadsAll r [] ts s)
    (hsign : signMayFollow (spelling (ts ++ [t])) = signMayFollow (spelling ts) ∨
      ¬ SignedDigitNext r s) : Agree (fun _ _ => True) (digest o query) (digest o query') := by
  obtain ⟨us, tail, scope, rfl, hus, hend⟩ := exists_reading r (spelling (ts ++ [t])) s
  have hus' : ReadsAll r (spelling ts) us tail := by
    rcases hsign with hsign | hno
    · exact hus.congr_before hsign
    · exact hus.of_not_signedDigitNext hno
  have rd : Reading r query.toList (ts ++ [t] ++ us) scope tail := by
    refine ⟨?_, .append (hts.snoc (ht.reads _)) hus, hend⟩
    rw [hq, spelling_append, spelling_snoc, List.append_assoc, List.append_assoc]
  have rd' : Reading r query'.toList (ts ++ us) scope tail := by
    refine ⟨?_, .append hleft hus', hend⟩
    rw [hq', spelling_append, List.append_assoc]
  refine agree_of_readings hr rd rd' ?_ fun _ => trivial
  rw [written_append, written_snoc _ t, ht.written, List.append_nil, ← written_append]

end Digests

/-- A comment between blanks can be left out of a query, unless a minus before it waits for a digit
behind it, or a minus and a digit come next and a sign may follow only the comment or only what is
before it. -/
theorem digest_comment_agree_iff {o : Options} {r : Rules} (hr : Rules.ofOptions o = .ok r)
    (hstrip : o.stripWhitespace = true) {p c s : String}
    (hp : ∃ d, p.toList.getLast? = some d ∧ ByteClass.whitespace.hasChar d = true)
    (hc : CommentBefore r s.toList c.toList) (hreach : Reaches r (p ++ c ++ s) p) :
    Agree (fun _ _ => True) (digest o (p ++ c ++ s)) (digest o (p ++ s)) ↔
      ¬ (SignWaits r (p ++ c ++ s) p ∧ digitFollows s.toList = true) ∧
      (signMayFollow (p.toList ++ c.toList) = signMayFollow p.toList ∨
        ¬ SignedDigitNext r s.toList) := by
  have hs : r.strip = true := (strip_of_ofOptions hr).trans hstrip
  obtain ⟨t, ht, hsilent⟩ := hc.silent
  obtain ⟨d, hlast, hd⟩ := hp
  obtain ⟨x, hp⟩ := List.getLast?_eq_some_iff.1 hlast
  have hq : (p ++ c ++ s).toList = p.toList ++ (t.spelling ++ s.toList) := by simp [ht]
  have hq' : (p ++ s).toList = p.toList ++ s.toList := String.toList_append
  obtain ⟨ts, hts, hreads⟩ := hreach.reads_blank hs hp hd hsilent hq
  have hspell : spelling (ts ++ [.blank d] ++ [t]) = p.toList ++ c.toList := by
    rw [spelling_snoc, hts, ht]
  constructor
  · intro hagree
    refine ⟨fun ⟨hwaits, hdigit⟩ => ?_, ?_⟩
    · have hone := hwaits.occurrences_minus hr hp hd hsilent hdigit hq hq'
      have hsame := hagree.occurrences_eq '-'
      omega
    · refine Classical.or_iff_not_imp_right.2 fun hnext => ?_
      have hnext := Classical.not_not.1 hnext
      have hall : ReadsAll r [] (ts ++ [.blank d] ++ [t]) s.toList :=
        hreads.snoc (hsilent.reads _)
      have hleft : ReadsAll r [] (ts ++ [.blank d]) s.toList := hreads.behind_blank hd
        fun _ _ _ _ _ => not_digitFollows_of_signedDigitNext hnext
      have hwritten : written r (ts ++ [.blank d] ++ [t]) = written r (ts ++ [.blank d]) := by
        rw [written_snoc _ t, hsilent.written, List.append_nil]
      rw [← hspell, ← hts]
      exact hagree.signMayFollow_spelling_eq hr (by rw [hq, hspell, ht, List.append_assoc])
        (by rw [hq', hts]) hall hleft hwritten hnext
  · rintro ⟨hwaits, hsign⟩
    have hleft : ReadsAll r [] (ts ++ [.blank d]) s.toList := by
      refine hreads.behind_blank hd fun us vs hsplit hblank hmay => ?_
      rw [hsplit] at hreads hts
      refine Bool.eq_false_iff.2 fun hdigit => hwaits ⟨?_, hdigit⟩
      exact .of_tokens hts.symm hq hreads hblank hmay
    rw [← hspell, ← hts] at hsign
    rw [← hts] at hq hq'
    exact agree_of_silent hr hsilent hq hq' hreads hleft hsign

/-- Behind an operator a minus is a sign, with a comment between them or not. -/
theorem digest_comment_agree_operator : Agree (fun _ _ => True)
    (digest .default ("a = " ++ "/*x*/" ++ "-1")) (digest .default ("a = " ++ "-1")) := by
  have hc : CommentBefore ⟨⟨'\x60', by decide, .mysql⟩, true, "?"⟩ "-1".toList "/*x*/".toList :=
    @CommentBefore.block _ _ ['x'] (by decide) (by decide)
  have hreach : Reaches ⟨⟨'\x60', by decide, .mysql⟩, true, "?"⟩ ("a = " ++ "/*x*/" ++ "-1")
      "a = " := by
    have hq : ("a = " ++ "/*x*/" ++ "-1").toList = "a = ".toList ++ "/*x*/-1".toList := by decide
    refine (reaches_iff (by decide) hq).2
      ⟨[.name 'a' [], .blank ' ', .other '=', .blank ' '], by decide, ?_⟩
    refine .cons (.name (by decide) (by decide) (by simp) ?_) (.cons (.blank rfl (by decide))
      (.cons (.other ?_) (.cons (.blank rfl (by decide)) .nil)))
    · rintro c ⟨⟩
      decide
    · constructor <;> decide
  refine (digest_comment_agree_iff (o := .default) rfl rfl ⟨' ', by decide, by decide⟩ hc hreach).2
    ⟨fun h => absurd h.2 (by decide), .inl (by decide)⟩

/-- Behind a number a minus is no sign, but behind a comment it is. -/
theorem digest_comment_behind_number : ∃ r, Rules.ofOptions .default = .ok r ∧
    Options.default.stripWhitespace = true ∧
    (∃ d, "1 ".toList.getLast? = some d ∧ ByteClass.whitespace.hasChar d = true) ∧
    CommentBefore r " -1".toList "/**/".toList ∧ Reaches r ("1 " ++ "/**/" ++ " -1") "1 " ∧
    ¬ Agree (fun _ _ => True) (digest .default ("1 " ++ "/**/" ++ " -1"))
      (digest .default ("1 " ++ " -1")) := by
  have hone : ∀ {before rest}, (∀ c ∈ List.head? rest, continuesDigits '1' c = false) →
      Reads ⟨⟨'\x60', by decide, .mysql⟩, true, "?"⟩ before (.number [] '1' []) rest :=
    fun h => .number (by decide) rfl h
  have hblank : ∀ {before rest}, Reads ⟨⟨'\x60', by decide, .mysql⟩, true, "?"⟩ before (.blank ' ')
      rest := .blank rfl (by decide)
  have hspace : ∀ c ∈ List.head? (' ' :: ([] : List Char)), continuesDigits '1' c = false := by
    rintro c ⟨⟩
    decide
  refine ⟨⟨⟨'\x60', by decide, .mysql⟩, true, "?"⟩, rfl, rfl, ⟨' ', by decide, by decide⟩,
    @CommentBefore.block _ _ [] (by decide) (by decide), ?_, fun h => ?_⟩
  · have hq : ("1 " ++ "/**/" ++ " -1").toList = "1 ".toList ++ "/**/ -1".toList := by decide
    refine (reaches_iff (by decide) hq).2 ⟨[.number [] '1' [], .blank ' '], by decide, ?_⟩
    exact .cons (hone hspace) (.cons hblank .nil)
  · have rd : Reading ⟨⟨'\x60', by decide, .mysql⟩, true, "?"⟩ ("1 " ++ "/**/" ++ " -1").toList
        [.number [] '1' [], .blank ' ', .blockComment [], .blank ' ', .number ['-'] '1' []]
        none [] := by
      refine ⟨by decide, .cons (hone hspace) (.cons hblank (.cons (.blockComment (by decide)
        (by decide)) (.cons hblank (.cons ?_ .nil)))), .done⟩
      exact .signedNumber (by decide) (by decide) (by simp) (by decide) rfl (by simp)
    have rd' : Reading ⟨⟨'\x60', by decide, .mysql⟩, true, "?"⟩ ("1 " ++ " -1").toList
        [.number [] '1' [], .blank ' ', .blank ' ', .other '-', .number [] '1' []] none [] := by
      refine ⟨by decide, .cons (hone hspace) (.cons hblank (.cons hblank
        (.cons (.other (.minus ?_ ?_ ?_)) (.cons (hone (by simp)) .nil)))), .done⟩ <;> decide
    have hsign : digest .default ("1 " ++ "/**/" ++ " -1") = .ok "? ?" :=
      (digest_eq rfl rd).trans (by rfl)
    have halone : digest .default ("1 " ++ " -1") = .ok "? -?" := (digest_eq rfl rd').trans (by rfl)
    rw [hsign, halone] at h
    exact absurd (h.occurrences_eq '-') (by decide)

end Scan
end QueryDigest
