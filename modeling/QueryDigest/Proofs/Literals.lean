import QueryDigest.Proofs.Kept
import QueryDigest.Proofs.NextSign

/-!
# QueryDigest.Proofs.Literals

Which number stands in a query. Every numeric literal is one token and is written as one question
mark, whatever its form, so one literal can stand for another. What is left of it to see is its last
character, which a later minus looks back at: the last digit of a hexadecimal number may be a
letter, and behind a letter a minus is a sign. Two literals therefore lead to the same digest exactly
if both end in a letter or neither does, or if no minus and digit come next
(`digest_literals_agree_iff`).
-/

namespace QueryDigest

open Text

namespace Scan

/-! ## Numeric literals -/

/-- One or more decimal digits. -/
def Digits (cs : List Char) : Prop :=
  cs ≠ [] ∧ ∀ c ∈ cs, ByteClass.digit.hasChar c = true

/-- Is the character a hexadecimal digit? -/
def isHexDigit (c : Char) : Bool :=
  c.isDigit || ('a' ≤ c && c ≤ 'f') || ('A' ≤ c && c ≤ 'F')

/-- A decimal or fractional number. -/
inductive Mantissa : List Char → Prop where
  | whole {ds : List Char} : Digits ds → Mantissa ds
  | fractional {ds fs : List Char} : Digits ds → (∀ c ∈ fs, ByteClass.digit.hasChar c = true) →
      Mantissa (ds ++ '.' :: fs)

/-- An unsigned number: decimal, fractional, exponential or hexadecimal. -/
inductive NumericLiteral : List Char → Prop where
  | plain {m : List Char} : Mantissa m → NumericLiteral m
  | exponential {m ds : List Char} {e : Char} :
      Mantissa m → e = 'e' ∨ e = 'E' → Digits ds → NumericLiteral (m ++ e :: ds)
  | negativeExponent {m ds : List Char} {e : Char} :
      Mantissa m → e = 'e' ∨ e = 'E' → Digits ds → NumericLiteral (m ++ e :: '-' :: ds)
  | hexadecimal {hs : List Char} :
      hs ≠ [] → (∀ c ∈ hs, isHexDigit c = true) → NumericLiteral ('0' :: 'x' :: hs)

/-- Is the last character a letter? -/
def endsInLetter (cs : List Char) : Bool :=
  cs.getLast?.any ByteClass.nameStart.hasChar

theorem numberContinue_of_isHexDigit {c : Char} (h : isHexDigit c = true) :
    ByteClass.numberContinue.hasChar c = true := by
  rw [isHexDigit] at h
  rw [ByteClass.hasChar, h, Bool.true_or, Bool.true_or]

theorem isHexDigit_of_digit {c : Char} (h : ByteClass.digit.hasChar c = true) :
    isHexDigit c = true := by
  rw [ByteClass.hasChar] at h
  rw [isHexDigit, h, Bool.true_or, Bool.true_or]

theorem continueDigits_of_all {cs : List Char}
    (h : ∀ c ∈ cs, ByteClass.numberContinue.hasChar c = true) (prev : Char) :
    continueDigits prev cs = true := by
  induction cs generalizing prev with
  | nil => rfl
  | cons c cs ih =>
    rw [continueDigits, continuesDigits, h c List.mem_cons_self, Bool.true_or, Bool.true_and]
    exact ih (fun d hd => h d (List.mem_cons_of_mem _ hd)) c

theorem continueDigits_append (prev : Char) (a b : List Char) :
    continueDigits prev (a ++ b) =
      (continueDigits prev a && continueDigits (a.getLastD prev) b) := by
  induction a generalizing prev with
  | nil => rfl
  | cons c cs ih =>
    rw [List.cons_append, continueDigits, continueDigits, ih, List.getLastD_cons, Bool.and_assoc]

theorem continueDigits_of_digits {ds : List Char}
    (h : ∀ c ∈ ds, ByteClass.digit.hasChar c = true) (prev : Char) :
    continueDigits prev ds = true :=
  continueDigits_of_all (fun c hc => numberContinue_of_isHexDigit (isHexDigit_of_digit (h c hc))) prev

theorem Mantissa.continues {m : List Char} (h : Mantissa m) (prev : Char) :
    continueDigits prev m = true := by
  cases h with
  | whole h => exact continueDigits_of_digits h.2 prev
  | fractional h hf =>
    rw [continueDigits_append, continueDigits_of_digits h.2, continueDigits,
      continueDigits_of_digits hf]
    rfl

theorem Mantissa.head {m : List Char} (h : Mantissa m) :
    ∃ first more, m = first :: more ∧ ByteClass.digit.hasChar first = true := by
  have hdigits : ∀ {ds : List Char}, Digits ds → ∃ first more, ds = first :: more ∧
      ByteClass.digit.hasChar first = true := by
    intro ds hds
    obtain ⟨first, more, rfl⟩ := List.exists_cons_of_ne_nil hds.1
    exact ⟨first, more, rfl, hds.2 first List.mem_cons_self⟩
  cases h with
  | whole h => exact hdigits h
  | fractional h _ =>
    obtain ⟨first, more, rfl, hd⟩ := hdigits h
    exact ⟨first, _, rfl, hd⟩

namespace NumericLiteral

variable {n : List Char}

theorem continues (h : NumericLiteral n) (prev : Char) : continueDigits prev n = true := by
  cases h with
  | plain hm => exact hm.continues prev
  | exponential hm he hds =>
    rw [continueDigits_append, hm.continues, continueDigits, continueDigits_of_digits hds.2]
    rcases he with rfl | rfl <;> rfl
  | negativeExponent hm he hds =>
    rw [continueDigits_append, hm.continues, continueDigits, continueDigits,
      continueDigits_of_digits hds.2]
    rcases he with rfl | rfl <;> rfl
  | hexadecimal _ hhex =>
    apply continueDigits_of_all
    intro c hc
    rcases List.mem_cons.1 hc with rfl | hc
    · decide
    rcases List.mem_cons.1 hc with rfl | hc
    · decide
    exact numberContinue_of_isHexDigit (hhex c hc)

theorem head (h : NumericLiteral n) :
    ∃ first more, n = first :: more ∧ ByteClass.digit.hasChar first = true := by
  cases h with
  | plain hm => exact hm.head
  | exponential hm _ _ | negativeExponent hm _ _ =>
    obtain ⟨first, more, rfl, hd⟩ := hm.head
    exact ⟨first, _, rfl, hd⟩
  | hexadecimal _ _ => exact ⟨'0', _, rfl, by decide⟩

theorem token (h : NumericLiteral n) : ∃ first more, n = first :: more ∧
    ByteClass.digit.hasChar first = true ∧ continueDigits first more = true := by
  obtain ⟨first, more, rfl, hd⟩ := h.head
  have := h.continues first
  rw [continueDigits, Bool.and_eq_true] at this
  exact ⟨first, more, rfl, hd, this.2⟩

/-- A literal ends in a point or in a digit, which for a hexadecimal number may be a letter. -/
theorem getLast (h : NumericLiteral n) :
    ∃ x c, n = x ++ [c] ∧ (isHexDigit c = true ∨ c = '.') := by
  have hlast : ∀ {a b : List Char}, b ≠ [] → (∀ c ∈ b, isHexDigit c = true) →
      ∃ x c, a ++ b = x ++ [c] ∧ (isHexDigit c = true ∨ c = '.') := by
    intro a b hb hall
    refine ⟨a ++ b.dropLast, b.getLast hb, ?_, .inl (hall _ (List.getLast_mem hb))⟩
    rw [List.append_assoc, List.dropLast_concat_getLast]
  have hdigits : ∀ {a ds : List Char}, Digits ds →
      ∃ x c, a ++ ds = x ++ [c] ∧ (isHexDigit c = true ∨ c = '.') := fun h =>
    hlast h.1 fun c hc => isHexDigit_of_digit (h.2 c hc)
  cases h with
  | plain hm =>
    cases hm with
    | whole h => exact hdigits (a := []) h
    | @fractional ds fs _ hf =>
      cases fs with
      | nil => exact ⟨ds, '.', rfl, .inr rfl⟩
      | cons f fs =>
        rw [List.append_cons]
        exact hlast (List.cons_ne_nil _ _) fun c hc => isHexDigit_of_digit (hf c hc)
  | exponential _ _ hds =>
    rw [List.append_cons]
    exact hdigits hds
  | negativeExponent _ _ hds =>
    rw [List.append_cons, List.append_cons]
    exact hdigits hds
  | hexadecimal hne hhex => exact hlast (a := ['0', 'x']) hne hhex

end NumericLiteral

/-! ## Literals in a query -/

section Queries

variable {r : Rules} {before rest : List Char}

theorem not_whitespace_of_isHexDigit {c : Char} (h : isHexDigit c = true) :
    ByteClass.whitespace.hasChar c = false :=
  not_whitespace_of h (by decide)

theorem not_operator_of_isHexDigit {c : Char} (h : isHexDigit c = true) :
    ByteClass.operator.hasChar c = false := by
  rw [Bool.eq_false_iff]
  intro ho
  simp only [ByteClass.hasChar, ByteClass.operators, List.contains_eq_mem, List.mem_cons,
    List.not_mem_nil, or_false, decide_eq_true_eq] at ho
  rcases ho with rfl | rfl | rfl | rfl | rfl | rfl | rfl | rfl | rfl | rfl | rfl | rfl | rfl | rfl <;>
    exact absurd h (by decide)

/-- Behind a literal a minus is a sign if the literal ends in a letter. -/
theorem NumericLiteral.signMayFollow {n : List Char} (h : NumericLiteral n) (before : List Char) :
    signMayFollow (before ++ n) = endsInLetter n := by
  obtain ⟨x, c, rfl, hc⟩ := h.getLast
  have hw : ByteClass.whitespace.hasChar c = false := by
    rcases hc with hc | rfl
    · exact not_whitespace_of_isHexDigit hc
    · decide
  have ho : ByteClass.operator.hasChar c = false := by
    rcases hc with hc | rfl
    · exact not_operator_of_isHexDigit hc
    · decide
  rw [← List.append_assoc, signMayFollow_concat _ hw, ho, Bool.false_or, endsInLetter,
    List.getLast?_concat, Option.any_some]

theorem Alike.of_digits {c d : Char} {x y : List Char} (hc : ByteClass.digit.hasChar c = true)
    (hd : ByteClass.digit.hasChar d = true) : Alike (c :: x) (d :: y) where
  head := .inr ⟨hc, hd⟩
  minusAndBlank := by
    rw [minusAndBlank_cons, minusAndBlank_cons, beq_false_of_ne (ne_of_hasChar hc (by decide)),
      beq_false_of_ne (ne_of_hasChar hd (by decide)), Bool.false_and, Bool.false_and]
  digitFollows := by
    rw [digitFollows_of_head (by simp [not_whitespace_of_digit hc]),
      digitFollows_of_head (by simp [not_whitespace_of_digit hd])]
    exact hc.trans hd.symm

theorem not_continuesDigits {prev c : Char}
    (h : ByteClass.whitespace.hasChar c = true ∨ c = ',' ∨ c = ')' ∨ c = ';') :
    continuesDigits prev c = false := by
  have hc : ByteClass.numberContinue.hasChar c = false ∧ c ≠ '-' := by
    rcases h with h | rfl | rfl | rfl
    · rcases eq_of_whitespace h with rfl | rfl | rfl | rfl <;> decide
    · decide
    · decide
    · decide
  rw [continuesDigits, hc.1, beq_false_of_ne hc.2, Bool.false_and, Bool.or_false]

end Queries

/-- What digests of two readings with one ending say differs by what was written for the tokens. -/
theorem occurrences_digest {c : Char} (hc : isKept c = true) {o : Options} {r : Rules}
    (hr : Rules.ofOptions o = .ok r) {query query' : String} {ts ts' : List Token}
    {scope : Option Scope} {tail : List Char} (rd : Reading r query.toList ts scope tail)
    (rd' : Reading r query'.toList ts' scope tail) :
    occurrences c (digest o query) + (written r ts').count c =
      occurrences c (digest o query') + (written r ts).count c := by
  have hblank := not_isBlank_of_isKept hc
  rw [digest_eq hr rd, digest_eq hr rd']
  cases scope with
  | none =>
    simp only [occurrences_deliver hc, count_trim hblank, String.toList_ofList]
    omega
  | some sc =>
    have hcount := occurrences_refuse (c := c) o
      ⟨sc, width (spelling ts), query, o.trim (String.ofList (written r ts ++ sc.written r tail))⟩
      ⟨sc, width (spelling ts'), query',
        o.trim (String.ofList (written r ts' ++ sc.written r tail))⟩ rfl
    simp only [count_trim hblank, String.toList_ofList, List.count_append] at hcount
    simp only
    omega

theorem Agree.occurrences_eq {moved : Nat → Nat → Prop} {a b : Except DigestError String}
    (h : Agree moved a b) (c : Char) : occurrences c a = occurrences c b := by
  cases h with
  | ok => rfl
  | refused _ hw _ => simp only [occurrences, hw]

/-- With a sign ahead, the digest behind tokens that no sign may follow has one minus more than the
digest behind tokens that one may follow, if both write the same. -/
theorem occurrences_of_signedDigitNext {o : Options} {r : Rules} (hr : Rules.ofOptions o = .ok r)
    {query query' : String} {ts ts' : List Token} {rest : List Char}
    (hq : query.toList = spelling ts ++ rest) (hq' : query'.toList = spelling ts' ++ rest)
    (hts : ReadsAll r [] ts rest) (hts' : ReadsAll r [] ts' rest)
    (hw : written r ts = written r ts') (hs : SignedDigitNext r rest)
    (hsign : signMayFollow (spelling ts) = true) (hsign' : signMayFollow (spelling ts') = false) :
    occurrences '-' (digest o query') = occurrences '-' (digest o query) + 1 := by
  obtain ⟨blanks, inner, first, more, us, tail, scope, hb, hi, hrest, hfolded, hsplit, hend⟩ :=
    exists_readings_of_signedDigitNext hs hsign hsign'
  have rd : Reading r query.toList
      (ts ++ (blanks.map (blankToken r) ++ .number ('-' :: inner) first more :: us))
      scope tail := by
    refine ⟨?_, .append ?_ hfolded, hend⟩
    · rw [hq, hrest]
      simp [spelling_blankTokens, Token.spelling]
    · simpa [hrest, spelling_blankTokens, Token.spelling] using hts
  have rd' : Reading r query'.toList
      (ts' ++ (blanks.map (blankToken r) ++
        .other '-' :: (inner.map (blankToken r) ++ .number [] first more :: us)))
      scope tail := by
    refine ⟨?_, .append ?_ hsplit, hend⟩
    · rw [hq', hrest]
      simp [spelling_blankTokens, Token.spelling]
    · simpa [hrest, spelling_blankTokens, Token.spelling] using hts'
  have hocc := occurrences_digest (c := '-') (by decide) hr rd rd'
  have hcount := count_writtenFrom_sign (r := r) hb hi (written r ts) first more us
  rw [written_append, written_append, ← hw, hcount] at hocc
  omega

/-- Digests that agree have read what is ahead alike, if a sign is. -/
theorem Agree.signMayFollow_spelling_eq {o : Options} {r : Rules} (hr : Rules.ofOptions o = .ok r)
    {moved : Nat → Nat → Prop} {query query' : String} {ts ts' : List Token} {rest : List Char}
    (hagree : Agree moved (digest o query) (digest o query'))
    (hq : query.toList = spelling ts ++ rest) (hq' : query'.toList = spelling ts' ++ rest)
    (hts : ReadsAll r [] ts rest) (hts' : ReadsAll r [] ts' rest)
    (hw : written r ts = written r ts') (hs : SignedDigitNext r rest) :
    signMayFollow (spelling ts) = signMayFollow (spelling ts') := by
  have hocc := hagree.occurrences_eq '-'
  cases hsign : signMayFollow (spelling ts) with
  | true =>
    cases hsign' : signMayFollow (spelling ts') with
    | true => rfl
    | false =>
      have := occurrences_of_signedDigitNext hr hq hq' hts hts' hw hs hsign hsign'
      omega
  | false =>
    cases hsign' : signMayFollow (spelling ts') with
    | true =>
      have := occurrences_of_signedDigitNext hr hq' hq hts' hts hw.symm hs hsign' hsign
      omega
    | false => rfl

theorem Agree.signMayFollow_eq {o : Options} {r : Rules} (hr : Rules.ofOptions o = .ok r)
    {moved : Nat → Nat → Prop} {query query' : String} {ts : List Token} {t u : Token}
    {rest : List Char} (hagree : Agree moved (digest o query) (digest o query'))
    (hq : query.toList = spelling ts ++ (t.spelling ++ rest))
    (hq' : query'.toList = spelling ts ++ (u.spelling ++ rest))
    (hts : ReadsAll r [] ts (t.spelling ++ rest)) (hts' : ReadsAll r [] ts (u.spelling ++ rest))
    (ht : Reads r (spelling ts) t rest) (hu : Reads r (spelling ts) u rest)
    (hw : ∀ out, t.written r out = u.written r out) (hs : SignedDigitNext r rest) :
    signMayFollow (spelling ts ++ t.spelling) = signMayFollow (spelling ts ++ u.spelling) := by
  rw [← List.append_assoc, ← spelling_snoc] at hq hq'
  rw [← spelling_snoc, ← spelling_snoc]
  exact hagree.signMayFollow_spelling_eq hr hq hq' (hts.snoc ht) (hts'.snoc hu)
    (by rw [written_snoc, written_snoc, hw]) hs

/-- Behind tokens that are written alike, the digests agree if the rest is read alike. -/
theorem agree_of_readsAll {o : Options} {r : Rules} (hr : Rules.ofOptions o = .ok r)
    {moved : Nat → Nat → Prop} {query query' : String} {ts ts' : List Token} {rest : List Char}
    (hq : query.toList = spelling ts ++ rest) (hq' : query'.toList = spelling ts' ++ rest)
    (hts : ReadsAll r [] ts rest) (hts' : ReadsAll r [] ts' rest)
    (hw : written r ts = written r ts')
    (hm : ∀ n, moved (width (spelling ts) + n) (width (spelling ts') + n))
    (h : signMayFollow (spelling ts) = signMayFollow (spelling ts') ∨ ¬ SignedDigitNext r rest) :
    Agree moved (digest o query) (digest o query') := by
  obtain ⟨us, tail, scope, rfl, hus, hend⟩ := exists_reading r (spelling ts) rest
  have hus' : ReadsAll r (spelling ts') us tail := by
    rcases h with hsign | hno
    · exact hus.congr_before hsign
    · exact hus.of_not_signedDigitNext hno
  have rd : Reading r query.toList (ts ++ us) scope tail :=
    ⟨by rw [hq, spelling_append, List.append_assoc], hts.append hus, hend⟩
  have rd' : Reading r query'.toList (ts' ++ us) scope tail :=
    ⟨by rw [hq', spelling_append, List.append_assoc], hts'.append hus', hend⟩
  refine agree_of_readings hr rd rd' ?_ fun _ => ?_
  · rw [written_append, written_append, hw]
  · rw [spelling_append, spelling_append, width_append, width_append]
    exact hm _

/-- One number can stand for another, if the text behind them is read alike. -/
theorem Exchangeable.of_sign {r : Rules} {before rest : List Char} {t u : Token}
    (ht : ∀ b, Reads r b t rest) (hu : ∀ b, Reads r b u rest)
    (halike : Alike (t.spelling ++ rest) (u.spelling ++ rest))
    (hw : ∀ out, t.written r out = u.written r out)
    (h : signMayFollow (before ++ t.spelling) = signMayFollow (before ++ u.spelling) ∨
      ¬ SignedDigitNext r rest) : Exchangeable r before rest t u := by
  refine ⟨ht _, hu _, halike, fun us tail hrest hus => ?_, hw⟩
  rcases h with hsign | hno
  · exact hus.congr_before hsign
  · exact hus.of_not_signedDigitNext (hrest ▸ hno)

/-- One numeric literal in place of another leaves the digest as it is, unless exactly one of them
ends in a letter and a minus and a digit come next. -/
theorem digest_literals_agree_iff {o : Options} {r : Rules} (hr : Rules.ofOptions o = .ok r)
    {p s n₁ n₂ : String} (h₁ : NumericLiteral n₁.toList) (h₂ : NumericLiteral n₂.toList)
    (hs : ∀ c ∈ s.toList.head?,
      ByteClass.whitespace.hasChar c = true ∨ c = ',' ∨ c = ')' ∨ c = ';')
    (hreach : Reaches r (p ++ n₁ ++ s) p) :
    Agree (fun _ _ => True) (digest o (p ++ n₁ ++ s)) (digest o (p ++ n₂ ++ s)) ↔
      endsInLetter n₁.toList = endsInLetter n₂.toList ∨ ¬ SignedDigitNext r s.toList := by
  obtain ⟨first₁, more₁, hn₁, hd₁, hm₁⟩ := h₁.token
  obtain ⟨first₂, more₂, hn₂, hd₂, hm₂⟩ := h₂.token
  have hq₁ : (p ++ n₁ ++ s).toList =
      p.toList ++ ((Token.number [] first₁ more₁).spelling ++ s.toList) := by
    simp [Token.spelling, hn₁]
  have hq₂ : (p ++ n₂ ++ s).toList =
      p.toList ++ ((Token.number [] first₂ more₂).spelling ++ s.toList) := by
    simp [Token.spelling, hn₂]
  have ht : ∀ before, Reads r before (.number [] first₁ more₁) s.toList := fun _ =>
    .number hd₁ hm₁ fun c hc => not_continuesDigits (hs c hc)
  have hu : ∀ before, Reads r before (.number [] first₂ more₂) s.toList := fun _ =>
    .number hd₂ hm₂ fun c hc => not_continuesDigits (hs c hc)
  have halike : Alike ((Token.number [] first₁ more₁).spelling ++ s.toList)
      ((Token.number [] first₂ more₂).spelling ++ s.toList) := .of_digits hd₁ hd₂
  have hst : signMayFollow (p.toList ++ (Token.number [] first₁ more₁).spelling) =
      endsInLetter n₁.toList := by
    rw [← h₁.signMayFollow p.toList, hn₁]
    rfl
  have hsu : signMayFollow (p.toList ++ (Token.number [] first₂ more₂).spelling) =
      endsInLetter n₂.toList := by
    rw [← h₂.signMayFollow p.toList, hn₂]
    rfl
  rw [← hst, ← hsu]
  constructor
  · intro hagree
    refine Classical.or_iff_not_imp_right.2 fun hsign => ?_
    obtain ⟨ts, hts, hreads⟩ := hreach.reads hq₁
    rw [← hts] at hq₁ hq₂ ⊢
    exact hagree.signMayFollow_eq hr hq₁ hq₂ hreads (hreads.alike halike) (ht _) (hu _)
      (fun _ => rfl) (Classical.not_not.1 hsign)
  · intro h
    exact ((Exchangeable.of_sign ht hu halike (fun _ => rfl) h).agree hr hreach hq₁ hq₂).imp
      fun _ _ _ => trivial

/-- Behind `0xA` a minus is a sign, behind `1` it is not. -/
theorem digest_literals_differ : ¬ Agree (fun _ _ => True)
    (digest .default ("a=" ++ "1" ++ " -1")) (digest .default ("a=" ++ "0xA" ++ " -1")) := by
  have hreach : Reaches ⟨⟨'\x60', by decide, .mysql⟩, true, "?"⟩ ("a=" ++ "1" ++ " -1") "a=" := by
    have hq : ("a=" ++ "1" ++ " -1").toList = "a=".toList ++ ['1', ' ', '-', '1'] := by decide
    refine (reaches_iff (List.cons_ne_nil _ _) hq).2 ⟨[.name 'a' [], .other '='], by decide, ?_⟩
    refine .cons (.name (by decide) (by decide) (by simp) ?_) (.cons (.other ?_) .nil)
    · rintro c ⟨⟩
      decide
    · constructor <;> decide
  have hone : NumericLiteral "1".toList :=
    .plain (.whole ⟨List.cons_ne_nil _ [], List.all_eq_true.1 rfl⟩)
  have hten : NumericLiteral "0xA".toList :=
    .hexadecimal (List.cons_ne_nil _ []) (List.all_eq_true.1 rfl)
  have hblank : ∀ c ∈ " -1".toList.head?,
      ByteClass.whitespace.hasChar c = true ∨ c = ',' ∨ c = ')' ∨ c = ';' := by
    rintro c ⟨⟩
    decide
  rw [digest_literals_agree_iff (o := .default) rfl hone hten hblank hreach, not_or,
    Classical.not_not]
  exact ⟨by decide, by decide, [' '], ['1'], rfl, List.all_eq_true.1 rfl, by decide⟩

end Scan
end QueryDigest
