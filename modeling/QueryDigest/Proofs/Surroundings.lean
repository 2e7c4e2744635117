import QueryDigest.Proofs.Reading

/-!
# QueryDigest.Proofs.Surroundings

What the reading of a text depends on outside it. Before the text, only whether a sign may follow
counts (`ReadsAll.congr_before`). Behind it, a token looks at the first character and a minus of its
own at a little more (`Reads.of_endsBefore`): two texts that begin `Alike` give it the same tokens
(`ReadsAll.alike`), and so does no text at all (`ReadsAll.cut`).
-/

namespace QueryDigest
namespace Scan

/-! ## Before -/

theorem signMayFollow_append {before before' : List Char}
    (h : signMayFollow before = signMayFollow before') (x : List Char) :
    signMayFollow (before ++ x) = signMayFollow (before' ++ x) := by
  simp only [signMayFollow, List.findRev?_eq_find?_reverse, List.reverse_append,
    List.find?_append] at h ⊢
  cases x.reverse.find? fun c => !ByteClass.whitespace.hasChar c with
  | none => exact h
  | some c => rfl

theorem signMayFollow_concat (before : List Char) {c : Char}
    (hc : ByteClass.whitespace.hasChar c = false) :
    signMayFollow (before ++ [c]) =
      (ByteClass.operator.hasChar c || ByteClass.nameStart.hasChar c) := by
  simp [signMayFollow, List.findRev?_eq_find?_reverse, hc]

/-- A token sees what stands before it only through signs. -/
theorem Reads.congr_before {r : Rules} {before before' rest : List Char} {t : Token}
    (hb : signMayFollow before = signMayFollow before') (h : Reads r before t rest) :
    Reads r before' t rest := by
  cases h with
  | blank hs hw => exact .blank hs hw
  | identifier hq hi => exact .identifier hq hi
  | string hq hbody hr => exact .string hq hbody hr
  | lineComment hid hm ht hr => exact .lineComment hid hm ht hr
  | blockComment hid hno => exact .blockComment hid hno
  | number hd hm hr => exact .number hd hm hr
  | signedNumber hid hs hbl hd hm hr => exact .signedNumber hid (hb ▸ hs) hbl hd hm hr
  | name hid hn hm hr => exact .name hid hn hm hr
  | other h => exact .other { h with sign := hb ▸ h.sign }

theorem ReadsAll.congr_before {r : Rules} {before before' tail : List Char} {ts : List Token}
    (hb : signMayFollow before = signMayFollow before') (h : ReadsAll r before ts tail) :
    ReadsAll r before' ts tail := by
  induction h generalizing before' with
  | nil => exact .nil
  | cons hread _ ih => exact .cons (hread.congr_before hb) (ih (signMayFollow_append hb _))

/-! ## Behind -/

/-- Texts that continue a token alike: they begin with the same character or both with a digit. -/
structure Alike (x y : List Char) : Prop where
  head : x.head? = y.head? ∨
    x.head?.any ByteClass.digit.hasChar = true ∧ y.head?.any ByteClass.digit.hasChar = true
  minusAndBlank : minusAndBlank x = minusAndBlank y
  digitFollows : digitFollows x = digitFollows y

namespace Alike

variable {x y : List Char}

/-- Heads are alike for a test that all digits answer in one way. -/
theorem any_head (h : Alike x y) {p : Char → Bool} {v : Bool}
    (hp : ∀ c, ByteClass.digit.hasChar c = true → p c = v) : x.head?.any p = y.head?.any p := by
  rcases h.head with he | ⟨hdx, hdy⟩
  · rw [he]
  · rw [Option.any_eq_true] at hdx hdy
    obtain ⟨d, hd, hdd⟩ := hdx
    obtain ⟨e, he, hde⟩ := hdy
    rw [hd, he, Option.any_some, Option.any_some, hp d hdd, hp e hde]

theorem cons (h : Alike x y) (c : Char) : Alike (c :: x) (c :: y) where
  head := .inl rfl
  minusAndBlank := by
    rw [minusAndBlank_cons, minusAndBlank_cons, h.any_head (v := false)]
    intro d hd
    simp [ne_of_hasChar hd (show ByteClass.digit.hasChar ' ' = false by decide),
      ne_of_hasChar hd (show ByteClass.digit.hasChar '\t' = false by decide)]
  digitFollows := by
    rw [Scan.digitFollows, Scan.digitFollows, List.find?_cons, List.find?_cons]
    cases hc : !ByteClass.whitespace.hasChar c with
    | true => rfl
    | false => exact h.digitFollows

theorem append (h : Alike x y) (a : List Char) : Alike (a ++ x) (a ++ y) := by
  induction a with
  | nil => exact h
  | cons c a ih => exact ih.cons c

end Alike

theorem Alike.of_cons_cons {c : Char} (hc : ByteClass.whitespace.hasChar c = false) (d : Char)
    (x y : List Char) : Alike (c :: d :: x) (c :: d :: y) where
  head := .inl rfl
  minusAndBlank := by rw [minusAndBlank_cons, minusAndBlank_cons, List.head?_cons, List.head?_cons]
  digitFollows := by
    rw [digitFollows_of_head (by simpa using hc), digitFollows_of_head (by simpa using hc)]
    rfl

theorem nameContinue_of_digit {c : Char} (h : ByteClass.digit.hasChar c = true) :
    ByteClass.nameContinue.hasChar c = true := by
  simp only [ByteClass.hasChar] at h ⊢
  simp [Char.isAlphanum, h]

/-- Can the character stand right behind the token? -/
def Token.endsBefore : Token → Char → Bool
  | string q _, c => c != q
  | lineComment _ _, c => endsLine c
  | number _ first more, c => !continuesDigits (more.getLastD first) c
  | name _ _, c => !ByteClass.nameContinue.hasChar c
  | other d, c => !(d == '/' && c == '*')
  | blank _, _ | identifier _ _, _ | blockComment _, _ => true

theorem Reads.endsBefore {r : Rules} {before rest : List Char} {t : Token}
    (h : Reads r before t rest) : ∀ c ∈ rest.head?, t.endsBefore c = true := by
  intro c hc
  cases h with
  | string _ _ hr =>
    simp only [Token.endsBefore, bne_iff_ne]
    intro he
    exact hr (he ▸ hc)
  | lineComment _ _ _ hr => exact hr c hc
  | number _ _ hr | signedNumber _ _ _ _ _ hr => rw [Token.endsBefore, hr c hc, Bool.not_false]
  | name _ _ _ hr => simp [Token.endsBefore, hr c hc]
  | other h =>
    simp only [Token.endsBefore, Bool.not_eq_true', Bool.and_eq_false_iff, beq_eq_false_iff_ne]
    refine Classical.or_iff_not_imp_left.2 fun hd he => ?_
    exact h.blockComment (Classical.not_not.1 hd) (he ▸ hc)
  | _ => rfl

/-- A token sees of the text behind it the first character; a minus of its own sees whether a blank
or a digit comes. -/
theorem Reads.of_endsBefore {r : Rules} {before x y : List Char} {t : Token}
    (h : Reads r before t x) (hy : ∀ c ∈ y.head?, t.endsBefore c = true)
    (hm : t = .other '-' →
      minusAndBlank y = false ∧ (signMayFollow before && digitFollows y) = false) :
    Reads r before t y := by
  cases h with
  | blank hs hw => exact .blank hs hw
  | identifier hq hi => exact .identifier hq hi
  | string hq hbody _ =>
    refine .string hq hbody fun hc => ?_
    simpa [Token.endsBefore] using hy _ hc
  | lineComment hid hmark ht _ => exact .lineComment hid hmark ht hy
  | blockComment hid hno => exact .blockComment hid hno
  | number hd hmore _ => exact .number hd hmore fun c hc => by simpa [Token.endsBefore] using hy c hc
  | signedNumber hid hs hb hd hmore _ =>
    exact .signedNumber hid hs hb hd hmore fun c hc => by simpa [Token.endsBefore] using hy c hc
  | name hid hn hmore _ =>
    exact .name hid hn hmore fun c hc => by simpa [Token.endsBefore] using hy c hc
  | other h =>
    refine .other { h with
      lineComment := fun hc => (hm (by rw [hc])).1
      sign := fun hc => (hm (by rw [hc])).2
      blockComment := fun hc hstar => ?_ }
    simpa [Token.endsBefore, hc] using hy _ hstar

/-- No digit can stand behind a token behind which another cannot. -/
theorem Reads.endsBefore_digit {r : Rules} {before rest : List Char} {t : Token}
    (h : Reads r before t rest) {c d : Char} (hc : ByteClass.digit.hasChar c = true)
    (hd : ByteClass.digit.hasChar d = true) : t.endsBefore c = t.endsBefore d := by
  have hsame : ∀ e, ByteClass.digit.hasChar e = false → (c == e) = (d == e) := by
    intro e he
    rw [beq_false_of_ne (ne_of_hasChar hc he), beq_false_of_ne (ne_of_hasChar hd he)]
  cases h with
  | string hq _ _ =>
    rcases (eq_of_beginsString hq).2 with rfl | rfl
    · simp only [Token.endsBefore, bne, hsame '\x27' (by decide)]
    · simp only [Token.endsBefore, bne, hsame '\x22' (by decide)]
  | lineComment _ _ _ _ =>
    simp only [Token.endsBefore, endsLine, hsame '\r' (by decide), hsame '\n' (by decide)]
  | number _ _ _ | signedNumber _ _ _ _ _ _ =>
    simp [Token.endsBefore, continuesDigits_of_digit hc, continuesDigits_of_digit hd]
  | name _ _ _ _ => simp [Token.endsBefore, nameContinue_of_digit hc, nameContinue_of_digit hd]
  | other _ => simp only [Token.endsBefore, hsame '*' (by decide)]
  | _ => rfl

/-- A token sees of the text behind it only what could have continued it. -/
theorem Reads.alike {r : Rules} {before x y : List Char} {t : Token} (hxy : Alike x y)
    (h : Reads r before t x) : Reads r before t y := by
  refine h.of_endsBefore (fun c hc => ?_) fun ht => ?_
  · rcases hxy.head with hhead | ⟨hdx, hdy⟩
    · exact h.endsBefore c (hhead ▸ hc)
    · rw [Option.any_eq_true] at hdx hdy
      obtain ⟨d, hd, hdd⟩ := hdx
      obtain ⟨e, he, hde⟩ := hdy
      obtain rfl : e = c := Option.some.inj (he.symm.trans hc)
      rw [← h.endsBefore_digit hdd hde]
      exact h.endsBefore d hd
  · subst ht
    cases h with
    | other h => exact ⟨hxy.minusAndBlank ▸ h.lineComment rfl, hxy.digitFollows ▸ h.sign rfl⟩

theorem ReadsAll.alike {r : Rules} {before x y : List Char} {ts : List Token} (hxy : Alike x y)
    (h : ReadsAll r before ts x) : ReadsAll r before ts y := by
  induction h with
  | nil => exact .nil
  | cons hread _ ih => exact .cons (hread.alike (hxy.append _)) (ih hxy)

/-- The tokens stay as they are behind another text if each of them does. -/
theorem ReadsAll.transfer {r : Rules} {before x y : List Char} {ts : List Token}
    (h : ReadsAll r before ts x)
    (hstep : ∀ us t vs, ts = us ++ t :: vs →
      Reads r (before ++ spelling us) t (spelling vs ++ x) →
      Reads r (before ++ spelling us) t (spelling vs ++ y)) : ReadsAll r before ts y := by
  induction h with
  | nil => exact .nil
  | @cons before rest t ts hread _ ih =>
    refine .cons ?_ (ih ?_)
    · have := hstep [] t ts rfl
      rw [spelling_nil, List.append_nil] at this
      exact this hread
    · intro us u vs hts hu
      have := hstep (t :: us) u vs (by rw [hts]; rfl)
      rw [spelling_cons, ← List.append_assoc] at this
      exact this hu

/-! ## A text cut short -/

theorem minusAndBlank_append {x : List Char} (h : minusAndBlank x = true) (y : List Char) :
    minusAndBlank (x ++ y) = true := by
  match x with
  | [] => cases h
  | [c] =>
    rw [minusAndBlank_cons] at h
    simp at h
  | c :: d :: x =>
    rw [minusAndBlank_cons] at h
    rw [List.cons_append, minusAndBlank_cons]
    exact h

theorem digitFollows_append_right {x : List Char} (h : digitFollows x = true) (y : List Char) :
    digitFollows (x ++ y) = true := by
  rw [digitFollows, Option.any_eq_true] at h
  obtain ⟨c, hc, hd⟩ := h
  rw [digitFollows, List.find?_append, hc, Option.some_or, Option.any_some, hd]

/-- A token stays as it is if the text behind it is cut short. -/
theorem Reads.of_append {r : Rules} {before x y : List Char} {t : Token}
    (h : Reads r before t (x ++ y)) : Reads r before t x := by
  refine h.of_endsBefore (fun c hc => h.endsBefore c ?_) fun ht => ?_
  · rw [List.head?_append, Option.mem_def.1 hc, Option.some_or]
    rfl
  · subst ht
    cases h with
    | other h =>
      refine ⟨Bool.eq_false_iff.2 fun hx => ?_, Bool.eq_false_iff.2 fun hx => ?_⟩
      · have := h.lineComment rfl
        rw [minusAndBlank_append hx] at this
        cases this
      · rw [Bool.and_eq_true] at hx
        have := h.sign rfl
        rw [hx.1, digitFollows_append_right hx.2] at this
        cases this

/-- Tokens need nothing behind them. -/
theorem ReadsAll.cut {r : Rules} {before tail : List Char} {ts : List Token}
    (h : ReadsAll r before ts tail) : ReadsAll r before ts [] := by
  refine h.transfer fun us t vs _ ht => ?_
  rw [List.append_nil]
  exact ht.of_append

end Scan
end QueryDigest
