import QueryDigest.Proofs.Blanks
import QueryDigest.Proofs.Literals
import QueryDigest.Proofs.Scopes
import QueryDigest.Proofs.Trimming

/-!
# QueryDigest.Proofs.Whitespace

Which blanks stand between two tokens. Where whitespace runs are written as one space, a run outside
of strings, quoted identifiers and comments can be exchanged for any other. It lies between two
tokens, or between a sign and its number (`exists_place_of_blanks`), and in both places all runs are
read and written alike (`readAlike_of_blanks`). One run only cannot be exchanged freely, the one that
ends a line comment: the comment goes on up to a line break, and nothing but blanks may stand before
that (`digest_blanks`).
-/

namespace QueryDigest

open Text

namespace Scan

/-- One or more whitespace characters. -/
structure BlankRun (cs : List Char) : Prop where
  ne_nil : cs ≠ []
  blank : ∀ c ∈ cs, ByteClass.whitespace.hasChar c = true

theorem blankRun_iff {cs : List Char} :
    BlankRun cs ↔ cs ≠ [] ∧ cs.all ByteClass.whitespace.hasChar = true := by
  rw [List.all_eq_true]
  exact ⟨fun h => ⟨h.ne_nil, h.blank⟩, fun h => ⟨h.1, h.2⟩⟩

instance : DecidablePred BlankRun := fun _ => decidable_of_iff _ blankRun_iff.symm

theorem BlankRun.exists_cons {cs : List Char} (h : BlankRun cs) :
    ∃ c ds, cs = c :: ds ∧ ByteClass.whitespace.hasChar c = true := by
  obtain ⟨c, ds, rfl⟩ := List.exists_cons_of_ne_nil h.ne_nil
  exact ⟨c, ds, rfl, h.blank c List.mem_cons_self⟩

theorem BlankRun.head_append {cs : List Char} (h : BlankRun cs) (rest : List Char) :
    ∀ c ∈ (cs ++ rest).head?, ByteClass.whitespace.hasChar c = true := by
  obtain ⟨c, ds, rfl, hc⟩ := h.exists_cons
  rintro d ⟨⟩
  exact hc

theorem BlankRun.append {cs ds : List Char} (h : BlankRun cs)
    (hds : ∀ c ∈ ds, ByteClass.whitespace.hasChar c = true) : BlankRun (cs ++ ds) := by
  refine ⟨List.append_ne_nil_of_left_ne_nil h.ne_nil ds, fun c hc => ?_⟩
  exact (List.mem_append.1 hc).elim (h.blank c) (hds c)

theorem whitespace_of_endsLine {c : Char} (h : endsLine c = true) :
    ByteClass.whitespace.hasChar c = true := by
  rw [endsLine, Bool.or_eq_true, beq_iff_eq, beq_iff_eq] at h
  rcases h with rfl | rfl <;> decide

/-- Nothing but blanks stands before the first line break of a run. -/
theorem BlankRun.before_line_break {cs : List Char} (h : BlankRun cs)
    (hbreak : ∃ c ∈ cs, endsLine c = true) (rest : List Char) :
    ∀ c ∈ (cs ++ rest).takeWhile (fun c => !endsLine c), ByteClass.whitespace.hasChar c = true := by
  obtain ⟨more, v, rfl, hmore, hv⟩ := exists_run (fun c => !endsLine c) cs
  cases v with
  | nil =>
    obtain ⟨c, hc, hend⟩ := hbreak
    rw [List.append_nil] at hc
    exact absurd (hmore c hc) (by simp [hend])
  | cons d v =>
    rw [List.append_assoc, List.cons_append, takeWhile_of_run hmore (by simpa using hv)]
    exact fun c hc => h.blank c (List.mem_append_left _ hc)

/-! ## Before a run -/

section Before

variable {r : Rules} {before s w w' z : List Char} {t : Token} {ts : List Token}

theorem digitFollows_exchange (hw : BlankRun w) (hw' : BlankRun w') (z s : List Char) :
    digitFollows (z ++ (w ++ s)) = digitFollows (z ++ (w' ++ s)) := by
  have hnone : ∀ {w : List Char}, BlankRun w →
      w.find? (fun c => !ByteClass.whitespace.hasChar c) = none := by
    intro w hw
    rw [List.find?_eq_none]
    intro c hc
    simp [hw.blank c hc]
  simp only [digitFollows, List.find?_append, hnone hw, hnone hw', Option.none_or]

theorem minusAndBlank_exchange (hw : BlankRun w) (hw' : BlankRun w') (hz : z ≠ ['-'])
    (s : List Char) : minusAndBlank (z ++ (w ++ s)) = minusAndBlank (z ++ (w' ++ s)) := by
  match z with
  | [] =>
    have key : ∀ {w : List Char}, BlankRun w → minusAndBlank (w ++ s) = false := fun hw =>
      minusAndBlank_of_head fun c hc => ne_of_hasChar (hw.head_append s c hc) (by decide)
    exact (key hw).trans (key hw').symm
  | [c] =>
    have hne : c ≠ '-' := fun hc => hz (by rw [hc])
    simp only [List.cons_append, minusAndBlank_cons, beq_false_of_ne hne, Bool.false_and]
  | c :: d :: z => simp only [List.cons_append, minusAndBlank_cons, List.head?_cons]

/-- Every token can end before a blank, a line comment only before a line break. -/
theorem Reads.endsBefore_blank {x : List Char} {c : Char} (h : Reads r before t x)
    (hc : ByteClass.whitespace.hasChar c = true)
    (hline : ∀ mark text, t = .lineComment mark text → endsLine c = true) :
    t.endsBefore c = true := by
  cases h with
  | string hq _ _ =>
    rw [Token.endsBefore, bne_iff_ne]
    rcases (eq_of_beginsString hq).2 with rfl | rfl <;> exact ne_of_hasChar hc (by decide)
  | lineComment _ _ _ _ => exact hline _ _ rfl
  | number _ _ _ | signedNumber _ _ _ _ _ _ =>
    rw [Token.endsBefore, not_continuesDigits (.inl hc), Bool.not_false]
  | name _ _ _ _ =>
    rw [Token.endsBefore]
    rcases eq_of_whitespace hc with rfl | rfl | rfl | rfl <;> decide
  | other _ =>
    rw [Token.endsBefore, beq_false_of_ne (ne_of_hasChar hc (by decide)), Bool.and_false]
    rfl
  | _ => rfl

/-- Tokens in front of a run are read alike before every run, unless a line comment ends there. -/
theorem ReadsAll.exchange_blanks (hw : BlankRun w) (hw' : BlankRun w')
    (h : ReadsAll r before ts (z ++ (w ++ s))) (hdash : ¬ ['-', '-'] <:+ spelling ts ++ z)
    (hline : ∀ us mark text, z = [] → ts ≠ us ++ [.lineComment mark text]) :
    ReadsAll r before ts (z ++ (w' ++ s)) := by
  refine h.transfer fun us t vs hts hread => ?_
  rw [← List.append_assoc] at hread ⊢
  generalize hy : spelling vs ++ z = y at hread ⊢
  refine hread.of_endsBefore (fun c hc => ?_) fun ht => ?_
  · cases y with
    | cons d y => exact hread.endsBefore c hc
    | nil =>
      obtain ⟨d, v, rfl, hd⟩ := hw'.exists_cons
      obtain rfl := Option.some.inj hc
      obtain ⟨hvs, hz⟩ := List.append_eq_nil_iff.1 hy
      refine hread.endsBefore_blank hd fun mark text ht => ?_
      exact absurd (by rw [hts, spelling_eq_nil hvs, ht]) (hline us mark text hz)
  · subst ht
    have hy' : y ≠ ['-'] := by
      rintro rfl
      refine hdash ⟨spelling us, ?_⟩
      rw [hts, spelling_append, spelling_cons, List.append_assoc, List.append_assoc, hy]
      rfl
    rw [← minusAndBlank_exchange hw hw' hy', ← digitFollows_exchange hw hw']
    cases hread with
    | other h => exact ⟨h.lineComment rfl, h.sign rfl⟩

/-- A line comment takes up what stands before the next line break, or before the end. -/
theorem ReadsAll.extend_lineComment {us : List Token} {mark : Char} {text more x y : List Char}
    (h : ReadsAll r [] (us ++ [.lineComment mark text]) x)
    (hmore : ∀ c ∈ more, endsLine c = false) (hy : ∀ c ∈ y.head?, endsLine c = true) :
    ReadsAll r [] (us ++ [.lineComment mark (text ++ more)]) y := by
  obtain ⟨hus, hcomment⟩ := h.split
  cases hcomment with
  | cons hread _ =>
    cases hread with
    | lineComment hid hmark htext _ =>
      refine (hus.alike (.of_cons_cons (by decide) '-' _ _)).snoc (.lineComment hid hmark ?_ hy)
      intro c hc
      rcases List.mem_append.1 hc with hc | hc
      · exact htext c hc
      · exact hmore c hc

end Before

/-! ## A run -/

section Run

variable {r : Rules} {w w' : List Char}

theorem written_blankRun (hs : r.strip = true) (hw : BlankRun w) (out : List Char) :
    writtenFrom r out (w.map (blankToken r)) =
      if out.getLast? = some ' ' then out else out ++ [' '] := by
  have hspace : ∀ (w out : List Char), out.getLast? = some ' ' →
      writtenFrom r out (w.map (blankToken r)) = out := by
    intro w
    induction w with
    | nil => exact fun _ _ => rfl
    | cons c w ih =>
      intro out hout
      have hc : (blankToken r c).written r out = [] := by
        rw [blankToken, if_pos hs, Token.written, if_pos hout]
      rw [List.map_cons, writtenFrom, List.foldl_cons, hc, List.append_nil]
      exact ih out hout
  by_cases hout : out.getLast? = some ' '
  · rw [if_pos hout, hspace w out hout]
  · obtain ⟨c, w, rfl, -⟩ := hw.exists_cons
    have hc : (blankToken r c).written r out = [' '] := by
      rw [blankToken, if_pos hs, Token.written, if_neg hout]
    rw [if_neg hout, List.map_cons, writtenFrom, List.foldl_cons, hc]
    exact hspace w _ List.getLast?_concat

end Run

/-! ## Where a run stands -/

section Place

variable {r : Rules} {query query' p : String} {w w' s : List Char}

/-- The place where a text is cut lies between two of its tokens, inside one, or behind them all. -/
theorem exists_cut {all : List Token} {tail p x : List Char}
    (h : spelling all ++ tail = p ++ x) :
    (∃ ts us, all = ts ++ us ∧ p = spelling ts ∧ x = spelling us ++ tail) ∨
    (∃ ts t us a b, all = ts ++ t :: us ∧ p = spelling ts ++ a ∧ t.spelling = a ++ b ∧
      a ≠ [] ∧ b ≠ [] ∧ x = b ++ (spelling us ++ tail)) ∨
    ∃ a, a ≠ [] ∧ p = spelling all ++ a ∧ tail = a ++ x := by
  induction all generalizing p with
  | nil =>
    cases p with
    | nil => exact .inl ⟨[], [], rfl, rfl, h.symm⟩
    | cons c p => exact .inr (.inr ⟨c :: p, List.cons_ne_nil c p, rfl, h⟩)
  | cons t ts ih =>
    rw [spelling_cons, List.append_assoc] at h
    rcases List.append_eq_append_iff.1 h with ⟨a, rfl, hx⟩ | ⟨b, ht, hx⟩
    · rcases ih hx with ⟨us, vs, rfl, rfl, rfl⟩ | ⟨us, u, vs, a, b, rfl, rfl, hcut⟩ | ⟨b, hb, rfl, hcut⟩
      · exact .inl ⟨t :: us, vs, rfl, rfl, rfl⟩
      · refine .inr (.inl ⟨t :: us, u, vs, a, b, rfl, ?_, hcut⟩)
        rw [spelling_cons, List.append_assoc]
      · exact .inr (.inr ⟨b, hb, by rw [spelling_cons, List.append_assoc], hcut⟩)
    · by_cases hb : b = []
      · subst hb
        rw [List.append_nil] at ht
        exact .inl ⟨[t], ts, rfl, by simp [ht], hx⟩
      · by_cases hp : p = []
        · subst hp
          refine .inl ⟨[], t :: ts, rfl, rfl, ?_⟩
          rw [hx, spelling_cons, List.append_assoc, ht, List.nil_append]
        · exact .inr (.inl ⟨[], t, ts, p, b, rfl, rfl, ht, hp, hb, hx⟩)

theorem not_continueDigits_of_blank {prev c : Char} (a : List Char) {b : List Char}
    (hc : ByteClass.whitespace.hasChar c = true) : continueDigits prev (a ++ c :: b) = false := by
  rw [continueDigits_append, continueDigits, not_continuesDigits (.inl hc), Bool.false_and,
    Bool.and_false]

/-- The first blank of a scope is behind its opening. The first two characters of a line comment are
not all of its opening. -/
theorem Opens.passed_before_blank {before rest a b : List Char} {op : Opening} {c : Char}
    (h : Opens r before op rest) (hscope : op.mode.isScope = true)
    (htext : op.passed ++ rest = a ++ c :: b) (ha : a ≠ []) (hdash : a ≠ ['-', '-'])
    (hc : ByteClass.whitespace.hasChar c = true) : op.passed <+: a := by
  have hvisible : ∀ d, ByteClass.whitespace.hasChar d = false → d ≠ c := by
    rintro d hd rfl
    rw [hc] at hd
    cases hd
  cases a with
  | nil => exact absurd rfl ha
  | cons d a =>
    cases h with
    | identifier _ | string _ =>
      obtain ⟨rfl, -⟩ := List.cons.inj htext
      exact ⟨a, rfl⟩
    | lineComment _ _ =>
      obtain ⟨rfl, hminus⟩ := List.cons.inj htext
      cases a with
      | nil => exact absurd (List.cons.inj hminus).1 (hvisible '-' (by decide))
      | cons e a =>
        obtain ⟨rfl, hmark⟩ := List.cons.inj hminus
        cases a with
        | nil => exact absurd rfl hdash
        | cons f a =>
          obtain ⟨rfl, -⟩ := List.cons.inj hmark
          exact ⟨a, rfl⟩
    | blockComment _ =>
      obtain ⟨rfl, hstar⟩ := List.cons.inj htext
      cases a with
      | nil => exact absurd (List.cons.inj hstar).1 (hvisible '*' (by decide))
      | cons e a =>
        obtain ⟨rfl, -⟩ := List.cons.inj hstar
        exact ⟨a, rfl⟩
    | number _ | signedNumber _ _ _ _ | name _ _ => cases hscope

/-- A blank in a token is behind the opening of a scope, or between a sign and its number. -/
theorem Reads.cut_at_blank {before rest a b : List Char} {t : Token} {c : Char}
    (h : Reads r before t rest) (ht : t.spelling = a ++ c :: b) (ha : a ≠ [])
    (hdash : a ≠ ['-', '-']) (hc : ByteClass.whitespace.hasChar c = true) :
    (∃ op, t.opening? = some op ∧ op.mode.isScope = true ∧ op.passed <+: a) ∨
    ∃ i j first more, t = .number ('-' :: (i ++ c :: j)) first more ∧ a = '-' :: i ∧
      ByteClass.digit.hasChar first = true := by
  have hscope : ∀ op, t.opening? = some op → op.mode.isScope = true →
      ∃ op, t.opening? = some op ∧ op.mode.isScope = true ∧ op.passed <+: a := by
    intro op hop hscope
    obtain ⟨body, hbody, hopens⟩ := h.opens hop
    rw [ht, List.append_assoc] at hbody
    exact ⟨op, hop, hscope, hopens.passed_before_blank hscope hbody.symm ha hdash hc⟩
  obtain ⟨d, a, rfl⟩ := List.exists_cons_of_ne_nil ha
  rw [List.cons_append] at ht
  cases h with
  | blank _ _ | other _ => simp [Token.spelling] at ht
  | identifier _ _ | string _ _ _ | lineComment _ _ _ _ | blockComment _ _ =>
    exact .inl (hscope _ rfl rfl)
  | number _ hm _ =>
    obtain ⟨rfl, rfl⟩ := List.cons.inj ht
    rw [not_continueDigits_of_blank a hc] at hm
    cases hm
  | @signedNumber blanks first more _ _ _ _ hd hm _ =>
    have hfirst : first ≠ c := by
      rintro rfl
      rw [not_whitespace_of_digit hd] at hc
      cases hc
    obtain ⟨rfl, hblanks⟩ := List.cons.inj ht
    rcases List.append_eq_append_iff.1 hblanks with ⟨k, rfl, hk⟩ | ⟨k, rfl, hk⟩
    · cases k with
      | nil => exact absurd (List.cons.inj hk).1 hfirst
      | cons e k =>
        obtain ⟨rfl, rfl⟩ := List.cons.inj hk
        rw [List.append_eq, not_continueDigits_of_blank k hc] at hm
        cases hm
    · cases k with
      | nil => exact absurd (List.cons.inj hk).1.symm hfirst
      | cons e k =>
        obtain ⟨rfl, -⟩ := List.cons.inj hk
        exact .inr ⟨a, k, first, more, rfl, rfl, hd⟩
  | name _ _ hm _ =>
    obtain ⟨rfl, rfl⟩ := List.cons.inj ht
    have := hm c (by simp)
    rcases eq_of_whitespace hc with rfl | rfl | rfl | rfl <;> cases this

theorem exists_of_blanks_append {v j y : List Char} {first : Char}
    (hv : ∀ c ∈ v, ByteClass.whitespace.hasChar c = true)
    (hfirst : ByteClass.whitespace.hasChar first = false) (h : v ++ s = j ++ first :: y) :
    ∃ k, j = v ++ k ∧ s = k ++ first :: y := by
  rcases List.append_eq_append_iff.1 h with ⟨k, hj, hs⟩ | ⟨k, rfl, hk⟩
  · exact ⟨k, hj, hs⟩
  · cases k with
    | nil => exact ⟨[], by simp, hk.symm⟩
    | cons e k =>
      obtain ⟨rfl, -⟩ := List.cons.inj hk
      rw [hv first (by simp)] at hfirst
      cases hfirst

/-- A run outside of scopes stands between two tokens, or between a sign and its number. -/
theorem exists_place_of_blanks (hw : BlankRun w) (hdash : ¬ ['-', '-'] <:+ p.toList)
    (hin : ¬ PassesInside r query p) (hq : query.toList = p.toList ++ (w ++ s)) :
    (∃ ts, p.toList = spelling ts ∧ ReadsAll r [] ts (w ++ s)) ∨
    ∃ ts i j first more us scope tail, p.toList = spelling ts ++ '-' :: i ∧
      s = j ++ first :: (more ++ (spelling us ++ tail)) ∧
      Reading r query.toList (ts ++ .number ('-' :: (i ++ (w ++ j))) first more :: us)
        scope tail := by
  obtain ⟨all, scope, tail, rd⟩ := Reading.exists r query.toList
  obtain ⟨c, v, rfl, hc⟩ := hw.exists_cons
  have hdash' : ∀ {ts a}, p.toList = spelling ts ++ a → a ≠ ['-', '-'] := by
    rintro ts a hp rfl
    exact hdash ⟨spelling ts, hp.symm⟩
  have hle : ∀ {ts a op}, p.toList = spelling ts ++ a → Opening.passed op <+: a →
      width (spelling ts ++ op.passed) ≤ p.utf8ByteSize := by
    rintro ts _ op hp ⟨k, rfl⟩
    rw [← width_toList, hp, ← List.append_assoc, width_append _ k]
    omega
  rcases exists_cut (rd.text_eq.symm.trans hq) with
    ⟨ts, us, rfl, hp, hx⟩ | ⟨ts, t, us, a, b, rfl, hp, ht, ha, hb, hx⟩ | ⟨a, ha, hp, htail⟩
  · exact .inl ⟨ts, hp, hx ▸ rd.reads.split.1⟩
  · obtain ⟨d, b, rfl⟩ := List.exists_cons_of_ne_nil hb
    obtain ⟨rfl, hrest⟩ := List.cons.inj hx
    have hread := rd.reads_next
    rcases hread.cut_at_blank ht ha (hdash' hp) hc with
      ⟨op, hop, hscope, hpassed⟩ | ⟨i, j, first, more, rfl, rfl, hd⟩
    · have hreads := rd.reads.split.1
      have htext := rd.text_eq
      rw [spelling_cons, List.append_assoc] at hreads
      rw [spelling_append, spelling_cons, List.append_assoc, List.append_assoc] at htext
      refine absurd (PassesInside.of_token htext hreads hread hop hscope (hle hp hpassed) ?_) hin
      have := width_pos_of_ne_nil (List.cons_ne_nil c b)
      rw [← width_toList, hp, ht, ← List.append_assoc, width_append _ (c :: b)]
      omega
    · obtain rfl : b = j ++ first :: more := by simpa [Token.spelling] using ht.symm
      simp only [List.append_eq, List.append_assoc, List.cons_append] at hrest
      obtain ⟨k, rfl, rfl⟩ := exists_of_blanks_append
        (fun d hd => hw.blank d (List.mem_cons_of_mem c hd)) (not_whitespace_of_digit hd) hrest
      exact .inr ⟨ts, i, k, first, more, us, scope, tail, hp, rfl, rd⟩
  · cases rd.ending with
    | done => exact absurd (List.append_eq_nil_iff.1 htail.symm).1 ha
    | @unclosed scope _ hun =>
      obtain ⟨op, body, rfl, hopen, hopens⟩ := hun.opens (spelling all)
      have hscope : op.mode.isScope = true :=
        Mode.isScope_of_openScope (hopen ▸ Option.some_ne_none _)
      obtain ⟨k, rfl⟩ := hopens.passed_before_blank hscope htail ha (hdash' hp) hc
      have hbody : body = k ++ (c :: v ++ s) := by simpa using htail
      refine absurd (PassesInside.of_unclosed ?_ rd hopens hopen ?_) hin
      · rw [hbody]
        simp
      · exact hle hp ⟨k, rfl⟩

/-- Two queries are read with the same ending, the first of them in tokens at least as far as `p`, and
the same is written, but for blanks at the end of a query without an open scope. -/
def ReadAlike (r : Rules) (p query query' : List Char) : Prop :=
  ∃ ts ts' scope tail, Reading r query ts scope tail ∧ Reading r query' ts' scope tail ∧
    width p ≤ width (spelling ts) ∧ trimEnd (written r ts) = trimEnd (written r ts') ∧
    (scope ≠ none → written r ts = written r ts')

/-- Tokens, a run behind them and tokens behind the run. -/
theorem Reading.around_run {ts us : List Token} {tail : List Char} {scope : Option Scope}
    (hw : BlankRun w) (hts : ReadsAll r [] ts (w ++ (spelling us ++ tail)))
    (hus : ReadsAll r (spelling ts ++ w) us tail) (hend : Ending r scope tail) :
    Reading r (spelling ts ++ (w ++ (spelling us ++ tail)))
      (ts ++ (w.map (blankToken r) ++ us)) scope tail := by
  refine ⟨by simp [spelling_blankTokens], .append ?_ (.append ?_ ?_), hend⟩
  · simpa [spelling_blankTokens] using hts
  · exact readsAll_blankTokens hw.blank _ _
  · simpa [spelling_blankTokens] using hus

theorem readAlike_between {ts ts' : List Token} (hs : r.strip = true) (hw : BlankRun w)
    (hw' : BlankRun w') (h : ReadsAll r [] ts (w ++ s)) (h' : ReadsAll r [] ts' (w' ++ s))
    (hsign : signMayFollow (spelling ts) = signMayFollow (spelling ts'))
    (hwritten : written r ts = written r ts') :
    ReadAlike r (spelling ts) (spelling ts ++ (w ++ s)) (spelling ts' ++ (w' ++ s)) := by
  obtain ⟨us, tail, scope, rfl, hus, hend⟩ := exists_reading r (spelling ts ++ w) s
  have hbehind : signMayFollow (spelling ts ++ w) = signMayFollow (spelling ts' ++ w') := by
    rw [signMayFollow_append_blanks hw.blank, signMayFollow_append_blanks hw'.blank, hsign]
  have hsame : written r (ts ++ (w.map (blankToken r) ++ us)) =
      written r (ts' ++ (w'.map (blankToken r) ++ us)) := by
    rw [written_append, written_append, writtenFrom_append, writtenFrom_append,
      written_blankRun hs hw, written_blankRun hs hw', hwritten]
  refine ⟨_, _, scope, tail, .around_run hw h hus hend,
    .around_run hw' h' (hus.congr_before hbehind) hend, ?_, congrArg trimEnd hsame, fun _ => hsame⟩
  rw [spelling_append, width_append]
  omega

/-- Blanks at the end of a query can be left out. -/
theorem readAlike_at_end {ts ts' : List Token} (hs : r.strip = true) (hw : BlankRun w)
    (h : ReadsAll r [] ts w) (h' : ReadsAll r [] ts' []) (hwritten : written r ts = written r ts') :
    ReadAlike r (spelling ts) (spelling ts ++ w) (spelling ts') := by
  rw [← List.append_nil w] at h
  have rd := @Reading.around_run r w ts [] [] none hw h .nil .done
  simp only [spelling_nil, List.append_nil] at rd
  refine ⟨_, ts', none, [], rd, ⟨(List.append_nil _).symm, h', .done⟩, ?_, ?_,
    fun hscope => absurd rfl hscope⟩
  · rw [spelling_append, width_append]
    omega
  · rw [written_append, written_blankRun hs hw, ← hwritten]
    split
    · rfl
    · exact trimEnd_append_blanks (by simp [isBlank_of_whitespace (c := ' ') (by decide)])

/-- A blank that stands in a run, or in blanks behind it, starts a run that ends no earlier. -/
theorem BlankRun.exists_from {more v : List Char} {d : Char} (hw : BlankRun w)
    (hmore : ∀ c ∈ more, ByteClass.whitespace.hasChar c = true)
    (hd : ByteClass.whitespace.hasChar d = true) (h : w ++ s = more ++ d :: v) :
    ∃ k x y, s = k ++ y ∧ (∀ c ∈ k, ByteClass.whitespace.hasChar c = true) ∧ BlankRun x ∧
      d :: v = x ++ y := by
  have hrun : BlankRun [d] := ⟨List.cons_ne_nil d [], by simpa using hd⟩
  rcases List.append_eq_append_iff.1 h with ⟨a, rfl, rfl⟩ | ⟨a, rfl, hcut⟩
  · refine ⟨a ++ [d], [d], v, by simp, fun c hc => ?_, hrun, rfl⟩
    exact (List.mem_append.1 hc).elim (fun hc => hmore c (List.mem_append_right _ hc)) (hrun.blank c)
  · cases a with
    | nil => exact ⟨[d], [d], v, hcut.symm, hrun.blank, hrun, rfl⟩
    | cons e a =>
      refine ⟨[], e :: a, s, rfl, by simp, ⟨List.cons_ne_nil e a, fun c hc => ?_⟩, hcut⟩
      exact hw.blank c (List.mem_append_right more hc)

/-- Behind a line comment that nothing but blanks would make longer, a run can be exchanged. -/
theorem readAlike_behind_comment {us : List Token} {mark : Char} {text : List Char}
    (hs : r.strip = true) (hw : BlankRun w) (hw' : BlankRun w')
    (h : ReadsAll r [] (us ++ [.lineComment mark text]) (w ++ s))
    (hline : ∀ c ∈ (w' ++ s).takeWhile (fun c => !endsLine c),
      ByteClass.whitespace.hasChar c = true) :
    ReadAlike r (spelling (us ++ [.lineComment mark text]))
      (spelling (us ++ [.lineComment mark text]) ++ (w ++ s))
      (spelling (us ++ [.lineComment mark text]) ++ (w' ++ s)) := by
  obtain ⟨more, v, htext, hmore, hv⟩ := exists_run (fun c => !endsLine c) (w' ++ s)
  rw [htext, takeWhile_of_run hmore hv] at hline
  simp only [Bool.not_eq_true', Bool.not_eq_false'] at hmore hv
  have hreads := h.extend_lineComment hmore hv
  have hwritten : written r (us ++ [.lineComment mark text]) =
      written r (us ++ [.lineComment mark (text ++ more)]) := by
    rw [written_snoc, written_snoc]
    rfl
  have hspell : spelling (us ++ [.lineComment mark (text ++ more)]) =
      spelling (us ++ [.lineComment mark text]) ++ more := by
    simp [Token.spelling]
  cases v with
  | nil =>
    -- the second query ends in the comment, and the first in blanks, which are trimmed
    rw [List.append_nil] at htext
    rw [htext, ← hspell]
    refine readAlike_at_end hs (hw.append fun c hc => hline c ?_) h hreads hwritten
    exact htext ▸ List.mem_append_right w' hc
  | cons d v =>
    obtain ⟨k, x, y, rfl, hk, hx, hxy⟩ :=
      hw'.exists_from hline (whitespace_of_endsLine (hv d rfl)) htext
    rw [← List.append_assoc] at h
    rw [hxy] at hreads
    rw [htext, hxy, ← List.append_assoc w, ← List.append_assoc (spelling _) more, ← hspell]
    refine readAlike_between hs (hw.append hk) hx h hreads ?_ hwritten
    rw [hspell, signMayFollow_append_blanks hline]

theorem Reading.exchange_in_sign {ts us : List Token} {i j more text tail : List Char}
    {first : Char} {scope : Option Scope} (hw : BlankRun w) (hw' : BlankRun w')
    (hdash : ¬ ['-', '-'] <:+ spelling ts ++ '-' :: i)
    (rd : Reading r text (ts ++ .number ('-' :: (i ++ (w ++ j))) first more :: us) scope tail) :
    Reading r (spelling ts ++ '-' :: i ++ (w' ++ (j ++ first :: (more ++ (spelling us ++ tail)))))
      (ts ++ .number ('-' :: (i ++ (w' ++ j))) first more :: us) scope tail := by
  have htext : ∀ v, (Token.number ('-' :: (i ++ (v ++ j))) first more).spelling ++
      (spelling us ++ tail) =
        '-' :: i ++ (v ++ (j ++ first :: (more ++ (spelling us ++ tail)))) := by
    intro v
    simp [Token.spelling]
  have hread := rd.reads_next
  obtain ⟨hts, hus⟩ := rd.reads.split
  rw [spelling_cons, List.append_assoc, htext] at hts
  rw [List.append_assoc, ← htext]
  cases hread with
  | signedNumber hid hsign hb hd hm hr =>
    refine .of_parts ?_ (.signedNumber hid hsign (fun c hc => ?_) hd hm hr) rfl ?_ rd.ending
    · rw [htext]
      exact hts.exchange_blanks hw hw' hdash fun _ _ _ hz => absurd hz (List.cons_ne_nil _ _)
    · simp only [List.mem_append] at hb hc
      rcases hc with hc | hc | hc
      · exact hb c (.inl hc)
      · exact hw'.blank c hc
      · exact hb c (.inr (.inr hc))
    · cases hus with
      | cons _ hus =>
        refine hus.congr_before ?_
        simp only [List.nil_append, Token.spelling, ← List.append_assoc]
        exact signMayFollow_append_visible List.mem_cons_self (not_whitespace_of_digit hd)

/-- A run outside of scopes can be exchanged, behind a line comment if nothing but blanks would make
the comment longer. -/
theorem readAlike_of_blanks (hs : r.strip = true) (hw : BlankRun w) (hw' : BlankRun w')
    (hdash : ¬ ['-', '-'] <:+ p.toList) (hin : ¬ PassesInside r query p)
    (hline : EndsLineComment r query p →
      ∀ c ∈ (w' ++ s).takeWhile (fun c => !endsLine c), ByteClass.whitespace.hasChar c = true)
    (hq : query.toList = p.toList ++ (w ++ s)) (hq' : query'.toList = p.toList ++ (w' ++ s)) :
    ReadAlike r p.toList query.toList query'.toList := by
  rcases exists_place_of_blanks hw hdash hin hq with
    ⟨ts, hp, hts⟩ | ⟨ts, i, j, first, more, us, scope, tail, hp, rfl, rd⟩
  · rw [hq, hq', hp]
    by_cases hlast : ∃ us mark text, ts = us ++ [.lineComment mark text]
    · obtain ⟨us, mark, text, rfl⟩ := hlast
      refine readAlike_behind_comment hs hw hw' hts (hline ?_)
      obtain ⟨hfirst, hlast⟩ := hts.split
      cases hlast with
      | cons hread _ =>
        rw [spelling_cons, spelling_nil, List.append_nil] at hfirst
        refine .of_token ?_ hfirst hread ?_
        · rw [hq, hp, spelling_snoc, List.append_assoc]
        · rw [hp, spelling_snoc]
    · rw [hp] at hdash
      have hts' : ReadsAll r [] ts (w' ++ s) := by
        refine ReadsAll.exchange_blanks (z := []) hw hw' hts (by rwa [List.append_nil]) ?_
        rintro us mark text - rfl
        exact hlast ⟨us, mark, text, rfl⟩
      exact readAlike_between hs hw hw' hts hts' rfl rfl
  · have rd' := rd.exchange_in_sign hw hw' (hp ▸ hdash)
    rw [← hp, ← hq'] at rd'
    have hnumber : ∀ out, (Token.number ('-' :: (i ++ (w ++ j))) first more).written r out =
        (Token.number ('-' :: (i ++ (w' ++ j))) first more).written r out := fun _ => rfl
    have hsame := written_exchange hnumber ts us
    refine ⟨_, _, scope, tail, rd, rd', ?_, congrArg trimEnd hsame, fun _ => hsame⟩
    simp only [hp, spelling_append, spelling_cons, Token.spelling, List.cons_append, width_append,
      width_cons]
    omega

end Place

/-- Queries that are read alike have digests that agree, with the places of a refusal as far from the
ends of the queries. -/
theorem ReadAlike.agree {o : Options} {r : Rules} (hr : Rules.ofOptions o = .ok r)
    {p query query' : String} (h : ReadAlike r p.toList query.toList query'.toList) :
    Agree (fun n m => p.utf8ByteSize ≤ n ∧
        n + query'.utf8ByteSize = m + query.utf8ByteSize)
      (digest o query) (digest o query') := by
  obtain ⟨ts, ts', scope, tail, rd, rd', hle, hend, hwritten⟩ := h
  refine agree_of_trimmed_readings hr rd rd' hend hwritten fun _ => ?_
  have hsize := congrArg width rd.text_eq
  have hsize' := congrArg width rd'.text_eq
  rw [width_toList, width_append] at hsize hsize'
  rw [width_toList] at hle
  omega

theorem strip_of_ofOptions {o : Options} {r : Rules} (hr : Rules.ofOptions o = .ok r) :
    r.strip = o.stripWhitespace := by
  obtain ⟨_, rfl⟩ := Rules.eq_of_ofOptions hr
  rfl

/-- The digest does not depend on which blanks stand outside of strings, quoted identifiers and
comments. A line comment in front of them goes on up to the first line break among the others or
behind them, so nothing but blanks may stand before that. A line break among the others is enough
(`BlankRun.before_line_break`). -/
theorem digest_blanks {o : Options} {r : Rules} (hr : Rules.ofOptions o = .ok r)
    (hstrip : o.stripWhitespace = true) {p s w w' : String} (hw : BlankRun w.toList)
    (hw' : BlankRun w'.toList) (hdash : ¬ ['-', '-'] <:+ p.toList)
    (hin : ¬ PassesInside r (p ++ w ++ s) p)
    (hline : EndsLineComment r (p ++ w ++ s) p →
      ∀ c ∈ (w'.toList ++ s.toList).takeWhile (fun c => !endsLine c),
        ByteClass.whitespace.hasChar c = true) :
    Agree (fun n m => if n < p.utf8ByteSize then n = m
        else n + w'.utf8ByteSize = m + w.utf8ByteSize)
      (digest o (p ++ w ++ s)) (digest o (p ++ w' ++ s)) := by
  have hs : r.strip = true := (strip_of_ofOptions hr).trans hstrip
  have htext : ∀ v : String, (p ++ v ++ s).toList = p.toList ++ (v.toList ++ s.toList) := by
    intro v
    simp
  have hread := readAlike_of_blanks hs hw hw' hdash hin hline (htext w) (htext w')
  refine (hread.agree hr).imp fun n m ⟨hle, hmoved⟩ => ?_
  simp only [String.utf8ByteSize_append] at hmoved
  rw [if_neg (by omega)]
  omega

theorem reading_line_comment : Reading ⟨⟨'\x60', by decide, .mysql⟩, true, "?"⟩
    ("-- c" ++ "\n" ++ "b").toList [.lineComment ' ' ['c'], .blank '\n', .name 'b' []] none [] := by
  refine ⟨by decide, .cons (.lineComment (by decide) (.inl rfl) ?_ ?_)
    (.cons (.blank rfl (by decide)) (.cons (.name (by decide) (by decide) (by simp) (by simp))
      .nil)), .done⟩
  · simp [endsLine]
  · rintro c ⟨⟩
    decide

theorem not_passesInside_line_comment :
    ¬ PassesInside ⟨⟨'\x60', by decide, .mysql⟩, true, "?"⟩ ("-- c" ++ "\n" ++ "b") "-- c" := by
  intro h
  obtain ⟨ts, t, us, op, hall, hop, hscope, -, hlt⟩ := h.token reading_line_comment
  match ts with
  | [] =>
    obtain ⟨rfl, -⟩ := List.cons.inj hall
    exact absurd hlt (by decide)
  | [_] =>
    obtain ⟨-, hall⟩ := List.cons.inj hall
    obtain ⟨rfl, -⟩ := List.cons.inj hall
    cases hop
  | [_, _] =>
    obtain ⟨-, hall⟩ := List.cons.inj hall
    obtain ⟨-, hall⟩ := List.cons.inj hall
    obtain ⟨rfl, -⟩ := List.cons.inj hall
    cases hop
    cases hscope
  | _ :: _ :: _ :: ts => simp at hall

/-- A comment line that goes on with a space before another line break. -/
theorem digest_blanks_line_breaks :
    Agree (fun n m => if n < 4 then n = m else n + 3 = m + 1)
      (digest .default ("-- c" ++ "\n" ++ "b")) (digest .default ("-- c" ++ " \r\n" ++ "b")) :=
  have h := @digest_blanks .default _ rfl rfl "-- c" "b" "\n" " \r\n" (by decide)
    (by decide) (by decide) not_passesInside_line_comment
  h fun _ => BlankRun.before_line_break (by decide) ⟨'\n', by decide, by decide⟩ _

/-- A space does not end a comment line, so the comment takes what a line break leaves standing. -/
theorem digest_line_comment_space : ∃ r, Rules.ofOptions .default = .ok r ∧
    Options.default.stripWhitespace = true ∧ BlankRun "\n".toList ∧ BlankRun " ".toList ∧
    ¬ ['-', '-'] <:+ "-- c".toList ∧ ¬ PassesInside r ("-- c" ++ "\n" ++ "b") "-- c" ∧
    ¬ Agree (fun _ _ => True) (digest .default ("-- c" ++ "\n" ++ "b"))
      (digest .default ("-- c" ++ " " ++ "b")) := by
  refine ⟨⟨⟨'\x60', by decide, .mysql⟩, true, "?"⟩, rfl, rfl, by decide, by decide, by decide,
    not_passesInside_line_comment, fun h => ?_⟩
  have rd : Reading ⟨⟨'\x60', by decide, .mysql⟩, true, "?"⟩ ("-- c" ++ " " ++ "b").toList
      [.lineComment ' ' ['c', ' ', 'b']] none [] :=
    ⟨by decide, .cons (.lineComment (by decide) (.inl rfl) (by simp [endsLine]) (by simp)) .nil,
      .done⟩
  have hbreak : digest .default ("-- c" ++ "\n" ++ "b") = .ok "b" :=
    (digest_eq rfl reading_line_comment).trans (by rfl)
  have hspace : digest .default ("-- c" ++ " " ++ "b") = .ok "" := (digest_eq rfl rd).trans (by rfl)
  rw [hbreak, hspace] at h
  exact absurd (h.occurrences_eq 'b') (by decide)

end Scan
end QueryDigest
