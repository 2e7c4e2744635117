import QueryDigest.Proofs.Standing

/-!
# QueryDigest.Proofs.Course

The course of a scan. `Steps r s t` says that steps lead from state `s` to state `t`. They start
`Standing` and every step leaves them so (`Standing.step`); at the end of the text, or where a step
finds a scope open, the outcome is that of the reading (`Standing.finish`, `Standing.run_eq`).
Hence a scan always has an outcome, and the reading of the query decides which (`scan_eq`).
-/

namespace QueryDigest

open Text

namespace Scan

/-- Steps from inside the text lead from the first state to the second. -/
inductive Steps (r : Rules) : State → State → Prop where
  | refl {s : State} : Steps r s s
  | cons {s t u : State} : s.cursor.atEnd? = some false → step r s = some (.next t) →
      Steps r t u → Steps r s u

theorem ReadsAll.split {r : Rules} {before tail : List Char} {ts us : List Token}
    (h : ReadsAll r before (ts ++ us) tail) :
    ReadsAll r before ts (spelling us ++ tail) ∧ ReadsAll r (before ++ spelling ts) us tail := by
  induction ts generalizing before with
  | nil => exact ⟨.nil, by simpa using h⟩
  | cons t ts ih =>
    cases h with
    | cons hread hreads =>
      obtain ⟨hts, hus⟩ := ih hreads
      refine ⟨.cons ?_ hts, by simpa using hus⟩
      rw [← List.append_assoc, ← spelling_append]
      exact hread

section Course

variable {r : Rules} {source : Source} {all : List Token} {scope : Option Scope}
  {tail : List Char} {s : State}

theorem Token.passed_prefix (t : Token) {op : Opening} (h : t.opening? = some op) :
    op.passed <+: t.spelling := by
  cases t <;> cases h <;> simp [Opening.passed, spelling]

/-- Only a name or a comment at its end is no more than its opening. -/
theorem Token.of_spelling_eq_passed (r : Rules) (out : List Char) {t : Token} {op : Opening}
    {x : List Char} (hop : t.opening? = some op) (h : t.spelling ++ x = op.passed) :
    x = [] ∧ op.mode.openScope = none ∧ t.written r out = op.begun r := by
  cases t <;> cases hop <;> simp [spelling, Opening.passed] at h
  · exact ⟨h.2, rfl, rfl⟩
  · exact ⟨h.2, rfl, by rw [h.1]; rfl⟩

theorem spelling_eq_nil {ts : List Token} (h : spelling ts = []) : ts = [] := by
  cases ts with
  | nil => rfl
  | cons t ts =>
    rw [spelling_cons, List.append_eq_nil_iff] at h
    exact absurd h.1 t.spelling_ne_nil

theorem Ending.eq_none {r : Rules} {scope : Option Scope} (h : Ending r scope []) :
    scope = none := by
  cases h with
  | done => rfl
  | unclosed h => cases h

theorem Reading.reads_next {text : List Char} {ts us : List Token} {t : Token}
    (h : Reading r text (ts ++ t :: us) scope tail) :
    Reads r (spelling ts) t (spelling us ++ tail) := by
  have := h.reads.split.2
  cases this with
  | cons hread _ => exact hread

namespace Standing

theorem start (source : Source) (h : Reading r source.text.toList all scope tail) :
    Standing r source all scope tail (State.start source) :=
  .between (List.nil_append all).symm ⟨rfl, rfl, ⟨h.text_eq, rfl⟩, rfl, fun ha => by cases ha⟩

theorem exists_at (h : Standing r source all scope tail s) :
    s.cursor.source = source ∧ ∃ before rest, s.cursor.At before rest := by
  cases h with
  | between _ h => exact ⟨h.source, _, _, h.cursor⟩
  | inside _ _ _ h => exact ⟨h.source, _, _, h.cursor⟩
  | unclosed _ _ _ h => exact ⟨h.source, _, _, h.cursor⟩

/-- From inside the text a step goes on, or stops in the scope at the end. -/
theorem step (rd : Reading r source.text.toList all scope tail)
    (h : Standing r source all scope tail s) (hend : s.cursor.atEnd? = some false) :
    (∃ t, Scan.step r s = some (.next t) ∧ Standing r source all scope tail t ∧
      s.cursor.pos ≤ t.cursor.pos) ∨
    ∃ sc t, scope = some sc ∧ Scan.step r s = some (.unclosed sc t) ∧
      t.cursor = s.cursor.toEnd ∧ t.stop sc = outcome r all scope tail := by
  cases h with
  | @between ts us hall h =>
    subst hall
    cases us with
    | nil =>
      rw [List.append_nil] at rd ⊢
      cases rd.ending with
      | done =>
        rw [h.cursor.atEnd?] at hend
        cases hend
      | @unclosed sc _ hu =>
        obtain ⟨op, body, rfl, hscope, hopens⟩ := hu.opens (spelling ts)
        obtain ⟨t, hstep, ht⟩ := h.enter hopens
        exact .inl ⟨t, hstep, .unclosed (Option.some_ne_none _) hscope.symm rfl ht,
          h.cursor.pos_le ht.cursor⟩
    | cons u us =>
      have hread := rd.reads_next
      have hrest : spelling (u :: us) ++ tail = u.spelling ++ (spelling us ++ tail) := by
        rw [spelling_cons, List.append_assoc]
      rw [hrest] at h
      have hnext : ∀ t, Between r source (ts ++ [u]) (spelling us ++ tail) t →
          Standing r source (ts ++ u :: us) scope tail t ∧ s.cursor.pos ≤ t.cursor.pos := by
        intro t ht
        exact ⟨.between (List.append_cons _ _ _) ht,
          h.cursor.pos_le (spelling_snoc ts u ▸ ht.cursor)⟩
      cases hop : u.opening? with
      | some op =>
        obtain ⟨body, hbody, hopens⟩ := hread.opens hop
        rw [hbody] at h
        obtain ⟨t, hstep, ht⟩ := h.enter hopens
        exact .inl ⟨t, hstep, .inside rfl hop hbody ht, h.cursor.pos_le ht.cursor⟩
      | none =>
        cases hread with
        | blank hs hw =>
          obtain ⟨t, hstep, ht⟩ := h.blank hs hw
          exact .inl ⟨t, hstep, hnext t ht⟩
        | other hc =>
          obtain ⟨t, hstep, ht⟩ := h.other hc
          exact .inl ⟨t, hstep, hnext t ht⟩
        | _ => cases hop
  | @inside ts us u op rest hall hop hbody h =>
    subst hall
    obtain ⟨t, hstep, ht⟩ := h.leave rd.reads_next hop hbody
    refine .inl ⟨t, hstep, .between (List.append_cons _ _ _) ht, ?_⟩
    obtain ⟨more, hmore⟩ := u.passed_prefix hop
    have hat := ht.cursor
    rw [spelling_snoc, ← hmore, ← List.append_assoc] at hat
    exact h.cursor.pos_le hat
  | @unclosed op rest hne hscope htail h =>
    cases rd.ending with
    | done => exact absurd rfl hne
    | @unclosed sc _ hu =>
      subst htail
      have hrest : rest ≠ [] := by
        rintro rfl
        rw [h.cursor.atEnd?] at hend
        cases hend
      obtain ⟨t, hstep, hcursor, hstop⟩ := h.stop hu hscope.symm hrest
      exact .inr ⟨sc, t, rfl, hstep, hcursor, hstop⟩

theorem of_step_next (rd : Reading r source.text.toList all scope tail)
    (h : Standing r source all scope tail s) (hend : s.cursor.atEnd? = some false) {t : State}
    (hstep : Scan.step r s = some (.next t)) :
    Standing r source all scope tail t ∧ s.cursor.pos ≤ t.cursor.pos := by
  rcases h.step rd hend with ⟨t', ht, hnext⟩ | ⟨sc, t', _, ht, _⟩
  · rw [hstep] at ht
    cases ht
    exact hnext
  · rw [hstep] at ht
    cases ht

theorem of_step_unclosed (rd : Reading r source.text.toList all scope tail)
    (h : Standing r source all scope tail s) (hend : s.cursor.atEnd? = some false) {sc : Scope}
    {t : State} (hstep : Scan.step r s = some (.unclosed sc t)) :
    t.stop sc = outcome r all scope tail := by
  rcases h.step rd hend with ⟨t', ht, _⟩ | ⟨sc', t', _, ht, _, hstop⟩
  · rw [hstep] at ht
    cases ht
  · rw [hstep] at ht
    cases ht
    exact hstop

theorem step_ne_none (rd : Reading r source.text.toList all scope tail)
    (h : Standing r source all scope tail s) (hend : s.cursor.atEnd? = some false) :
    Scan.step r s ≠ none := by
  rcases h.step rd hend with ⟨t, ht, _⟩ | ⟨sc, t, _, ht, _⟩
  · exact ht ▸ Option.some_ne_none _
  · exact ht ▸ Option.some_ne_none _

/-- At the end of the text a scan has the outcome of the reading. -/
theorem finish (rd : Reading r source.text.toList all scope tail)
    (h : Standing r source all scope tail s) (hend : s.cursor.atEnd? = some true) :
    s.finish = outcome r all scope tail := by
  cases h with
  | @between ts us hall h =>
    rw [h.cursor.atEnd?, Option.some.injEq, List.isEmpty_iff, List.append_eq_nil_iff] at hend
    obtain ⟨hus, rfl⟩ := hend
    obtain rfl := spelling_eq_nil hus
    obtain rfl := rd.ending.eq_none
    rw [hall, List.append_nil, outcome, ← h.output, String.ofList_toList, State.finish, h.mode]
    rfl
  | @inside ts us u op rest hall hop hbody h =>
    rw [h.cursor.atEnd?, Option.some.injEq, List.isEmpty_iff] at hend
    rw [hend, List.append_nil] at hbody
    obtain ⟨hx, hscope, hwritten⟩ := u.of_spelling_eq_passed r (written r ts) hop hbody
    rw [List.append_eq_nil_iff] at hx
    obtain ⟨hus, rfl⟩ := hx
    obtain rfl := spelling_eq_nil hus
    obtain rfl := rd.ending.eq_none
    rw [hall, outcome, written_snoc, hwritten, ← h.output, String.ofList_toList, State.finish,
      h.mode, hscope]
  | @unclosed op rest hne hscope htail h =>
    rw [h.cursor.atEnd?, Option.some.injEq, List.isEmpty_iff] at hend
    subst hend
    rw [List.append_nil] at htail
    obtain ⟨sc, hsc⟩ := Option.ne_none_iff_exists'.1 hne
    rw [hsc, htail]
    exact h.finish (by rw [← hscope, hsc])

/-- A run has the outcome of the reading. -/
theorem run_eq (rd : Reading r source.text.toList all scope tail)
    (h : Standing r source all scope tail s) : run r s = some (outcome r all scope tail) := by
  fun_induction run r s with
  | case1 s hend =>
    obtain ⟨_, _, _, hat⟩ := h.exists_at
    rw [hat.atEnd?] at hend
    cases hend
  | case2 s hend => rw [h.finish rd hend]
  | case3 s hend hstep => exact absurd hstep (h.step_ne_none rd hend)
  | case4 s hend scope' t hstep => rw [h.of_step_unclosed rd hend hstep]
  | case5 s hend t hstep hlt ih => exact ih (h.of_step_next rd hend hstep).1

theorem steps (rd : Reading r source.text.toList all scope tail) {t : State}
    (h : Standing r source all scope tail s) (hst : Steps r s t) :
    Standing r source all scope tail t := by
  induction hst with
  | refl => exact h
  | cons hend hstep _ ih => exact ih (h.of_step_next rd hend hstep).1

end Standing

end Course

/-- The reading of a query decides the outcome of its scan. -/
theorem scan_eq {r : Rules} {query : String} {ts : List Token} {scope : Option Scope}
    {tail : List Char} (h : Reading r query.toList ts scope tail) :
    scan r (Source.ofText query) = some (outcome r ts scope tail) :=
  (Standing.start (Source.ofText query) h).run_eq h

theorem scan_eq_some_iff {r : Rules} {query : String} {o : Outcome} :
    scan r (Source.ofText query) = some o ↔
      ∃ ts scope tail, Reading r query.toList ts scope tail ∧ outcome r ts scope tail = o := by
  constructor
  · intro h
    obtain ⟨ts, scope, tail, rd⟩ := Reading.exists r query.toList
    rw [scan_eq rd, Option.some.injEq] at h
    exact ⟨ts, scope, tail, rd, h⟩
  · rintro ⟨ts, scope, tail, rd, rfl⟩
    exact scan_eq rd

theorem scan_eq_finished_iff {r : Rules} {query out : String} :
    scan r (Source.ofText query) = some (.finished out) ↔
      ∃ ts, spelling ts = query.toList ∧ ReadsAll r [] ts [] ∧ out.toList = written r ts := by
  rw [scan_eq_some_iff]
  constructor
  · rintro ⟨ts, scope, tail, rd, hout⟩
    cases scope with
    | some scope => cases hout
    | none =>
      cases rd.ending
      rw [outcome, Outcome.finished.injEq] at hout
      exact ⟨ts, by rw [rd.text_eq, List.append_nil], rd.reads, by
        rw [← hout, String.toList_ofList]⟩
  · rintro ⟨ts, htext, hreads, hout⟩
    refine ⟨ts, none, [], ⟨by rw [htext, List.append_nil], hreads, .done⟩, ?_⟩
    rw [outcome, ← hout, String.ofList_toList]

end Scan
end QueryDigest
