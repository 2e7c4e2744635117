import QueryDigest.Proofs.Course

/-!
# QueryDigest.Proofs.Reach

Which places of a query a scan comes to between two tokens. Where more text follows, they are the
places up to which tokens are read (`reaches_iff`).
-/

namespace QueryDigest

open Text

namespace Scan

/-- The scan of the query stands between two tokens behind `before`. -/
def Reaches (r : Rules) (query before : String) : Prop :=
  ∃ s, Steps r (State.start (Source.ofText query)) s ∧ s.mode = .between ∧
    s.cursor.pos = before.utf8ByteSize

theorem Opening.mode_ne_between (op : Opening) : op.mode ≠ .between := by
  cases op <;> exact fun h => by cases h

theorem Reaches.reads {r : Rules} {query before : String} {rest : List Char}
    (h : Reaches r query before) (hq : query.toList = before.toList ++ rest) :
    ∃ ts, spelling ts = before.toList ∧ ReadsAll r [] ts rest := by
  obtain ⟨s, hsteps, hmode, hpos⟩ := h
  obtain ⟨all, scope, tail, rd⟩ := Reading.exists r query.toList
  cases (Standing.start (Source.ofText query) rd).steps rd hsteps with
  | @between ts us hall h =>
    have htext : query.toList = spelling ts ++ (spelling us ++ tail) := by
      rw [rd.text_eq, hall, spelling_append, List.append_assoc]
    have hwidth : width (spelling ts) = width before.toList := by
      rw [← h.cursor.pos, hpos, width_toList]
    obtain ⟨hts, hus⟩ := append_inj_of_width (htext.symm.trans hq) hwidth
    have hreads := rd.reads
    rw [hall] at hreads
    exact ⟨ts, hts, hus ▸ hreads.split.1⟩
  | @inside _ _ _ op _ _ _ _ h => exact absurd (h.mode.symm.trans hmode) op.mode_ne_between
  | @unclosed op _ _ _ _ h => exact absurd (h.mode.symm.trans hmode) op.mode_ne_between

theorem Steps.trans {r : Rules} {s t u : State} (h : Steps r s t) (h' : Steps r t u) :
    Steps r s u := by
  induction h with
  | refl => exact h'
  | cons hend hstep _ ih => exact .cons hend hstep (ih h')

section Reach

variable {r : Rules} {source : Source} {ts : List Token} {rest : List Char} {s : State}

theorem Between.not_atEnd (h : Between r source ts rest s) (hrest : rest ≠ []) :
    s.cursor.atEnd? = some false := by
  rw [h.cursor.atEnd?, Option.some.injEq, List.isEmpty_eq_false_iff]
  exact hrest

theorem Between.start {query : String} (hq : query.toList = rest) :
    Between r (Source.ofText query) [] rest (State.start (Source.ofText query)) :=
  ⟨rfl, rfl, ⟨hq, rfl⟩, rfl, fun ha => by cases ha⟩

theorem Between.steps_token {t : Token} (h : Between r source ts (t.spelling ++ rest) s)
    (ht : Reads r (spelling ts) t rest) (hrest : rest ≠ []) :
    ∃ s', Steps r s s' ∧ Between r source (ts ++ [t]) rest s' := by
  have hend := h.not_atEnd (List.append_ne_nil_of_left_ne_nil t.spelling_ne_nil _)
  cases hop : t.opening? with
  | some op =>
    obtain ⟨body, hbody, hopens⟩ := ht.opens hop
    rw [hbody] at h
    obtain ⟨s₁, hstep₁, h₁⟩ := h.enter hopens
    have hbody' : body ≠ [] := by
      rintro rfl
      rw [List.append_nil] at hbody
      exact hrest (t.of_spelling_eq_passed r [] hop hbody).1
    obtain ⟨s₂, hstep₂, h₂⟩ := h₁.leave ht hop hbody
    refine ⟨s₂, .cons hend hstep₁ (.cons ?_ hstep₂ .refl), h₂⟩
    rw [h₁.cursor.atEnd?, Option.some.injEq, List.isEmpty_eq_false_iff]
    exact hbody'
  | none =>
    cases ht with
    | blank hs hw =>
      obtain ⟨s₁, hstep, h₁⟩ := h.blank hs hw
      exact ⟨s₁, .cons hend hstep .refl, h₁⟩
    | other hc =>
      obtain ⟨s₁, hstep, h₁⟩ := h.other hc
      exact ⟨s₁, .cons hend hstep .refl, h₁⟩
    | _ => cases hop

theorem Between.steps_tokens {us : List Token} (hrest : rest ≠ []) :
    ∀ {ts : List Token} {s : State}, Between r source ts (spelling us ++ rest) s →
      ReadsAll r (spelling ts) us rest →
      ∃ s', Steps r s s' ∧ Between r source (ts ++ us) rest s' := by
  induction us with
  | nil =>
    intro ts s h _
    exact ⟨s, .refl, by simpa using h⟩
  | cons u us ih =>
    intro ts s h hreads
    cases hreads with
    | cons hread hreads =>
      rw [spelling_cons, List.append_assoc] at h
      obtain ⟨s₁, hsteps, h₁⟩ := h.steps_token hread (by simp [hrest])
      rw [← spelling_snoc] at hreads
      obtain ⟨s₂, hsteps', h₂⟩ := ih h₁ hreads
      exact ⟨s₂, hsteps.trans hsteps', by simpa using h₂⟩

end Reach

/-- A scan comes to the places before which tokens are read. -/
theorem reaches_iff {r : Rules} {query before : String} {rest : List Char} (hrest : rest ≠ [])
    (hq : query.toList = before.toList ++ rest) :
    Reaches r query before ↔ ∃ ts, spelling ts = before.toList ∧ ReadsAll r [] ts rest := by
  refine ⟨fun h => h.reads hq, ?_⟩
  rintro ⟨ts, hts, hreads⟩
  rw [← hts] at hq
  obtain ⟨s, hsteps, h⟩ := (Between.start hq).steps_tokens hrest hreads
  refine ⟨s, hsteps, h.mode, ?_⟩
  rw [h.cursor.pos, List.nil_append, hts, width_toList]

end Scan
end QueryDigest
