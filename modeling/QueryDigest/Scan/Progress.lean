import QueryDigest.Scan.Step

/-!
# QueryDigest.Scan.Progress

Every step of a scan takes it nearer to the end of the query. Most steps move the cursor on; the
few that leave it in place change the mode to one that moves it. `State.effort` counts twice the
bytes left and adds a little for modes whose next step may stand still; `effort_step_lt` says that
a step from inside the text makes it smaller. The scan's recursion ends by it.
-/

namespace QueryDigest

namespace Scan

/-- A closed string ends past where it was entered. -/
theorem closeString_eq {quote : UInt8} {c c' : Cursor} (h : closeString quote c = some (c', true)) :
    c'.source = c.source ∧ c.pos < c'.pos := by
  fun_induction closeString quote c with
  | case1 c c₁ hc => simp at h
  | case2 c c₁ b hc hlt hb ih =>
    obtain ⟨hs, hp⟩ := ih h
    obtain ⟨hs₁, hp₁, _⟩ := Cursor.of_seek_eq_some hc
    simp only [Cursor.pos_advance] at hp
    exact ⟨hs.trans hs₁, by omega⟩
  | case3 c c₁ b hc hlt hb hpeek => simp at h
  | case4 c c₁ b hc hlt hb next hpeek hnext ih =>
    obtain ⟨hs, hp⟩ := ih h
    obtain ⟨hs₁, hp₁, _⟩ := Cursor.of_seek_eq_some hc
    simp only [Cursor.pos_advance] at hp
    exact ⟨hs.trans hs₁, by omega⟩
  | case5 c c₁ b hc hlt hb next hpeek hnext =>
    cases h
    obtain ⟨hs₁, hp₁, _⟩ := Cursor.of_seek_eq_some hc
    exact ⟨hs₁, by simp only [Cursor.pos_advance]; omega⟩

/-- The bytes of a number end no earlier than they begin. -/
theorem skipNumber_eq {prev : UInt8} {c c' : Cursor} (h : skipNumber prev c = some c') :
    c'.source = c.source ∧ c.pos ≤ c'.pos := by
  fun_induction skipNumber prev c with
  | case1 prev c hc => cases h
  | case2 prev c b hc hlt hb ih =>
    obtain ⟨hs, hp⟩ := ih h
    simp only [Cursor.pos_advance] at hp
    exact ⟨hs, by omega⟩
  | case3 prev c b hc hlt hb =>
    cases h
    exact ⟨rfl, Nat.le_refl _⟩

/-- From a digit, the bytes of a number end further on. -/
theorem skipNumber_lt {prev b : UInt8} {c c' : Cursor} (hb : c.current? = some b)
    (hd : ByteClass.digit.has b = true) (h : skipNumber prev c = some c') : c.pos < c'.pos := by
  have hcont : continuesNumber prev b = true := by
    have : ByteClass.numberContinue.has b = true := by
      simp only [ByteClass.has, ByteClass.hasChar] at hd ⊢
      simp [hd]
    simp [continuesNumber, this]
  unfold skipNumber at h
  split at h
  · cases h
  · rename_i b' hb'
    rw [hb] at hb'
    cases hb'
    simp only [hcont, if_true] at h
    have := (skipNumber_eq h).2
    simp only [Cursor.pos_advance] at this
    omega

/-- Does the cursor read a digit? -/
def State.onDigit (s : State) : Bool :=
  s.cursor.current?.any ByteClass.digit.has

/-- A bound on the steps left: twice the bytes left, and some more where the next step may leave
the cursor in place. -/
def State.effort (s : State) : Nat :=
  2 * (s.cursor.source.size - s.cursor.pos) +
    match s.mode with
    | .number => if s.onDigit then 0 else 2
    | .name | .lineComment => 2
    | _ => 1

/-- What is entered between tokens at `.number` is a digit. -/
theorem onDigit_of_lead {r : Rules} {c : Cursor} (h : Lead.at? r c = some .number) :
    c.current?.any ByteClass.digit.has = true := by
  obtain ⟨b, next, afterNext, hb, _, _, h⟩ := Lead.at?_eq_some_iff.1 h
  unfold Lead.ofBytes at h
  rw [hb]
  grind

theorem lt_of_lead_signedNumber {r : Rules} {c : Cursor} {first : Nat}
    (h : Lead.at? r c = some (.signedNumber first)) : c.pos < first := by
  obtain ⟨b, next, afterNext, _, _, _, h⟩ := Lead.at?_eq_some_iff.1 h
  have hfold : Sign.foldedDigit c.source.bytes c.pos = some first := by
    unfold Lead.ofBytes at h
    grind
  exact Sign.lt_of_foldedDigit hfold

namespace State

/-- The effort left once the cursor has moved on. -/
theorem effort_lt_of_moved {s t : State} (hin : s.cursor.pos < s.cursor.source.size)
    (hs : t.cursor.source = s.cursor.source) (hp : s.cursor.pos < t.cursor.pos)
    (hm : s.mode = .number ∧ s.onDigit = true → t.mode = .between) : t.effort < s.effort := by
  unfold effort
  rw [hs]
  grind

theorem effort_stringStep_lt {r : Rules} {quote : UInt8} {s t : State}
    (hin : s.cursor.pos < s.cursor.source.size) (hm : s.mode = .string quote)
    (h : s.stringStep r quote = some (.next t)) : t.effort < s.effort := by
  simp only [stringStep, Option.bind_eq_bind, Option.bind_eq_some_iff] at h
  obtain ⟨⟨cursor, closed⟩, hc, h⟩ := h
  cases closed <;> simp at h
  subst h
  obtain ⟨hs, hp⟩ := closeString_eq hc
  exact effort_lt_of_moved hin hs hp (by simp [hm])

theorem effort_identifierStep_lt {r : Rules} {quote : UInt8} {s t : State}
    (hin : s.cursor.pos < s.cursor.source.size) (hm : s.mode = .identifier quote)
    (h : s.identifierStep r quote = some (.next t)) : t.effort < s.effort := by
  simp only [identifierStep, Cursor.toByte, Option.bind_eq_bind, Option.bind_eq_some_iff,
    Option.pure_def, Option.some.injEq] at h
  obtain ⟨text, _, h⟩ := h
  have hpos := Cursor.pos_seek (· == quote) s.cursor (by omega)
  cases hc : ((s.cursor.seek (· == quote)).2).isSome <;> simp [hc] at h
  subst h
  refine effort_lt_of_moved hin (by simp [moveTo]) ?_ (by simp [hm])
  simp only [moveTo, Cursor.pos_advance]
  omega

theorem effort_blockCommentStep_lt {s t : State} (hin : s.cursor.pos < s.cursor.source.size)
    (hm : s.mode = .blockComment) (h : s.blockCommentStep = .next t) : t.effort < s.effort := by
  unfold blockCommentStep at h
  cases hc : s.cursor.pastBlockComment.2 <;> simp [hc] at h
  subst h
  have hpos := Cursor.pos_pastBlockComment hc
  refine effort_lt_of_moved hin (by simp [moveTo]) ?_ (by simp [hm])
  simp only [moveTo]
  omega

theorem effort_nameStep_lt {s t : State} (hm : s.mode = .name) (h : s.nameStep = some (.next t)) :
    t.effort < s.effort := by
  simp only [nameStep, Option.bind_eq_bind, Option.bind_eq_some_iff, Option.pure_def,
    Option.some.injEq, Step.next.injEq] at h
  obtain ⟨cursor, hc, text, _, rfl⟩ := h
  obtain ⟨hs, hp⟩ := Cursor.skipWhile?_eq hc
  simp only [effort, hm, moveTo, hs]
  omega

theorem effort_lineCommentStep_lt {s t : State} (hin : s.cursor.pos < s.cursor.source.size)
    (hm : s.mode = .lineComment) (h : s.lineCommentStep = .next t) : t.effort < s.effort := by
  unfold lineCommentStep at h
  cases h
  have hpos := Cursor.pos_seek (fun b => b == '\r'.toUInt8 || b == '\n'.toUInt8) s.cursor (by omega)
  simp only [effort, hm, moveTo, Cursor.toLineEnd, Cursor.source_seek]
  omega

theorem effort_numberStep_lt {s t : State} (hin : s.cursor.pos < s.cursor.source.size)
    (hm : s.mode = .number) (h : s.numberStep = some (.next t)) : t.effort < s.effort := by
  simp only [numberStep, Option.bind_eq_bind, Option.bind_eq_some_iff, Option.pure_def,
    Option.some.injEq, Step.next.injEq] at h
  obtain ⟨cursor, hc, rfl⟩ := h
  obtain ⟨hs, hp⟩ := skipNumber_eq hc
  by_cases hd : s.onDigit = true
  · have hlt : s.cursor.pos < cursor.pos := by
      simp only [onDigit, Option.any_eq_true] at hd
      obtain ⟨b, hb, hdig⟩ := hd
      exact skipNumber_lt hb hdig hc
    exact effort_lt_of_moved hin hs hlt (by simp [moveTo])
  · simp only [effort, hm, moveTo, hs, hd]
    simp only [Bool.false_eq_true, if_false]
    omega

theorem effort_betweenStep_lt {r : Rules} {s t : State}
    (hin : s.cursor.pos < s.cursor.source.size) (hm : s.mode = .between)
    (h : s.betweenStep r = some (.next t)) : t.effort < s.effort := by
  simp only [betweenStep, Option.bind_eq_bind, Option.bind_eq_some_iff, Option.pure_def,
    Option.some.injEq, Step.next.injEq] at h
  obtain ⟨lead, hlead, t', ht, rfl⟩ := h
  generalize hs' : (if lead == Lead.blank then s else { s with afterBlank := false }) = s' at ht
  have hcur : s'.cursor = s.cursor := by
    subst hs'
    split <;> rfl
  have hmode : s'.mode = .between := by
    subst hs'
    split <;> exact hm
  cases lead with
  | number =>
    cases ht
    have hd : s.onDigit = true := onDigit_of_lead hlead
    simp only [effort, hm, moveTo, onDigit, hcur]
    simp only [onDigit] at hd
    simp [hd]
  | signedNumber first =>
    cases ht
    have := lt_of_lead_signedNumber hlead
    refine effort_lt_of_moved hin (by simp [moveTo, hcur]) ?_ (by simp [hm])
    simp only [moveTo, Cursor.pos_advanceTo, hcur]
    omega
  | character =>
    simp only [enter, Option.bind_eq_bind, Option.bind_eq_some_iff, Option.pure_def,
      Option.some.injEq] at ht
    obtain ⟨cursor, hc, text, _, rfl⟩ := ht
    obtain ⟨hs, hp⟩ := Cursor.advanceChar?_eq hc
    rw [hcur] at hs hp
    exact effort_lt_of_moved hin hs hp (by simp [hm])
  | blank =>
    cases ht
    refine effort_lt_of_moved hin ?_ ?_ (by simp [hm]) <;> simp [blankStep, hcur]
  | _ =>
    cases ht
    refine effort_lt_of_moved hin ?_ ?_ (by simp [hm]) <;>
      simp [moveTo, openHere, put, hcur]

end State

/-- A step from inside the text leaves less to do. -/
theorem effort_step_lt {r : Rules} {s t : State} (hin : s.cursor.pos < s.cursor.source.size)
    (h : step r s = some (.next t)) : t.effort < s.effort := by
  unfold step at h
  cases hm : s.mode with
  | between => exact State.effort_betweenStep_lt hin hm (by simpa [hm] using h)
  | string quote => exact State.effort_stringStep_lt hin hm (by simpa [hm] using h)
  | identifier quote => exact State.effort_identifierStep_lt hin hm (by simpa [hm] using h)
  | name => exact State.effort_nameStep_lt hm (by simpa [hm] using h)
  | number => exact State.effort_numberStep_lt hin hm (by simpa [hm] using h)
  | blockComment => exact State.effort_blockCommentStep_lt hin hm (by simpa [hm] using h)
  | lineComment => exact State.effort_lineCommentStep_lt hin hm (by simpa [hm] using h)

end Scan
end QueryDigest
