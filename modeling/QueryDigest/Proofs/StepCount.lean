import QueryDigest.Proofs.Bounds
import QueryDigest.Proofs.Surroundings

/-!
# QueryDigest.Proofs.StepCount

How many steps a scan takes. `Takes r n s o` counts the steps of a run, the one that finds a scope
open included; every run has a count (`exists_takes`), and it is below the effort of the state the
run starts in (`Takes.lt_effort`), which for a whole query is one more than twice its bytes.

The bound is not the number of bytes, because some steps leave the cursor in place. They are `Idle`:
one into a number, from the digit it begins with, and those behind the first byte of a name or the
opening of a line comment that nothing more of it follows. None of them is followed by another, for
what keeps a name or a comment from going on is no digit (`Standing.paced`).
-/

namespace QueryDigest

open Text

namespace Cursor

/-- Skipping stops at a byte that is not skipped. -/
theorem current?_of_skipWhile? {p : UInt8 → Bool} {c d : Cursor} (h : c.skipWhile? p = some d) :
    ∃ b, d.current? = some b ∧ p b = false := by
  simp only [skipWhile?, Option.map_eq_some_iff] at h
  obtain ⟨i, hi, rfl⟩ := h
  obtain ⟨-, ⟨hlt, hp⟩, -⟩ := Bytes.findIdx?_eq_some_iff.1 hi
  refine ⟨c.source.padded[i], ?_, by simpa using hp⟩
  rw [current?, Source.byte?, dif_pos hlt]

theorem eq_of_pos {c d : Cursor} (hs : c.source = d.source) (hp : c.pos = d.pos) : c = d := by
  cases c
  cases d
  cases hs
  cases hp
  rfl

end Cursor

namespace Scan

/-! ## Counting -/

/-- From the state, a scan takes `n` steps to the outcome. -/
inductive Takes (r : Rules) : Nat → State → Outcome → Prop where
  | finish {s : State} : s.cursor.atEnd? = some true → Takes r 0 s s.finish
  | stop {s t : State} {scope : Scope} : s.cursor.atEnd? = some false →
      step r s = some (.unclosed scope t) → Takes r 1 s (t.stop scope)
  | next {s t : State} {n : Nat} {o : Outcome} : s.cursor.atEnd? = some false →
      step r s = some (.next t) → Takes r n t o → Takes r (n + 1) s o

section Counting

variable {r : Rules} {s t : State} {n : Nat} {o : Outcome}

theorem Takes.run_eq (h : Takes r n s o) : run r s = some o := by
  induction h with
  | finish hend => rw [Scan.run_eq, hend]
  | stop hend hstep =>
    rw [Scan.run_eq, hend]
    simp only [hstep]
  | next hend hstep _ ih =>
    rw [Scan.run_eq, hend]
    simp only [hstep, ih]

theorem exists_takes (h : run r s = some o) : ∃ n, Takes r n s o := by
  fun_induction run r s with
  | case1 s hend => cases h
  | case2 s hend =>
    cases h
    exact ⟨0, .finish hend⟩
  | case3 s hend hstep => cases h
  | case4 s hend scope t hstep =>
    cases h
    exact ⟨1, .stop hend hstep⟩
  | case5 s hend t hstep hlt ih =>
    obtain ⟨n, hn⟩ := ih h
    exact ⟨n + 1, .next hend hstep hn⟩

theorem not_onDigit_of_atEnd? (h : s.cursor.atEnd? = some true) : s.onDigit = false := by
  simp only [Cursor.atEnd?, Option.map_eq_some_iff, Bool.and_eq_true, beq_iff_eq] at h
  obtain ⟨b, hb, rfl, -⟩ := h
  rw [State.onDigit, hb, Option.any_some, ByteClass.has_zero]

theorem effort_pos_of_atEnd? (h : s.cursor.atEnd? = some true) : 0 < s.effort := by
  have hdigit := not_onDigit_of_atEnd? h
  unfold State.effort
  split <;> simp [hdigit]

/-- A run takes fewer steps than the effort of its state. -/
theorem Takes.lt_effort (h : Takes r n s o) : n < s.effort := by
  induction h with
  | finish hend => exact effort_pos_of_atEnd? hend
  | stop hend _ =>
    have hin := Cursor.pos_lt_size_of_atEnd? hend
    unfold State.effort
    omega
  | next hend hstep _ ih =>
    have hlt := effort_step_lt (Cursor.pos_lt_size_of_atEnd? hend) hstep
    omega

theorem effort_start (source : Source) : (State.start source).effort = 2 * source.size + 1 := rfl

end Counting

/-! ## Idle steps -/

/-- The steps that leave the cursor in place. -/
inductive Idle (s t : State) : Prop where
  /-- On a digit, a number begins. -/
  | number : s.mode = .between → t.mode = .number → s.onDigit = true → Idle s t
  /-- The first byte of a name is all of it. -/
  | name {b : UInt8} : s.mode = .name → s.cursor.current? = some b →
      ByteClass.nameContinue.has b = false → Idle s t
  /-- The line ends with the opening of its comment. -/
  | lineComment {b : UInt8} : s.mode = .lineComment → s.cursor.current? = some b →
      b = '\r'.toUInt8 ∨ b = '\n'.toUInt8 → Idle s t

section Idle

variable {r : Rules} {s t : State}

/-- From inside a token, a step that goes on comes back between tokens. -/
theorem mode_of_step_next (hm : s.mode ≠ .between) (h : step r s = some (.next t)) :
    t.mode = .between := by
  unfold step at h
  cases hmode : s.mode with
  | between => exact absurd hmode hm
  | string quote =>
    simp only [hmode, State.stringStep, Option.bind_eq_bind, Option.bind_eq_some_iff,
      Option.pure_def, Option.some.injEq] at h
    obtain ⟨⟨cursor, closed⟩, -, h⟩ := h
    cases closed <;> cases h
    rfl
  | identifier quote =>
    simp only [hmode, State.identifierStep, Option.bind_eq_bind, Option.bind_eq_some_iff,
      Option.pure_def, Option.some.injEq] at h
    obtain ⟨text, -, h⟩ := h
    split at h <;> cases h
    rfl
  | name =>
    simp only [hmode, State.nameStep, Option.bind_eq_bind, Option.bind_eq_some_iff,
      Option.pure_def, Option.some.injEq] at h
    obtain ⟨cursor, -, text, -, h⟩ := h
    cases h
    rfl
  | number =>
    simp only [hmode, State.numberStep, Option.bind_eq_bind, Option.bind_eq_some_iff,
      Option.pure_def, Option.some.injEq] at h
    obtain ⟨cursor, -, h⟩ := h
    cases h
    rfl
  | blockComment =>
    simp only [hmode, State.blockCommentStep, Option.some.injEq] at h
    split at h <;> cases h
    rfl
  | lineComment =>
    simp only [hmode, State.lineCommentStep, Option.some.injEq] at h
    cases h
    rfl

/-- What a scan sees of a number is a digit. -/
theorem Inside.onDigit {source : Source} {ts : List Token} {op : Opening} {rest : List Char}
    (h : Inside r source ts op rest s) (hm : s.mode = .number) : s.onDigit = true := by
  have hdigit : ∀ {first : Char} {more : List Char}, ByteClass.digit.hasChar first = true →
      s.cursor.At (spelling ts ++ op.passed) (first :: more) → s.onDigit = true := by
    intro first more hd hat
    rw [State.onDigit, hat.current?, Option.any_some, has_firstByte_cons, hd]
  have hop := h.mode.symm.trans hm
  cases h.opens with
  | number hd => exact hdigit hd h.cursor
  | signedNumber _ _ _ hd => exact hdigit hd h.cursor
  | _ => cases hop

theorem Standing.onDigit {source : Source} {all : List Token} {scope : Option Scope}
    {tail : List Char} (h : Standing r source all scope tail s) (hm : s.mode = .number) :
    s.onDigit = true := by
  cases h with
  | between _ h => cases h.mode.symm.trans hm
  | inside _ _ _ h => exact h.onDigit hm
  | unclosed _ _ _ h => exact h.onDigit hm

/-- A name that stays in place has nothing more to take. -/
theorem Idle.of_nameStep (hm : s.mode = .name) (h : s.nameStep = some (.next t))
    (hcursor : t.cursor = s.cursor) : Idle s t := by
  simp only [State.nameStep, Option.bind_eq_bind, Option.bind_eq_some_iff, Option.pure_def,
    Option.some.injEq, Step.next.injEq] at h
  obtain ⟨cursor, hskip, text, -, rfl⟩ := h
  obtain ⟨b, hb, hno⟩ := Cursor.current?_of_skipWhile? hskip
  have hsame : cursor = s.cursor := hcursor
  exact .name hm (hsame ▸ hb) hno

/-- A line comment that stays in place has come to the end of its line. -/
theorem Idle.of_lineCommentStep (hm : s.mode = .lineComment)
    (hin : s.cursor.pos < s.cursor.source.size) (h : s.lineCommentStep = .next t)
    (hcursor : t.cursor = s.cursor) : Idle s t := by
  cases h
  have hsame : s.cursor.toLineEnd = s.cursor := hcursor
  rw [Cursor.toLineEnd] at hsame
  rcases hseek : s.cursor.seek (fun b => b == '\r'.toUInt8 || b == '\n'.toUInt8) with ⟨c, _ | b⟩
  · rw [hseek, Cursor.of_seek_eq_none hseek] at hsame
    have hpos := congrArg Cursor.pos hsame
    rw [Cursor.pos_toEnd] at hpos
    omega
  · obtain ⟨-, -, -, hb, hcur⟩ := Cursor.of_seek_eq_some hseek
    obtain rfl : c = s.cursor := by rwa [hseek] at hsame
    exact .lineComment hm hcur (by simpa using hb)

/-- Only idle steps leave the cursor in place: each step takes effort, and there is none to take from
the bytes left. -/
theorem Idle.of_step (hdigit : s.mode = .number → s.onDigit = true)
    (hin : s.cursor.pos < s.cursor.source.size) (h : step r s = some (.next t))
    (hcursor : t.cursor = s.cursor) : Idle s t := by
  have heffort := effort_step_lt hin h
  have hback := fun hm => mode_of_step_next (r := r) (s := s) (t := t) hm h
  have hsame : t.onDigit = s.onDigit := by rw [State.onDigit, hcursor, State.onDigit]
  unfold State.effort at heffort
  rw [hcursor, hsame] at heffort
  cases hm : s.mode with
  | between =>
    cases ht : t.mode with
    | number =>
      cases hd : s.onDigit with
      | true => exact .number hm ht hd
      | false => simp [hm, ht, hd] at heffort
    | _ => simp [hm, ht] at heffort
  | name => exact .of_nameStep hm (by simpa [step, hm] using h) hcursor
  | lineComment => exact .of_lineCommentStep hm hin (by simpa [step, hm] using h) hcursor
  | number =>
    have ht := hback (by simp [hm])
    simp only [hm, ht, hdigit hm, if_true] at heffort
    omega
  | _ =>
    have ht := hback (by simp [hm])
    simp [hm, ht] at heffort

/-- No number begins where an idle step has left a name or a line comment. -/
theorem Idle.not_idle {u : State} (h : Idle s t) (hcursor : t.cursor = s.cursor)
    (hback : s.mode ≠ .between → t.mode = .between) : ¬ Idle t u := by
  have hmode : t.mode = .number ∨ t.mode = .between := by
    cases h with
    | number _ ht _ => exact .inl ht
    | name hm _ _ => exact .inr (hback (by simp [hm]))
    | lineComment hm _ _ => exact .inr (hback (by simp [hm]))
  intro h'
  cases h' with
  | name hm _ _ => simp [hm] at hmode
  | lineComment hm _ _ => simp [hm] at hmode
  | number hm _ hd =>
    rw [State.onDigit, hcursor] at hd
    cases h with
    | number _ ht _ => cases hm.symm.trans ht
    | @name b _ hb hno =>
      rw [hb, Option.any_some] at hd
      have hcontinues : ByteClass.nameContinue.has b = true := nameContinue_of_digit hd
      rw [hcontinues] at hno
      cases hno
    | lineComment _ hb hline =>
      rw [hb, Option.any_some] at hd
      rcases hline with rfl | rfl <;> exact absurd hd (by decide)

end Idle

/-! ## The pace of a scan -/

/-- How a scan that stands in the state goes on. -/
structure Paced (r : Rules) (s : State) : Prop where
  /-- A step that does not take the cursor on is idle. -/
  idle : ∀ st, step r s = some st → st.state.cursor.pos ≤ s.cursor.pos →
    ∃ t, st = .next t ∧ t.cursor = s.cursor ∧ Idle s t
  /-- Two steps do. -/
  moves : ∀ t st, step r s = some (.next t) → t.cursor.atEnd? = some false →
    step r t = some st → s.cursor.pos < st.state.cursor.pos
  /-- Inside a token the scan takes one step. -/
  back : s.mode ≠ .between → ∀ t, step r s = some (.next t) → t.mode = .between

section Pace

variable {r : Rules} {source : Source} {all : List Token} {scope : Option Scope}
  {tail : List Char} {s : State}

theorem Standing.step_cases (rd : Reading r source.text.toList all scope tail)
    (h : Standing r source all scope tail s) (hend : s.cursor.atEnd? = some false) {st : Step}
    (hstep : Scan.step r s = some st) :
    (∃ t, st = .next t ∧ Standing r source all scope tail t ∧ s.cursor.pos ≤ t.cursor.pos) ∨
      ∃ sc t, st = .unclosed sc t ∧ s.cursor.pos < t.cursor.pos := by
  rcases h.step rd hend with ⟨t, ht, hstanding, hle⟩ | ⟨sc, t, -, ht, hcursor, -⟩
  · rw [hstep, Option.some.injEq] at ht
    exact .inl ⟨t, ht, hstanding, hle⟩
  · rw [hstep, Option.some.injEq] at ht
    refine .inr ⟨sc, t, ht, ?_⟩
    rw [hcursor, Cursor.pos_toEnd]
    exact Cursor.pos_lt_size_of_atEnd? hend

/-- A step that does not take the cursor on leaves it in place, and is idle. -/
theorem Standing.idle (rd : Reading r source.text.toList all scope tail)
    (h : Standing r source all scope tail s) (hend : s.cursor.atEnd? = some false) {st : Step}
    (hstep : Scan.step r s = some st) (hle : st.state.cursor.pos ≤ s.cursor.pos) :
    ∃ t, st = .next t ∧ t.cursor = s.cursor ∧ Idle s t := by
  rcases h.step_cases rd hend hstep with ⟨t, rfl, ht, hge⟩ | ⟨sc, t, rfl, hlt⟩
  · have hcursor : t.cursor = s.cursor := by
      have hsource := ht.exists_at.1.trans h.exists_at.1.symm
      exact Cursor.eq_of_pos hsource (Nat.le_antisymm hle hge)
    exact ⟨t, rfl, hcursor,
      .of_step h.onDigit (Cursor.pos_lt_size_of_atEnd? hend) hstep hcursor⟩
  · exact absurd hlt (Nat.not_lt.2 hle)

theorem Standing.paced (rd : Reading r source.text.toList all scope tail)
    (h : Standing r source all scope tail s) (hend : s.cursor.atEnd? = some false) :
    Paced r s where
  idle st hstep hle := h.idle rd hend hstep hle
  back hm t hstep := mode_of_step_next hm hstep
  moves t st hstep hend' hstep' := by
    obtain ⟨ht, hle⟩ := h.of_step_next rd hend hstep
    have hle' : t.cursor.pos ≤ st.state.cursor.pos := by
      rcases ht.step_cases rd hend' hstep' with ⟨u, rfl, -, hge⟩ | ⟨sc, u, rfl, hlt⟩
      · exact hge
      · exact Nat.le_of_lt hlt
    -- if neither step took the cursor on, both are idle
    refine Nat.lt_of_not_le fun hno => ?_
    obtain ⟨t', heq, hcursor, hidle⟩ := h.idle rd hend hstep (Nat.le_trans hle' hno)
    cases heq
    obtain ⟨u, -, -, hidle'⟩ := ht.idle rd hend' hstep' (Nat.le_trans hno hle)
    exact hidle.not_idle hcursor (fun hm => mode_of_step_next hm hstep) hidle'

end Pace

/-- A scan takes no more than two steps for each byte of the query. A step leaves the cursor in place
only where it is idle, two in a row never do, and inside a token one step leads out of it. Each round
of the search for a closing quote that is followed by another takes its cursor on. -/
theorem scan_steps_le (r : Rules) (query : String) :
    (∃ n o, scan r (Source.ofText query) = some o ∧
      Takes r n (State.start (Source.ofText query)) o) ∧
    (∀ n o, Takes r n (State.start (Source.ofText query)) o →
      scan r (Source.ofText query) = some o ∧ n ≤ 2 * query.utf8ByteSize) ∧
    (∀ s, Steps r (State.start (Source.ofText query)) s → s.cursor.atEnd? = some false →
      Paced r s) ∧
    ∀ quote c, ∃ round, closeRound quote c = some round ∧ match round with
      | .again d => closeString quote c = closeString quote d ∧ c.pos < d.pos
      | .done d closed => closeString quote c = some (d, closed) := by
  obtain ⟨ts, scope, tail, rd⟩ := Reading.exists r query.toList
  have hstart := Standing.start (Source.ofText query) rd
  refine ⟨?_, fun n o h => ⟨h.run_eq, ?_⟩, fun s hs hend => (hstart.steps rd hs).paced rd hend,
    fun quote c => ?_⟩
  · obtain ⟨n, hn⟩ := exists_takes (scan_eq rd)
    exact ⟨n, _, scan_eq rd, hn⟩
  · have hlt := h.lt_effort
    rw [effort_start] at hlt
    have hsize : (Source.ofText query).size = query.utf8ByteSize := rfl
    omega
  · obtain ⟨round, hround⟩ := exists_closeRound quote c
    refine ⟨round, hround, ?_⟩
    have hclose := closeString_round quote c
    rw [hround] at hclose
    cases round with
    | again d => exact ⟨hclose, (closeRound_eq_again hround).2.1⟩
    | done d closed => exact hclose

end Scan
end QueryDigest
