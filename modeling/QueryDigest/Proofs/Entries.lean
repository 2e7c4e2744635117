import QueryDigest.Proofs.Reach
import QueryDigest.Proofs.StepCount

/-!
# QueryDigest.Proofs.Entries

What the mode of a scan says of the query. One step enters a mode by passing an opening and the next
one leaves it, so between the two the bytes of the opening stand right before the cursor, and a digit
at it where a number is to be taken. `Entered` says so for each mode, and what the mark of collapsed
whitespace says of the output.

Every state that a scan comes to is `Standing` in the reading of its query, and `Standing.entered`
reads the bytes off the opening that was passed.
-/

namespace QueryDigest

open Text

namespace Quotes

theorem opensIdentifier_toUInt8 {q : Quotes} {c : Char} (h : isAscii c = true) :
    q.opensIdentifier c.toUInt8 = q.beginsIdentifier c := by
  rw [← firstByte_cons_of_isAscii h [], opensIdentifier_firstByte]

theorem opensString_toUInt8 {q : Quotes} {c : Char} (h : q.beginsString c = true) :
    q.opensString c.toUInt8 = true := by
  have hid := (Scan.eq_of_beginsString h).1
  rw [← firstByte_cons_of_isAscii (isAscii_of_beginsString h) [], opensString_firstByte _ hid, h]

end Quotes

namespace Scan

/-- What a mode says of a state in it: which bytes stand in front of the cursor, or at it. -/
def Mode.Entered (r : Rules) (s : State) : Mode → Prop
  | .between => True
  | .string quote => s.cursor.pos = s.scopeStart + 1 ∧
      s.cursor.source.byte? s.scopeStart = some quote ∧
      r.quotes.opensString quote = true ∧ r.quotes.opensIdentifier quote = false
  | .identifier quote => s.cursor.pos = s.scopeStart + 1 ∧
      s.cursor.source.byte? s.scopeStart = some quote ∧ r.quotes.opensIdentifier quote = true
  | .name => ∃ p b, s.cursor.pos = p + 1 ∧ s.cursor.source.byte? p = some b ∧
      ByteClass.nameStart.has b = true
  | .number => ∃ b, s.cursor.current? = some b ∧ ByteClass.digit.has b = true
  | .blockComment => s.cursor.pos = s.scopeStart + 2 ∧
      s.cursor.source.byte? s.scopeStart = some '/'.toUInt8 ∧
      s.cursor.source.byte? (s.scopeStart + 1) = some '*'.toUInt8
  | .lineComment => ∃ p b, s.cursor.pos = p + 3 ∧
      s.cursor.source.byte? p = some '-'.toUInt8 ∧
      s.cursor.source.byte? (p + 1) = some '-'.toUInt8 ∧
      s.cursor.source.byte? (p + 2) = some b ∧ (b = ' '.toUInt8 ∨ b = '\t'.toUInt8)

/-- What holds of every state between two steps. -/
structure Entered (r : Rules) (s : State) : Prop where
  mode : s.mode.Entered r s
  /-- The query does not end where a number is to be taken, and the next step writes a question mark
  for one digit at least. -/
  number : s.mode = .number → s.cursor.atEnd? = some false ∧ ∃ t, step r s = some (.next t) ∧
    t.mode = .between ∧ t.output = s.output.push '?' ∧ s.cursor.pos < t.cursor.pos
  afterBlank : s.afterBlank = true →
    r.strip = true ∧ (s.mode = .between → s.output.toList.getLast? = some ' ')

section Entries

variable {r : Rules} {source : Source} {ts : List Token} {op : Opening} {rest : List Char}
  {s : State}

/-- The bytes of the opening stand in front of the cursor. -/
theorem Inside.passed (h : Inside r source ts op rest s) :
    s.cursor.pos = width (spelling ts) + op.passed.length ∧
      ∀ k (hk : k < op.passed.length),
        s.cursor.source.byte? (width (spelling ts) + k) = some op.passed[k].toUInt8 := by
  constructor
  · rw [h.cursor.pos, width_append, h.opens.width_passed]
  · intro k hk
    exact Source.byte?_of_isAscii h.cursor.text h.opens.isAscii_passed hk

theorem Inside.entered_mode (h : Inside r source ts op rest s) : op.mode.Entered r s := by
  obtain ⟨hpos, hbyte⟩ := h.passed
  have hstart := h.scopeStart
  have hdigit := h.onDigit
  cases h.opens with
  | @identifier q _ hq =>
    rw [← hstart (Option.some_ne_none _)] at hpos hbyte
    refine ⟨hpos, hbyte 0 Nat.zero_lt_one, ?_⟩
    rw [Quotes.opensIdentifier_toUInt8 (Quotes.isAscii_of_beginsIdentifier hq), hq]
  | @string q _ hq =>
    rw [← hstart (Option.some_ne_none _)] at hpos hbyte
    refine ⟨hpos, hbyte 0 Nat.zero_lt_one, Quotes.opensString_toUInt8 hq, ?_⟩
    rw [Quotes.opensIdentifier_toUInt8 (Quotes.isAscii_of_beginsString hq),
      (eq_of_beginsString hq).1]
  | @lineComment mark _ _ hm =>
    have hlength : (Opening.lineComment mark).passed.length = 3 := rfl
    refine ⟨_, mark.toUInt8, hpos, hbyte 0 (by omega), hbyte 1 (by omega), hbyte 2 (by omega), ?_⟩
    rcases hm with rfl | rfl
    · exact .inl rfl
    · exact .inr rfl
  | blockComment _ =>
    rw [← hstart (Option.some_ne_none _)] at hpos hbyte
    exact ⟨hpos, hbyte 0 (by decide), hbyte 1 (by decide)⟩
  | number _ | signedNumber _ _ _ _ =>
    have honDigit := hdigit h.mode
    rw [State.onDigit, Option.any_eq_true] at honDigit
    exact honDigit
  | @name first _ _ hn =>
    refine ⟨_, first.toUInt8, hpos, hbyte 0 Nat.zero_lt_one, ?_⟩
    rw [← firstByte_cons_of_isAscii (isAscii_of_hasChar hn) [], has_firstByte_cons, hn]

section Standing

variable {all : List Token} {scope : Option Scope} {tail : List Char}

/-- Where a number is to be taken there is one. -/
theorem Standing.step_number (rd : Reading r source.text.toList all scope tail)
    (h : Standing r source all scope tail s) (hm : s.mode = .number) :
    s.cursor.atEnd? = some false ∧ ∃ t, Scan.step r s = some (.next t) ∧
      t.mode = .between ∧ t.output = s.output.push '?' ∧ s.cursor.pos < t.cursor.pos := by
  have hdigit := h.onDigit hm
  obtain ⟨-, before, rest, hat⟩ := h.exists_at
  have hend : s.cursor.atEnd? = some false := by
    rw [hat.atEnd?, Option.some.injEq, Bool.eq_false_iff]
    intro hempty
    have hno := not_onDigit_of_atEnd? (hat.atEnd?.trans (congrArg some hempty))
    rw [hdigit] at hno
    cases hno
  have hstep := h.step_ne_none rd hend
  rw [State.onDigit, Option.any_eq_true] at hdigit
  obtain ⟨b, hb, hd⟩ := hdigit
  simp only [Scan.step, hm, State.numberStep] at hstep ⊢
  cases hskip : skipNumber 0 s.cursor with
  | none =>
    rw [hskip] at hstep
    exact absurd rfl hstep
  | some cursor => exact ⟨hend, _, rfl, rfl, rfl, skipNumber_lt hb hd hskip⟩

theorem Standing.entered (rd : Reading r source.text.toList all scope tail)
    (h : Standing r source all scope tail s) : Entered r s := by
  have hinside : ∀ {ts op rest}, Inside r source ts op rest s →
      s.mode.Entered r s ∧ s.afterBlank = false := by
    intro ts op rest h
    refine ⟨?_, h.afterBlank⟩
    rw [h.mode]
    exact h.entered_mode
  have hnumber := h.step_number rd
  cases h with
  | between _ h =>
    refine ⟨?_, hnumber, ?_⟩
    · rw [h.mode]
      trivial
    · intro ha
      exact ⟨(h.afterBlank ha).1, fun _ => (h.afterBlank ha).2⟩
  | inside _ _ _ h | unclosed _ _ _ h =>
    obtain ⟨hmode, hblank⟩ := hinside h
    refine ⟨hmode, hnumber, ?_⟩
    intro ha
    rw [hblank] at ha
    cases ha

end Standing

end Entries

/-- Between two steps of a scan the mode tells what was passed to enter it, where a number is to be
taken a digit stands, and the mark of collapsed whitespace is set only behind a space that is
written. -/
theorem entered_of_steps {r : Rules} {query : String} {s : State}
    (h : Steps r (State.start (Source.ofText query)) s) : Entered r s := by
  obtain ⟨ts, scope, tail, rd⟩ := Reading.exists r query.toList
  have hstart := Standing.start (Source.ofText query) rd
  exact (hstart.steps rd h).entered rd

/-- Behind a sign and a blank, in front of the number. -/
theorem entered_of_steps_signed : ∃ r : Rules, ∃ s,
    Steps r (State.start (Source.ofText "(- 1")) s ∧ s.mode = .number ∧ s.cursor.pos = 3 ∧
      Entered r s := by
  generalize hr : (⟨⟨'\x60', by decide, .mysql⟩, true, "?"⟩ : Rules) = r
  have hparen : Reads r (spelling []) (.other '(') ['-', ' ', '1'] := by
    subst hr
    refine .other ?_
    constructor
    case lineComment | sign | blockComment =>
      intro hc
      cases hc
    all_goals decide
  have hsign : Opens r (spelling [.other '(']) (.number ['-', ' ']) ['1'] := by
    subst hr
    exact .signedNumber (by decide) (by decide) (List.forall_mem_singleton.2 (by decide)) (by decide)
  have hstart : Between r (Source.ofText "(- 1") [] ['(', '-', ' ', '1']
      (State.start (Source.ofText "(- 1")) := .start (by decide)
  obtain ⟨s, hsteps, hs⟩ := hstart.steps_token hparen (List.cons_ne_nil _ _)
  obtain ⟨t, hstep, ht⟩ := hs.enter hsign
  have hend := hs.not_atEnd (List.cons_ne_nil _ _)
  have hreach := hsteps.trans (.cons hend hstep .refl)
  exact ⟨r, t, hreach, ht.mode, ht.cursor.pos, entered_of_steps hreach⟩

end Scan
end QueryDigest
