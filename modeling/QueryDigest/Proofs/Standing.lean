import QueryDigest.Proofs.Closing
import QueryDigest.Proofs.Reading
import QueryDigest.Scan.Run

/-!
# QueryDigest.Proofs.Standing

Where a scan stands. In a text with a given reading, every state of a scan stands between two of
its tokens, inside one of them, or inside the scope at its end; `Standing` says for each what the
mode, the cursor and the output are. From between two tokens a step takes a character, or enters
what opens there (`Between.enter`); from inside a token it takes the rest of it (`Inside.leave`);
inside a scope that stays open it stops (`Inside.stop`).
-/

namespace QueryDigest

open Text

namespace Scan

/-- How a scan ends that has read the tokens and stands before the ending. -/
def outcome (r : Rules) (ts : List Token) : Option Scope → List Char → Outcome
  | none, _ => .finished (String.ofList (written r ts))
  | some scope, tail =>
    .unclosed scope (width (spelling ts)) (String.ofList (written r ts ++ scope.written r tail))

/-- The state between the tokens `ts` and the text `rest`. -/
structure Between (r : Rules) (source : Source) (ts : List Token) (rest : List Char)
    (s : State) : Prop where
  mode : s.mode = .between
  source : s.cursor.source = source
  cursor : s.cursor.At (spelling ts) rest
  output : s.output.toList = written r ts
  afterBlank : s.afterBlank = true → r.strip = true ∧ s.output.toList.getLast? = some ' '

/-- The state behind the opening of a token or scope, with `rest` in front of it. -/
structure Inside (r : Rules) (source : Source) (ts : List Token) (op : Opening)
    (rest : List Char) (s : State) : Prop where
  mode : s.mode = op.mode
  source : s.cursor.source = source
  opens : Opens r (spelling ts) op rest
  cursor : s.cursor.At (spelling ts ++ op.passed) rest
  output : s.output.toList = written r ts ++ op.begun r
  scopeStart : op.mode.openScope ≠ none → s.scopeStart = width (spelling ts)
  afterBlank : s.afterBlank = false

/-- A state of the scan of a text with this reading. -/
inductive Standing (r : Rules) (source : Source) (all : List Token) (scope : Option Scope)
    (tail : List Char) (s : State) : Prop where
  | between {ts us : List Token} :
      all = ts ++ us → Between r source ts (spelling us ++ tail) s →
      Standing r source all scope tail s
  | inside {ts us : List Token} {t : Token} {op : Opening} {rest : List Char} :
      all = ts ++ t :: us → t.opening? = some op →
      t.spelling ++ (spelling us ++ tail) = op.passed ++ rest →
      Inside r source ts op rest s → Standing r source all scope tail s
  | unclosed {op : Opening} {rest : List Char} :
      scope ≠ none → scope = op.mode.openScope → tail = op.passed ++ rest →
      Inside r source all op rest s → Standing r source all scope tail s

section Written

variable {r : Rules}

theorem writtenFrom_append (out : List Char) (ts us : List Token) :
    writtenFrom r out (ts ++ us) = writtenFrom r (writtenFrom r out ts) us :=
  List.foldl_append

theorem written_append (ts us : List Token) :
    written r (ts ++ us) = writtenFrom r (written r ts) us :=
  writtenFrom_append [] ts us

theorem written_snoc (ts : List Token) (t : Token) :
    written r (ts ++ [t]) = written r ts ++ t.written r (written r ts) := by
  rw [written_append]
  rfl

theorem spelling_snoc (ts : List Token) (t : Token) :
    spelling (ts ++ [t]) = spelling ts ++ t.spelling := by
  rw [spelling_append, spelling_cons, spelling_nil, List.append_nil]

end Written

/-! ## Entering -/

theorem Opens.ne_nil {r : Rules} {before rest : List Char} {op : Opening}
    (h : Opens r before op rest) : op.passed ++ rest ≠ [] := by
  cases h <;> simp [Opening.passed]

/-- The characters passed at an opening are single bytes. -/
theorem Opens.isAscii_passed {r : Rules} {before rest : List Char} {op : Opening}
    (h : Opens r before op rest) : ∀ c ∈ op.passed, isAscii c = true := by
  cases h with
  | identifier hq => simpa [Opening.passed] using Quotes.isAscii_of_beginsIdentifier hq
  | string hq => simpa [Opening.passed] using Quotes.isAscii_of_beginsString hq
  | @lineComment mark _ _ hm =>
    have hmark : isAscii mark = true := by rcases hm with rfl | rfl <;> decide
    rw [Opening.passed, List.forall_mem_cons, List.forall_mem_cons, List.forall_mem_singleton]
    exact ⟨by decide, by decide, hmark⟩
  | blockComment _ =>
    rw [Opening.passed, List.forall_mem_cons, List.forall_mem_singleton]
    exact ⟨by decide, by decide⟩
  | number _ =>
    intro c hc
    cases hc
  | signedNumber _ _ hb _ =>
    intro c hc
    rcases List.mem_cons.1 hc with rfl | hc
    · decide
    · exact isAscii_of_hasChar (hb c hc)
  | name _ hn => simpa [Opening.passed] using isAscii_of_hasChar hn

theorem Opens.width_passed {r : Rules} {before rest : List Char} {op : Opening}
    (h : Opens r before op rest) : width op.passed = op.passed.length :=
  width_of_isAscii h.isAscii_passed

namespace State

theorem toList_output_put (s : State) (c : Char) :
    (s.put c).output.toList = s.output.toList ++ [c] := by
  rw [put, String.toList_push]

theorem toList_output_write (s : State) (text : String) :
    (s.write text).output.toList = s.output.toList ++ text.toList := by
  rw [write, String.toList_append]

end State

/-- A step that takes all of a token ends behind it. -/
theorem Between.of_moveTo {r : Rules} {source : Source} {ts : List Token} {t : Token}
    {rest : List Char} {s : State} {c : Cursor} (hs : c.source = source)
    (hc : c.At (spelling ts ++ t.spelling) rest)
    (hout : s.output.toList = written r ts ++ t.written r (written r ts))
    (hb : s.afterBlank = false) : Between r source (ts ++ [t]) rest (s.moveTo c .between) where
  mode := rfl
  source := hs
  cursor := spelling_snoc ts t ▸ hc
  output := (written_snoc ts t).symm ▸ hout
  afterBlank := fun ha => by rw [State.moveTo, hb] at ha; cases ha

section Entering

variable {r : Rules} {source : Source} {ts : List Token} {rest : List Char} {s : State}

theorem Between.step_eq (h : Between r source ts rest s) (hrest : rest ≠ []) :
    step r s = (State.enter r
      (if Lead.ofText r (spelling ts) rest == .blank then s else { s with afterBlank := false })
      (Lead.ofText r (spelling ts) rest)).map .next := by
  obtain ⟨c, cs, rfl⟩ := List.exists_cons_of_ne_nil hrest
  simp only [step, h.mode, State.betweenStep, h.cursor.lead? r]
  simp only [Option.bind_eq_bind, Option.bind_some, Option.pure_def]
  cases State.enter r _ _ <;> rfl

/-- An opening takes the scan into its mode. -/
theorem Between.enter {op : Opening} (h : Between r source ts (op.passed ++ rest) s)
    (hop : Opens r (spelling ts) op rest) :
    ∃ t, step r s = some (.next t) ∧ Inside r source ts op rest t := by
  have hstep := h.step_eq hop.ne_nil
  rw [hop.lead] at hstep
  have hblank : (op.lead (spelling ts) == Lead.blank) = false := by
    cases op with
    | number sign => cases sign <;> rfl
    | _ => rfl
  rw [hblank] at hstep
  simp only [Bool.false_eq_true, if_false] at hstep
  -- an opening is ASCII, so it has as many bytes as characters
  have hat : ∀ n, n = op.passed.length →
      (s.cursor.advance n).At (spelling ts ++ op.passed) rest :=
    fun n hn => h.cursor.advance (hn.trans hop.width_passed.symm)
  cases op with
  | identifier q =>
    refine ⟨_, hstep, rfl, h.source, hop, hat 1 rfl, ?_, ?_, rfl⟩
    · exact (State.toList_output_put _ _).trans (by rw [← h.output]; rfl)
    · exact fun _ => h.cursor.pos
  | string q =>
    refine ⟨_, hstep, rfl, h.source, hop, hat 1 rfl, ?_, ?_, rfl⟩
    · exact h.output.trans (List.append_nil _).symm
    · exact fun _ => h.cursor.pos
  | lineComment mark =>
    refine ⟨_, hstep, rfl, h.source, hop, hat 3 rfl, ?_, ?_, rfl⟩
    · exact h.output.trans (List.append_nil _).symm
    · exact fun hne => absurd rfl hne
  | blockComment =>
    refine ⟨_, hstep, rfl, h.source, hop, hat 2 rfl, ?_, ?_, rfl⟩
    · exact h.output.trans (List.append_nil _).symm
    · exact fun _ => h.cursor.pos
  | number sign =>
    cases sign with
    | nil =>
      refine ⟨_, hstep, rfl, h.source, hop, ?_, ?_, ?_, rfl⟩
      · exact (List.append_nil _).symm ▸ h.cursor
      · exact h.output.trans (List.append_nil _).symm
      · exact fun hne => absurd rfl hne
    | cons c sign =>
      refine ⟨_, hstep, rfl, h.source, hop, ⟨?_, ?_⟩, ?_, ?_, rfl⟩
      · exact h.cursor.text.trans (List.append_assoc _ _ _).symm
      · have hpos := h.cursor.pos
        simp only [State.moveTo, Cursor.pos_advanceTo, hpos, Opening.passed, width_append]
        omega
      · exact h.output.trans (List.append_nil _).symm
      · exact fun hne => absurd rfl hne
  | name first =>
    refine ⟨_, hstep, rfl, h.source, hop, hat 1 rfl, ?_, ?_, rfl⟩
    · exact (State.toList_output_put _ _).trans (by rw [← h.output]; rfl)
    · exact fun hne => absurd rfl hne

/-- A collapsed blank is taken in one step. -/
theorem Between.blank {c : Char} (h : Between r source ts ((Token.blank c).spelling ++ rest) s)
    (hs : r.strip = true) (hw : ByteClass.whitespace.hasChar c = true) :
    ∃ t, step r s = some (.next t) ∧ Between r source (ts ++ [.blank c]) rest t := by
  have hstep := h.step_eq (List.cons_ne_nil c _)
  have hlead : Lead.ofText r (spelling ts) ((Token.blank c).spelling ++ rest) = .blank := by
    simp [Token.spelling, Lead.ofText, hs, hw]
  rw [hlead] at hstep
  have hat : (s.cursor.advance 1).At (spelling (ts ++ [.blank c])) rest := by
    rw [spelling_snoc]
    exact h.cursor.advance
      (by rw [Token.spelling, width_singleton, utf8Size_of_isAscii (isAscii_of_hasChar hw)])
  refine ⟨_, hstep, ?_⟩
  by_cases hspace : s.output.toList.getLast? = some ' '
  · have hback : (s.afterBlank || s.output.back? == some ' ') = true := by
      rw [String.back?_eq, hspace, beq_self_eq_true, Bool.or_true]
    simp only [beq_self_eq_true, if_true, State.blankStep, hback]
    refine ⟨h.mode, h.source, hat, ?_, fun _ => ⟨hs, hspace⟩⟩
    rw [written_snoc, Token.written, ← h.output, if_pos hspace, List.append_nil]
  · have hback : (s.afterBlank || s.output.back? == some ' ') = false := by
      rw [String.back?_eq, beq_false_of_ne hspace, Bool.or_false, Bool.eq_false_iff]
      exact fun ha => hspace (h.afterBlank ha).2
    simp only [beq_self_eq_true, if_true, State.blankStep, hback, Bool.false_eq_true, if_false]
    refine ⟨h.mode, h.source, hat, ?_, fun _ => ⟨hs, ?_⟩⟩
    · rw [written_snoc, Token.written, ← h.output, if_neg hspace]
      exact State.toList_output_put _ _
    · rw [State.toList_output_put, List.getLast?_concat]

/-- Any other character is taken in one step. -/
theorem Between.other {c : Char} (h : Between r source ts ((Token.other c).spelling ++ rest) s)
    (hc : Alone r (spelling ts) c rest) :
    ∃ t, step r s = some (.next t) ∧ Between r source (ts ++ [.other c]) rest t := by
  have hstep := h.step_eq (List.cons_ne_nil c _)
  have hlead : Lead.ofText r (spelling ts) ((Token.other c).spelling ++ rest) = _ := hc.lead
  have hat : (s.cursor.advance c.utf8Size).At (spelling ts ++ [c]) rest :=
    h.cursor.advance (width_singleton c).symm
  by_cases hminus : c = '-'
  · subst hminus
    rw [if_pos (by rfl)] at hlead
    rw [hlead] at hstep
    refine ⟨_, hstep, .of_moveTo h.source hat ?_ rfl⟩
    rw [← h.output]
    exact State.toList_output_put _ _
  rw [if_neg (by rwa [beq_iff_eq])] at hlead
  by_cases hline : ByteClass.lineWhitespace.hasChar c = true
  · rw [if_pos hline] at hlead
    rw [hlead] at hstep
    rw [utf8Size_of_isAscii (isAscii_of_hasChar hline)] at hat
    refine ⟨_, hstep, .of_moveTo h.source hat ?_ rfl⟩
    rw [Token.written, if_pos hline, ← h.output]
    exact State.toList_output_put _ _
  · rw [if_neg hline] at hlead
    rw [hlead] at hstep
    have hslice := hat.sliceFrom?
    rw [← h.cursor.pos] at hslice
    have henter : State.enter r { s with afterBlank := false } .character =
        some ((({ s with afterBlank := false } : State).write (String.ofList [c])).moveTo
          (s.cursor.advance c.utf8Size) .between) := by
      simp only [State.enter, advanceChar?_eq_of_cons h.cursor, hslice, Option.bind_eq_bind,
        Option.bind_some, Option.pure_def]
    rw [if_neg (by decide), henter] at hstep
    refine ⟨_, hstep, .of_moveTo h.source hat ?_ rfl⟩
    rw [State.toList_output_write, String.toList_ofList, Token.written, if_neg hline, ← h.output]

end Entering

/-! ## Leaving -/

theorem zero_of_beginsString {q : Quotes} {c : Char} (h : q.beginsString c = true) :
    0 < c.toNat := by
  rcases (eq_of_beginsString h).2 with rfl | rfl <;> decide

section Leaving

variable {r : Rules} {source : Source} {ts : List Token} {rest : List Char} {s : State}

theorem Inside.leave_identifier {q : Char} {inner : List Char}
    (h : Inside r source ts (.identifier q) (inner ++ q :: rest) s) (hq : isAscii q = true)
    (hno : q ∉ inner) : ∃ t, step r s = some (.next t) ∧
      Between r source (ts ++ [.identifier q inner]) rest t := by
  obtain ⟨c, hclose, hs, hat⟩ := toByte_of_mem hq hno h.cursor
  have hslice := hat.sliceFrom?
  rw [← h.cursor.pos] at hslice
  have hstep : step r s = some (.next (((s.write (String.ofList inner)).put
      r.quotes.delimiter).moveTo (c.advance 1) .between)) := by
    simp only [step, h.mode, Opening.mode, State.identifierStep, hclose, hslice,
      Option.bind_eq_bind, Option.bind_some, Option.pure_def, if_true]
  refine ⟨_, hstep, .of_moveTo (hs.trans h.source) ?_ ?_ h.afterBlank⟩
  · have := hat.advance (x := [q]) (n := 1) (by rw [width_singleton, utf8Size_of_isAscii hq])
    simpa [Token.spelling, Opening.passed] using this
  · rw [State.toList_output_put, State.toList_output_write, h.output]
    simp [Token.written, Opening.begun]

theorem Inside.leave_string {q : Char} {body : List Char}
    (h : Inside r source ts (.string q) (body ++ q :: rest) s)
    (hq : r.quotes.beginsString q = true) (hb : StringBody q body) (hr : rest.head? ≠ some q) :
    ∃ t, step r s = some (.next t) ∧ Between r source (ts ++ [.string q body]) rest t := by
  obtain ⟨c, hclose, hs, hat⟩ := closeString_of_body (Quotes.isAscii_of_beginsString hq)
    (ne_backslash_of_beginsString hq) (zero_of_beginsString hq) hb hr (h.cursor.toward _)
  have hstep : step r s = some (.next ((s.write r.placeholder).moveTo c .between)) := by
    simp only [step, h.mode, Opening.mode, State.stringStep, hclose, Option.bind_eq_bind,
      Option.bind_some, Option.pure_def, if_true]
  refine ⟨_, hstep, .of_moveTo (hs.trans h.source) ?_ ?_ h.afterBlank⟩
  · simpa [Token.spelling, Opening.passed] using hat
  · rw [State.toList_output_write, h.output]
    simp [Token.written, Opening.begun]

theorem Inside.leave_lineComment {mark : Char} {text : List Char}
    (h : Inside r source ts (.lineComment mark) (text ++ rest) s)
    (ht : ∀ c ∈ text, endsLine c = false) (hr : ∀ c ∈ rest.head?, endsLine c = true) :
    ∃ t, step r s = some (.next t) ∧ Between r source (ts ++ [.lineComment mark text]) rest t := by
  obtain ⟨hs, hat⟩ := toLineEnd_of_text ht hr h.cursor
  have hstep : step r s = some (.next (s.moveTo s.cursor.toLineEnd .between)) := by
    simp only [step, h.mode, Opening.mode, State.lineCommentStep]
  refine ⟨_, hstep, .of_moveTo (hs.trans h.source) ?_ h.output h.afterBlank⟩
  simpa [Token.spelling, Opening.passed] using hat

theorem Inside.leave_blockComment {body : List Char}
    (h : Inside r source ts .blockComment (body ++ '*' :: '/' :: rest) s)
    (hno : ¬ ['*', '/'] <:+: body) : ∃ t, step r s = some (.next t) ∧
      Between r source (ts ++ [.blockComment body]) rest t := by
  obtain ⟨c, hend, hs, hat⟩ := pastBlockComment_of_body hno h.cursor
  have hstep : step r s = some (.next (s.moveTo c .between)) := by
    simp only [step, h.mode, Opening.mode, State.blockCommentStep, hend, if_true]
  refine ⟨_, hstep, .of_moveTo (hs.trans h.source) ?_ h.output h.afterBlank⟩
  simpa [Token.spelling, Opening.passed] using hat

theorem Inside.leave_number {sign more : List Char} {first : Char}
    (h : Inside r source ts (.number sign) (first :: (more ++ rest)) s)
    (hd : ByteClass.digit.hasChar first = true) (hm : continueDigits first more = true)
    (hr : ∀ c ∈ rest.head?, continuesDigits (more.getLastD first) c = false) :
    ∃ t, step r s = some (.next t) ∧ Between r source (ts ++ [.number sign first more]) rest t := by
  -- the byte before the first digit counts as 0, which no digit needs to look at
  have hmore : continueDigits '\x00' (first :: more) = true := by
    rw [continueDigits, continuesDigits_of_digit hd, hm]
    rfl
  obtain ⟨c, hskip, hs, hat⟩ := skipNumber_of_digits (by decide) hmore
    (by rwa [List.getLastD_cons]) h.cursor
  have hstep : step r s = some (.next ((s.put '?').moveTo c .between)) := by
    simp only [step, h.mode, Opening.mode, State.numberStep]
    rw [show (0 : UInt8) = '\x00'.toUInt8 from rfl, hskip]
    rfl
  refine ⟨_, hstep, .of_moveTo (hs.trans h.source) ?_ ?_ h.afterBlank⟩
  · simpa [Token.spelling, Opening.passed] using hat
  · rw [State.toList_output_put, h.output]
    simp [Token.written, Opening.begun]

theorem Inside.leave_name {first : Char} {more : List Char}
    (h : Inside r source ts (.name first) (more ++ rest) s)
    (hm : ∀ c ∈ more, ByteClass.nameContinue.hasChar c = true)
    (hr : ∀ c ∈ rest.head?, ByteClass.nameContinue.hasChar c = false) :
    ∃ t, step r s = some (.next t) ∧ Between r source (ts ++ [.name first more]) rest t := by
  obtain ⟨c, hskip, hs, hat⟩ := h.cursor.skipWhile? (p := ByteClass.nameContinue.has)
    (has_of_mem_encode hm) (by
      rw [has_firstByte, Option.any_eq_false]
      exact fun c hc => by rw [hr c hc])
  have hslice := hat.sliceFrom?
  rw [← h.cursor.pos] at hslice
  have hstep : step r s =
      some (.next ((s.write (String.ofList more)).moveTo c .between)) := by
    simp only [step, h.mode, Opening.mode, State.nameStep, hskip, hslice, Option.bind_eq_bind,
      Option.bind_some, Option.pure_def]
  refine ⟨_, hstep, .of_moveTo (hs.trans h.source) ?_ ?_ h.afterBlank⟩
  · simpa [Token.spelling, Opening.passed] using hat
  · rw [State.toList_output_write, h.output]
    simp [Token.written, Opening.begun]

/-- Inside a token a step takes the rest of it. -/
theorem Inside.leave {t : Token} {op : Opening} {body : List Char}
    (h : Inside r source ts op body s) (ht : Reads r (spelling ts) t rest)
    (hop : t.opening? = some op) (hbody : t.spelling ++ rest = op.passed ++ body) :
    ∃ s', step r s = some (.next s') ∧ Between r source (ts ++ [t]) rest s' := by
  cases ht with
  | blank _ _ => cases hop
  | identifier hq hno =>
    cases hop
    simp only [Token.spelling, Opening.passed, List.cons_append, List.append_assoc,
      List.nil_append, List.cons.injEq, true_and] at hbody
    exact (hbody ▸ h).leave_identifier (Quotes.isAscii_of_beginsIdentifier hq) hno
  | string hq hb hr =>
    cases hop
    simp only [Token.spelling, Opening.passed, List.cons_append, List.append_assoc,
      List.nil_append, List.cons.injEq, true_and] at hbody
    exact (hbody ▸ h).leave_string hq hb hr
  | lineComment _ _ htext hr =>
    cases hop
    simp only [Token.spelling, Opening.passed, List.cons_append, List.nil_append,
      List.cons.injEq, true_and] at hbody
    exact (hbody ▸ h).leave_lineComment htext hr
  | blockComment _ hno =>
    cases hop
    simp only [Token.spelling, Opening.passed, List.cons_append, List.append_assoc,
      List.nil_append, List.cons.injEq, true_and] at hbody
    exact (hbody ▸ h).leave_blockComment hno
  | number hd hm hr =>
    cases hop
    simp only [Token.spelling, Opening.passed, List.nil_append, List.cons_append] at hbody
    exact (hbody ▸ h).leave_number hd hm hr
  | signedNumber _ _ _ hd hm hr =>
    cases hop
    simp only [Token.spelling, Opening.passed, List.append_assoc, List.cons_append,
      List.cons.injEq, true_and, List.append_cancel_left_eq] at hbody
    exact (hbody ▸ h).leave_number hd hm hr
  | name _ _ hm hr =>
    cases hop
    simp only [Token.spelling, Opening.passed, List.cons_append, List.nil_append,
      List.cons.injEq, true_and] at hbody
    exact (hbody ▸ h).leave_name hm hr
  | other _ => cases hop

theorem stop_eq {tail : List Char} {scope : Scope} (hstart : s.scopeStart = width (spelling ts))
    (hout : s.output.toList = written r ts ++ scope.written r tail) :
    s.stop scope = outcome r ts (some scope) tail := by
  rw [outcome, ← hout, ← hstart, String.ofList_toList, State.stop]

/-- Inside a scope that stays open a step stops the scan. -/
theorem Inside.stop {op : Opening} {scope : Scope} (h : Inside r source ts op rest s)
    (hu : Unclosed r scope (op.passed ++ rest)) (hscope : op.mode.openScope = some scope)
    (hrest : rest ≠ []) : ∃ t, step r s = some (.unclosed scope t) ∧
      t.cursor = s.cursor.toEnd ∧ t.stop scope = outcome r ts (some scope) (op.passed ++ rest) := by
  have hlen : 0 < rest.length := List.length_pos_iff.2 hrest
  have hstart := h.scopeStart (by rw [hscope]; exact Option.some_ne_none _)
  cases op with
  | string q =>
    cases hscope
    cases hu with
    | string hq ho =>
      have hclose := closeString_of_open (Quotes.isAscii_of_beginsString hq)
        (ne_backslash_of_beginsString hq) (zero_of_beginsString hq) ho (h.cursor.toward _)
      have hstep : step r s = some (.unclosed .string
          ((s.write r.placeholder).moveTo s.cursor.toEnd (s.write r.placeholder).mode)) := by
        simp only [step, h.mode, Opening.mode, State.stringStep, hclose, Option.bind_eq_bind,
          Option.bind_some, Option.pure_def, Bool.false_eq_true, if_false]
      refine ⟨_, hstep, rfl, stop_eq hstart ?_⟩
      have hlong : ¬ ((Opening.string q).passed ++ rest).length ≤ 1 := by
        simp only [Opening.passed, List.length_append, List.length_singleton]
        omega
      rw [Scope.written, if_neg hlong]
      refine (State.toList_output_write s r.placeholder).trans ?_
      rw [h.output, Opening.begun, List.append_nil]
  | identifier q =>
    cases hscope
    cases hu with
    | identifier hq hno =>
      have hclose := toByte_of_not_mem (Quotes.isAscii_of_beginsIdentifier hq) hno h.cursor
      have hslice := h.cursor.toEnd.sliceFrom?
      rw [← h.cursor.pos] at hslice
      have hstep : step r s = some (.unclosed .identifier ((s.write (String.ofList rest)).moveTo
          s.cursor.toEnd (s.write (String.ofList rest)).mode)) := by
        simp only [step, h.mode, Opening.mode, State.identifierStep, hclose, hslice,
          Option.bind_eq_bind, Option.bind_some, Option.pure_def, Bool.false_eq_true, if_false]
      refine ⟨_, hstep, rfl, stop_eq hstart ?_⟩
      refine (State.toList_output_write s (String.ofList rest)).trans ?_
      rw [h.output, String.toList_ofList, List.append_assoc]
      rfl
  | blockComment =>
    cases hscope
    cases hu with
    | blockComment _ hno =>
      have hend := pastBlockComment_of_open hno h.cursor
      have hstep : step r s = some (.unclosed .blockComment (s.moveTo s.cursor.toEnd s.mode)) := by
        simp only [step, h.mode, Opening.mode, State.blockCommentStep, hend, Bool.false_eq_true,
          if_false]
      exact ⟨_, hstep, rfl, stop_eq hstart h.output⟩
  | _ => cases hscope

/-- At the end of the text a scan inside an open scope stops. -/
theorem Inside.finish {op : Opening} {scope : Scope} (h : Inside r source ts op [] s)
    (hscope : op.mode.openScope = some scope) :
    s.finish = outcome r ts (some scope) op.passed := by
  have hstart := h.scopeStart (by rw [hscope]; exact Option.some_ne_none _)
  rw [State.finish, h.mode, hscope]
  refine stop_eq hstart ?_
  rw [h.output]
  cases op with
  | string q | identifier q | blockComment =>
    cases hscope
    rfl
  | _ => cases hscope

end Leaving

end Scan
end QueryDigest
