import QueryDigest.Proofs.Whitespace

/-!
# QueryDigest.Proofs.Statements

Statements of a query, one after the other. A line break and a semicolon behind a text that is read
to its end leave its tokens as they are, and are tokens themselves (`Reading.semicolon`). The
semicolon allows no sign behind it, so the next text is read as if it stood alone; and it is not a
space, so as much is written for the next text as if nothing were written before it
(`writtenFrom_behind`). Hence the scan of both has the outcome of the scan of the second, behind the
text written for the first (`scan_statements`).
-/

namespace QueryDigest

open Text

namespace Scan

/-- The outcome of a scan behind `n` bytes for which `text` is written. -/
def Outcome.behind (text : String) (n : Nat) : Outcome → Outcome
  | finished output => finished (text ++ output)
  | unclosed scope offset output => unclosed scope (n + offset) (text ++ output)

/-! ## What is read -/

section Read

variable {r : Rules} {before rest : List Char} {ts : List Token}

theorem minusAndBlank_append_break (z rest : List Char) :
    minusAndBlank (z ++ '\n' :: rest) = minusAndBlank z := by
  match z with
  | [] => rfl
  | [c] => simp [minusAndBlank_cons]
  | c :: d :: z => simp only [List.cons_append, minusAndBlank_cons, List.head?_cons]

theorem digitFollows_append_break (z : List Char) (h : digitFollows rest = false) :
    digitFollows (z ++ '\n' :: rest) = digitFollows z := by
  have hbreak : digitFollows ('\n' :: rest) = false := h
  rw [digitFollows] at hbreak
  rw [digitFollows, digitFollows, List.find?_append]
  cases z.find? fun c => !ByteClass.whitespace.hasChar c with
  | none => rw [Option.none_or, hbreak, Option.any_none]
  | some c => rw [Option.some_or]

/-- At the end of a line every token has ended. -/
theorem ReadsAll.before_break (h : ReadsAll r before ts []) (hno : digitFollows rest = false) :
    ReadsAll r before ts ('\n' :: rest) := by
  refine h.transfer fun us t vs _ hread => ?_
  rw [List.append_nil] at hread
  refine hread.of_endsBefore (fun c hc => ?_) fun ht => ?_
  · cases hz : spelling vs with
    | nil =>
      rw [hz] at hc
      obtain rfl := Option.some.inj hc
      exact hread.endsBefore_blank (by decide) fun _ _ _ => by decide
    | cons d z =>
      rw [hz] at hc
      exact hread.endsBefore c (by rwa [hz])
  · subst ht
    rw [minusAndBlank_append_break, digitFollows_append_break _ hno]
    cases hread with
    | other h => exact ⟨h.lineComment rfl, h.sign rfl⟩

theorem reads_semicolon (hid : r.quotes.beginsIdentifier ';' = false) :
    Reads r before (.other ';') rest :=
  .other {
    blank := by rw [show ByteClass.whitespace.hasChar ';' = false by decide, Bool.and_false]
    identifier := hid
    string := not_beginsString (by decide) (by decide)
    digit := by decide
    name := by decide
    lineComment := fun hc => absurd hc (by decide)
    sign := fun hc => absurd hc (by decide)
    blockComment := fun hc => absurd hc (by decide) }

/-- The tokens of a line break. -/
abbrev lineBreak (r : Rules) : List Token :=
  [blankToken r '\n']

theorem ReadsAll.lineBreak (h : ReadsAll r before ts []) :
    ReadsAll r before (ts ++ lineBreak r) [] := by
  refine .snoc ?_ (reads_blankToken (by decide) _ _)
  rw [spelling_blankToken]
  exact h.before_break (by decide)

/-- Behind a line break and a semicolon a text is read as if it stood alone. -/
theorem Reading.semicolon {text tail : List Char} {us : List Token} {scope : Option Scope}
    (hid : r.quotes.beginsIdentifier ';' = false) (hts : ReadsAll r [] ts [])
    (rd : Reading r text us scope tail) :
    Reading r (spelling ts ++ '\n' :: ';' :: text)
      (ts ++ lineBreak r ++ [.other ';'] ++ us) scope tail := by
  have hsemicolon : ∀ rest, ReadsAll r [] (ts ++ lineBreak r ++ [.other ';']) rest := by
    intro rest
    have hnext : digitFollows (';' :: rest) = false := by
      rw [digitFollows_of_head (by rintro c ⟨⟩; decide)]
      rfl
    refine .snoc (.snoc ?_ (reads_blankToken (by decide) _ _)) (reads_semicolon hid)
    rw [spelling_blankToken]
    exact hts.before_break hnext
  have hsign : signMayFollow [] =
      signMayFollow (spelling (ts ++ lineBreak r ++ [.other ';'])) := by
    rw [spelling_snoc, Token.spelling, signMayFollow_concat _ (by decide)]
    rfl
  refine ⟨?_, .append (hsemicolon _) ?_, rd.ending⟩
  · rw [spelling_append, spelling_snoc, spelling_snoc, spelling_blankToken, rd.text_eq]
    simp [Token.spelling]
  · rw [List.nil_append]
    exact rd.reads.congr_before hsign

end Read

/-! ## What is written -/

section Written

variable {r : Rules} {pre : List Char}

theorem Token.written_behind (hpre : pre.getLast? ≠ some ' ') (out : List Char) (t : Token) :
    t.written r (pre ++ out) = t.written r out := by
  have hlast : (pre ++ out).getLast? = some ' ' ↔ out.getLast? = some ' ' := by
    rw [List.getLast?_append]
    cases out.getLast? with
    | none => simpa using hpre
    | some c => rfl
  cases t with
  | blank c => simp only [Token.written, hlast]
  | _ => rfl

/-- Behind a text that does not end in a space, as much is written as without it. -/
theorem writtenFrom_behind (hpre : pre.getLast? ≠ some ' ') (out : List Char) (ts : List Token) :
    writtenFrom r (pre ++ out) ts = pre ++ writtenFrom r out ts := by
  induction ts generalizing out with
  | nil => rfl
  | cons t ts ih =>
    rw [writtenFrom, List.foldl_cons, Token.written_behind hpre, List.append_assoc]
    exact ih _

theorem written_semicolon (ts us : List Token) :
    written r (ts ++ [.other ';'] ++ us) = written r ts ++ ';' :: written r us := by
  have hlast : (written r ts ++ [';']).getLast? ≠ some ' ' := by
    rw [List.getLast?_concat]
    decide
  have h := writtenFrom_behind (r := r) hlast [] us
  rw [List.append_nil] at h
  rw [written_append, written_snoc, written, written]
  exact h.trans (List.append_assoc _ _ _)

end Written

theorem outcome_semicolon (r : Rules) (ts us : List Token) (scope : Option Scope)
    (tail : List Char) :
    outcome r (ts ++ [.other ';'] ++ us) scope tail =
      (outcome r us scope tail).behind (String.ofList (written r ts) ++ ";")
        (width (spelling ts) + 1) := by
  have htext : String.ofList (written r ts) ++ ";" = String.ofList (written r ts ++ [';']) := by
    rw [String.ofList_append]
  have hwidth : width (spelling (ts ++ [.other ';'] ++ us)) =
      width (spelling ts) + 1 + width (spelling us) := by
    rw [spelling_append, spelling_snoc, width_append, width_append]
    rfl
  cases scope with
  | none =>
    rw [outcome, outcome, Outcome.behind, written_semicolon, htext, ← String.ofList_append,
      List.append_assoc, List.singleton_append]
  | some scope =>
    rw [outcome, outcome, Outcome.behind, written_semicolon, htext, ← String.ofList_append,
      hwidth, List.append_assoc, List.append_assoc, List.singleton_append, List.cons_append]

/-- A line break and a semicolon separate statements: behind a text that is scanned to its end, every
text has the outcome that it has alone. -/
theorem scan_statements {o : Options} {r : Rules} (hr : Rules.ofOptions o = .ok r)
    (hd : o.identifierDelimiter ≠ ';') {x out : String}
    (hx : scan r (Source.ofText x) = some (.finished out)) :
    ∃ line, scan r (Source.ofText (x ++ "\n")) = some (.finished line) ∧
      ∀ y, ∃ ending, scan r (Source.ofText y) = some ending ∧
        scan r (Source.ofText (x ++ "\n;" ++ y)) =
          some (ending.behind (line ++ ";") (x.utf8ByteSize + 2)) := by
  obtain ⟨ts, hts, hreads, -⟩ := scan_eq_finished_iff.1 hx
  have hbreak : spelling (ts ++ lineBreak r) = x.toList ++ ['\n'] := by
    rw [spelling_snoc, spelling_blankToken, hts]
  refine ⟨String.ofList (written r (ts ++ lineBreak r)), ?_, fun y => ?_⟩
  · refine scan_eq_finished_iff.2 ⟨_, ?_, hreads.lineBreak, String.toList_ofList⟩
    rw [hbreak, String.toList_append]
    rfl
  · obtain ⟨us, scope, tail, rd⟩ := Reading.exists r y.toList
    have hid : r.quotes.beginsIdentifier ';' = false := by
      obtain ⟨_, rfl⟩ := Rules.eq_of_ofOptions hr
      rw [Quotes.beginsIdentifier, beq_false_of_ne hd.symm, Bool.false_or]
      cases o.dialect <;> rfl
    have rd' := rd.semicolon hid hreads
    rw [hts] at rd'
    have hq : (x ++ "\n;" ++ y).toList = x.toList ++ '\n' :: ';' :: y.toList := by
      simp
    refine ⟨_, scan_eq rd, ?_⟩
    rw [← hq] at rd'
    have hwidth : width (spelling (ts ++ lineBreak r)) + 1 = x.utf8ByteSize + 2 := by
      rw [hbreak, width_append, width_toList]
      rfl
    rw [scan_eq rd', outcome_semicolon, hwidth]

/-- A comment ends with its line, and a minus behind a semicolon is no sign. -/
theorem scan_statements_comment : ∃ r, Rules.ofOptions .default = .ok r ∧
    Options.default.identifierDelimiter ≠ ';' ∧
    scan r (Source.ofText "a -- c") = some (.finished "a ") ∧
    scan r (Source.ofText ("a -- c" ++ "\n;" ++ "-1 'b")) =
      some (.unclosed .string 11 "a ;-? ?") := by
  generalize hr : (⟨⟨'\x60', by decide, .mysql⟩, true, "?"⟩ : Rules) = r
  have hx : scan r (Source.ofText "a -- c") = some (.finished "a ") := by
    subst hr
    decide +kernel
  have hbreak : scan r (Source.ofText ("a -- c" ++ "\n")) = some (.finished "a ") := by
    subst hr
    decide +kernel
  have hy : scan r (Source.ofText "-1 'b") = some (.unclosed .string 3 "-? ?") := by
    subst hr
    decide +kernel
  have hok : Rules.ofOptions .default = .ok r := by
    rw [← hr]
    rfl
  obtain ⟨line, hline, h⟩ := scan_statements hok (by decide) hx
  obtain ⟨ending, hending, hboth⟩ := h "-1 'b"
  rw [hbreak, Option.some.injEq, Outcome.finished.injEq] at hline
  rw [hy, Option.some.injEq] at hending
  subst hline hending
  exact ⟨r, hok, by decide, hx, hboth⟩

end Scan
end QueryDigest
