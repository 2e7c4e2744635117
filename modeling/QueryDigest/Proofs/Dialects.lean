import QueryDigest.Proofs.Exchange

/-!
# QueryDigest.Proofs.Dialects

Where the dialect of a query shows. The dialects differ in what a double quote and a backtick open,
and a scan asks that only between two tokens (`step_inDialect`). So a scan that never stands there in
front of one of the two takes the same steps in the other dialect, whatever its strings, comments and
quoted identifiers hold, and the reports are the same (`report_dialect`).

Where a scan stands between two tokens, one of the tokens of the query begins or the scope that is
left open (`StandsOn.of_reading`).
-/

namespace QueryDigest

open Text

namespace Quotes

/-- The quotes of the dialect, with the same delimiter. -/
def inDialect (q : Quotes) (d : Dialect) : Quotes :=
  { q with dialect := d }

section Bytes

variable {b : UInt8} (hdouble : b ≠ '\x22'.toUInt8) (hback : b ≠ '\x60'.toUInt8)
include hdouble hback

/-- Every other byte opens an identifier in both dialects or in none. -/
theorem opensIdentifier_inDialect (q : Quotes) (d : Dialect) :
    (q.inDialect d).opensIdentifier b = q.opensIdentifier b := by
  have hquote : ∀ d : Dialect, (b == d.identifierQuote.toUInt8) = false := by
    intro d
    cases d with
    | mysql => exact beq_false_of_ne hback
    | ansi => exact beq_false_of_ne hdouble
  simp only [opensIdentifier, inDialect, hquote]

omit hback in
theorem opensString_inDialect (q : Quotes) (d : Dialect) :
    (q.inDialect d).opensString b = q.opensString b := by
  have hquote : ∀ d : Dialect, (b == '\x27'.toUInt8 || b == d.stringQuote.toUInt8) =
      (b == '\x27'.toUInt8) := by
    intro d
    cases d with
    | mysql => rw [Dialect.stringQuote, beq_false_of_ne hdouble, Bool.or_false]
    | ansi => rw [Dialect.stringQuote, Bool.or_self]
  simp only [opensString, inDialect, hquote]

end Bytes

end Quotes

namespace Scan

/-- The rules with the quotes of the dialect. -/
def Rules.inDialect (r : Rules) (d : Dialect) : Rules :=
  { r with quotes := r.quotes.inDialect d }

/-- The scan of the query comes to stand between two tokens in front of the character. -/
def StandsOn (r : Rules) (query : String) (c : Char) : Prop :=
  ∃ s, Steps r (State.start (Source.ofText query)) s ∧ s.mode = .between ∧
    s.cursor.current? = some c.toUInt8

/-! ## One step -/

section Step

variable {r : Rules} {s : State}

theorem Lead.ofBytes_inDialect {b : UInt8} (hdouble : b ≠ '\x22'.toUInt8)
    (hback : b ≠ '\x60'.toUInt8) (d : Dialect) (c : Cursor) (next afterNext : UInt8) :
    Lead.ofBytes (r.inDialect d) c b next afterNext = Lead.ofBytes r c b next afterNext := by
  simp only [Lead.ofBytes, Rules.inDialect, Quotes.opensIdentifier_inDialect hdouble hback,
    Quotes.opensString_inDialect hdouble]

theorem Lead.at?_inDialect {c : Cursor} (hdouble : c.current? ≠ some '\x22'.toUInt8)
    (hback : c.current? ≠ some '\x60'.toUInt8) (d : Dialect) :
    Lead.at? (r.inDialect d) c = Lead.at? r c := by
  cases hb : c.current? with
  | none => simp only [Lead.at?, hb, Option.bind_eq_bind, Option.bind_none]
  | some b =>
    rw [hb, ne_eq, Option.some.injEq] at hdouble hback
    simp only [Lead.at?, hb, Option.bind_eq_bind, Option.bind_some,
      Lead.ofBytes_inDialect hdouble hback]

/-- Between tokens a step looks at the dialect for a double quote and a backtick only; inside a token
it does not look at all. -/
theorem step_inDialect (h : s.mode = .between → s.cursor.current? ≠ some '\x22'.toUInt8 ∧
    s.cursor.current? ≠ some '\x60'.toUInt8) (d : Dialect) :
    step (r.inDialect d) s = step r s := by
  have henter : ∀ (t : State) (lead : Lead), t.enter (r.inDialect d) lead = t.enter r lead := by
    intro t lead
    cases lead <;> rfl
  unfold step
  cases hm : s.mode with
  | between =>
    obtain ⟨hdouble, hback⟩ := h hm
    simp only [State.betweenStep, Lead.at?_inDialect hdouble hback, henter]
  | _ => rfl

end Step

/-! ## The whole scan -/

/-- Rules by which the states of a run have the same steps give the same run. -/
theorem run_congr {r r' : Rules} {s : State} (h : ∀ t, Steps r s t → step r' t = step r t) :
    run r' s = run r s := by
  fun_induction run r s with
  | case1 s hend => rw [run_eq, hend]
  | case2 s hend => rw [run_eq, hend]
  | case3 s hend hstep =>
    rw [run_eq, hend, h s .refl]
    simp only [hstep]
  | case4 s hend scope t hstep =>
    rw [run_eq, hend, h s .refl]
    simp only [hstep]
  | case5 s hend t hstep hlt ih =>
    rw [run_eq, hend, h s .refl]
    simp only [hstep]
    exact ih fun u hu => h u (.cons hend hstep hu)

theorem scan_inDialect {r : Rules} {query : String} (hdouble : ¬ StandsOn r query '\x22')
    (hback : ¬ StandsOn r query '\x60') (d : Dialect) :
    scan (r.inDialect d) (Source.ofText query) = scan r (Source.ofText query) :=
  run_congr fun s hs => step_inDialect (fun hm =>
    ⟨fun hb => hdouble ⟨s, hs, hm, hb⟩, fun hb => hback ⟨s, hs, hm, hb⟩⟩) d

theorem ofOptions_inDialect {o : Options} {r : Rules} (hr : Rules.ofOptions o = .ok r)
    (ansi : Bool) : Rules.ofOptions { o with ansiDoubleQuotes := ansi } =
      .ok (r.inDialect { o with ansiDoubleQuotes := ansi }.dialect) := by
  obtain ⟨h, rfl⟩ := Rules.eq_of_ofOptions hr
  rw [Rules.ofOptions, Options.quotes, dif_pos h]
  rfl

/-- What a scan stands on between two tokens begins one of the tokens, or the scope at the end. -/
theorem StandsOn.of_reading {r : Rules} {query : String} {c : Char} {all : List Token}
    {scope : Option Scope} {tail : List Char} (hc : isAscii c = true) (h0 : 0 < c.toNat)
    (rd : Reading r query.toList all scope tail) (h : StandsOn r query c) :
    (∃ t ∈ all, t.spelling.head? = some c) ∨ tail.head? = some c := by
  obtain ⟨s, hsteps, hmode, hbyte⟩ := h
  cases (Standing.start (Source.ofText query) rd).steps rd hsteps with
  | @between ts us hall h =>
    rw [h.cursor.current?, Option.some.injEq, ← beq_iff_eq, firstByte_beq hc h0] at hbyte
    have hhead : (spelling us ++ tail).head? = some c := by simpa using hbyte
    cases us with
    | nil => exact .inr hhead
    | cons t us =>
      obtain ⟨d, ds, hd⟩ := List.exists_cons_of_ne_nil t.spelling_ne_nil
      refine .inl ⟨t, by simp [hall], ?_⟩
      rw [spelling_cons, hd] at hhead
      rwa [hd]
  | @inside _ _ _ op _ _ _ _ h => exact absurd (h.mode.symm.trans hmode) op.mode_ne_between
  | @unclosed op _ _ _ _ h => exact absurd (h.mode.symm.trans hmode) op.mode_ne_between

/-- A query whose scan stands on no double quote and no backtick between two tokens has the same
report in both dialects. -/
theorem report_dialect {o : Options} {r : Rules} (hr : Rules.ofOptions o = .ok r) {query : String}
    (hdouble : ¬ StandsOn r query '\x22') (hback : ¬ StandsOn r query '\x60') (ansi : Bool) :
    report { o with ansiDoubleQuotes := ansi } query = report o query := by
  rw [report, report, ofOptions_inDialect hr, hr]
  simp only [scan_inDialect hdouble hback]
  rfl

/-- Both quotes are in the query: in an identifier between bars, in a string and in a comment. -/
theorem report_dialect_hidden : ∃ r,
    Rules.ofOptions { Options.default with identifierDelimiter := '|' } = .ok r ∧
    ¬ StandsOn r "|a\x60| '\x22\x60' /*\x22*/" '\x22' ∧
    ¬ StandsOn r "|a\x60| '\x22\x60' /*\x22*/" '\x60' ∧
    report { Options.default with identifierDelimiter := '|', ansiDoubleQuotes := true }
        "|a\x60| '\x22\x60' /*\x22*/" =
      report { Options.default with identifierDelimiter := '|' } "|a\x60| '\x22\x60' /*\x22*/" := by
  generalize hr : (⟨⟨'|', by decide, .mysql⟩, true, "?"⟩ : Rules) = r
  have hok : Rules.ofOptions { Options.default with identifierDelimiter := '|' } = .ok r := by
    rw [← hr]
    rfl
  have rd : Reading r "|a\x60| '\x22\x60' /*\x22*/".toList
      [.identifier '|' ['a', '\x60'], .blank ' ', .string '\x27' ['\x22', '\x60'], .blank ' ',
        .blockComment ['\x22']] none [] := by
    subst hr
    refine ⟨by decide, ?_, .done⟩
    refine .cons (.identifier rfl (by decide)) (.cons (.blank rfl (by decide)) ?_)
    refine .cons (.string (by decide) ?_ (by decide)) (.cons (.blank rfl (by decide)) ?_)
    · exact .plain (by decide) (by decide) (.plain (by decide) (by decide) .nil)
    · exact .cons (.blockComment (by decide) (by decide)) .nil
  have hdouble : ¬ StandsOn r "|a\x60| '\x22\x60' /*\x22*/" '\x22' := fun h =>
    absurd (h.of_reading rfl (by decide) rd) (by decide)
  have hback : ¬ StandsOn r "|a\x60| '\x22\x60' /*\x22*/" '\x60' := fun h =>
    absurd (h.of_reading rfl (by decide) rd) (by decide)
  exact ⟨r, hok, hdouble, hback, report_dialect hok hdouble hback true⟩

end Scan
end QueryDigest
