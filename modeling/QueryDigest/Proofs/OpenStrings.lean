import QueryDigest.Proofs.Exchange
import QueryDigest.Proofs.Kept

/-!
# QueryDigest.Proofs.OpenStrings

What is written of a query that ends inside a string. The step behind the opening quote writes the
placeholder, and at the end of the query no step is taken. So the text behind the quote does not
matter as long as there is some, and a quote with nothing behind it is not replaced
(`report_open_string`).
-/

namespace QueryDigest

open Text

namespace Options

/-- A placeholder shows behind every text. -/
theorem trim_append_placeholder_ne (o : Options) (text : String) :
    o.trim text ≠ o.trim (text ++ o.stringPlaceholder) := by
  intro h
  have hcount := congrArg (fun s : String => s.toList.count '?') h
  have hmark : 0 < o.stringPlaceholder.toList.count '?' := by
    rw [stringPlaceholder]
    cases o.addRemovedStringQuotes <;> decide
  have hblank : isBlank '?' = false := by decide
  simp only [count_trim hblank, String.toList_append, List.count_append] at hcount
  omega

end Options

namespace Scan

/-- What the scan of an open string has written: the text up to its quote, and a placeholder if
anything is behind the quote. -/
theorem outcome_open_string (r : Rules) (ts : List Token) (q : Char) (text : List Char) :
    outcome r ts (some .string) (q :: text) = .unclosed .string (width (spelling ts))
      (if String.ofList text = "" then String.ofList (written r ts)
        else String.ofList (written r ts) ++ r.placeholder) := by
  rw [outcome, Scope.written, List.length_cons]
  cases text with
  | nil => simp
  | cons c text => simp [← String.toList_inj]

/-- A scan that stops inside a string has finished with the text up to its quote. -/
theorem scan_open_string {r : Rules} {query out : String} {offset : Nat}
    (h : scan r (Source.ofText query) = some (.unclosed .string offset out)) :
    ∃ (before text done : String) (quote : Char),
      query = before ++ String.singleton quote ++ text ∧ before.utf8ByteSize = offset ∧
      r.quotes.beginsString quote = true ∧
      scan r (Source.ofText before) = some (.finished done) ∧
      out = if text = "" then done else done ++ r.placeholder := by
  obtain ⟨ts, scope, tail, ⟨htext, hreads, hend⟩, hout⟩ := scan_eq_some_iff.1 h
  cases hend with
  | done => cases hout
  | unclosed hopen =>
    cases hopen with
    | identifier => cases hout
    | blockComment => cases hout
    | @string q text hq _ =>
      rw [outcome_open_string, Outcome.unclosed.injEq] at hout
      obtain ⟨-, hoffset, hwritten⟩ := hout
      have hquery : query = .ofList (spelling ts) ++ String.singleton q ++ .ofList text := by
        rw [← String.toList_inj, htext]
        simp
      have hdone : scan r (Source.ofText (.ofList (spelling ts))) =
          some (.finished (.ofList (written r ts))) := scan_eq_finished_iff.2
        ⟨ts, String.toList_ofList.symm, hreads.cut, String.toList_ofList⟩
      exact ⟨_, _, _, q, hquery, (width_eq _).symm.trans hoffset, hq, hdone, hwritten.symm⟩

/-- A query that ends inside a string is refused with the text its scan writes up to the opening quote
and a placeholder, whatever is behind the quote; only where nothing is, the placeholder is missing. -/
theorem report_open_string {o : Options} {r : Rules} (hr : Rules.ofOptions o = .ok r)
    {query out : String} {offset : Nat}
    (h : scan r (Source.ofText query) = some (.unclosed .string offset out)) :
    ∃ (before text done : String) (quote : Char),
      query = before ++ String.singleton quote ++ text ∧ before.utf8ByteSize = offset ∧
      r.quotes.beginsString quote = true ∧
      scan r (Source.ofText before) = some (.finished done) ∧
      ∃ e, report o query = o.refuse e ∧ e.scope = .string ∧ e.offset = offset ∧
        e.query = query ∧
        e.written = o.trim (if text = "" then done else done ++ o.stringPlaceholder) ∧
        (e.written = o.trim (done ++ o.stringPlaceholder) ↔ text ≠ "") := by
  have hplaceholder : r.placeholder = o.stringPlaceholder := by
    obtain ⟨_, rfl⟩ := Rules.eq_of_ofOptions hr
    rfl
  have hreport := report_of_unclosed hr h
  obtain ⟨before, text, done, quote, hquery, hsize, hquote, hdone, hout⟩ := scan_open_string h
  rw [hplaceholder] at hout
  refine ⟨before, text, done, quote, hquery, hsize, hquote, hdone, _, hreport, rfl, rfl, rfl,
    congrArg o.trim hout, ?_⟩
  by_cases hempty : text = ""
  · rw [if_pos hempty] at hout
    rw [hout]
    exact iff_of_false (o.trim_append_placeholder_ne done) fun hne => hne hempty
  · rw [if_neg hempty] at hout
    rw [hout]
    exact iff_of_true rfl hempty

/-- The last character of the query opens the string. -/
theorem report_open_string_lone : ∃ r, Rules.ofOptions .default = .ok r ∧
    scan r (Source.ofText "SELECT '") = some (.unclosed .string 7 "SELECT ") ∧
    ∃ e, report .default "SELECT '" = Options.default.refuse e ∧ e.offset = 7 ∧
      e.written = "SELECT" ∧ e.written ≠ Options.default.trim ("SELECT " ++ "?") := by
  have hok : Rules.ofOptions .default = .ok ⟨⟨'\x60', by decide, .mysql⟩, true, "?"⟩ := rfl
  have hscan : scan ⟨⟨'\x60', by decide, .mysql⟩, true, "?"⟩ (Source.ofText "SELECT '") =
      some (.unclosed .string 7 "SELECT ") := by decide +kernel
  have hfront : scan ⟨⟨'\x60', by decide, .mysql⟩, true, "?"⟩ (Source.ofText "SELECT ") =
      some (.finished "SELECT ") := by decide +kernel
  refine ⟨_, hok, hscan, ?_⟩
  obtain ⟨before, text, done, quote, hquery, hsize, -, hdone, e, hreport, -, hoffset, -, hw, hiff⟩ :=
    report_open_string hok hscan
  have hlist : "SELECT ".toList ++ ['\x27'] = before.toList ++ quote :: text.toList := by
    have := congrArg String.toList hquery
    simpa using this
  obtain ⟨hbefore, hrest⟩ :=
    append_inj_of_width hlist (by rw [width_toList, width_toList, hsize]; rfl)
  obtain ⟨-, htext⟩ := List.cons.inj hrest
  obtain rfl : "SELECT " = before := String.toList_inj.1 hbefore
  obtain rfl : text = "" := String.toList_inj.1 htext.symm
  obtain rfl := Outcome.finished.inj (Option.some.inj (hdone.symm.trans hfront))
  exact ⟨e, hreport, hoffset, hw.trans (by decide +kernel), fun h => absurd rfl (hiff.1 h)⟩

end Scan
end QueryDigest
