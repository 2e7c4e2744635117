import QueryDigest.Proofs.Exchange
import QueryDigest.Proofs.PlaceholderLists

/-!
# QueryDigest.Proofs.Answers

What the switches for syntax errors decide. No scan reads them, so for all their settings it comes to
one text or to one error. A text is delivered as it is; an error is thrown or told in a text, and
recorded or not (`report_switches`).
-/

namespace QueryDigest

namespace Options

/-- The settings with these switches for syntax errors. -/
def onSyntaxError (o : Options) (throw write : Bool) : Options :=
  { o with throwOnSyntaxError := throw, writeSyntaxErrorsToConsole := write }

/-- The text with its placeholder lists shortened, if the settings say so. -/
def shorten (o : Options) (text : String) : String :=
  if o.reduceEnumsToOneElement then EnumList.collapse o.identifierDelimiter text else text

/-- Shortened lists are recorded exactly if there are any. -/
theorem deliver_eq (o : Options) (text : String) : o.deliver text =
    ⟨.ok (o.shorten text),
      if o.shorten text = text then [] else [.listsShortened (o.shorten text)]⟩ := by
  unfold deliver shorten
  cases o.reduceEnumsToOneElement with
  | false => simp
  | true =>
    have hchanged := EnumList.collapse?_ne_none_iff o.identifierDelimiter text
    cases h : EnumList.collapse? o.identifierDelimiter text with
    | none => simp [EnumList.collapse, h]
    | some shortened =>
      have hne : shortened ≠ text := by simpa [EnumList.collapse, h] using hchanged
      simp [EnumList.collapse, h, hne]

end Options

namespace Scan

/-- A finished scan has one answer whatever the switches for syntax errors are, and records only that
lists were shortened. Of a scan that stops there is one error; one switch decides whether it is thrown
or told in a text, which is not shortened, and the other one whether it is recorded. -/
theorem report_switches {o : Options} {r : Rules} (hr : Rules.ofOptions o = .ok r)
    (query : String) :
    (∃ out text, scan r (Source.ofText query) = some (.finished out) ∧
      text = o.shorten (o.trim out) ∧ ∀ throw write,
        report (o.onSyntaxError throw write) query =
          ⟨.ok text, if text = o.trim out then [] else [.listsShortened text]⟩) ∨
    ∃ e out, scan r (Source.ofText query) = some (.unclosed e.scope e.offset out) ∧
      e.query = query ∧ e.written = o.trim out ∧ ∀ throw write,
        report (o.onSyntaxError throw write) query =
          ⟨if throw then .error (.syntaxError e) else .ok (e.scope.message ++ ": " ++ e.written),
            if write then [.syntaxError e.scope e.offset query] else []⟩ := by
  have hswitched : ∀ throw write, Rules.ofOptions (o.onSyntaxError throw write) = .ok r :=
    fun _ _ => hr
  obtain ⟨ts, scope, tail, rd⟩ := Reading.exists r query.toList
  have hscan := scan_eq rd
  generalize outcome r ts scope tail = result at hscan
  cases result with
  | finished out =>
    refine .inl ⟨out, _, hscan, rfl, fun throw write => ?_⟩
    rw [report_of_finished (hswitched throw write) hscan, Options.deliver_eq]
    rfl
  | unclosed scope offset out =>
    refine .inr ⟨⟨scope, offset, query, o.trim out⟩, out, hscan, rfl, rfl, fun throw write => ?_⟩
    rw [report_of_unclosed (hswitched throw write) hscan]
    rfl

/-- The list in front of an open string stays as it is. -/
theorem report_switches_open : ∃ r,
    Rules.ofOptions { Options.default with reduceEnumsToOneElement := true } = .ok r ∧
    ∀ throw write, report ({ Options.default with reduceEnumsToOneElement := true }.onSyntaxError
        throw write) "a IN (1, 2) 'x" =
      ⟨if throw then .error (.syntaxError ⟨.string, 12, "a IN (1, 2) 'x", "a IN (?, ?) ?"⟩)
        else .ok (Scope.string.message ++ ": " ++ "a IN (?, ?) ?"),
        if write then [.syntaxError .string 12 "a IN (1, 2) 'x"] else []⟩ := by
  refine ⟨⟨⟨'\x60', by decide, .mysql⟩, true, "?"⟩, rfl, ?_⟩
  have hscan : scan ⟨⟨'\x60', by decide, .mysql⟩, true, "?"⟩ (Source.ofText "a IN (1, 2) 'x") =
      some (.unclosed .string 12 "a IN (?, ?) ?") := by decide +kernel
  have htrim : { Options.default with reduceEnumsToOneElement := true }.trim "a IN (?, ?) ?" =
      "a IN (?, ?) ?" := by decide +kernel
  rcases report_switches (o := { Options.default with reduceEnumsToOneElement := true }) rfl
    "a IN (1, 2) 'x" with ⟨out, _, h, -⟩ | ⟨⟨scope, offset, query, written⟩, out, h, rfl, hw, hreport⟩
  · cases hscan.symm.trans h
  · obtain ⟨rfl, rfl, rfl⟩ := Outcome.unclosed.inj (Option.some.inj (h.symm.trans hscan))
    obtain rfl : written = "a IN (?, ?) ?" := hw.trans htrim
    exact hreport

end Scan
end QueryDigest
