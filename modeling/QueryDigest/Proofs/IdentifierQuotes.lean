import QueryDigest.Proofs.Literals

/-!
# QueryDigest.Proofs.IdentifierQuotes

The two quotes of identifiers. An identifier is written in the delimiter of the settings, whichever
of the two quotes it stands in. What is left of the quote in the query is seen by a later minus only:
where the delimiter is an operator or an underscore, the minus is a sign behind the one quote and none
behind the other. Two queries that differ in the quotes of one identifier therefore have the same
digest exactly if the delimiter is none of these or no minus and digit come next
(`digest_requoted_agree_iff`).
-/

namespace QueryDigest

open Text

/-- The characters that quote identifiers. -/
def Options.identifierQuotes (o : Options) : List Char :=
  [o.identifierDelimiter, o.dialect.identifierQuote]

/-- The name in quotes. -/
def quoted (quote : Char) (name : String) : String :=
  String.ofList (quote :: (name.toList ++ [quote]))

namespace Scan

/-- The text that a scan wrote, not yet trimmed. -/
def Outcome.output : Outcome → String
  | finished output | unclosed _ _ output => output

theorem toList_quoted (quote : Char) (name : String) :
    (quoted quote name).toList = (Token.identifier quote name.toList).spelling :=
  String.toList_ofList

theorem toList_output (r : Rules) (ts : List Token) (scope : Option Scope) (tail : List Char) :
    ∃ z, (outcome r ts scope tail).output.toList = written r ts ++ z := by
  cases scope with
  | none => exact ⟨[], by simp [outcome, Outcome.output]⟩
  | some scope => exact ⟨scope.written r tail, by simp [outcome, Outcome.output]⟩

theorem writtenFrom_eq_append (r : Rules) (out : List Char) (ts : List Token) :
    ∃ z, writtenFrom r out ts = out ++ z := by
  obtain ⟨z, hz, -⟩ := exists_writtenFrom (r := r) (Iff.refl (out.getLast? = some ' ')) ts
  exact ⟨z, hz⟩

section Quotes

variable {o : Options} {r : Rules} {quote : Char} {p t s : String}

theorem beginsIdentifier_of_mem (hr : Rules.ofOptions o = .ok r)
    (h : quote ∈ o.identifierQuotes) : r.quotes.beginsIdentifier quote = true := by
  obtain ⟨hd, rfl⟩ := Rules.eq_of_ofOptions hr
  simpa [Options.identifierQuotes, Quotes.beginsIdentifier] using h

/-- Behind an identifier only its quote is looked back at. -/
theorem signMayFollow_identifier (h : r.quotes.beginsIdentifier quote = true)
    (before inner : List Char) :
    signMayFollow (before ++ (Token.identifier quote inner).spelling) = signMayFollow [quote] := by
  have hw := not_whitespace_of_beginsIdentifier h
  rw [Token.spelling, ← List.cons_append, ← List.append_assoc, signMayFollow_concat _ hw,
    ← List.nil_append [quote], signMayFollow_concat _ hw]

theorem signMayFollow_identifierQuote (d : Dialect) :
    signMayFollow [d.identifierQuote] = false := by
  cases d <;> decide

/-- Where the scan comes to an identifier in either quote, it has read the same tokens. -/
theorem exists_readsAll_quoted (hr : Rules.ofOptions o = .ok r)
    (ht : ∀ quote ∈ o.identifierQuotes, quote ∉ t.toList)
    (hreach : ∀ quote ∈ o.identifierQuotes, Reaches r (p ++ quoted quote t ++ s) p) :
    ∃ ts, spelling ts = p.toList ∧ ReadsAll r [] ts [] ∧ ∀ quote ∈ o.identifierQuotes,
      ReadsAll r [] (ts ++ [.identifier quote t.toList]) s.toList := by
  have hreads : ∀ quote ∈ o.identifierQuotes, ∃ ts, spelling ts = p.toList ∧
      ReadsAll r [] ts ((Token.identifier quote t.toList).spelling ++ s.toList) := by
    intro quote hquote
    refine (hreach quote hquote).reads ?_
    rw [String.toList_append, String.toList_append, toList_quoted, List.append_assoc]
  obtain ⟨ts, hts, hread⟩ := hreads o.identifierDelimiter (by simp [Options.identifierQuotes])
  refine ⟨ts, hts, hread.cut, fun quote hquote => ?_⟩
  obtain ⟨ts', hts', hread'⟩ := hreads quote hquote
  have hsame : ts' = ts := by
    refine (hread'.cut.unique hread.cut .done .done ?_).1
    rw [hts, hts']
  rw [hsame] at hread'
  exact hread'.snoc (.identifier (beginsIdentifier_of_mem hr hquote) (ht quote hquote))

/-- An identifier is written in the delimiter of the settings. -/
theorem written_identifier (hr : Rules.ofOptions o = .ok r) (ts : List Token) (inner : String) :
    written r (ts ++ [.identifier quote inner.toList]) =
      written r ts ++ (quoted o.identifierDelimiter inner).toList := by
  obtain ⟨hd, rfl⟩ := Rules.eq_of_ofOptions hr
  rw [written_snoc, toList_quoted]
  rfl

/-- A scan that has read the tokens writes what they are written as, and then goes on. -/
theorem scan_output_of_readsAll {query : String} {ts : List Token} {rest : List Char}
    (hq : query.toList = spelling ts ++ rest) (hts : ReadsAll r [] ts rest) :
    ∃ ending behind, scan r (Source.ofText query) = some ending ∧
      ending.output.toList = written r ts ++ behind := by
  obtain ⟨us, tail, scope, rfl, hus, hend⟩ := exists_reading r (spelling ts) rest
  have rd : Reading r query.toList (ts ++ us) scope tail :=
    ⟨by rw [hq, spelling_append, List.append_assoc], hts.append hus, hend⟩
  obtain ⟨z, hz⟩ := toList_output r (ts ++ us) scope tail
  obtain ⟨y, hy⟩ := writtenFrom_eq_append r (written r ts) us
  refine ⟨_, y ++ z, scan_eq rd, ?_⟩
  rw [hz, written_append, hy, List.append_assoc]

end Quotes

/-- An identifier in one of its quotes in place of the other leaves the digest as it is, unless the
delimiter is one that a sign may follow and a minus and a digit come next. In both quotes it is
written in the delimiter, right behind what is written for the text before it. -/
theorem digest_requoted_agree_iff {o : Options} {r : Rules} (hr : Rules.ofOptions o = .ok r)
    {p t s : String} (ht : ∀ quote ∈ o.identifierQuotes, quote ∉ t.toList)
    (hreach : ∀ quote ∈ o.identifierQuotes, Reaches r (p ++ quoted quote t ++ s) p) :
    (Agree (fun n m => n = m) (digest o (p ++ quoted o.identifierDelimiter t ++ s))
        (digest o (p ++ quoted o.dialect.identifierQuote t ++ s)) ↔
      signMayFollow [o.identifierDelimiter] = false ∨ ¬ SignedDigitNext r s.toList) ∧
    ∃ out, scan r (Source.ofText p) = some (.finished out) ∧ ∀ quote ∈ o.identifierQuotes,
      ∃ ending behind, scan r (Source.ofText (p ++ quoted quote t ++ s)) = some ending ∧
        ending.output = out ++ quoted o.identifierDelimiter t ++ behind := by
  obtain ⟨ts, hts, hreads, hidentifier⟩ := exists_readsAll_quoted hr ht hreach
  have htext : ∀ quote, (p ++ quoted quote t ++ s).toList =
      spelling (ts ++ [.identifier quote t.toList]) ++ s.toList := by
    intro quote
    rw [String.toList_append, String.toList_append, toList_quoted, spelling_snoc, hts]
  have hd : o.identifierDelimiter ∈ o.identifierQuotes := List.mem_cons_self
  have hd' : o.dialect.identifierQuote ∈ o.identifierQuotes := by simp [Options.identifierQuotes]
  have hsign : ∀ quote ∈ o.identifierQuotes,
      signMayFollow (spelling (ts ++ [.identifier quote t.toList])) = signMayFollow [quote] := by
    intro quote hquote
    rw [spelling_snoc]
    exact signMayFollow_identifier (beginsIdentifier_of_mem hr hquote) _ _
  have hw : written r (ts ++ [.identifier o.identifierDelimiter t.toList]) =
      written r (ts ++ [.identifier o.dialect.identifierQuote t.toList]) := by
    rw [written_identifier hr, written_identifier hr]
  have hwidth : ∀ quote ∈ o.identifierQuotes, width (spelling
      (ts ++ [.identifier quote t.toList])) = width (spelling ts) + (width t.toList + 2) := by
    intro quote hquote
    have hsize := utf8Size_of_isAscii
      (Quotes.isAscii_of_beginsIdentifier (beginsIdentifier_of_mem hr hquote))
    rw [spelling_snoc, width_append, Token.spelling, width_cons, width_append, width_singleton,
      hsize]
    omega
  constructor
  · rw [← signMayFollow_identifierQuote o.dialect, ← hsign _ hd, ← hsign _ hd']
    constructor
    · intro hagree
      refine Classical.or_iff_not_imp_right.2 fun hnext => ?_
      exact hagree.signMayFollow_spelling_eq hr (htext _) (htext _) (hidentifier _ hd)
        (hidentifier _ hd') hw (Classical.not_not.1 hnext)
    · intro h
      refine agree_of_readsAll hr (htext _) (htext _) (hidentifier _ hd) (hidentifier _ hd') hw
        (fun n => ?_) h
      rw [hwidth _ hd, hwidth _ hd']
  · refine ⟨String.ofList (written r ts),
      scan_eq_finished_iff.2 ⟨ts, hts, hreads, String.toList_ofList⟩, fun quote hquote => ?_⟩
    obtain ⟨ending, behind, hscan, hout⟩ := scan_output_of_readsAll (htext quote)
      (hidentifier quote hquote)
    refine ⟨ending, String.ofList behind, hscan, String.ext ?_⟩
    rw [hout, written_identifier hr]
    simp

/-- Where double quotes quote identifiers, `"a"` and the same name in backticks have one digest, also
before a sign. -/
theorem digest_requoted_ansi : ∃ r, Rules.ofOptions { Options.default with ansiDoubleQuotes := true } =
      .ok r ∧
    (∀ quote ∈ ['\x60', '\x22'],
      quote ∉ "a".toList ∧ Reaches r ("x=" ++ quoted quote "a" ++ " -1") "x=") ∧
    Agree (fun n m => n = m)
      (digest { Options.default with ansiDoubleQuotes := true } ("x=" ++ quoted '\x60' "a" ++ " -1"))
      (digest { Options.default with ansiDoubleQuotes := true }
        ("x=" ++ quoted '\x22' "a" ++ " -1")) := by
  generalize hr : (⟨⟨'\x60', by decide, .ansi⟩, true, "?"⟩ : Rules) = r
  have hok : Rules.ofOptions { Options.default with ansiDoubleQuotes := true } = .ok r := by
    rw [← hr]
    rfl
  have hinner : ∀ quote ∈ ['\x60', '\x22'], quote ∉ "a".toList :=
    List.forall_mem_cons.2 ⟨by decide, List.forall_mem_singleton.2 (by decide)⟩
  have hreach : ∀ quote ∈ ['\x60', '\x22'],
      Reaches r ("x=" ++ quoted quote "a" ++ " -1") "x=" := by
    intro quote _
    have hq : ("x=" ++ quoted quote "a" ++ " -1").toList =
        "x=".toList ++ quote :: ("a".toList ++ quote :: " -1".toList) := by
      rw [String.toList_append, String.toList_append, toList_quoted]
      simp [Token.spelling]
    refine (reaches_iff (List.cons_ne_nil _ _) hq).2 ⟨[.name 'x' [], .other '='], by decide, ?_⟩
    subst hr
    refine .cons (.name (by decide) (by decide) (by simp) ?_) (.cons (.other ?_) .nil)
    · intro c hc
      cases hc
      decide
    · constructor
      case lineComment | sign | blockComment =>
        intro hc
        cases hc
      all_goals decide
  refine ⟨r, hok, fun quote hquote => ⟨hinner quote hquote, hreach quote hquote⟩, ?_⟩
  exact (digest_requoted_agree_iff hok hinner hreach).1.2 (.inl (by decide))

/-- Behind a name in stars a minus is a sign, for the star is an operator; behind the same name in
backticks it is not. -/
theorem digest_requoted_star :
    ∃ r, Rules.ofOptions { Options.default with identifierDelimiter := '*' } = .ok r ∧
    (∀ quote ∈ ['*', '\x60'],
      quote ∉ "a".toList ∧ Reaches r ("" ++ quoted quote "a" ++ " -1") "") ∧
    ¬ Agree (fun n m => n = m)
      (digest { Options.default with identifierDelimiter := '*' } ("" ++ quoted '*' "a" ++ " -1"))
      (digest { Options.default with identifierDelimiter := '*' }
        ("" ++ quoted '\x60' "a" ++ " -1")) := by
  have hstar : scan ⟨⟨'*', by decide, .mysql⟩, true, "?"⟩
      (Source.ofText ("" ++ quoted '*' "a" ++ " -1")) = some (.finished "*a* ?") := by
    decide +kernel
  have hbacktick : scan ⟨⟨'*', by decide, .mysql⟩, true, "?"⟩
      (Source.ofText ("" ++ quoted '\x60' "a" ++ " -1")) = some (.finished "*a* -?") := by
    decide +kernel
  have hinner : ∀ quote ∈ ['*', '\x60'], quote ∉ "a".toList :=
    List.forall_mem_cons.2 ⟨by decide, List.forall_mem_singleton.2 (by decide)⟩
  refine ⟨_, rfl, fun quote hquote => ⟨hinner quote hquote, _, .refl, rfl, rfl⟩, fun h => ?_⟩
  rw [digest_of_finished rfl hstar, digest_of_finished rfl hbacktick] at h
  exact absurd (h.occurrences_eq '-') (by decide +kernel)

end Scan
end QueryDigest
