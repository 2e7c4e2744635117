import QueryDigest.Digest
import QueryDigest.Proofs.Reach
import QueryDigest.Proofs.Surroundings

/-!
# QueryDigest.Proofs.Exchange

One token in place of another. Two tokens that may stand at one place, that look alike from the
text before them, that leave the text behind them its reading, and that are written alike can be
exchanged without another token of the query being read differently (`Exchangeable.readings`). The
digests then are the same, or refuse the query for the same scope, which has moved by the difference
of the tokens (`Exchangeable.agree`).
-/

namespace QueryDigest

open Text

namespace Scan

/-- Between `before` and `rest`, the one token can stand for the other. -/
structure Exchangeable (r : Rules) (before rest : List Char) (t u : Token) : Prop where
  left : Reads r before t rest
  right : Reads r before u rest
  alike : Alike (t.spelling ++ rest) (u.spelling ++ rest)
  behind : ∀ us tail, rest = spelling us ++ tail → ReadsAll r (before ++ t.spelling) us tail →
    ReadsAll r (before ++ u.spelling) us tail
  written : ∀ out, t.written r out = u.written r out

theorem Reading.of_parts {r : Rules} {ts us : List Token} {t : Token} {rest tail : List Char}
    {scope : Option Scope} (hts : ReadsAll r [] ts (t.spelling ++ rest))
    (ht : Reads r (spelling ts) t rest) (hrest : rest = spelling us ++ tail)
    (hus : ReadsAll r (spelling ts ++ t.spelling) us tail) (hend : Ending r scope tail) :
    Reading r (spelling ts ++ (t.spelling ++ rest)) (ts ++ t :: us) scope tail := by
  subst hrest
  refine ⟨?_, ?_, hend⟩
  · rw [spelling_append, spelling_cons, List.append_assoc, List.append_assoc]
  · apply ReadsAll.append
    · rw [spelling_cons, List.append_assoc]
      exact hts
    · rw [List.nil_append]
      exact .cons ht hus

theorem Exchangeable.readings {r : Rules} {ts : List Token} {t u : Token} {rest : List Char}
    (h : Exchangeable r (spelling ts) rest t u) (hts : ReadsAll r [] ts (t.spelling ++ rest)) :
    ∃ us scope tail,
      Reading r (spelling ts ++ (t.spelling ++ rest)) (ts ++ t :: us) scope tail ∧
      Reading r (spelling ts ++ (u.spelling ++ rest)) (ts ++ u :: us) scope tail := by
  obtain ⟨us, tail, scope, hrest, hus, hend⟩ :=
    exists_reading r (spelling ts ++ t.spelling) rest
  refine ⟨us, scope, tail, .of_parts hts h.left hrest hus hend, ?_⟩
  exact .of_parts (hts.alike h.alike) h.right hrest
    (h.behind us tail hrest hus) hend

/-! ## Digests that agree -/

/-- The same text, or a refusal for the same scope with the same text written, whose places are
related. -/
inductive Agree (moved : Nat → Nat → Prop) :
    Except DigestError String → Except DigestError String → Prop where
  | ok {text : String} : Agree moved (.ok text) (.ok text)
  | refused {e e' : SyntaxError} : e.scope = e'.scope → e.written = e'.written →
      moved e.offset e'.offset →
      Agree moved (.error (.syntaxError e)) (.error (.syntaxError e'))

theorem Agree.imp {moved moved' : Nat → Nat → Prop} (h : ∀ n m, moved n m → moved' n m)
    {a b : Except DigestError String} (hab : Agree moved a b) : Agree moved' a b := by
  cases hab with
  | ok => exact .ok
  | refused hs hw hm => exact .refused hs hw (h _ _ hm)

theorem agree_deliver {moved : Nat → Nat → Prop} (o : Options) (text : String) :
    Agree moved (o.deliver text).answer (o.deliver text).answer := by
  rcases o.deliver_answer_cases text with ⟨h, -⟩ | ⟨_, h, -⟩ <;> rw [h] <;> exact .ok

theorem agree_refuse {moved : Nat → Nat → Prop} (o : Options) {e e' : SyntaxError}
    (hs : e.scope = e'.scope) (hw : e.written = e'.written) (hm : moved e.offset e'.offset) :
    Agree moved (o.refuse e).answer (o.refuse e').answer := by
  unfold Options.refuse
  cases o.throwOnSyntaxError with
  | true => exact .refused hs hw hm
  | false =>
    have : e.returnedText = e'.returnedText := by
      rw [SyntaxError.returnedText, SyntaxError.returnedText, hs, hw]
    rw [this]
    exact .ok

/-- Accepted settings have these rules. -/
theorem Rules.eq_of_ofOptions {o : Options} {r : Rules} (hr : Rules.ofOptions o = .ok r) :
    ∃ h, r = ⟨⟨o.identifierDelimiter, h, o.dialect⟩, o.stripWhitespace, o.stringPlaceholder⟩ := by
  rw [Rules.ofOptions, Options.quotes] at hr
  split at hr
  · cases hr
    exact ⟨‹_›, rfl⟩
  · cases hr

theorem report_of_finished {o : Options} {r : Rules} (hr : Rules.ofOptions o = .ok r)
    {query out : String} (h : scan r (Source.ofText query) = some (.finished out)) :
    report o query = o.deliver (o.trim out) := by
  rw [report, hr]
  simp only [h]

theorem report_of_unclosed {o : Options} {r : Rules} (hr : Rules.ofOptions o = .ok r)
    {query out : String} {scope : Scope} {offset : Nat}
    (h : scan r (Source.ofText query) = some (.unclosed scope offset out)) :
    report o query = o.refuse ⟨scope, offset, query, o.trim out⟩ := by
  rw [report, hr]
  simp only [h]

/-- The reading of a query decides the report on it. -/
theorem report_eq {o : Options} {r : Rules} (hr : Rules.ofOptions o = .ok r) {query : String}
    {ts : List Token} {scope : Option Scope} {tail : List Char}
    (rd : Reading r query.toList ts scope tail) :
    report o query = match scope with
      | none => o.deliver (o.trim (String.ofList (written r ts)))
      | some sc => o.refuse ⟨sc, width (spelling ts), query,
          o.trim (String.ofList (written r ts ++ sc.written r tail))⟩ := by
  cases scope with
  | none => exact report_of_finished hr (scan_eq rd)
  | some sc => exact report_of_unclosed hr (scan_eq rd)

theorem digest_eq {o : Options} {r : Rules} (hr : Rules.ofOptions o = .ok r) {query : String}
    {ts : List Token} {scope : Option Scope} {tail : List Char}
    (rd : Reading r query.toList ts scope tail) :
    digest o query = match scope with
      | none => (o.deliver (o.trim (String.ofList (written r ts)))).answer
      | some sc => (o.refuse ⟨sc, width (spelling ts), query,
          o.trim (String.ofList (written r ts ++ sc.written r tail))⟩).answer := by
  rw [digest, report_eq hr rd]
  cases scope <;> rfl

theorem digest_eq_deliver {o : Options} {r : Rules} (hr : Rules.ofOptions o = .ok r)
    {query : String} {ts : List Token} (hts : spelling ts = query.toList)
    (hreads : ReadsAll r [] ts []) :
    digest o query = (o.deliver (o.trim (String.ofList (written r ts)))).answer :=
  digest_eq hr ⟨by rw [hts, List.append_nil], hreads, .done⟩

theorem digest_of_finished {o : Options} {r : Rules} (hr : Rules.ofOptions o = .ok r)
    {query out : String} (h : scan r (Source.ofText query) = some (.finished out)) :
    digest o query = (o.deliver (o.trim out)).answer := by
  rw [digest, report_of_finished hr h]

/-- Readings with the same ending have digests that agree, if the same text is written, but for white
space that is trimmed from the end of a query without an open scope. -/
theorem agree_of_trimmed_readings {moved : Nat → Nat → Prop} {o : Options} {r : Rules}
    (hr : Rules.ofOptions o = .ok r) {query query' : String} {ts ts' : List Token}
    {scope : Option Scope} {tail : List Char} (rd : Reading r query.toList ts scope tail)
    (rd' : Reading r query'.toList ts' scope tail)
    (hend : trimEnd (written r ts) = trimEnd (written r ts'))
    (hw : scope ≠ none → written r ts = written r ts')
    (hm : scope ≠ none → moved (width (spelling ts)) (width (spelling ts'))) :
    Agree moved (digest o query) (digest o query') := by
  rw [digest_eq hr rd, digest_eq hr rd']
  cases scope with
  | none =>
    have htrim : o.trim (String.ofList (written r ts)) = o.trim (String.ofList (written r ts')) := by
      rw [Options.trim, Options.trim, String.toList_ofList, String.toList_ofList, hend]
    rw [htrim]
    exact agree_deliver o _
  | some sc =>
    rw [hw (Option.some_ne_none _)]
    exact agree_refuse o rfl rfl (hm (Option.some_ne_none _))

/-- Readings with the same text written and the same ending have digests that agree. -/
theorem agree_of_readings {moved : Nat → Nat → Prop} {o : Options} {r : Rules}
    (hr : Rules.ofOptions o = .ok r) {query query' : String} {ts ts' : List Token}
    {scope : Option Scope} {tail : List Char} (rd : Reading r query.toList ts scope tail)
    (rd' : Reading r query'.toList ts' scope tail) (hw : written r ts = written r ts')
    (hm : scope ≠ none → moved (width (spelling ts)) (width (spelling ts'))) :
    Agree moved (digest o query) (digest o query') :=
  agree_of_trimmed_readings hr rd rd' (congrArg trimEnd hw) (fun _ => hw) hm

theorem written_exchange {r : Rules} {t u : Token} (h : ∀ out, t.written r out = u.written r out)
    (ts us : List Token) : written r (ts ++ t :: us) = written r (ts ++ u :: us) := by
  rw [List.append_cons, written_append, written_snoc, h, ← written_snoc, ← written_append,
    ← List.append_cons]

/-- Exchangeable tokens have digests that agree. -/
theorem Exchangeable.agree {o : Options} {r : Rules} (hr : Rules.ofOptions o = .ok r)
    {query query' before : String} {rest : List Char} {t u : Token}
    (h : Exchangeable r before.toList rest t u) (hreach : Reaches r query before)
    (hq : query.toList = before.toList ++ (t.spelling ++ rest))
    (hq' : query'.toList = before.toList ++ (u.spelling ++ rest)) :
    Agree (fun n m => n + width u.spelling = m + width t.spelling)
      (digest o query) (digest o query') := by
  obtain ⟨ts, hts, hreads⟩ := hreach.reads hq
  rw [← hts] at h hq hq'
  obtain ⟨us, scope, tail, rd, rd'⟩ := h.readings hreads
  rw [← hq] at rd
  rw [← hq'] at rd'
  refine agree_of_readings hr rd rd' (written_exchange h.written ts us) fun _ => ?_
  simp only [spelling_append, spelling_cons, width_append]
  omega

end Scan
end QueryDigest
