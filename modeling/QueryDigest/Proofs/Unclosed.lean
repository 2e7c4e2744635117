import QueryDigest.Digest
import QueryDigest.Proofs.Reach
import QueryDigest.Proofs.Surroundings

/-!
# QueryDigest.Proofs.Unclosed

Where a query is refused. A scan that stops inside a scope names the place at which the scope opens:
it stood between two tokens there, the query up to there is scanned to its end, and nothing behind
the opener closes the scope. The scope alone is at fault, for with its closer at the end the query is
scanned to its end as well (`scan_unclosed_exact`).
-/

namespace QueryDigest

open Text

namespace Scan

/-- The characters open a scope of the kind. -/
inductive Opener (r : Rules) : Scope → List Char → Prop where
  | string {q : Char} : r.quotes.beginsString q = true → Opener r .string [q]
  | identifier {q : Char} : r.quotes.beginsIdentifier q = true → Opener r .identifier [q]
  | blockComment : r.quotes.beginsIdentifier '/' = false → Opener r .blockComment ['/', '*']

/-- Behind the opener, the scope is closed somewhere in the text. In a string, a quote that is hidden
by a backslash or doubled closes nothing. -/
inductive Closes : Scope → List Char → List Char → Prop where
  | string {q : Char} {body rest : List Char} :
      StringBody q body → rest.head? ≠ some q → Closes .string [q] (body ++ q :: rest)
  | identifier {q : Char} {inner rest : List Char} :
      Closes .identifier [q] (inner ++ q :: rest)
  | blockComment {body rest : List Char} :
      Closes .blockComment ['/', '*'] (body ++ '*' :: '/' :: rest)

/-- What closes a scope of the kind that opens with `opener`. -/
def closer (opener : String) : Scope → String
  | .string | .identifier => opener
  | .blockComment => "*/"

/-- Does the text end in a backslash that no backslash before it hides? -/
def endsInBackslash : List Char → Bool
  | [] => false
  | ['\\'] => true
  | '\\' :: _ :: text => endsInBackslash text
  | _ :: text => endsInBackslash text

theorem endsInBackslash_cons {c : Char} (hc : c ≠ '\\') (text : List Char) :
    endsInBackslash (c :: text) = endsInBackslash text := by
  rw [endsInBackslash]
  · exact fun h _ => hc h
  · exact fun _ _ h _ => hc h

theorem OpenBody.stringBody {q : Char} (hq : q ≠ '\\') {text : List Char} (h : OpenBody q text) :
    endsInBackslash text = false → StringBody q text := by
  induction h with
  | nil => exact fun _ => .nil
  | backslash =>
    intro hend
    cases hend
  | plain hc hb _ ih =>
    intro hend
    rw [endsInBackslash_cons hb] at hend
    exact .plain hc hb (ih hend)
  | escaped _ ih => exact fun hend => .escaped (ih hend)
  | doubled _ ih =>
    intro hend
    rw [endsInBackslash_cons hq, endsInBackslash_cons hq] at hend
    exact .doubled (ih hend)

section Unclosed

variable {r : Rules} {scope : Scope} {text : List Char}

/-- A scope that stays open has an opener and no closer. -/
theorem Unclosed.opener (h : Unclosed r scope text) :
    ∃ opener body, text = opener ++ body ∧ Opener r scope opener ∧ ¬ Closes scope opener body := by
  cases h with
  | @string q body hq hopen =>
    refine ⟨[q], body, rfl, .string hq, ?_⟩
    rintro ⟨hbody, hrest⟩
    exact hbody.not_open (ne_backslash_of_beginsString hq) hrest hopen
  | @identifier q body hq hno =>
    refine ⟨[q], body, rfl, .identifier hq, ?_⟩
    rintro ⟨⟩
    simp at hno
  | @blockComment body hid hno =>
    refine ⟨['/', '*'], body, rfl, .blockComment hid, ?_⟩
    rintro ⟨⟩
    rename_i body rest
    exact hno ⟨body, rest, by simp⟩

/-- With its closer at the end, the scope is a token. -/
theorem Unclosed.reads {opener : String} {body : List Char}
    (h : Unclosed r scope (opener.toList ++ body)) (hop : Opener r scope opener.toList)
    (hend : scope = .string → endsInBackslash body = false) (before : List Char) :
    ∃ t, t.spelling = opener.toList ++ body ++ (closer opener scope).toList ∧
      Reads r before t [] := by
  generalize ho : opener.toList = o at h hop
  cases hop with
  | @string q hq =>
    cases h with
    | string _ hopen =>
      have hbody := hopen.stringBody (ne_backslash_of_beginsString hq) (hend rfl)
      exact ⟨.string q body, by simp [closer, ho, Token.spelling], .string hq hbody (by simp)⟩
  | @identifier q hq =>
    cases h with
    | identifier _ hno =>
      exact ⟨.identifier q body, by simp [closer, ho, Token.spelling], .identifier hq hno⟩
  | blockComment hid =>
    cases h with
    | blockComment _ hno =>
      exact ⟨.blockComment body, by simp [closer, Token.spelling], .blockComment hid hno⟩

/-- Text behind a character that is seen is out of sight, unless it is a blank behind a minus. -/
theorem Alike.append_right {c : Char} {x y : List Char}
    (hc : ByteClass.whitespace.hasChar c = false)
    (hy : ∀ d ∈ y.head?, ByteClass.whitespace.hasChar d = false) :
    Alike (c :: x) (c :: (x ++ y)) where
  head := .inl rfl
  minusAndBlank := by
    rw [minusAndBlank_cons, minusAndBlank_cons, List.head?_append]
    cases x with
    | cons d x => rfl
    | nil =>
      cases hhead : y.head? with
      | none => rfl
      | some d =>
        have hd := hy d hhead
        have : (d == ' ' || d == '\t') = false := by
          rw [Bool.or_eq_false_iff]
          constructor <;> refine beq_false_of_ne ?_ <;> rintro rfl <;> cases hd
        simp [this]
  digitFollows := by
    rw [digitFollows_of_head (by simpa using hc), digitFollows_of_head (by simpa using hc)]
    rfl

theorem Opener.visible {opener : List Char} (h : Opener r scope opener) :
    ∃ c o, opener = c :: o ∧ ByteClass.whitespace.hasChar c = false := by
  cases h with
  | @string q hq =>
    refine ⟨q, [], rfl, ?_⟩
    rcases (eq_of_beginsString hq).2 with rfl | rfl <;> decide
  | @identifier q hq => exact ⟨q, [], rfl, not_whitespace_of_beginsIdentifier hq⟩
  | blockComment _ => exact ⟨'/', ['*'], rfl, by decide⟩

theorem Opener.alike {opener : String} {body : List Char} (h : Opener r scope opener.toList) :
    Alike (opener.toList ++ body)
      (opener.toList ++ body ++ (closer opener scope).toList) := by
  obtain ⟨c, o, ho, hc⟩ := h.visible
  rw [ho, List.cons_append, List.cons_append]
  refine .append_right hc fun d hd => ?_
  cases scope with
  | string | identifier =>
    rw [closer, ho] at hd
    obtain rfl := Option.some.inj hd
    exact hc
  | blockComment =>
    obtain rfl : '*' = d := by simpa [closer] using hd
    decide

end Unclosed

/-- A scan that stops inside a scope is exact about it: the scope opens between two tokens, the query
before it is in order, nothing closes it, and its closer is all the query wants. -/
theorem scan_unclosed_exact {r : Rules} {query out : String} {scope : Scope} {offset : Nat}
    (h : scan r (Source.ofText query) = some (.unclosed scope offset out)) :
    ∃ before opener text : String, query = before ++ opener ++ text ∧
      before.utf8ByteSize = offset ∧ offset < query.utf8ByteSize ∧
      String.Pos.Raw.IsValid query ⟨offset⟩ ∧
      Opener r scope opener.toList ∧ Reaches r query before ∧
      (∃ out', scan r (Source.ofText before) = some (.finished out')) ∧
      ¬ Closes scope opener.toList text.toList ∧
      ((scope = .string → endsInBackslash text.toList = false) →
        ∃ out', scan r (Source.ofText (query ++ closer opener scope)) = some (.finished out')) := by
  obtain ⟨ts, sc, tail, rd, hout⟩ := scan_eq_some_iff.1 h
  cases sc with
  | none => cases hout
  | some sc =>
    rw [outcome, Outcome.unclosed.injEq] at hout
    obtain ⟨rfl, rfl, -⟩ := hout
    obtain ⟨htext, hreads, hend⟩ := rd
    cases hend with
    | unclosed hopen =>
      obtain ⟨opener, text, rfl, hop, hno⟩ := hopen.opener
      have hquery : query = String.ofList (spelling ts) ++ String.ofList opener ++
          String.ofList text := by
        rw [← String.toList_inj, htext]
        simp
      have hne : opener ++ text ≠ [] := by
        obtain ⟨c, o, rfl, -⟩ := hop.visible
        simp
      have hsize : (String.ofList (spelling ts)).utf8ByteSize = width (spelling ts) :=
        (width_eq _).symm
      have hpos := width_pos_of_ne_nil hne
      rw [← String.toList_ofList (l := opener)] at hop hopen hreads hne htext
      refine ⟨.ofList (spelling ts), .ofList opener, .ofList text, hquery, hsize, ?_, ?_, hop, ?_,
        ?_, ?_, ?_⟩
      · rw [← width_toList, htext, width_append, String.toList_ofList]
        omega
      · rw [String.Pos.Raw.isValid_iff_exists_append]
        refine ⟨.ofList (spelling ts), .ofList opener ++ .ofList text, ?_, ?_⟩
        · rw [hquery, String.append_assoc]
        · rw [← hsize]
          rfl
      · refine (reaches_iff hne ?_).2 ⟨ts, String.toList_ofList.symm, hreads⟩
        rw [htext, String.toList_ofList (l := spelling ts)]
      · exact ⟨.ofList (written r ts), scan_eq_finished_iff.2
          ⟨ts, String.toList_ofList.symm, hreads.cut, String.toList_ofList⟩⟩
      · rwa [String.toList_ofList, String.toList_ofList]
      · intro hback
        rw [String.toList_ofList] at hback
        obtain ⟨t, ht, hread⟩ := hopen.reads hop hback (spelling ts)
        have hall : ReadsAll r [] (ts ++ [t]) [] := by
          refine .snoc ?_ (by rwa [List.nil_append])
          rw [List.append_nil, ht]
          exact hreads.alike hop.alike
        refine ⟨.ofList (written r (ts ++ [t])), scan_eq_finished_iff.2
          ⟨ts ++ [t], ?_, hall, String.toList_ofList⟩⟩
        rw [spelling_append, spelling_cons, spelling_nil, List.append_nil, ht,
          String.toList_append, htext, List.append_assoc, List.append_assoc, List.append_assoc]

/-- A doubled quote and a hidden backslash leave a string open, and one more quote closes it. -/
theorem scan_unclosed_exact_quotes : ∃ r, Rules.ofOptions .default = .ok r ∧
    scan r (Source.ofText "a 'b''\\\\") = some (.unclosed .string 2 "a ?") ∧
    ∃ out, scan r (Source.ofText ("a 'b''\\\\" ++ "'")) = some (.finished out) := by
  refine ⟨⟨⟨'\x60', by decide, .mysql⟩, true, "?"⟩, rfl, ?_⟩
  have hopen : OpenBody '\x27' ['b', '\x27', '\x27', '\\', '\\'] :=
    .plain (by decide) (by decide) (.doubled (.escaped .nil))
  have rd : Reading ⟨⟨'\x60', by decide, .mysql⟩, true, "?"⟩ "a 'b''\\\\".toList
      [.name 'a' [], .blank ' '] (some .string) ['\x27', 'b', '\x27', '\x27', '\\', '\\'] := by
    refine ⟨by decide, .cons (.name (by decide) (by decide) (by simp) ?_)
      (.cons (.blank rfl (by decide)) .nil), .unclosed (.string (by decide) hopen)⟩
    rintro c ⟨⟩
    decide
  have hscan : scan ⟨⟨'\x60', by decide, .mysql⟩, true, "?"⟩ (Source.ofText "a 'b''\\\\") =
      some (.unclosed .string 2 "a ?") := (scan_eq rd).trans (by decide)
  refine ⟨hscan, ?_⟩
  obtain ⟨before, opener, text, hquery, hsize, -, -, hop, -, -, -, hclose⟩ :=
    scan_unclosed_exact hscan
  have hlist : ['a', ' '] ++ ['\x27', 'b', '\x27', '\x27', '\\', '\\'] =
      before.toList ++ (opener.toList ++ text.toList) := by
    rw [← String.toList_append, ← String.toList_append, ← String.append_assoc, ← hquery]
    decide
  obtain ⟨-, hrest⟩ := append_inj_of_width hlist (by rw [width_toList, hsize]; rfl)
  generalize ho : opener.toList = o at hop hrest
  cases hop with
  | @string q _ =>
    simp only [List.cons_append, List.nil_append, List.cons.injEq] at hrest
    obtain ⟨rfl, htext⟩ := hrest
    obtain rfl : opener = "'" := String.toList_inj.1 ho
    exact hclose fun _ => by rw [← htext]; rfl

end Scan
end QueryDigest
