import QueryDigest.Proofs.Answers
import QueryDigest.Proofs.Comments
import QueryDigest.Proofs.Literals
import QueryDigest.Proofs.Phrases
import QueryDigest.Proofs.PlaceholderLists

/-!
# QueryDigest.Proofs.ValueLists

Queries that differ in the values of an `IN` list. The values are read one by one, for each a
placeholder is written, and the text on both sides of the list is read and written alike whatever the
values are. Where lists are shortened, one placeholder is left of them (`digest_in_list`), so the
number of values is no longer to be seen. It still is in the text written for a query that is refused,
which is not shortened, and a list of one string keeps the quotes of its placeholder.
-/

namespace QueryDigest

open Text

namespace Scan

/-- A value of a query: a string, or a number with a minus or without. -/
inductive Literal (r : Rules) : List Char → Prop where
  | string {q : Char} {body : List Char} :
      r.quotes.beginsString q = true → StringBody q body → Literal r (q :: (body ++ [q]))
  | number {n : List Char} : NumericLiteral n → Literal r n
  | negative {blanks n : List Char} :
      r.quotes.beginsIdentifier '-' = false →
      (∀ c ∈ blanks, ByteClass.whitespace.hasChar c = true) → NumericLiteral n →
      Literal r ('-' :: (blanks ++ n))

/-- What is written for a value. -/
def placeholderOf (r : Rules) (value : String) : String :=
  if value.toList.head?.any r.quotes.beginsString then r.placeholder else "?"

/-- A list behind `IN`. -/
def inClause (items : List String) : String :=
  "IN (" ++ String.intercalate ", " items ++ ")"

/-- What is left of the values between the parentheses. -/
def shortened (r : Rules) : List String → String
  | [value] => placeholderOf r value
  | _ => "?"

/-- Between `before` and `rest` the text is read, and `shown` is written for it. -/
def ReadsAs (r : Rules) (before text shown rest : List Char) : Prop :=
  ∃ ts, spelling ts = text ∧ ReadsAll r before ts rest ∧ ∀ out, writtenFrom r out ts = out ++ shown

/-! ## How a list is read -/

section Read

variable {r : Rules} {before rest x y : List Char} {t : Token}

theorem ReadsAs.append {u v : List Char} (hx : ReadsAs r before x u (y ++ rest))
    (hy : ReadsAs r (before ++ x) y v rest) : ReadsAs r before (x ++ y) (u ++ v) rest := by
  obtain ⟨ts, rfl, hts, hu⟩ := hx
  obtain ⟨us, rfl, hus, hv⟩ := hy
  refine ⟨ts ++ us, spelling_append ts us, hts.append hus, fun out => ?_⟩
  rw [writtenFrom_append, hu, hv, List.append_assoc]

theorem Reads.as {u : List Char} (h : Reads r before t rest)
    (hw : ∀ out, t.written r out = u) : ReadsAs r before t.spelling u rest := by
  refine ⟨[t], List.append_nil _, .cons (by simpa using h) .nil, fun out => ?_⟩
  rw [← hw out]
  rfl

/-- A token and the space behind it. -/
theorem Reads.as_spaced {u : List Char} (h : Reads r before t (' ' :: rest))
    (hw : ∀ out, t.written r out = u) (hlast : ∃ c ∈ u.getLast?, c ≠ ' ') :
    ReadsAs r before (t.spelling ++ [' ']) (u ++ [' ']) rest := by
  have hspace : (blankToken r ' ').spelling = [' '] := spelling_blankToken r ' '
  refine ⟨[t, blankToken r ' '], by simp [hspace], .cons ?_ (.cons ?_ .nil), fun out => ?_⟩
  · simpa [hspace] using h
  · exact reads_blankToken (by decide) _ _
  · obtain ⟨c, hc, hne⟩ := hlast
    have hout : (out ++ u).getLast? ≠ some ' ' := by
      rw [List.getLast?_append, Option.mem_def.1 hc, Option.some_or]
      simpa using hne
    have hblank : (blankToken r ' ').written r (out ++ u) = [' '] := by
      rw [blankToken]
      split
      · rw [Token.written, if_neg hout]
      · rfl
    simp only [writtenFrom, List.foldl_cons, List.foldl_nil, hw, hblank, List.append_assoc]

theorem Literal.reads {value : String} (h : Literal r value.toList)
    (hsign : signMayFollow before = true) (hrest : ∀ c ∈ rest.head?, c = ',' ∨ c = ')') :
    ReadsAs r before value.toList (placeholderOf r value).toList rest := by
  have hend : ∀ prev, ∀ c ∈ rest.head?, continuesDigits prev c = false := by
    intro prev c hc
    rcases hrest c hc with rfl | rfl
    · exact not_continuesDigits (.inr (.inl rfl))
    · exact not_continuesDigits (.inr (.inr (.inl rfl)))
  rw [placeholderOf]
  generalize value.toList = cs at h ⊢
  cases h with
  | @string q body hq hbody =>
    have hread : Reads r before (.string q body) rest := by
      refine .string hq hbody fun h => ?_
      rcases (eq_of_beginsString hq).2 with rfl | rfl <;> rcases hrest _ h with h | h <;> cases h
    rw [List.head?_cons, Option.any_some, hq, if_pos rfl]
    exact hread.as fun _ => rfl
  | number hn =>
    obtain ⟨first, more, rfl, hfirst, hmore⟩ := hn.token
    have hread : Reads r before (.number [] first more) rest := .number hfirst hmore (hend _)
    have hquote : r.quotes.beginsString first = false :=
      not_beginsString (ne_of_hasChar hfirst (by decide)) (ne_of_hasChar hfirst (by decide))
    rw [List.head?_cons, Option.any_some, hquote, if_neg Bool.false_ne_true]
    exact hread.as fun _ => rfl
  | @negative blanks _ hid hblanks hn =>
    obtain ⟨first, more, rfl, hfirst, hmore⟩ := hn.token
    have hread : Reads r before (.number ('-' :: blanks) first more) rest :=
      .signedNumber hid hsign hblanks hfirst hmore (hend _)
    have hquote : r.quotes.beginsString '-' = false := not_beginsString (by decide) (by decide)
    rw [List.head?_cons, Option.any_some, hquote, if_neg Bool.false_ne_true]
    exact hread.as fun _ => rfl

theorem mark_of_ne {c : Char} (hc : c = '(' ∨ c = ')' ∨ c = ',') (hd : r.quotes.delimiter ≠ c) :
    Mark r c where
  identifier := by
    rw [Quotes.beginsIdentifier, beq_false_of_ne hd.symm, Bool.false_or]
    rcases hc with rfl | rfl | rfl <;> cases r.quotes.dialect <;> rfl
  string := by rcases hc with rfl | rfl | rfl <;> exact not_beginsString (by decide) (by decide)
  name := by rcases hc with rfl | rfl | rfl <;> decide
  minus := by rcases hc with rfl | rfl | rfl <;> decide
  slash := by rcases hc with rfl | rfl | rfl <;> decide
  blank := by rcases hc with rfl | rfl | rfl <;> decide

theorem Mark.reads {c : Char} (h : Mark r c) (before rest : List Char) :
    Reads r before (.other c) rest :=
  .other (h.alone before rest)

theorem Mark.written {c : Char} (h : Mark r c) (out : List Char) :
    (Token.other c).written r out = [c] := by
  rw [Token.written, h.not_lineWhitespace]
  rfl

theorem signMayFollow_comma (before : List Char) : signMayFollow (before ++ [',', ' ']) = true := by
  have hblank : ∀ c ∈ [' '], ByteClass.whitespace.hasChar c = true :=
    List.forall_mem_singleton.2 (by decide)
  have hcomma : ByteClass.whitespace.hasChar ',' = false := by decide
  rw [show [',', ' '] = [','] ++ [' '] from rfl, ← List.append_assoc,
    signMayFollow_append_blanks hblank, signMayFollow_concat before hcomma]
  rfl

/-- Values with commas between them are read one by one. -/
theorem reads_values (hcomma : r.quotes.delimiter ≠ ',') {vs : List String} (hne : vs ≠ [])
    (hvs : ∀ v ∈ vs, Literal r v.toList) (hsign : signMayFollow before = true) :
    ReadsAs r before (String.intercalate ", " vs).toList
      (String.intercalate ", " (vs.map (placeholderOf r))).toList (')' :: rest) := by
  induction vs generalizing before with
  | nil => exact absurd rfl hne
  | cons v vs ih =>
    have hv := hvs v List.mem_cons_self
    cases vs with
    | nil =>
      rw [List.map_singleton, String.intercalate_singleton, String.intercalate_singleton]
      exact hv.reads hsign (by simp)
    | cons w vs =>
      have hmark : Mark r ',' := mark_of_ne (.inr (.inr rfl)) hcomma
      rw [List.map_cons, List.map_cons, String.intercalate_cons_cons, String.intercalate_cons_cons]
      generalize hitems : String.intercalate ", " (w :: vs) = items at ih ⊢
      have hfirst : ReadsAs r before v.toList (placeholderOf r v).toList
          ([',', ' '] ++ items.toList ++ ')' :: rest) := hv.reads hsign (by simp)
      have hseparator : ReadsAs r (before ++ v.toList) ([','] ++ [' ']) ([','] ++ [' '])
          (items.toList ++ ')' :: rest) :=
        (hmark.reads _ _).as_spaced hmark.written ⟨',', rfl, by decide⟩
      have hrest := ih (List.cons_ne_nil w vs) (fun u hu => hvs u (List.mem_cons_of_mem v hu))
        (signMayFollow_comma (before ++ v.toList))
      simpa using hfirst.append (hseparator.append hrest)

theorem toList_inClause (items : List String) : (inClause items).toList =
    ['I', 'N', ' '] ++ (['('] ++ ((String.intercalate ", " items).toList ++ [')'])) := by
  rw [inClause, String.toList_append, String.toList_append]
  rfl

theorem not_beginsIdentifier_letter (q : Quotes) {c : Char} (hc : isAsciiPunctuation c = false) :
    q.beginsIdentifier c = false := by
  rw [Bool.eq_false_iff, Quotes.beginsIdentifier]
  intro h
  rw [Bool.or_eq_true, beq_iff_eq, beq_iff_eq] at h
  rcases h with rfl | rfl
  · rw [q.delimiter_punctuation] at hc
    cases hc
  · generalize q.dialect = d at hc
    cases d <;> exact absurd hc (by decide)

/-- A word and the space behind it. -/
theorem reads_word (first : Char) (more : List Char)
    (hword : isAsciiPunctuation first = false) (hfirst : ByteClass.nameStart.hasChar first = true)
    (hmore : ∀ c ∈ more, ByteClass.nameContinue.hasChar c = true) (before rest : List Char) :
    ReadsAs r before (first :: more ++ [' ']) (first :: more ++ [' ']) rest := by
  have hname : Reads r before (.name first more) (' ' :: rest) := by
    refine .name (not_beginsIdentifier_letter _ hword) hfirst hmore ?_
    rintro c ⟨⟩
    decide
  refine hname.as_spaced (fun _ => rfl) ⟨_, List.getLast?_eq_some_getLast (by simp), ?_⟩
  intro hspace
  have hlast : ' ' ∈ first :: more := by
    rw [← hspace]
    exact List.getLast_mem _
  rcases List.mem_cons.1 hlast with rfl | hlast
  · cases hfirst
  · exact absurd (hmore ' ' hlast) (by decide)

/-- A list of values is read, and written with placeholders, wherever it stands. -/
theorem reads_inClause (hd : ∀ c, c = '(' ∨ c = ')' ∨ c = ',' → r.quotes.delimiter ≠ c)
    {vs : List String} (hne : vs ≠ []) (hvs : ∀ v ∈ vs, Literal r v.toList)
    (before rest : List Char) :
    ReadsAs r before (inClause vs).toList (inClause (vs.map (placeholderOf r))).toList rest := by
  have hmark : ∀ c, c = '(' ∨ c = ')' ∨ c = ',' → Mark r c := fun c hc => mark_of_ne hc (hd c hc)
  have hopen := hmark '(' (.inl rfl)
  have hclose := hmark ')' (.inr (.inl rfl))
  have hcomma := hd ',' (.inr (.inr rfl))
  have hword : ∀ rest, ReadsAs r before ['I', 'N', ' '] ['I', 'N', ' '] rest :=
    reads_word 'I' ['N'] (by decide) (by decide) (List.forall_mem_singleton.2 (by decide)) before
  have hsign : signMayFollow (before ++ ['I', 'N', ' '] ++ ['(']) = true := by
    rw [signMayFollow_concat _ (by decide)]
    rfl
  rw [toList_inClause, toList_inClause]
  refine (hword _).append (ReadsAs.append ?_ (ReadsAs.append ?_ ?_))
  · exact (hopen.reads _ _).as hopen.written
  · exact reads_values hcomma hne hvs hsign
  · exact (hclose.reads _ _).as hclose.written

end Read

/-! ## What is written in front of a list -/

section Front

variable {r : Rules} {rest : List Char} {ts : List Token} {c : Char}

/-- Behind white space, what is written ends in white space. -/
theorem last_written_of_blank (h : ReadsAll r [] ts rest) (hlast : (spelling ts).getLast? = some c)
    (hc : isBlank c = true) (hrest : ∃ d ∈ rest.head?, endsLine d = false) :
    ∃ d, (written r ts).getLast? = some d ∧ isBlank d = true := by
  rcases List.eq_nil_or_concat ts with rfl | ⟨us, t, rfl⟩
  · cases hlast
  · rw [List.concat_eq_append] at h hlast ⊢
    have ht : t.spelling.getLast? = some c := by
      rw [spelling_snoc, List.getLast?_append,
        List.getLast?_eq_some_getLast t.spelling_ne_nil, Option.some_or] at hlast
      rwa [List.getLast?_eq_some_getLast t.spelling_ne_nil]
    have hread : Reads r (spelling us) t rest := by
      have hsplit := h.split.2
      cases hsplit with
      | cons hread _ => simpa using hread
    rw [written_snoc]
    rcases hread.eq_of_last_blank ht hc hrest with rfl | rfl
    · rw [Token.written]
      split
      · rename_i hspace
        exact ⟨' ', by simpa using hspace, by decide⟩
      · exact ⟨' ', List.getLast?_concat, by decide⟩
    · rw [Token.written, List.getLast?_concat]
      split
      · exact ⟨' ', rfl, by decide⟩
      · exact ⟨c, rfl, hc⟩

end Front

/-! ## Queries with a list -/

section Queries

variable {o : Options} {r : Rules} {p s : String} {vs : List String}

theorem exists_toList_inClause (items : List String) :
    ∃ x, (inClause items).toList = 'I' :: 'N' :: (x ++ [')']) :=
  ⟨' ' :: '(' :: (String.intercalate ", " items).toList, by simp [toList_inClause]⟩

theorem signMayFollow_inClause (before : List Char) (items : List String) :
    signMayFollow (before ++ (inClause items).toList) = signMayFollow [')'] := by
  obtain ⟨x, hx⟩ := exists_toList_inClause items
  rw [hx, ← List.cons_append, ← List.cons_append, ← List.append_assoc,
    signMayFollow_concat _ (by decide)]
  rfl

/-- With any values in the list, the text in front of it and the text behind it are read alike, and
written alike. -/
theorem exists_readings_of_lists (hd : ∀ c, c = '(' ∨ c = ')' ∨ c = ',' → r.quotes.delimiter ≠ c)
    {ts : List Token} (hts : spelling ts = p.toList)
    (hreads : ReadsAll r [] ts ((inClause vs).toList ++ s.toList)) :
    ∃ z scope tail, ∀ ls : List String, ls ≠ [] → (∀ v ∈ ls, Literal r v.toList) →
      ∃ all, Reading r (p ++ inClause ls ++ s).toList all scope tail ∧
        written r all =
          written r ts ++ ((inClause (ls.map (placeholderOf r))).toList ++ z) := by
  obtain ⟨us, tail, scope, hs, hus, hend⟩ := exists_reading r [')'] s.toList
  obtain ⟨z, hz, -⟩ := exists_writtenFrom (r := r) (Iff.refl ([')'].getLast? = some ' ')) us
  refine ⟨z, scope, tail, fun ls hne hls => ?_⟩
  obtain ⟨cs, hcs, hclause, hwritten⟩ := reads_inClause hd hne hls p.toList s.toList
  have hfront : ReadsAll r [] ts ((inClause ls).toList ++ s.toList) := by
    obtain ⟨x, hx⟩ := exists_toList_inClause vs
    obtain ⟨y, hy⟩ := exists_toList_inClause ls
    rw [hx] at hreads
    rw [hy]
    exact hreads.alike (.of_cons_cons (by decide) 'N' _ _)
  refine ⟨ts ++ (cs ++ us), ⟨?_, ?_, hend⟩, ?_⟩
  · simp [hts, hcs, hs]
  · refine .append ?_ (.append ?_ (hus.congr_before ?_))
    · simpa [hcs, ← hs] using hfront
    · simpa [hts, ← hs] using hclause
    · rw [List.nil_append, hts, hcs, signMayFollow_inClause]
  · have hlast : ([')'].getLast? = some ' ') ↔
        (written r ts ++ (inClause (ls.map (placeholderOf r))).toList).getLast? = some ' ' := by
      obtain ⟨x, hx⟩ := exists_toList_inClause (ls.map (placeholderOf r))
      rw [hx, ← List.cons_append, ← List.cons_append, ← List.append_assoc, List.getLast?_concat]
      rfl
    obtain ⟨z', hz', hall⟩ := exists_writtenFrom (r := r) hlast us
    have hsame : z' = z := List.append_cancel_left (hz'.symm.trans hz)
    rw [written_append, writtenFrom_append, hwritten, hall, hsame, List.append_assoc]

theorem deliver_answer (hreduce : o.reduceEnumsToOneElement = true) (text : String) :
    (o.deliver text).answer = .ok (EnumList.collapse o.identifierDelimiter text) := by
  rw [Options.deliver_eq, Options.shorten, if_pos hreduce]

/-- A text of white space has an empty digest. -/
theorem trimStart_written_ne_nil (hr : Rules.ofOptions o = .ok r)
    (hreduce : o.reduceEnumsToOneElement = true) {ts : List Token} (hts : spelling ts = p.toList)
    (hreads : ReadsAll r [] ts []) (htold : ∃ text, digest o p = .ok text ∧ text ≠ "") :
    trimStart (written r ts) ≠ [] := by
  intro hblank
  obtain ⟨text, htext, hne⟩ := htold
  have hnone : o.trim (String.ofList (written r ts)) = "" := by
    obtain ⟨blanks, hblanks, hall⟩ := exists_trimStart (written r ts)
    rw [hblank, List.append_nil] at hblanks
    have hend : trimEnd ([] ++ blanks) = trimEnd [] := trimEnd_append_blanks hall
    rw [List.nil_append, ← hblanks] at hend
    rw [Options.trim, String.toList_ofList, hend]
    split <;> rfl
  have hempty : EnumList.collapse o.identifierDelimiter "" = "" := by
    rw [← String.toList_inj, EnumList.toList_collapse]
    simp [EnumList.Rule.replaceAll, EnumList.Rule.replaceFrom]
  rw [digest_eq_deliver hr hts hreads, hnone, deliver_answer hreduce, hempty] at htext
  cases htext
  exact hne rfl

/-! ## What is left of a list -/

theorem placeholder_placeholderOf (hr : Rules.ofOptions o = .ok r) (value : String) :
    EnumList.Placeholder (placeholderOf r value).toList := by
  obtain ⟨hd, rfl⟩ := Rules.eq_of_ofOptions hr
  have hmark : EnumList.Placeholder "?".toList := .mark
  have hquoted : EnumList.Placeholder "'?'".toList := .quoted
  rw [placeholderOf]
  split
  · change EnumList.Placeholder o.stringPlaceholder.toList
    rw [Options.stringPlaceholder]
    split
    · exact hquoted
    · exact hmark
  · exact hmark

/-- Placeholders with commas between them are a first one and items. -/
theorem exists_items (first : String) {more : List String}
    (h : ∀ w ∈ more, EnumList.Placeholder w.toList) : ∃ items, EnumList.Items items ∧
      (String.intercalate ", " (first :: more)).toList = first.toList ++ items ∧
      (more ≠ [] → items ≠ []) := by
  induction more generalizing first with
  | nil => exact ⟨[], .nil, by simp, fun hne => absurd rfl hne⟩
  | cons second more ih =>
    obtain ⟨items, hitems, hsame, -⟩ := ih second fun w hw =>
      h w (List.mem_cons_of_mem second hw)
    have hblank : EnumList.Blanks [' '] := fun c hc => by
      rw [List.mem_singleton.1 hc]
      decide
    have hnone : EnumList.Blanks [] := fun c hc => absurd hc List.not_mem_nil
    refine ⟨_, .cons hnone hblank (h second List.mem_cons_self) hitems, ?_, by simp⟩
    rw [String.intercalate_cons_cons, String.toList_append, String.toList_append, hsame,
      List.append_assoc]
    rfl

/-- Of the placeholders of several values one is left, of a single value its own. -/
theorem shortens_shortened (hr : Rules.ofOptions o = .ok r) {ls : List String} (hne : ls ≠ []) :
    EnumList.Shortens (String.intercalate ", " (ls.map (placeholderOf r))).toList
      (shortened r ls).toList := by
  cases ls with
  | nil => exact absurd rfl hne
  | cons first more =>
    have hfirst := placeholder_placeholderOf hr first
    cases more with
    | nil =>
      rw [List.map_singleton, String.intercalate_singleton, shortened]
      refine .alone hfirst.bare ?_
      generalize (placeholderOf r first).toList = placeholder at hfirst ⊢
      cases hfirst <;> decide
    | cons second more =>
      have hmore : ∀ w ∈ (second :: more).map (placeholderOf r),
          EnumList.Placeholder w.toList := by
        rintro _ hw
        obtain ⟨value, -, rfl⟩ := List.mem_map.1 hw
        exact placeholder_placeholderOf hr value
      obtain ⟨items, hitems, hsame, hitem⟩ := exists_items (placeholderOf r first) hmore
      have hone : (shortened r (first :: second :: more)).toList = ['?'] := by
        simp [shortened]
      rw [List.map_cons, hsame, hone]
      exact .list (.mk hfirst hitems (hitem (by simp)))

/-- Behind something visible, the text is trimmed on both sides of the list. -/
theorem trim_around_list {front : List Char} (hfront : trimStart front ≠ []) (items : List String)
    (y : List Char) : o.trim (String.ofList (front ++ ((inClause items).toList ++ y))) =
      String.ofList (o.trimFront front) ++ inClause items ++ String.ofList (trimEnd y) := by
  obtain ⟨x, hx⟩ := exists_toList_inClause items
  have hclosed : (inClause items).toList ++ y = ('I' :: 'N' :: x) ++ ')' :: y := by simp [hx]
  have htrim := o.toList_trim_around (x := 'I' :: 'N' :: x) (y := y) hfront
    (show isBlank ')' = false by decide)
  refine String.ext ?_
  rw [hclosed, htrim]
  simp [hx]

/-- Behind white space, a list is shortened and the text on both sides of it is the same. -/
theorem exists_collapse_list (hr : Rules.ofOptions o = .ok r)
    (hd : o.identifierDelimiter ≠ ')') {front : List Char} {lead : Char}
    (hlead : front.getLast? = some lead) (hblank : isBlank lead = true) (back : String) :
    ∃ front' back', ∀ ls : List String, ls ≠ [] →
      EnumList.collapse o.identifierDelimiter
        (String.ofList front ++ inClause (ls.map (placeholderOf r)) ++ back) =
      front' ++ inClause [shortened r ls] ++ back' := by
  obtain ⟨before, rfl⟩ := List.getLast?_eq_some_iff.1 hlead
  obtain ⟨before', back', h⟩ := EnumList.exists_collapse_around hd before back.toList hblank
  refine ⟨String.ofList before', String.ofList back', fun ls hne => ?_⟩
  have hlist := h _ _ (shortens_shortened hr hne)
  refine String.ext ?_
  have htext : String.ofList (before ++ [lead]) ++ inClause (ls.map (placeholderOf r)) ++ back =
      String.ofList (before ++ lead :: ['I', 'N', ' '] ++
        '(' :: ((String.intercalate ", " (ls.map (placeholderOf r))).toList ++
          ')' :: back.toList)) := by
    refine String.ext ?_
    simp [toList_inClause]
  rw [htext, hlist]
  simp [toList_inClause]

end Queries

/-- A place for a list where lists are shortened: the scan comes to it behind white space, and the
text before it does not digest to nothing. -/
structure ListSite (o : Options) (r : Rules) (p s : String) (vs : List String) : Prop where
  rules : Rules.ofOptions o = .ok r
  reduces : o.reduceEnumsToOneElement = true
  blank : ∃ c ∈ p.toList.getLast?, isBlank c = true
  told : ∃ text, digest o p = .ok text ∧ text ≠ ""
  reaches : Reaches r (p ++ inClause vs ++ s) p

/-- Behind white space, the number of values in a list is not seen in the digest: one placeholder
stands for them, which has quotes only if it stands for one string. If the query is refused, it is
refused for the same scope, and what was written then shows a placeholder for each value. -/
theorem digest_in_list {o : Options} {r : Rules} {p s : String} {vs : List String}
    (h : ListSite o r p s vs) (hd : o.identifierDelimiter ∉ ['(', ')', ',']) :
    (∃ front back, ∀ ls : List String, ls ≠ [] → (∀ v ∈ ls, Literal r v.toList) →
      digest o (p ++ inClause ls ++ s) = .ok (front ++ inClause [shortened r ls] ++ back)) ∨
    ∃ scope front back, ∀ ls : List String, ls ≠ [] → (∀ v ∈ ls, Literal r v.toList) →
      ∃ e : SyntaxError, e.scope = scope ∧
        e.written = front ++ inClause (ls.map (placeholderOf r)) ++ back ∧
        digest o (p ++ inClause ls ++ s) = (o.refuse e).answer := by
  have hmark : ∀ c, c = '(' ∨ c = ')' ∨ c = ',' → r.quotes.delimiter ≠ c := by
    obtain ⟨_, rfl⟩ := Rules.eq_of_ofOptions h.rules
    rintro c hc rfl
    exact hd (by simpa using hc)
  have htext : (p ++ inClause vs ++ s).toList = p.toList ++ ((inClause vs).toList ++ s.toList) := by
    simp
  obtain ⟨ts, hts, hreads⟩ := h.reaches.reads htext
  have htold := trimStart_written_ne_nil h.rules h.reduces hts hreads.cut h.told
  obtain ⟨z, scope, tail, hall⟩ := exists_readings_of_lists hmark hts hreads
  cases scope with
  | none =>
    obtain ⟨c, hc, hblank⟩ := h.blank
    obtain ⟨x, hx⟩ := exists_toList_inClause vs
    obtain ⟨lead, hlead, hlblank⟩ := last_written_of_blank hreads (by rwa [hts]) hblank
      ⟨'I', by simp [hx], by decide⟩
    rw [← o.getLast?_trimFront htold] at hlead
    have hclose : o.identifierDelimiter ≠ ')' := fun hclose => hd (by simp [hclose])
    obtain ⟨front, back, hshort⟩ := exists_collapse_list h.rules hclose hlead hlblank
      (String.ofList (trimEnd z))
    refine .inl ⟨front, back, fun ls hne hls => ?_⟩
    obtain ⟨all, rd, hw⟩ := hall ls hne hls
    rw [digest_eq h.rules rd]
    simp only [hw, trim_around_list htold, deliver_answer h.reduces, hshort ls hne]
  | some scope =>
    refine .inr ⟨scope, String.ofList (o.trimFront (written r ts)),
      String.ofList (trimEnd (z ++ scope.written r tail)), fun ls hne hls => ?_⟩
    obtain ⟨all, rd, hw⟩ := hall ls hne hls
    rw [digest_eq h.rules rd]
    refine ⟨_, rfl, ?_, rfl⟩
    rw [hw, List.append_assoc, List.append_assoc, trim_around_list htold]

/-! ## A list behind one word -/

section Word

variable {o : Options} {r : Rules}

theorem listSite_word (hr : Rules.ofOptions o = .ok r)
    (hreduce : o.reduceEnumsToOneElement = true) (s : String) (vs : List String) :
    ListSite o r "a " s vs := by
  have hword : ∀ rest, ReadsAs r [] ['a', ' '] ['a', ' '] rest :=
    reads_word 'a' [] (by decide) (by decide) (List.forall_mem_nil _) []
  refine ⟨hr, hreduce, ⟨' ', rfl, by decide⟩, ?_, ?_⟩
  · obtain ⟨ts, hts, hreads, hw⟩ := hword []
    have hkept : isKept 'a' = true := by decide
    have htext : digest o "a " = _ := digest_eq_deliver hr hts hreads
    rw [deliver_answer hreduce] at htext
    refine ⟨_, htext, fun hempty => ?_⟩
    have hcount := occurrences_deliver hkept o (o.trim (String.ofList (written r ts)))
    rw [deliver_answer hreduce, hempty, count_trim (by decide), String.toList_ofList, written,
      hw []] at hcount
    exact absurd hcount (by decide)
  · have hq : ("a " ++ inClause vs ++ s).toList =
        "a ".toList ++ ((inClause vs).toList ++ s.toList) := by simp
    obtain ⟨ts, hts, hreads, -⟩ := hword ((inClause vs).toList ++ s.toList)
    obtain ⟨x, hx⟩ := exists_toList_inClause vs
    exact (reaches_iff (by simp [hx]) hq).2 ⟨ts, hts, hreads⟩

end Word

/-- Settings that say to shorten lists, and nothing else. -/
def shortening : Options :=
  { Options.default with reduceEnumsToOneElement := true }

/-- A list of one number and a list of a string and a negative number have one digest. -/
theorem digest_in_list_values : ∃ r, ListSite shortening r "a " "" ["1"] ∧
    shortening.identifierDelimiter ∉ ['(', ')', ','] ∧
    (∀ v ∈ ["1", "'b'", "- 2"], Literal r v.toList) ∧
    digest shortening ("a " ++ inClause ["1"] ++ "") =
      digest shortening ("a " ++ inClause ["'b'", "- 2"] ++ "") := by
  generalize hr : (⟨⟨'\x60', by decide, .mysql⟩, true, "?"⟩ : Rules) = r
  have hok : Rules.ofOptions shortening = .ok r := by
    rw [← hr]
    rfl
  have hsite : ListSite shortening r "a " "" ["1"] := listSite_word hok rfl "" ["1"]
  have hd : shortening.identifierDelimiter ∉ ['(', ')', ','] := by decide
  have hdigit : ∀ c, ByteClass.digit.hasChar c = true → NumericLiteral [c] := fun c hc =>
    .plain (.whole ⟨List.cons_ne_nil c [], List.forall_mem_singleton.2 hc⟩)
  have hone : Literal r "1".toList := .number (hdigit '1' (by decide))
  have hstring : Literal r "'b'".toList := by
    have hbody : StringBody '\x27' ['b'] := .plain (by decide) (by decide) .nil
    subst hr
    exact .string (by decide) hbody
  have hnegative : Literal r "- 2".toList := by
    have hblanks : ∀ c ∈ [' '], ByteClass.whitespace.hasChar c = true :=
      List.forall_mem_singleton.2 (by decide)
    subst hr
    exact .negative (by decide) hblanks (hdigit '2' (by decide))
  have hsingle : ∀ v ∈ ["1"], Literal r v.toList := List.forall_mem_singleton.2 hone
  have hpair : ∀ v ∈ ["'b'", "- 2"], Literal r v.toList :=
    List.forall_mem_cons.2 ⟨hstring, List.forall_mem_singleton.2 hnegative⟩
  refine ⟨r, hsite, hd, List.forall_mem_cons.2 ⟨hone, hpair⟩, ?_⟩
  rcases digest_in_list hsite hd with ⟨front, back, h⟩ | ⟨scope, front, back, h⟩
  · rw [h ["1"] (by simp) hsingle, h ["'b'", "- 2"] (by simp) hpair]
    subst hr
    rfl
  · obtain ⟨e, -, -, hrefused⟩ := h ["1"] (by simp) hsingle
    have hfinished : (digest shortening ("a " ++ inClause ["1"] ++ "")).toOption.isSome = true := by
      decide +kernel
    rw [hrefused] at hfinished
    cases hfinished

/-- Behind one word, the digests differ although the queries do in the values of the list only. -/
def Differs (o : Options) (s : String) (vs ws : List String) : Prop :=
  ∃ r, ListSite o r "a " s vs ∧ ListSite o r "a " s ws ∧
    ¬ Agree (fun _ _ => True) (digest o ("a " ++ inClause vs ++ s))
      (digest o ("a " ++ inClause ws ++ s))

theorem differs_of_occurrences {o : Options} {r : Rules} (hr : Rules.ofOptions o = .ok r)
    (hreduce : o.reduceEnumsToOneElement = true) {s : String} {vs ws : List String} (c : Char)
    (h : occurrences c (digest o ("a " ++ inClause vs ++ s)) ≠
      occurrences c (digest o ("a " ++ inClause ws ++ s))) : Differs o s vs ws :=
  ⟨r, listSite_word hr hreduce s vs, listSite_word hr hreduce s ws,
    fun hagree => h (hagree.occurrences_eq c)⟩

/-- What is written for a refused query is not shortened; a placeholder in quotes is left of one
string only; a delimiter may be a mark of the list or begin a value; and a plus is no part of a
number, while a point begins none. -/
theorem digest_in_list_differs :
    Differs shortening " 'x" ["1"] ["1", "2"] ∧
    Differs { shortening with addRemovedStringQuotes := true } "" ["'a'"] ["'a'", "'b'"] ∧
    Differs { shortening with identifierDelimiter := '(' } "(" ["1"] ["1", "2"] ∧
    Differs { shortening with identifierDelimiter := ')' } "in(?,?)" ["1"] ["1", "2"] ∧
    Differs { shortening with identifierDelimiter := ',' } "" ["1"] ["1", "2"] ∧
    Differs { shortening with identifierDelimiter := '-' } "" ["1"] ["-1"] ∧
    Differs { shortening with identifierDelimiter := '\x27' } "" ["1"] ["'a'"] ∧
    Differs shortening "" ["1"] ["+1"] ∧
    Differs shortening "" ["1"] ["1e+1"] ∧
    Differs shortening "" ["1"] [".1"] :=
  ⟨differs_of_occurrences rfl rfl ',' (by decide +kernel),
    differs_of_occurrences rfl rfl '\x27' (by decide +kernel),
    differs_of_occurrences rfl rfl ',' (by decide +kernel),
    differs_of_occurrences rfl rfl ',' (by decide +kernel),
    differs_of_occurrences rfl rfl ',' (by decide +kernel),
    differs_of_occurrences rfl rfl '?' (by decide +kernel),
    differs_of_occurrences rfl rfl '?' (by decide +kernel),
    differs_of_occurrences rfl rfl '+' (by decide +kernel),
    differs_of_occurrences rfl rfl '+' (by decide +kernel),
    differs_of_occurrences rfl rfl '.' (by decide +kernel)⟩

end Scan
end QueryDigest
