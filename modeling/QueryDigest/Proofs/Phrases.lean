import QueryDigest.Proofs.Copies
import QueryDigest.Proofs.Whitespace

/-!
# QueryDigest.Proofs.Phrases

Queries whose words have white space between them (`Spaced`). A word is a name, a number with a sign
or not, a string, a quoted identifier, a comment, a minus or a slash of its own, or a run of other
characters. White space keeps the words apart when the query is read, and one character of it keeps
apart what is written for them, so the text that a scan of the query writes is copied by another
scan (`Spaced.reads`). A minus of its own may be the sign of the number behind the white space; then
nothing is written for either.
-/

namespace QueryDigest

open Text

namespace Scan

open ByteClass (whitespace lineWhitespace digit nameStart nameContinue)

/-- A character that is only itself, wherever it stands. -/
structure Mark (r : Rules) (c : Char) : Prop where
  identifier : r.quotes.beginsIdentifier c = false
  string : r.quotes.beginsString c = false
  name : nameContinue.hasChar c = false
  minus : c ≠ '-'
  slash : c ≠ '/'
  blank : whitespace.hasChar c = false

/-- A piece of a query that can stand between white space. -/
inductive Word (r : Rules) : List Char → Prop where
  | name {first : Char} {more : List Char} :
      nameStart.hasChar first = true → (∀ c ∈ more, nameContinue.hasChar c = true) →
      Word r (first :: more)
  | number {first : Char} {more : List Char} :
      digit.hasChar first = true → continueDigits first more = true → Word r (first :: more)
  | negative {first : Char} {more : List Char} :
      digit.hasChar first = true → continueDigits first more = true → Word r ('-' :: first :: more)
  | string {q : Char} {body : List Char} :
      r.quotes.beginsString q = true → StringBody q body → Word r (q :: (body ++ [q]))
  | identifier {q : Char} {inner : List Char} :
      r.quotes.beginsIdentifier q = true → q ∉ inner → r.quotes.delimiter ∉ inner →
      Word r (q :: (inner ++ [q]))
  | blockComment {body : List Char} :
      ¬ ['*', '/'] <:+: body → Word r ('/' :: '*' :: (body ++ ['*', '/']))
  | minus : Word r ['-']
  | slash : Word r ['/']
  | marks {c : Char} {cs : List Char} : (∀ d ∈ c :: cs, Mark r d) → Word r (c :: cs)

/-- Words with white space between them, from the first word on. A line comment has to be ended by a
line break. -/
inductive Phrase (r : Rules) : List Char → Prop where
  | nil : Phrase r []
  | last {word : List Char} : Word r word → Phrase r word
  | cons {word blanks rest : List Char} :
      Word r word → BlankRun blanks → Phrase r rest → Phrase r (word ++ (blanks ++ rest))
  | lineComment {mark : Char} {text blanks rest : List Char} :
      mark = ' ' ∨ mark = '\t' → (∀ c ∈ text, endsLine c = false) → BlankRun blanks →
      (∀ c ∈ blanks.head?, endsLine c = true) → Phrase r rest →
      Phrase r ('-' :: '-' :: mark :: text ++ (blanks ++ rest))

/-- Words with white space between them, and around them or not. -/
inductive Spaced (r : Rules) : List Char → Prop where
  | phrase {text : List Char} : Phrase r text → Spaced r text
  | blanks {blanks text : List Char} : BlankRun blanks → Phrase r text → Spaced r (blanks ++ text)

/-- Nothing stands before, or a space does. -/
def Apart (last : Option Char) : Prop :=
  last = none ∨ last = some ' '

section Words

variable {r : Rules} {last : Option Char} {c first : Char}
  {before out text rest blanks word inner more x : List Char}

/-! ## What is copied behind a space -/

theorem Mark.not_nameStart_or_digit (h : Mark r c) :
    nameStart.hasChar c = false ∧ digit.hasChar c = false := by
  have := h.name
  rwa [nameContinue_eq, Bool.or_eq_false_iff] at this

theorem Mark.not_digit (h : Mark r c) : digit.hasChar c = false :=
  h.not_nameStart_or_digit.2

theorem Mark.ne_space (h : Mark r c) : c ≠ ' ' := by
  rintro rfl
  cases h.blank

theorem Mark.not_lineWhitespace (h : Mark r c) : lineWhitespace.hasChar c = false :=
  Scan.not_lineWhitespace h.blank

theorem Apart.ne (h : Apart last) (hc : c ≠ ' ') : last ≠ some c := by
  rcases h with rfl | rfl
  · exact (Option.some_ne_none c).symm
  · rintro ⟨⟩
    exact hc rfl

theorem MayFollow.of_apart (hl : Apart last) (hid : r.quotes.beginsIdentifier c = false)
    (hstr : r.quotes.beginsString c = false) (hline : lineWhitespace.hasChar c = false)
    (hdigit : ByteClass.digit.hasChar c = false) (hc : c ≠ ' ') : MayFollow r last c where
  identifier := hid
  string := hstr
  line := hline
  digit := fun h => by rw [hdigit] at h; cases h
  minus := fun _ => hl.ne (by decide)
  star := fun _ => hl.ne (by decide)
  space := fun _ h => absurd h hc

theorem Copies.single (h : MayFollow r last c) :
    Copies r (.between last) [c] (.between (some c)) :=
  .cons (.plain h) .nil

theorem MayFollow.of_name (hr : Quoting r) (hc : nameContinue.hasChar c = true)
    (h : ByteClass.digit.hasChar c = true → last.any nameContinue.hasChar = true) :
    MayFollow r last c where
  identifier := hr.not_beginsIdentifier (ne_of_hasChar hc (by decide)) (ne_of_hasChar hc (by decide))
  string := not_beginsString (ne_of_hasChar hc (by decide)) (ne_of_hasChar hc (by decide))
  line := by
    rw [Bool.eq_false_iff]
    intro hl
    simp only [ByteClass.hasChar, Bool.or_eq_true, beq_iff_eq] at hl
    rcases hl with (rfl | rfl) | rfl <;> cases hc
  digit := h
  minus := fun h => absurd h (ne_of_hasChar hc (by decide))
  star := fun h => absurd h (ne_of_hasChar hc (by decide))
  space := fun _ h => absurd h (ne_of_hasChar hc (by decide))

theorem Copies.of_nameContinue (hr : Quoting r) (hc : nameContinue.hasChar c = true)
    (hx : ∀ d ∈ x, nameContinue.hasChar d = true) :
    ∃ l, Copies r (.between (some c)) x (.between l) := by
  induction x generalizing c with
  | nil => exact ⟨some c, .nil⟩
  | cons d x ih =>
    have hd := hx d List.mem_cons_self
    obtain ⟨l, h⟩ := ih hd fun e he => hx e (List.mem_cons_of_mem d he)
    exact ⟨l, .cons (.plain (.of_name hr hd fun _ => hc)) h⟩

theorem Copies.of_marks (hc : Mark r c) (hx : ∀ d ∈ x, Mark r d) :
    ∃ l, Copies r (.between (some c)) x (.between l) := by
  induction x generalizing c with
  | nil => exact ⟨some c, .nil⟩
  | cons d x ih =>
    have hd := hx d List.mem_cons_self
    obtain ⟨l, h⟩ := ih hd fun e he => hx e (List.mem_cons_of_mem d he)
    refine ⟨l, .cons (.plain ?_) h⟩
    exact {
      identifier := hd.identifier
      string := hd.string
      line := hd.not_lineWhitespace
      digit := fun h => by rw [hd.not_digit] at h; cases h
      minus := fun h => absurd h hd.minus
      star := fun _ h => hc.slash (Option.some.inj h)
      space := fun _ h => absurd h hd.ne_space }

theorem Copies.identifier (hinner : r.quotes.delimiter ∉ inner) :
    Copies r (.between last) (r.quotes.delimiter :: (inner ++ [r.quotes.delimiter]))
      (.between (some r.quotes.delimiter)) := by
  have key : Copies r .quoted inner .quoted := by
    induction inner with
    | nil => exact .nil
    | cons c inner ih =>
      rw [List.mem_cons, not_or] at hinner
      exact .cons (.inner (Ne.symm hinner.1)) (ih hinner.2)
  exact .cons .quote (key.append (.cons .unquote .nil))

theorem Copies.placeholder (hr : Quoting r) (hl : Apart last) :
    ∃ l, Copies r (.between last) r.placeholder.toList (.between l) := by
  rcases hr.placeholder with hp | hp
  · rw [hp]
    exact ⟨_, .single (.of_apart hl (hr.not_beginsIdentifier (by decide) (by decide))
      (not_beginsString (by decide) (by decide)) (by decide) (by decide) (by decide))⟩
  · have hquoted : r.placeholder.toList = ['\x27', '?', '\x27'] := by
      rw [hp]
      rfl
    rw [hquoted]
    exact ⟨_, .cons (.fill hp (hl.ne (by decide))) (.cons .mark (.cons .filled .nil))⟩

/-! ## How words are read -/

/-- Between `before` and `rest` the word is read, and what is written for it is copied behind a
space. -/
def ReadsApart (r : Rules) (before word rest : List Char) : Prop :=
  ∃ ts u, spelling ts = word ∧ ReadsAll r before ts rest ∧
    (∀ out, writtenFrom r out ts = out ++ u) ∧
    ∀ last, Apart last → ∃ l, Copies r (.between last) u (.between l)

theorem Reads.apart {t : Token} {u : List Char} (h : Reads r before t rest)
    (hwritten : ∀ out, t.written r out = u)
    (hcopy : ∀ last, Apart last → ∃ l, Copies r (.between last) u (.between l)) :
    ReadsApart r before t.spelling rest := by
  refine ⟨[t], u, List.append_nil _, .cons (by simpa using h) .nil, fun out => ?_, hcopy⟩
  rw [← hwritten out]
  rfl

theorem Mark.alone (h : Mark r c) (before rest : List Char) : Alone r before c rest where
  blank := by rw [h.blank, Bool.and_false]
  identifier := h.identifier
  string := h.string
  digit := h.not_digit
  name := h.not_nameStart_or_digit.1
  lineComment := fun hc => absurd hc h.minus
  sign := fun hc => absurd hc h.minus
  blockComment := fun hc => absurd hc h.slash

theorem readsAll_marks (hx : ∀ d ∈ x, Mark r d) (before rest : List Char) :
    ReadsAll r before (x.map .other) rest := by
  induction x generalizing before with
  | nil => exact .nil
  | cons d x ih =>
    exact .cons (.other ((hx d List.mem_cons_self).alone _ _))
      (ih (fun e he => hx e (List.mem_cons_of_mem d he)) _)

theorem spelling_marks (x : List Char) : spelling (x.map .other) = x := by
  induction x with
  | nil => rfl
  | cons d x ih =>
    rw [List.map_cons, spelling_cons, ih]
    rfl

theorem writtenFrom_marks (hx : ∀ d ∈ x, Mark r d) (out : List Char) :
    writtenFrom r out (x.map .other) = out ++ x := by
  induction x generalizing out with
  | nil => exact (List.append_nil out).symm
  | cons d x ih =>
    have hd : (Token.other d).written r out = [d] := by
      rw [Token.written, (hx d List.mem_cons_self).not_lineWhitespace]
      rfl
    rw [List.map_cons, writtenFrom, List.foldl_cons, hd, ← writtenFrom,
      ih fun e he => hx e (List.mem_cons_of_mem d he), List.append_assoc, List.singleton_append]

theorem Copies.mark (hr : Quoting r) (last : Option Char) :
    Copies r (.between last) ['?'] (.between (some '?')) :=
  .single (hr.mayFollow (.inl rfl) last)

theorem MayFollow.minus_or_slash (hr : Quoting r) (hl : Apart last) (hc : c = '-' ∨ c = '/') :
    MayFollow r last c := by
  rcases hc with rfl | rfl
  all_goals
    exact .of_apart hl (hr.not_beginsIdentifier (by decide) (by decide))
      (not_beginsString (by decide) (by decide)) (by decide) (by decide) (by decide)

theorem Reads.minus (hr : Quoting r) (hrest : ∀ c ∈ rest.head?, c ≠ '-')
    (hsign : (signMayFollow before && digitFollows rest) = false) :
    Reads r before (.other '-') rest :=
  .other (.minus hr.minus (minusAndBlank_of_head hrest) hsign)

theorem Reads.slash (hr : Quoting r) (hrest : rest.head? ≠ some '*') :
    Reads r before (.other '/') rest :=
  .other {
    blank := by rw [show whitespace.hasChar '/' = false by decide, Bool.and_false]
    identifier := hr.slash
    string := not_beginsString (by decide) (by decide)
    digit := by decide
    name := by decide
    lineComment := fun h => absurd h (by decide)
    sign := fun h => absurd h (by decide)
    blockComment := fun _ => hrest }

/-- A minus in front of a number is its sign, or is read on its own. -/
theorem ReadsApart.negative (hr : Quoting r) (hfirst : digit.hasChar first = true)
    (hmore : continueDigits first more = true)
    (hend : ∀ c ∈ rest.head?, continuesDigits (more.getLastD first) c = false) :
    ReadsApart r before ('-' :: first :: more) rest := by
  by_cases hs : signMayFollow before = true
  · have hread : Reads r before (.number ['-'] first more) rest :=
      .signedNumber hr.minus hs (by simp) hfirst hmore hend
    exact hread.apart (fun _ => rfl) fun last _ => ⟨_, .mark hr last⟩
  · rw [Bool.not_eq_true] at hs
    have hminus : Reads r before (.other '-') (first :: more ++ rest) := by
      refine .minus hr ?_ (by rw [hs, Bool.false_and])
      rintro c ⟨⟩
      exact ne_of_hasChar hfirst (by decide)
    have hnumber : Reads r (before ++ ['-']) (.number [] first more) rest :=
      .number hfirst hmore hend
    refine ⟨[.other '-', .number [] first more], ['-', '?'], by simp [Token.spelling],
      .cons (by simpa [Token.spelling] using hminus) (.cons hnumber .nil),
      fun out => List.append_assoc out ['-'] ['?'], fun last hl => ?_⟩
    exact ⟨_, .cons (.plain (.minus_or_slash hr hl (.inl rfl))) (.mark hr _)⟩

/-- A word is read up to the white space behind it, unless it is a minus that is the sign of a number
behind the white space. -/
theorem Word.reads (hr : Quoting r) (hword : Word r word)
    (hrest : ∀ c ∈ rest.head?, whitespace.hasChar c = true)
    (hsign : word = ['-'] → (signMayFollow before && digitFollows rest) = false) :
    ReadsApart r before word rest := by
  have hend : ∀ prev, ∀ c ∈ rest.head?, continuesDigits prev c = false := fun prev c hc =>
    not_continuesDigits (.inl (hrest c hc))
  cases hword with
  | @name first more hfirst hmore =>
    have hc : nameContinue.hasChar first = true := by rw [nameContinue_eq, hfirst, Bool.true_or]
    have hread : Reads r before (.name first more) rest := by
      refine .name (hr.not_beginsIdentifier (ne_of_hasChar hc (by decide))
        (ne_of_hasChar hc (by decide))) hfirst hmore fun c hc => ?_
      rcases eq_of_whitespace (hrest c hc) with rfl | rfl | rfl | rfl <;> decide
    refine hread.apart (fun _ => rfl) fun last _ => ?_
    obtain ⟨l, h⟩ := Copies.of_nameContinue hr hc hmore
    refine ⟨l, .cons (.plain (.of_name hr hc fun hd => ?_)) h⟩
    rw [not_digit_of_nameStart hfirst] at hd
    cases hd
  | @number first more hfirst hmore =>
    have hread : Reads r before (.number [] first more) rest := .number hfirst hmore (hend _)
    exact hread.apart (fun _ => rfl) fun last _ => ⟨_, .mark hr last⟩
  | negative hfirst hmore => exact .negative hr hfirst hmore (hend _)
  | @string q body hq hbody =>
    have hread : Reads r before (.string q body) rest := by
      refine .string hq hbody fun h => ?_
      have hblank := hrest q h
      rcases (eq_of_beginsString hq).2 with rfl | rfl <;> cases hblank
    exact hread.apart (fun _ => rfl) fun last hl => Copies.placeholder hr hl
  | @identifier q inner hq hno hinner =>
    have hread : Reads r before (.identifier q inner) rest := .identifier hq hno
    exact hread.apart (fun _ => rfl) fun last _ => ⟨_, .identifier hinner⟩
  | @blockComment body hbody =>
    have hread : Reads r before (.blockComment body) rest :=
      .blockComment hr.slash hbody
    exact hread.apart (fun _ => rfl) fun last _ => ⟨last, .nil⟩
  | minus =>
    have hread : Reads r before (.other '-') rest :=
      .minus hr (fun c hc => ne_of_hasChar (hrest c hc) (by decide)) (hsign rfl)
    exact hread.apart (fun _ => rfl) fun last hl => ⟨_, .single (.minus_or_slash hr hl (.inl rfl))⟩
  | slash =>
    have hread : Reads r before (.other '/') rest :=
      .slash hr fun hstar => by cases hrest _ hstar
    exact hread.apart (fun _ => rfl) fun last hl => ⟨_, .single (.minus_or_slash hr hl (.inr rfl))⟩
  | @marks c cs hmarks =>
    refine ⟨(c :: cs).map .other, c :: cs, spelling_marks _, readsAll_marks hmarks _ _,
      writtenFrom_marks hmarks, fun last hl => ?_⟩
    have hc := hmarks c List.mem_cons_self
    obtain ⟨l, h⟩ := Copies.of_marks hc fun d hd => hmarks d (List.mem_cons_of_mem c hd)
    exact ⟨l, .cons (.plain (.of_apart hl hc.identifier hc.string hc.not_lineWhitespace
      hc.not_digit hc.ne_space)) h⟩

/-! ## White space -/

theorem Copies.last_eq_getLast? (h : Copies r (.between none) out (.between last)) :
    last = out.getLast? := by
  cases out with
  | nil =>
    cases h
    rfl
  | cons c out => exact h.last_eq (List.cons_ne_nil c out)

theorem Copies.blankToken (hr : Quoting r) (hc : whitespace.hasChar c = true)
    (h : Copies r (.between none) out (.between last)) :
    Copies r (.between none) (out ++ (blankToken r c).written r out) (.between (some ' ')) := by
  have hlast := h.last_eq_getLast?
  rcases written_blankToken (r := r) hc out with hnil | hspace
  · -- only behind a space nothing is written
    have hout : out.getLast? = some ' ' := by
      rw [Scan.blankToken] at hnil
      cases hs : r.strip with
      | true =>
        by_cases hout : out.getLast? = some ' '
        · exact hout
        · rw [hs, if_pos rfl, Token.written, if_neg hout] at hnil
          cases hnil
      | false =>
        rw [hs, if_neg Bool.false_ne_true, Token.written] at hnil
        cases hnil
    rw [hnil, List.append_nil, ← hout, ← hlast]
    exact h
  · rw [hspace]
    refine h.append (.single ⟨hr.not_beginsIdentifier (by decide) (by decide),
      not_beginsString (by decide) (by decide), by decide, fun hd => absurd hd (by decide),
      fun hd => absurd hd (by decide), fun hd => absurd hd (by decide), fun hs _ hl => ?_⟩)
    rw [Scan.blankToken, if_pos hs, Token.written, if_pos (hlast.symm.trans hl)] at hspace
    cases hspace

theorem Copies.blankTokens (hr : Quoting r) (hb : BlankRun blanks)
    (h : Copies r (.between none) out (.between last)) :
    Copies r (.between none) (writtenFrom r out (blanks.map (Scan.blankToken r)))
      (.between (some ' ')) := by
  obtain ⟨c, blanks, rfl, hc⟩ := hb.exists_cons
  have hblanks : ∀ d ∈ blanks, whitespace.hasChar d = true := fun d hd =>
    hb.blank d (List.mem_cons_of_mem c hd)
  clear hb
  induction blanks generalizing c out last with
  | nil => exact h.blankToken hr hc
  | cons d blanks ih =>
    exact ih (h.blankToken hr hc) d (hblanks d List.mem_cons_self) fun e he =>
      hblanks e (List.mem_cons_of_mem d he)

/-! ## How phrases are read -/

theorem Word.head (h : Word r word) :
    ∃ c x, word = c :: x ∧ whitespace.hasChar c = false := by
  cases h with
  | name hfirst _ => exact ⟨_, _, rfl, not_whitespace_of_nameStart hfirst⟩
  | number hfirst _ => exact ⟨_, _, rfl, not_whitespace_of_digit hfirst⟩
  | string hq _ =>
    refine ⟨_, _, rfl, ?_⟩
    rcases (eq_of_beginsString hq).2 with rfl | rfl <;> decide
  | identifier hq _ _ => exact ⟨_, _, rfl, not_whitespace_of_beginsIdentifier hq⟩
  | marks hmarks => exact ⟨_, _, rfl, (hmarks _ List.mem_cons_self).blank⟩
  | negative _ _ | blockComment _ | minus | slash => exact ⟨_, _, rfl, by decide⟩

theorem Phrase.head (h : Phrase r text) :
    ∀ c ∈ text.head?, whitespace.hasChar c = false := by
  cases h with
  | nil => simp
  | last hword =>
    obtain ⟨c, x, rfl, hc⟩ := hword.head
    rintro d ⟨⟩
    exact hc
  | cons hword _ _ =>
    obtain ⟨c, x, rfl, hc⟩ := hword.head
    rintro d ⟨⟩
    exact hc
  | lineComment _ _ _ _ _ =>
    rintro d ⟨⟩
    decide

/-- Behind `before` the text is read to its end, and what is written for it behind `out` is copied. -/
def ReadsCopied (r : Rules) (before out text : List Char) : Prop :=
  ∃ ts last, spelling ts = text ∧ ReadsAll r before ts [] ∧
    Copies r (.between none) (writtenFrom r out ts) (.between last)

theorem ReadsApart.append (h : ReadsApart r before word rest) (hlast : Apart last)
    (hout : Copies r (.between none) out (.between last))
    (hrest : ∀ out last, Copies r (.between none) out (.between last) →
      ReadsCopied r (before ++ word) out rest) : ReadsCopied r before out (word ++ rest) := by
  obtain ⟨ts, u, rfl, hts, hwritten, hcopy⟩ := h
  obtain ⟨l, hu⟩ := hcopy last hlast
  obtain ⟨us, l', rfl, hus, hcopied⟩ := hrest (out ++ u) l (hout.append hu)
  refine ⟨ts ++ us, l', spelling_append ts us, .append (by rwa [List.append_nil]) hus, ?_⟩
  rwa [writtenFrom_append, hwritten]

theorem ReadsCopied.blankRun (hr : Quoting r) (hb : BlankRun blanks)
    (hout : Copies r (.between none) out (.between last))
    (hrest : ∀ out, Copies r (.between none) out (.between (some ' ')) →
      ReadsCopied r (before ++ blanks) out rest) : ReadsCopied r before out (blanks ++ rest) := by
  obtain ⟨us, l, rfl, hus, hcopied⟩ := hrest _ (hout.blankTokens hr hb)
  refine ⟨blanks.map (blankToken r) ++ us, l, ?_, .append (readsAll_blankTokens hb.blank _ _) ?_, ?_⟩
  · rw [spelling_append, spelling_blankTokens]
  · rwa [spelling_blankTokens]
  · rwa [writtenFrom_append]

/-- A minus in front of white space and a number is read as the sign of it. -/
theorem ReadsCopied.sign (hr : Quoting r) (hs : signMayFollow before = true)
    (hb : ∀ c ∈ blanks, whitespace.hasChar c = true) (hc : digit.hasChar c = true)
    (h : ReadsCopied r (before ++ '-' :: blanks) out (c :: rest)) :
    ReadsCopied r before out ('-' :: (blanks ++ c :: rest)) := by
  obtain ⟨ts, l, hspell, hts, hcopied⟩ := h
  cases hts with
  | nil => cases hspell
  | @cons _ _ t us hread hus =>
    rw [List.append_nil] at hread
    -- the number is read without its sign, and a sign in front changes nothing that is written
    obtain ⟨more, y, rfl, hmore, hend⟩ := exists_digits c rest
    obtain ⟨rfl, rfl⟩ := hread.unique (.number hc hmore hend) hspell
    refine ⟨.number ('-' :: blanks) c more :: us, l, ?_, .cons ?_ ?_, hcopied⟩
    · simp [Token.spelling]
    · rw [List.append_nil]
      exact .signedNumber hr.minus hs hb hc hmore hend
    · simpa [Token.spelling] using hus

/-- A phrase is read to its end, and what is written for it is copied behind a space. -/
theorem Phrase.reads (hr : Quoting r) (h : Phrase r text) (hlast : Apart last)
    (hout : Copies r (.between none) out (.between last)) : ReadsCopied r before out text := by
  -- every word finds a space in front of it, or nothing, and leaves a text that is copied
  induction h generalizing before out last with
  | nil => exact ⟨[], last, rfl, .nil, hout⟩
  | @last word hword =>
    have hread : ReadsApart r before word [] :=
      hword.reads hr (by simp) fun _ => Bool.and_false _
    rw [← List.append_nil word]
    exact hread.append hlast hout fun out last hout => ⟨[], last, rfl, .nil, hout⟩
  | @cons word blanks rest hword hb hrest ih =>
    by_cases hsign : word = ['-'] ∧ (signMayFollow before && digitFollows (blanks ++ rest)) = true
    · obtain ⟨rfl, hsign⟩ := hsign
      rw [Bool.and_eq_true, digitFollows_append hb.blank, digitFollows_of_head hrest.head] at hsign
      obtain ⟨hbefore, hdigit⟩ := hsign
      cases rest with
      | nil => cases hdigit
      | cons c rest => exact .sign hr hbefore hb.blank hdigit (ih hlast hout)
    · have hread : ReadsApart r before word (blanks ++ rest) :=
        hword.reads hr (hb.head_append rest) fun hw => Bool.eq_false_iff.2 fun h => hsign ⟨hw, h⟩
      exact hread.append hlast hout fun out last hout =>
        .blankRun hr hb hout fun out hout => ih (.inr rfl) hout
  | @lineComment mark text blanks rest hmark htext hb hbreak hrest ih =>
    have hread : Reads r before (.lineComment mark text) (blanks ++ rest) := by
      refine .lineComment hr.minus hmark htext ?_
      obtain ⟨c, x, rfl, -⟩ := hb.exists_cons
      exact hbreak
    refine (hread.apart (fun _ => rfl) fun last _ => ⟨last, .nil⟩).append hlast hout ?_
    exact fun out last hout => .blankRun hr hb hout fun out hout => ih (.inr rfl) hout

/-- A query of words and white space is read to its end, and what is written for it is copied. -/
theorem Spaced.reads (hr : Quoting r) (h : Spaced r text) : ReadsCopied r [] [] text := by
  cases h with
  | phrase h => exact h.reads hr (.inl rfl) .nil
  | blanks hb h => exact .blankRun hr hb .nil fun out hout => h.reads hr (.inr rfl) hout

end Words

end Scan
end QueryDigest
