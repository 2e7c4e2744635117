import QueryDigest.Proofs.Blanks
import QueryDigest.Proofs.NextSign
import QueryDigest.Proofs.Trimming

/-!
# QueryDigest.Proofs.Copies

Texts that a scan copies. What a scan writes is made of names, placeholders, quoted identifiers and
single characters, and where no two of them meet that would be read together, another scan of it
writes the same again (`Copies.reads`).

Whether that is so can be told from left to right: a `Place` says what a reader of the text has to
remember, and `Copies r p text q` that the text leads from one place to another. Text can be taken
away at both ends if it is white space (`Copies.trimStart`, `Copies.trimEnd`).
-/

namespace QueryDigest

open Text

namespace Scan

open ByteClass (whitespace lineWhitespace digit nameStart nameContinue)

/-- Where the reader of a written text stands. -/
inductive Place where
  /-- Outside of quotes, behind the character if there is one. -/
  | between (last : Option Char)
  /-- Inside a quoted identifier. -/
  | quoted
  /-- Behind the quote that opens a placeholder. -/
  | opened
  /-- Behind the question mark of such a placeholder. -/
  | filled
deriving DecidableEq

/-- Outside of quotes, the character can stand behind `last` and is only itself. -/
structure MayFollow (r : Rules) (last : Option Char) (c : Char) : Prop where
  identifier : r.quotes.beginsIdentifier c = false
  string : r.quotes.beginsString c = false
  line : lineWhitespace.hasChar c = false
  digit : digit.hasChar c = true → last.any nameContinue.hasChar = true
  minus : c = '-' → last ≠ some '-'
  star : c = '*' → last ≠ some '/'
  space : r.strip = true → c = ' ' → last ≠ some ' '

/-- A character leads from one place to another. -/
inductive Passes (r : Rules) : Place → Char → Place → Prop where
  | quote {last : Option Char} : Passes r (.between last) r.quotes.delimiter .quoted
  | inner {c : Char} : c ≠ r.quotes.delimiter → Passes r .quoted c .quoted
  | unquote : Passes r .quoted r.quotes.delimiter (.between (some r.quotes.delimiter))
  | fill {last : Option Char} :
      r.placeholder = "'?'" → last ≠ some '\x27' → Passes r (.between last) '\x27' .opened
  | mark : Passes r .opened '?' .filled
  | filled : Passes r .filled '\x27' (.between (some '\x27'))
  | plain {last : Option Char} {c : Char} :
      MayFollow r last c → Passes r (.between last) c (.between (some c))

/-- The text leads from one place to another. -/
inductive Copies (r : Rules) : Place → List Char → Place → Prop where
  | nil {p : Place} : Copies r p [] p
  | cons {p p' q : Place} {c : Char} {text : List Char} :
      Passes r p c p' → Copies r p' text q → Copies r p (c :: text) q

/-- Rules whose identifier delimiter is a quote. -/
structure Quoting (r : Rules) : Prop where
  delimiter : r.quotes.delimiter = '\x60' ∨ r.quotes.delimiter = '\x22'
  placeholder : r.placeholder = "?" ∨ r.placeholder = "'?'"

section Copies

variable {r : Rules} {p q : Place} {last : Option Char} {c : Char} {text x y : List Char}

theorem Copies.append {m : Place} (h : Copies r p x m) (h' : Copies r m y q) :
    Copies r p (x ++ y) q := by
  induction h with
  | nil => exact h'
  | cons hp _ ih => exact .cons hp (ih h')

theorem Copies.split (h : Copies r p (x ++ y) q) : ∃ m, Copies r p x m ∧ Copies r m y q := by
  induction x generalizing p with
  | nil => exact ⟨p, .nil, h⟩
  | cons c x ih =>
    cases h with
    | cons hp h =>
      obtain ⟨m, hx, hy⟩ := ih h
      exact ⟨m, .cons hp hx, hy⟩

theorem Passes.last_eq {last' : Option Char} (h : Passes r p c (.between last')) : last' = some c := by
  cases h with
  | unquote | filled | plain _ => rfl

theorem Copies.last_eq {last' : Option Char} (h : Copies r p x (.between last')) (hx : x ≠ []) :
    last' = x.getLast? := by
  generalize hq : Place.between last' = q at h
  induction h with
  | nil => exact absurd rfl hx
  | @cons p p' q c text hp h ih =>
    subst hq
    cases text with
    | nil =>
      cases h with
      | nil => rw [hp.last_eq, List.getLast?_singleton]
    | cons d text =>
      rw [ih (List.cons_ne_nil _ _) rfl, List.getLast?_cons_cons]

theorem Copies.quoted {last' : Option Char} (h : Copies r .quoted text (.between last')) :
    ∃ inner rest, text = inner ++ r.quotes.delimiter :: rest ∧ r.quotes.delimiter ∉ inner ∧
      Copies r (.between (some r.quotes.delimiter)) rest (.between last') := by
  induction text with
  | nil => cases h
  | cons c text ih =>
    cases h with
    | cons hp h =>
      cases hp with
      | inner hc =>
        obtain ⟨inner, rest, rfl, hno, hrest⟩ := ih h
        refine ⟨c :: inner, rest, rfl, ?_, hrest⟩
        simp only [List.mem_cons, not_or]
        exact ⟨hc.symm, hno⟩
      | unquote => exact ⟨[], text, rfl, List.not_mem_nil, h⟩

/-! ## Reading -/

theorem Quoting.not_beginsIdentifier (hr : Quoting r) (hc : c ≠ '\x60') (hc' : c ≠ '\x22') :
    r.quotes.beginsIdentifier c = false := by
  have hid : c ≠ r.quotes.dialect.identifierQuote := by
    cases r.quotes.dialect
    · exact hc
    · exact hc'
  rw [Quotes.beginsIdentifier, beq_false_of_ne hid, Bool.or_false]
  rcases hr.delimiter with h | h <;> rw [h]
  · exact beq_false_of_ne hc
  · exact beq_false_of_ne hc'

theorem Quoting.minus (hr : Quoting r) : r.quotes.beginsIdentifier '-' = false :=
  hr.not_beginsIdentifier (by decide) (by decide)

theorem Quoting.slash (hr : Quoting r) : r.quotes.beginsIdentifier '/' = false :=
  hr.not_beginsIdentifier (by decide) (by decide)

theorem Quoting.beginsString_quote (hr : Quoting r) : r.quotes.beginsString '\x27' = true := by
  rw [Quotes.beginsString, hr.not_beginsIdentifier (by decide) (by decide)]
  rfl

theorem Quoting.ne_delimiter (hr : Quoting r) (hc : c ≠ '\x60') (hc' : c ≠ '\x22') :
    c ≠ r.quotes.delimiter := by
  rcases hr.delimiter with hd | hd <;> rw [hd]
  · exact hc
  · exact hc'

theorem Quoting.mayFollow (hr : Quoting r) (hc : c = '?' ∨ c = ')') (last : Option Char) :
    MayFollow r last c := by
  rcases hc with rfl | rfl
  all_goals
    exact ⟨hr.not_beginsIdentifier (by decide) (by decide),
      not_beginsString (by decide) (by decide), by decide, fun h => absurd h (by decide),
      fun h => absurd h (by decide), fun h => absurd h (by decide),
      fun _ h => absurd h (by decide)⟩

theorem eq_space_of_whitespace (h : whitespace.hasChar c = true)
    (hl : lineWhitespace.hasChar c = false) : c = ' ' := by
  rcases eq_of_whitespace h with rfl | rfl | rfl | rfl
  · rfl
  all_goals cases hl

/-- Outside of names no digit follows, blanks apart. -/
theorem Copies.not_digitFollows (hr : Quoting r) (h : Copies r (.between last) text q)
    (hlast : last.any nameContinue.hasChar = false) : digitFollows text = false := by
  induction text generalizing last with
  | nil => rfl
  | cons c text ih =>
    cases h with
    | cons hp h =>
      by_cases hw : whitespace.hasChar c = true
      · cases hp with
        | plain hc =>
          obtain rfl := eq_space_of_whitespace hw hc.line
          exact ih h (by decide)
        | quote => rcases hr.delimiter with hd | hd <;> rw [hd] at hw <;> cases hw
        | fill _ _ => cases hw
      · rw [digitFollows_of_head (by simpa using hw)]
        rw [List.head?_cons, Option.any_some, Bool.eq_false_iff]
        intro hdigit
        cases hp with
        | plain hc =>
          rw [hc.digit hdigit] at hlast
          cases hlast
        | quote => rcases hr.delimiter with hd | hd <;> rw [hd] at hdigit <;> cases hdigit
        | fill _ _ => cases hdigit

/-- Outside of quotes a character that is no quote is only itself. -/
theorem Copies.mayFollow (hr : Quoting r) (h : Copies r (.between last) (c :: text) q)
    (hc : r.quotes.beginsIdentifier c = false) (hs : r.quotes.beginsString c = false) :
    MayFollow r last c := by
  cases h with
  | cons hp _ =>
    cases hp with
    | quote =>
      rw [Quotes.beginsIdentifier, beq_self_eq_true, Bool.true_or] at hc
      cases hc
    | fill _ _ =>
      rw [hr.beginsString_quote] at hs
      cases hs
    | plain h => exact h

theorem Copies.head_ne_quote (hr : Quoting r) (h : Copies r (.between (some '\x27')) text q) :
    text.head? ≠ some '\x27' := by
  intro hhead
  obtain ⟨text, rfl⟩ := List.head?_eq_some_iff.1 hhead
  generalize hc : '\x27' = c at h
  cases h with
  | cons hp _ =>
    cases hp with
    | quote =>
      rcases hr.delimiter with hd | hd <;> rw [hd] at hc <;> cases hc
    | fill _ hl => exact hl rfl
    | plain h =>
      have := h.string
      rw [← hc, hr.beginsString_quote] at this
      cases this

theorem Copies.of_name (hr : Quoting r) (hx : ∀ d ∈ x, nameContinue.hasChar d = true)
    (h : Copies r (.between last) x q) : ∃ last', q = .between last' := by
  induction x generalizing last with
  | nil =>
    cases h
    exact ⟨last, rfl⟩
  | cons d x ih =>
    have hd := hx d List.mem_cons_self
    cases h with
    | cons hp h =>
      cases hp with
      | quote => rcases hr.delimiter with hq | hq <;> rw [hq] at hd <;> cases hd
      | fill _ _ => cases hd
      | plain _ => exact ih (fun e he => hx e (List.mem_cons_of_mem d he)) h

/-- Between `before` and `rest` the token is read, it is written behind `out` as it is spelled, and
what remains is copied. -/
structure Faithful (r : Rules) (before out : List Char) (t : Token) (rest : List Char)
    (q : Place) : Prop where
  reads : Reads r before t rest
  written : t.written r out = t.spelling
  whole : t.spelling.getLast?.any nameContinue.hasChar = true →
    ∀ d ∈ rest.head?, nameContinue.hasChar d = false
  rest : Copies r (.between t.spelling.getLast?) rest q

section Faithful

variable {before out inner rest : List Char}

theorem Faithful.identifier (hr : Quoting r) (hno : r.quotes.delimiter ∉ inner)
    (h : Copies r (.between (some r.quotes.delimiter)) rest q) :
    Faithful r before out (.identifier r.quotes.delimiter inner) rest q := by
  have hlast : (Token.identifier r.quotes.delimiter inner).spelling.getLast? =
      some r.quotes.delimiter := by
    rw [Token.spelling, ← List.cons_append, List.getLast?_concat]
  refine ⟨.identifier ?_ hno, rfl, ?_, ?_⟩
  · rw [Quotes.beginsIdentifier, beq_self_eq_true, Bool.true_or]
  · rw [hlast]
    rcases hr.delimiter with hd | hd <;> rw [hd] <;> exact fun h => by cases h
  · rwa [hlast]

theorem Faithful.placeholder (hr : Quoting r) (hplaceholder : r.placeholder = "'?'")
    (h : Copies r (.between (some '\x27')) rest q) :
    Faithful r before out (.string '\x27' ['?']) rest q where
  reads := .string hr.beginsString_quote (.plain (by decide) (by decide) .nil) (h.head_ne_quote hr)
  written := by
    rw [Token.written, hplaceholder]
    rfl
  whole := fun hl => absurd hl (by decide)
  rest := h

theorem Faithful.space (hs : r.strip = true) (hout : out.getLast? ≠ some ' ')
    (h : Copies r (.between (some ' ')) rest q) : Faithful r before out (.blank ' ') rest q where
  reads := .blank hs (by decide)
  written := by
    rw [Token.written, if_neg hout]
    rfl
  whole := fun hl => absurd hl (by decide)
  rest := h

theorem Faithful.name (hr : Quoting r) (before out : List Char) (hc : MayFollow r last c)
    (hstart : nameStart.hasChar c = true) (h : Copies r (.between (some c)) text q) :
    ∃ more rest, text = more ++ rest ∧ Faithful r before out (.name c more) rest q := by
  obtain ⟨more, rest, rfl, hmore, hrest⟩ := exists_run nameContinue.hasChar text
  obtain ⟨m, hcopy, hcopy'⟩ := h.split
  obtain ⟨l, rfl⟩ := hcopy.of_name hr hmore
  obtain rfl : l = (c :: more).getLast? :=
    (Copies.cons (.plain hc) hcopy).last_eq (List.cons_ne_nil c more)
  exact ⟨more, rest, rfl, .name hc.identifier hstart hmore hrest, rfl, fun _ => hrest, hcopy'⟩

/-- A character that is neither in a name nor white space of a collapsed run is only itself. -/
theorem Faithful.other (hr : Quoting r) (hc : MayFollow r last c)
    (hblank : (r.strip && whitespace.hasChar c) = false) (hname : nameContinue.hasChar c = false)
    (h : Copies r (.between (some c)) text q) : Faithful r before out (.other c) text q := by
  have hparts := hname
  rw [nameContinue_eq, Bool.or_eq_false_iff] at hparts
  refine ⟨.other ⟨hblank, hc.identifier, hc.string, hparts.2, hparts.1, ?_, ?_, ?_⟩, ?_, ?_, h⟩
  · rintro rfl
    refine minusAndBlank_of_head ?_
    rintro d hd rfl
    obtain ⟨text, rfl⟩ := List.head?_eq_some_iff.1 hd
    exact (h.mayFollow hr hc.identifier hc.string).minus rfl rfl
  · rintro rfl
    rw [h.not_digitFollows hr (by decide), Bool.and_false]
  · rintro rfl hstar
    obtain ⟨text, rfl⟩ := List.head?_eq_some_iff.1 hstar
    have hfollow := h.mayFollow hr (hr.not_beginsIdentifier (by decide) (by decide))
      (not_beginsString (by decide) (by decide))
    exact hfollow.star rfl rfl
  · rw [Token.written, hc.line]
    rfl
  · intro hl
    rw [Token.spelling, List.getLast?_singleton, Option.any_some, hname] at hl
    cases hl

end Faithful

theorem Copies.opened {last' : Option Char} (h : Copies r .opened text (.between last')) :
    ∃ rest, text = '?' :: '\x27' :: rest ∧
      Copies r (.between (some '\x27')) rest (.between last') := by
  cases h with
  | cons hp h =>
    cases hp
    cases h with
    | cons hp h =>
      cases hp
      exact ⟨_, rfl, h⟩

/-- Where a text that is copied begins, a token is read that is written as it is spelled. -/
theorem Copies.exists_token (hr : Quoting r) {last' : Option Char} (before : List Char)
    {out : List Char} (h : Copies r (.between last) (c :: text) (.between last'))
    (hname : last.any nameContinue.hasChar = true → nameContinue.hasChar c = false)
    (hspace : r.strip = true → out.getLast? = some ' ' → last = some ' ') :
    ∃ t rest, c :: text = t.spelling ++ rest ∧ Faithful r before out t rest (.between last') := by
  cases h with
  | cons hp h =>
    cases hp with
    | quote =>
      obtain ⟨inner, rest, rfl, hno, hrest⟩ := h.quoted
      exact ⟨_, rest, by simp [Token.spelling], .identifier hr hno hrest⟩
    | fill hplaceholder _ =>
      obtain ⟨rest, rfl, hrest⟩ := h.opened
      exact ⟨_, rest, rfl, .placeholder hr hplaceholder hrest⟩
    | plain hc =>
      by_cases hblank : (r.strip && whitespace.hasChar c) = true
      · rw [Bool.and_eq_true] at hblank
        obtain rfl := eq_space_of_whitespace hblank.2 hc.line
        exact ⟨_, text, rfl, .space hblank.1
          (fun hout => hc.space hblank.1 rfl (hspace hblank.1 hout)) h⟩
      by_cases hstart : nameStart.hasChar c = true
      · obtain ⟨more, rest, rfl, hfaithful⟩ := Faithful.name hr before out hc hstart h
        exact ⟨_, rest, rfl, hfaithful⟩
      rw [Bool.not_eq_true] at hblank hstart
      refine ⟨_, text, rfl, .other hr hc hblank ?_ h⟩
      -- a digit would go on a name, but the text begins behind the last one
      rw [nameContinue_eq, hstart, Bool.false_or, Bool.eq_false_iff]
      intro hdigit
      have hnot := hname (hc.digit hdigit)
      rw [nameContinue_eq, hdigit, Bool.or_true] at hnot
      cases hnot

theorem Copies.reads_from (hr : Quoting r) {last last' : Option Char} (before : List Char)
    {text out : List Char} (h : Copies r (.between last) text (.between last'))
    (hname : last.any nameContinue.hasChar = true →
      ∀ c ∈ text.head?, nameContinue.hasChar c = false)
    (hspace : r.strip = true → out.getLast? = some ' ' → last = some ' ') :
    ∃ ts, spelling ts = text ∧ ReadsAll r before ts [] ∧ writtenFrom r out ts = out ++ text := by
  match text with
  | [] => exact ⟨[], rfl, .nil, (List.append_nil out).symm⟩
  | c :: text =>
    obtain ⟨t, rest, htext, ht⟩ := h.exists_token hr before (fun hl => hname hl c rfl) hspace
    have hlt : rest.length < (c :: text).length := by
      have := List.length_pos_iff.2 t.spelling_ne_nil
      rw [htext, List.length_append]
      omega
    have hspace' : r.strip = true → (out ++ t.spelling).getLast? = some ' ' →
        t.spelling.getLast? = some ' ' := by
      intro _ hlast
      rw [List.getLast?_append, List.getLast?_eq_some_getLast t.spelling_ne_nil,
        Option.some_or] at hlast
      rwa [List.getLast?_eq_some_getLast t.spelling_ne_nil]
    obtain ⟨ts, rfl, hts, hout⟩ :=
      Copies.reads_from hr (before ++ t.spelling) ht.rest ht.whole hspace'
    refine ⟨t :: ts, htext.symm, .cons (by rw [List.append_nil]; exact ht.reads) hts, ?_⟩
    rw [htext, ← List.append_assoc, ← hout, writtenFrom, List.foldl_cons, ht.written, writtenFrom]
termination_by text.length
decreasing_by
  exact hlt

/-- A text that is copied is read to its end and written as it is. -/
theorem Copies.reads (hr : Quoting r) {last' : Option Char}
    (h : Copies r (.between none) text (.between last')) :
    ∃ ts, spelling ts = text ∧ ReadsAll r [] ts [] ∧ written r ts = text :=
  h.reads_from hr [] (fun hl => by cases hl) (fun _ hout => by cases hout)

/-! ## Trimming -/

theorem not_delimiter_of_isBlank (hr : Quoting r) (hc : isBlank c = true) :
    c ≠ r.quotes.delimiter := by
  rintro rfl
  rcases hr.delimiter with hd | hd <;> rw [hd] at hc <;> cases hc

/-- White space leads nowhere but outside of quotes, or stays inside a quoted identifier. -/
theorem Copies.of_blank (hr : Quoting r) (hx : ∀ d ∈ x, isBlank d = true) (h : Copies r p x q) :
    (∃ l l', p = .between l ∧ q = .between l') ∨ p = q := by
  induction h with
  | nil => exact .inr rfl
  | @cons p p' q c text hp _ ih =>
    have hc := hx c List.mem_cons_self
    have hsame := ih fun d hd => hx d (List.mem_cons_of_mem c hd)
    cases hp with
    | quote => exact absurd rfl (not_delimiter_of_isBlank hr hc)
    | inner _ =>
      rcases hsame with ⟨l, l', hl, -⟩ | rfl
      · cases hl
      · exact .inr rfl
    | unquote => exact absurd rfl (not_delimiter_of_isBlank hr hc)
    | fill _ _ | mark | filled => cases hc
    | plain _ =>
      rcases hsame with ⟨l, l', -, rfl⟩ | rfl
      · exact .inl ⟨_, l', rfl, rfl⟩
      · exact .inl ⟨_, _, rfl, rfl⟩

/-- White space at the end can be taken away. -/
theorem Copies.trimEnd (hr : Quoting r) {l' : Option Char}
    (h : Copies r (.between last) text (.between l')) :
    ∃ l, Copies r (.between last) (Text.trimEnd text) (.between l) := by
  obtain ⟨blanks, htext, hblanks⟩ := exists_trimEnd text
  rw [htext] at h
  obtain ⟨m, hx, hy⟩ := h.split
  rcases hy.of_blank hr hblanks with ⟨l, -, rfl, -⟩ | rfl
  · exact ⟨l, hx⟩
  · exact ⟨l', hx⟩

/-- What can follow white space can stand at the beginning. -/
theorem Copies.of_none (h : Copies r (.between last) x q) (hx : x ≠ [])
    (hlast : ∀ c ∈ last, isBlank c = true) : Copies r (.between none) x q := by
  cases h with
  | nil => exact absurd rfl hx
  | cons hp h =>
    cases hp with
    | quote => exact .cons .quote h
    | fill hplaceholder _ => exact .cons (.fill hplaceholder (by simp)) h
    | plain hc =>
      refine .cons (.plain { hc with digit := ?_, minus := ?_, star := ?_, space := ?_ }) h
      · intro hd
        obtain ⟨d, rfl, hn⟩ := (Option.any_eq_true _ _).1 (hc.digit hd)
        rw [not_nameContinue_of_isBlank (hlast d rfl)] at hn
        cases hn
      · simp
      · simp
      · simp

/-- White space at the beginning can be taken away. -/
theorem Copies.trimStart (hr : Quoting r) {l' : Option Char}
    (h : Copies r (.between none) text (.between l')) :
    ∃ l, Copies r (.between none) (Text.trimStart text) (.between l) := by
  have hblanks : ∀ d ∈ text.takeWhile isBlank, isBlank d = true :=
    List.all_eq_true.1 List.all_takeWhile
  have htext : text = text.takeWhile isBlank ++ Text.trimStart text :=
    List.takeWhile_append_dropWhile.symm
  by_cases hrest : Text.trimStart text = []
  · rw [hrest]
    exact ⟨none, .nil⟩
  rw [htext] at h
  obtain ⟨m, hx, hy⟩ := h.split
  refine ⟨l', ?_⟩
  obtain ⟨l, rfl⟩ : ∃ l, m = .between l := by
    rcases hx.of_blank hr hblanks with ⟨-, l, -, rfl⟩ | rfl
    · exact ⟨l, rfl⟩
    · exact ⟨none, rfl⟩
  by_cases hnil : text.takeWhile isBlank = []
  · rw [hnil] at hx
    cases hx
    exact hy
  · refine hy.of_none hrest fun c hc => hblanks c ?_
    rw [hx.last_eq hnil] at hc
    exact List.mem_of_getLast? hc

end Copies

end Scan
end QueryDigest
