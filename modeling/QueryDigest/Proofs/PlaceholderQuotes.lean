import QueryDigest.Proofs.Answers
import QueryDigest.Proofs.Residue

/-!
# QueryDigest.Proofs.PlaceholderQuotes

Placeholders with and without quotes. What is read does not depend on the placeholder
(`Reading.withPlaceholder`), so two scans that differ in it write the same text but for the
placeholders themselves. Where no quoted identifier is copied, a single quote is written for nothing
else: the text with quotes is `Decorated`, two quotes for each string, and the other text is what is
left of it without them. That stays so with every token (`Decorated.writtenFrom`), for neither a quote
nor a question mark is a space, and when both texts are trimmed (`Decorated.trim`).

So the two digests differ in the quotes of their placeholders and in nothing else
(`digest_unquoted`).
-/

namespace QueryDigest

open Text EnumList

/-- The text without its single quotes. -/
def unquoted (text : String) : String :=
  String.ofList (text.toList.filter (· != '\x27'))

/-- The settings with quotes around the placeholders of strings, or without them. -/
def Options.quoting (o : Options) (quotes : Bool) : Options :=
  { o with addRemovedStringQuotes := quotes }

namespace Scan

/-! ## What is read -/

section Read

variable {r r' : Rules} {before rest text tail : List Char} {t : Token} {ts : List Token}
  {scope : Option Scope}

/-- A token is read by the quotes of the rules and by their way to write whitespace. -/
theorem Reads.congr_rules (hq : r'.quotes = r.quotes) (hs : r'.strip = r.strip)
    (h : Reads r before t rest) : Reads r' before t rest := by
  obtain ⟨quotes, strip, placeholder⟩ := r
  obtain ⟨_, _, placeholder'⟩ := r'
  subst hq hs
  cases h with
  | blank hstrip hw => exact .blank hstrip hw
  | identifier hid hi => exact .identifier hid hi
  | string hstr hbody hr => exact .string hstr hbody hr
  | lineComment hid hm ht hr => exact .lineComment hid hm ht hr
  | blockComment hid hno => exact .blockComment hid hno
  | number hd hm hr => exact .number hd hm hr
  | signedNumber hid hsign hb hd hm hr => exact .signedNumber hid hsign hb hd hm hr
  | name hid hn hm hr => exact .name hid hn hm hr
  | other h => exact .other { h with }

theorem ReadsAll.congr_rules (hq : r'.quotes = r.quotes) (hs : r'.strip = r.strip)
    (h : ReadsAll r before ts rest) : ReadsAll r' before ts rest := by
  induction h with
  | nil => exact .nil
  | cons hread _ ih => exact .cons (hread.congr_rules hq hs) ih

theorem Ending.congr_rules (hq : r'.quotes = r.quotes) (h : Ending r scope tail) :
    Ending r' scope tail := by
  cases h with
  | done => exact .done
  | unclosed h =>
    cases h with
    | string hstr hbody => exact .unclosed (.string (hq ▸ hstr) hbody)
    | identifier hid hi => exact .unclosed (.identifier (hq ▸ hid) hi)
    | blockComment hid hno => exact .unclosed (.blockComment (hq ▸ hid) hno)

theorem Reading.withPlaceholder (rd : Reading r text ts scope tail) (placeholder : String) :
    Reading { r with placeholder := placeholder } text ts scope tail where
  text_eq := rd.text_eq
  reads := ReadsAll.congr_rules (r := r) rfl rfl rd.reads
  ending := Ending.congr_rules (r := r) rfl rd.ending

end Read

/-! ## What is written -/

/-- Is the token a string? -/
def Token.isString : Token → Bool
  | string _ _ => true
  | _ => false

/-- How many placeholders are written for strings. An open string has one if anything is behind its
quote. -/
def stringCount (ts : List Token) (scope : Option Scope) (tail : List Char) : Nat :=
  ts.countP Token.isString + if scope = some .string ∧ 1 < tail.length then 1 else 0

/-- `x` has quotes around `n` question marks and no others, and is `y` without them. -/
structure Decorated (n : Nat) (x y : List Char) : Prop where
  placed : QuotesPlaced x
  count : x.count '\x27' = 2 * n
  without : x.filter (· != '\x27') = y

section Decorated

variable {n m : Nat} {x y u v out out' before rest : List Char} {r : Rules} {t : Token}
  {ts : List Token}

theorem decorated_self (h : '\x27' ∉ x) : Decorated 0 x x where
  placed := .of_not_mem h
  count := List.count_eq_zero.2 h
  without := by
    rw [List.filter_eq_self]
    intro c hc
    rw [bne_iff_ne]
    rintro rfl
    exact h hc

theorem decorated_placeholder : Decorated 1 "'?'".toList "?".toList where
  placed := .placeholder .nil
  count := by decide
  without := by decide

theorem Decorated.append (h : Decorated n x y) (h' : Decorated m u v) :
    Decorated (n + m) (x ++ u) (y ++ v) where
  placed := h.placed.append h'.placed
  count := by
    rw [List.count_append, h.count, h'.count]
    omega
  without := by rw [List.filter_append, h.without, h'.without]

/-- The character that shows at an end without the quotes. -/
def bared (c : Char) : Char :=
  if c = '\x27' then '?' else c

theorem isBlank_bared (c : Char) : isBlank (bared c) = isBlank c := by
  rw [bared]
  split
  · rename_i hc
    subst hc
    decide
  · rfl

theorem head?_filter_quotes (h : QuotesPlaced x) :
    (x.filter (· != '\x27')).head? = x.head?.map bared := by
  cases h with
  | nil => rfl
  | placeholder _ => rfl
  | @plain c cs hc _ =>
    rw [List.filter_cons_of_pos (by simpa using hc), List.head?_cons, List.head?_cons,
      Option.map_some, bared, if_neg hc]

theorem getLast?_filter_quotes (h : QuotesPlaced x) :
    (x.filter (· != '\x27')).getLast? = x.getLast?.map bared := by
  induction h with
  | nil => rfl
  | @placeholder cs _ ih =>
    have hfilter : ('\x27' :: '?' :: '\x27' :: cs).filter (· != '\x27') =
        '?' :: cs.filter (· != '\x27') := rfl
    rw [hfilter, List.getLast?_cons, ih, List.getLast?_cons_cons, List.getLast?_cons_cons,
      List.getLast?_cons]
    cases cs.getLast? <;> rfl
  | @plain c cs hc _ ih =>
    rw [List.filter_cons_of_pos (by simpa using hc), List.getLast?_cons, List.getLast?_cons, ih]
    cases cs.getLast? with
    | none =>
      have hbared : bared c = c := if_neg hc
      exact congrArg some hbared.symm
    | some d => rfl

/-- Both texts end in a space or neither does. -/
theorem Decorated.last_space (h : Decorated n x y) :
    x.getLast? = some ' ' ↔ y.getLast? = some ' ' := by
  rw [← h.without, getLast?_filter_quotes h.placed]
  cases x.getLast? with
  | none => rfl
  | some c =>
    rw [Option.map_some, Option.some.injEq, Option.some.injEq, bared]
    split
    · rename_i hc
      subst hc
      decide
    · rfl

theorem filter_blanks {blanks : List Char} (h : ∀ d ∈ blanks, isBlank d = true) :
    blanks.filter (· != '\x27') = blanks := by
  rw [List.filter_eq_self]
  intro d hd
  exact bne_iff_ne.2 (ne_of_isBlank (h d hd) (by decide))

theorem count_blanks {blanks : List Char} (h : ∀ d ∈ blanks, isBlank d = true) :
    blanks.count '\x27' = 0 :=
  count_eq_zero_of_blank (by decide) h

theorem Decorated.trimEnd (h : Decorated n x y) : Decorated n (trimEnd x) (trimEnd y) := by
  obtain ⟨blanks, hx, hb⟩ := exists_trimEnd x
  have hplaced : QuotesPlaced (Text.trimEnd x) := (hx ▸ h.placed).of_append_blanks hb
  have hcount := h.count
  have hwithout := h.without
  rw [hx, List.count_append, count_blanks hb] at hcount
  rw [hx, List.filter_append, filter_blanks hb] at hwithout
  refine ⟨hplaced, hcount, ?_⟩
  have hlast : ∀ c ∈ ((Text.trimEnd x).filter (· != '\x27')).getLast?, isBlank c = false := by
    intro c hc
    rw [getLast?_filter_quotes hplaced, Option.mem_def, Option.map_eq_some_iff] at hc
    obtain ⟨d, hd, rfl⟩ := hc
    rw [isBlank_bared]
    exact last_trimEnd x d hd
  rw [← hwithout, trimEnd_append_blanks hb, trimEnd_of_last hlast]

theorem Decorated.trimStart (h : Decorated n x y) : Decorated n (trimStart x) (trimStart y) := by
  obtain ⟨blanks, hx, hb⟩ := exists_trimStart x
  have hplaced : QuotesPlaced (Text.trimStart x) := (hx ▸ h.placed).of_blanks_append hb
  have hcount := h.count
  have hwithout := h.without
  rw [hx, List.count_append, count_blanks hb, Nat.zero_add] at hcount
  rw [hx, List.filter_append, filter_blanks hb] at hwithout
  refine ⟨hplaced, hcount, ?_⟩
  have hhead : ∀ c ∈ ((Text.trimStart x).filter (· != '\x27')).head?, isBlank c = false := by
    intro c hc
    rw [head?_filter_quotes hplaced, Option.mem_def, Option.map_eq_some_iff] at hc
    obtain ⟨d, hd, rfl⟩ := hc
    rw [isBlank_bared]
    exact head_trimStart x d hd
  have hblanks : ∀ z, Text.trimStart (blanks ++ z) = Text.trimStart z := fun z =>
    List.dropWhile_append_of_pos hb
  rw [← hwithout, hblanks, trimStart_of_head hhead]

theorem Decorated.trim (o : Options) (h : Decorated n x y) :
    Decorated n ((o.quoting true).trim (String.ofList x)).toList
      ((o.quoting false).trim (String.ofList y)).toList := by
  simp only [Options.trim, Options.quoting, String.toList_ofList]
  split
  · exact h.trimEnd.trimStart
  · exact h.trimEnd

/-- The rules with quotes around the placeholder. -/
def Rules.quoted (r : Rules) : Rules :=
  { r with placeholder := "'?'" }

/-- The rules without quotes around the placeholder. -/
def Rules.bare (r : Rules) : Rules :=
  { r with placeholder := "?" }

theorem Alone.ne_quote {c : Char} (h : Alone r before c rest) : c ≠ '\x27' := by
  rintro rfl
  have hstring := h.string
  rw [Quotes.beginsString, h.identifier] at hstring
  cases hstring

theorem Reads.decorated (h : Reads r before t rest) (hno : ∀ q inner, t ≠ .identifier q inner)
    (hout : out.getLast? = some ' ' ↔ out'.getLast? = some ' ') :
    Decorated (if t.isString then 1 else 0) (t.written r.quoted out) (t.written r.bare out') := by
  cases h with
  | blank _ _ =>
    by_cases hspace : out'.getLast? = some ' '
    · rw [Token.written, Token.written, if_pos hspace, if_pos (hout.2 hspace)]
      exact decorated_self List.not_mem_nil
    · rw [Token.written, Token.written, if_neg hspace, if_neg fun h => hspace (hout.1 h)]
      exact decorated_self (by decide)
  | identifier _ _ => exact absurd rfl (hno _ _)
  | string _ _ _ => exact decorated_placeholder
  | lineComment _ _ _ _ | blockComment _ _ => exact decorated_self List.not_mem_nil
  | number _ _ _ | signedNumber _ _ _ _ _ _ => exact decorated_self (x := ['?']) (by decide)
  | @name first more _ _ hfirst hmore _ =>
    refine decorated_self (x := first :: more) ?_
    rw [List.mem_cons, not_or]
    exact ⟨(ne_of_hasChar hfirst (by decide)).symm, fun hc => absurd (hmore _ hc) (by decide)⟩
  | @other c _ h =>
    refine decorated_self ?_
    rw [Token.written, List.mem_singleton]
    split
    · decide
    · exact h.ne_quote.symm

/-- With every token the one text stays the other with quotes. -/
theorem Decorated.writtenFrom (hreads : ReadsAll r before ts rest)
    (hno : ∀ q inner, .identifier q inner ∉ ts) (h : Decorated n out out') :
    Decorated (n + ts.countP Token.isString) (writtenFrom r.quoted out ts)
      (writtenFrom r.bare out' ts) := by
  induction hreads generalizing n out out' with
  | nil => exact h
  | @cons before rest t ts hread _ ih =>
    have ht : ∀ q inner, t ≠ .identifier q inner := by
      rintro q inner rfl
      exact hno q inner List.mem_cons_self
    have hnext := h.append (hread.decorated ht h.last_space)
    have hall := ih (fun q inner hmem => hno q inner (List.mem_cons_of_mem t hmem)) hnext
    rw [List.countP_cons, Nat.add_comm (ts.countP _), ← Nat.add_assoc]
    exact hall

theorem scope_decorated {scope : Scope} (tail : List Char) (hno : scope ≠ .identifier) :
    Decorated (if some scope = some .string ∧ 1 < tail.length then 1 else 0)
      (scope.written r.quoted tail) (scope.written r.bare tail) := by
  cases scope with
  | string =>
    rw [Scope.written, Scope.written]
    by_cases hlen : tail.length ≤ 1
    · rw [if_pos hlen, if_pos hlen, if_neg (fun h => absurd h.2 (Nat.not_lt.2 hlen))]
      exact decorated_self List.not_mem_nil
    · rw [if_neg hlen, if_neg hlen, if_pos ⟨rfl, Nat.lt_of_not_le hlen⟩]
      exact decorated_placeholder
  | identifier => exact absurd rfl hno
  | blockComment => exact decorated_self List.not_mem_nil

end Decorated

/-! ## Digests -/

section Digests

variable {o : Options} {r : Rules} {n : Nat}

theorem ofOptions_quoting (hr : Rules.ofOptions o = .ok r) :
    Rules.ofOptions (o.quoting true) = .ok r.quoted ∧
      Rules.ofOptions (o.quoting false) = .ok r.bare := by
  obtain ⟨h, rfl⟩ := Rules.eq_of_ofOptions hr
  constructor <;> rw [Rules.ofOptions, Options.quoting, Options.quotes, dif_pos h] <;> rfl

theorem unquoted_eq {text plain : String} (h : Decorated n text.toList plain.toList) :
    unquoted text = plain := by
  rw [unquoted, h.without, String.ofList_toList]

theorem quote_not_mem_message (scope : Scope) : '\x27' ∉ scope.message.toList := by
  cases scope <;> simp [Scope.message]

/-- The text that names an error has quotes where the text written has. -/
theorem Decorated.returnedText {text plain : String} (scope : Scope) (offset : Nat) (query : String)
    (h : Decorated n text.toList plain.toList) :
    Decorated n (SyntaxError.returnedText ⟨scope, offset, query, text⟩).toList
      (SyntaxError.returnedText ⟨scope, offset, query, plain⟩).toList := by
  have hmessage := decorated_self (quote_not_mem_message scope)
  have hcolon : Decorated 0 ": ".toList ": ".toList := decorated_self (by decide)
  have hall := (hmessage.append hcolon).append h
  rw [Nat.add_zero, Nat.zero_add] at hall
  simpa only [SyntaxError.returnedText, String.toList_append] using hall

/-- Quotes around the placeholders of strings, two for each string of the query, are all that the
setting for them adds to a digest, and to the text written of a query that is refused. -/
theorem digest_unquoted (hr : Rules.ofOptions o = .ok r)
    (hreduce : o.reduceEnumsToOneElement = false) {query : String}
    (hid : ¬ OpensIdentifier r query) :
    ∃ ts scope tail, Reading r query.toList ts scope tail ∧
      ((∃ text, digest (o.quoting true) query = .ok text ∧
          digest (o.quoting false) query = .ok (unquoted text) ∧
          QuotesPlaced text.toList ∧ text.toList.count '\x27' = 2 * stringCount ts scope tail) ∨
        ∃ e, digest (o.quoting true) query = .error (.syntaxError e) ∧
          digest (o.quoting false) query =
            .error (.syntaxError { e with written := unquoted e.written }) ∧
          QuotesPlaced e.written.toList ∧
          e.written.toList.count '\x27' = 2 * stringCount ts scope tail) := by
  obtain ⟨ts, scope, tail, rd⟩ := Reading.exists r query.toList
  obtain ⟨hts, hscope⟩ := not_identifier_of_not_opens hid rd
  obtain ⟨hquoted, hbare⟩ := ofOptions_quoting hr
  have hon := digest_eq hquoted (rd.withPlaceholder "'?'")
  have hoff := digest_eq hbare (rd.withPlaceholder "?")
  have hwritten : Decorated (ts.countP Token.isString) (written r.quoted ts) (written r.bare ts) := by
    have := (decorated_self List.not_mem_nil).writtenFrom rd.reads hts
    rwa [Nat.zero_add] at this
  refine ⟨ts, scope, tail, rd, ?_⟩
  cases scope with
  | none =>
    have hdeliver : ∀ (quotes : Bool) (text : String),
        ((o.quoting quotes).deliver text).answer = .ok text := fun _ _ => by
      rw [Options.deliver, if_neg (by simpa [Options.quoting] using hreduce)]
    have h := hwritten.trim o
    rw [hdeliver] at hon hoff
    refine .inl ⟨_, hon, ?_, h.placed, h.count⟩
    rw [unquoted_eq h]
    exact hoff
  | some sc =>
    have h := (hwritten.append (scope_decorated (r := r) tail fun hsc =>
      hscope (congrArg some hsc))).trim o
    change digest _ _ = ((o.quoting true).refuse ⟨sc, _, query, (o.quoting true).trim _⟩).answer at hon
    change digest _ _ =
      ((o.quoting false).refuse ⟨sc, _, query, (o.quoting false).trim _⟩).answer at hoff
    generalize (o.quoting true).trim _ = text at h hon
    generalize (o.quoting false).trim _ = plain at h hoff
    cases hthrow : o.throwOnSyntaxError with
    | true =>
      rw [Options.refuse, Options.quoting, if_pos hthrow] at hon hoff
      refine .inr ⟨_, hon, ?_, h.placed, h.count⟩
      rw [unquoted_eq h]
      exact hoff
    | false =>
      have hmessage := h.returnedText sc (width (spelling ts)) query
      rw [Options.refuse, Options.quoting, if_neg (by simpa using hthrow)] at hon hoff
      refine .inl ⟨_, hon, ?_, hmessage.placed, hmessage.count⟩
      rw [unquoted_eq hmessage]
      exact hoff

/-- Two placeholders side by side, and one for the string left open. -/
theorem digest_unquoted_adjacent : ∃ r, Rules.ofOptions .default = .ok r ∧
    Options.default.reduceEnumsToOneElement = false ∧ ¬ OpensIdentifier r "x='a'\x22b\x22 'c" ∧
    digest (Options.default.quoting true) "x='a'\x22b\x22 'c" =
      .error (.syntaxError ⟨.string, 9, "x='a'\x22b\x22 'c", "x='?''?' '?'"⟩) ∧
    digest (Options.default.quoting false) "x='a'\x22b\x22 'c" =
      .error (.syntaxError ⟨.string, 9, "x='a'\x22b\x22 'c", "x=?? ?"⟩) := by
  generalize hr : (⟨⟨'\x60', by decide, .mysql⟩, true, "?"⟩ : Rules) = r
  have hok : Rules.ofOptions .default = .ok r := by
    rw [← hr]
    rfl
  have rd : Reading r "x='a'\x22b\x22 'c".toList
      [.name 'x' [], .other '=', .string '\x27' ['a'], .string '\x22' ['b'], .blank ' ']
      (some .string) ['\x27', 'c'] := by
    subst hr
    refine ⟨by decide, .cons (.name (by decide) (by decide) (by simp) ?_) ?_, ?_⟩
    · rintro c ⟨⟩
      decide
    · refine .cons (.other ?_) (.cons (.string (by decide) ?_ (by decide)) ?_)
      · constructor <;> decide
      · exact .plain (by decide) (by decide) .nil
      · refine .cons (.string (by decide) ?_ (by decide)) (.cons (.blank rfl (by decide)) .nil)
        exact .plain (by decide) (by decide) .nil
    · exact .unclosed (.string (by decide) (.plain (by decide) (by decide) .nil))
  have hid : ¬ OpensIdentifier r "x='a'\x22b\x22 'c" := by
    rw [opensIdentifier_iff]
    rintro ⟨inner, h⟩
    rcases (passesIdentifier_iff rd).1 h with ⟨q, hmem⟩ | ⟨hscope, -⟩
    · simp at hmem
    · cases hscope
  have hon : digest (Options.default.quoting true) "x='a'\x22b\x22 'c" =
      .error (.syntaxError ⟨.string, 9, "x='a'\x22b\x22 'c", "x='?''?' '?'"⟩) := by
    rw [digest_eq (ofOptions_quoting hok).1 (rd.withPlaceholder "'?'")]
    subst hr
    rfl
  refine ⟨r, hok, rfl, hid, hon, ?_⟩
  obtain ⟨_, _, _, -, ⟨text, h, -⟩ | ⟨e, h, hoff, -⟩⟩ := digest_unquoted hok rfl hid
  · cases hon.symm.trans h
  · obtain rfl := DigestError.syntaxError.inj (Except.error.inj (hon.symm.trans h))
    rw [hoff]
    rfl

end Digests

end Scan
end QueryDigest
