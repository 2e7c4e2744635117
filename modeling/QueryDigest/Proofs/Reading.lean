import QueryDigest.Proofs.Opening

/-!
# QueryDigest.Proofs.Reading

Every text has exactly one reading: tokens, and then the end of the text or a scope that is never
closed. `Reads.unique` says that no two tokens are read at one place, `Unclosed.not_reads` that
none is read where an open scope begins, and `exists_reads` that one of the two happens wherever
the text goes on. `Reading.exists` and `Reading.unique` lift this to the whole text.

What begins at a place is settled by `Lead.ofText`, so tokens of different kinds are told apart by
it (`Reads.kind`). Tokens of one kind end at the same place because each ends where it must.
-/

namespace QueryDigest

open Text

namespace Scan

/-! ## What begins where a token is read -/

/-- How the token opens, unless it is a single character. -/
def Token.opening? : Token → Option Opening
  | identifier quote _ => some (.identifier quote)
  | string quote _ => some (.string quote)
  | lineComment mark _ => some (.lineComment mark)
  | blockComment _ => some .blockComment
  | number sign _ _ => some (.number sign)
  | name first _ => some (.name first)
  | blank _ | other _ => none

/-- What the token begins with; `none` for a character that is only itself. -/
def Token.lead (before : List Char) : Token → Option Lead
  | blank _ => some .blank
  | t => t.opening?.map (Opening.lead before)

theorem Reads.opens {r : Rules} {before rest : List Char} {t : Token} {op : Opening}
    (h : Reads r before t rest) (hop : t.opening? = some op) :
    ∃ body, t.spelling ++ rest = op.passed ++ body ∧ Opens r before op body := by
  cases h with
  | blank _ _ => cases hop
  | identifier hq _ =>
    cases hop
    exact ⟨_, rfl, .identifier hq⟩
  | string hq _ _ =>
    cases hop
    exact ⟨_, rfl, .string hq⟩
  | lineComment hid hm _ _ =>
    cases hop
    exact ⟨_, rfl, .lineComment hid hm⟩
  | blockComment hid _ =>
    cases hop
    exact ⟨_, rfl, .blockComment hid⟩
  | number hd _ _ =>
    cases hop
    exact ⟨_, rfl, .number hd⟩
  | signedNumber hid hs hb hd _ _ =>
    cases hop
    exact ⟨_, List.append_assoc _ _ _, .signedNumber hid hs hb hd⟩
  | name hid hn _ _ =>
    cases hop
    exact ⟨_, rfl, .name hid hn⟩
  | other _ => cases hop

/-- The lead, if it begins a token that is more than itself. -/
def Lead.kind : Lead → Option Lead
  | .minus | .lineBlank | .character => none
  | lead => some lead

/-- The scope that begins with the lead. -/
def Lead.scope : Lead → Option Scope
  | .identifierQuote _ => some .identifier
  | .stringQuote _ => some .string
  | .blockComment => some .blockComment
  | _ => none

theorem Opening.scope_lead (before : List Char) (op : Opening) :
    (op.lead before).scope = op.mode.openScope := by
  cases op with
  | number sign => cases sign <;> rfl
  | _ => rfl

theorem Opening.kind_lead (before : List Char) (op : Opening) :
    (op.lead before).kind = some (op.lead before) := by
  cases op with
  | number sign => cases sign <;> rfl
  | _ => rfl

theorem Alone.lead {r : Rules} {before rest : List Char} {c : Char} (h : Alone r before c rest) :
    Lead.ofText r before (c :: rest) =
      if c == '-' then .minus
      else if ByteClass.lineWhitespace.hasChar c then .lineBlank
      else .character := by
  have hline : (c == '-' && minusAndBlank rest) = false := by
    by_cases hc : c = '-'
    · rw [h.lineComment hc, Bool.and_false]
    · rw [beq_false_of_ne hc, Bool.false_and]
  have hblock : (c == '/' && rest.head? == some '*') = false := by
    by_cases hc : c = '/'
    · rw [beq_false_of_ne (h.blockComment hc), Bool.and_false]
    · rw [beq_false_of_ne hc, Bool.false_and]
  simp only [Lead.ofText, h.blank, h.identifier, h.string, hline, hblock, h.digit, h.name,
    Bool.false_eq_true, if_false]
  by_cases hc : c = '-'
  · simp only [h.sign hc, Bool.false_eq_true, if_false]
  · simp only [beq_false_of_ne hc, Bool.false_eq_true, if_false]

theorem Alone.kind {r : Rules} {before rest : List Char} {c : Char}
    (h : Alone r before c rest) : (Lead.ofText r before (c :: rest)).kind = none := by
  rw [h.lead]
  cases c == '-' <;> cases ByteClass.lineWhitespace.hasChar c <;> rfl

theorem Reads.kind {r : Rules} {before rest : List Char} {t : Token}
    (h : Reads r before t rest) :
    (Lead.ofText r before (t.spelling ++ rest)).kind = t.lead before := by
  cases hop : t.opening? with
  | some op =>
    obtain ⟨body, hbody, hopens⟩ := h.opens hop
    rw [hbody, hopens.lead, op.kind_lead]
    cases t <;> cases hop <;> rfl
  | none =>
    cases h with
    | blank hs hw => simp [Token.spelling, Lead.ofText, hs, hw, Lead.kind, Token.lead]
    | other h => exact h.kind
    | _ => cases hop

/-! ## Where a token ends -/

theorem StringBody.unique {q : Char} (hq : q ≠ '\\') {body body' x x' : List Char}
    (h : StringBody q body) (h' : StringBody q body') (e : body ++ q :: x = body' ++ q :: x')
    (hx : x.head? ≠ some q) (hx' : x'.head? ≠ some q) : body = body' ∧ x = x' := by
  induction h generalizing body' with
  | nil =>
    cases h' with
    | nil => exact ⟨rfl, List.tail_eq_of_cons_eq e⟩
    | plain hc _ _ => exact absurd (List.head_eq_of_cons_eq e).symm hc
    | escaped _ => exact absurd (List.head_eq_of_cons_eq e) hq
    | doubled _ =>
      rw [List.tail_eq_of_cons_eq e] at hx
      exact absurd rfl hx
  | plain hc hb _ ih =>
    cases h' with
    | nil => exact absurd (List.head_eq_of_cons_eq e) hc
    | plain _ _ h' =>
      obtain ⟨rfl, rfl⟩ := ih h' (List.tail_eq_of_cons_eq e)
      exact ⟨by rw [List.head_eq_of_cons_eq e], rfl⟩
    | escaped _ => exact absurd (List.head_eq_of_cons_eq e) hb
    | doubled _ => exact absurd (List.head_eq_of_cons_eq e) hc
  | escaped _ ih =>
    cases h' with
    | nil => exact absurd (List.head_eq_of_cons_eq e).symm hq
    | plain _ hb _ => exact absurd (List.head_eq_of_cons_eq e).symm hb
    | escaped h' =>
      have e := List.tail_eq_of_cons_eq e
      obtain ⟨rfl, rfl⟩ := ih h' (List.tail_eq_of_cons_eq e)
      exact ⟨by rw [List.head_eq_of_cons_eq e], rfl⟩
    | doubled _ => exact absurd (List.head_eq_of_cons_eq e).symm hq
  | doubled _ ih =>
    cases h' with
    | nil =>
      rw [← List.tail_eq_of_cons_eq e] at hx'
      exact absurd rfl hx'
    | plain hc _ _ => exact absurd (List.head_eq_of_cons_eq e).symm hc
    | escaped _ => exact absurd (List.head_eq_of_cons_eq e) hq
    | doubled h' =>
      have e := List.tail_eq_of_cons_eq e
      obtain ⟨rfl, rfl⟩ := ih h' (List.tail_eq_of_cons_eq e)
      exact ⟨rfl, rfl⟩

theorem OpenBody.of_plain {q c : Char} {text : List Char} (h : OpenBody q (c :: text))
    (hc : c ≠ q) (hb : c ≠ '\\') : OpenBody q text := by
  cases h with
  | backslash => exact absurd rfl hb
  | plain _ _ h => exact h
  | escaped _ => exact absurd rfl hb
  | doubled _ => exact absurd rfl hc

theorem StringBody.not_open {q : Char} (hq : q ≠ '\\') {body x : List Char}
    (h : StringBody q body) (hx : x.head? ≠ some q) : ¬ OpenBody q (body ++ q :: x) := by
  induction h with
  | nil =>
    intro ho
    cases ho with
    | backslash => exact hq rfl
    | plain hc _ _ => exact hc rfl
    | escaped _ => exact hq rfl
    | doubled _ => exact hx rfl
  | plain hc hb _ ih => exact fun ho => ih (ho.of_plain hc hb)
  | @escaped c body _ ih =>
    intro ho
    have hcons : ('\\' :: c :: body) ++ q :: x = '\\' :: c :: (body ++ q :: x) := rfl
    rw [hcons] at ho
    cases ho with
    | plain _ hb _ => exact hb rfl
    | escaped ho => exact ih ho
    | doubled _ => exact hq rfl
  | @doubled body _ ih =>
    intro ho
    have hcons : (q :: q :: body) ++ q :: x = q :: q :: (body ++ q :: x) := rfl
    rw [hcons] at ho
    cases ho with
    | plain hc _ _ => exact hc rfl
    | escaped _ => exact hq rfl
    | doubled ho => exact ih ho

theorem commentBody_unique {body body' x x' : List Char} (h : ¬ ['*', '/'] <:+: body)
    (h' : ¬ ['*', '/'] <:+: body') (e : body ++ '*' :: '/' :: x = body' ++ '*' :: '/' :: x') :
    body = body' ∧ x = x' := by
  have key : ∀ {b b' y y' : List Char}, ¬ ['*', '/'] <:+: b' → ∀ a, b' = b ++ a →
      '*' :: '/' :: y = a ++ '*' :: '/' :: y' → b = b' ∧ y = y' := by
    intro b b' y y' hno a hb' hy
    match a with
    | [] =>
      injection hy with _ hy
      injection hy with _ hy
      exact ⟨by rw [hb', List.append_nil], hy⟩
    | [c] =>
      injection hy with _ hy
      injection hy with hy _
      exact absurd hy (by decide)
    | c :: d :: a =>
      injection hy with hc hy
      injection hy with hd hy
      exact absurd ⟨b, a, by rw [hb', ← hc, ← hd, List.append_assoc]; rfl⟩ hno
  rcases List.append_eq_append_iff.1 e with ⟨a, hb, hy⟩ | ⟨a, hb, hy⟩
  · exact key h' a hb hy
  · obtain ⟨hb, hy⟩ := key h a hb hy
    exact ⟨hb.symm, hy.symm⟩

theorem continuesDigits_of_digit {prev c : Char} (h : ByteClass.digit.hasChar c = true) :
    continuesDigits prev c = true := by
  have : ByteClass.numberContinue.hasChar c = true := by
    simp only [ByteClass.hasChar] at h ⊢
    simp [h]
  rw [continuesDigits, this, Bool.true_or]

theorem digits_unique {prev : Char} {more more' x x' : List Char}
    (h : continueDigits prev more = true) (h' : continueDigits prev more' = true)
    (hx : ∀ c ∈ x.head?, continuesDigits (more.getLastD prev) c = false)
    (hx' : ∀ c ∈ x'.head?, continuesDigits (more'.getLastD prev) c = false)
    (e : more ++ x = more' ++ x') : more = more' ∧ x = x' := by
  induction more generalizing prev more' with
  | nil =>
    cases more' with
    | nil => exact ⟨rfl, e⟩
    | cons c cs =>
      simp only [continueDigits, Bool.and_eq_true] at h'
      rw [List.nil_append] at e
      rw [e] at hx
      have := hx c rfl
      rw [List.getLastD_nil, h'.1] at this
      cases this
  | cons c cs ih =>
    simp only [continueDigits, Bool.and_eq_true] at h
    cases more' with
    | nil =>
      rw [List.nil_append] at e
      rw [← e] at hx'
      have := hx' c rfl
      rw [List.getLastD_nil, h.1] at this
      cases this
    | cons c' cs' =>
      simp only [continueDigits, Bool.and_eq_true] at h'
      injection e with hc e
      subst hc
      rw [List.getLastD_cons] at hx hx'
      obtain ⟨rfl, rfl⟩ := ih h.2 h'.2 hx hx' e
      exact ⟨rfl, rfl⟩

/-- No two tokens are read at one place. -/
theorem Reads.unique {r : Rules} {before rest rest' : List Char} {t t' : Token}
    (h : Reads r before t rest) (h' : Reads r before t' rest')
    (e : t.spelling ++ rest = t'.spelling ++ rest') : t = t' ∧ rest = rest' := by
  -- tokens of different kinds begin differently, so only equal kinds are left to compare
  have hk := h.kind
  rw [e, h'.kind] at hk
  cases h with
  | blank _ _ =>
    cases h' with
    | blank _ _ =>
      simp only [Token.spelling, List.cons_append, List.nil_append, List.cons.injEq] at e
      obtain ⟨rfl, rfl⟩ := e
      exact ⟨rfl, rfl⟩
    | _ => cases hk
  | identifier _ hq =>
    cases h' with
    | identifier _ hq' =>
      simp only [Token.spelling, List.cons_append, List.append_assoc, List.nil_append,
        List.cons.injEq] at e
      obtain ⟨rfl, e⟩ := e
      obtain ⟨rfl, rfl⟩ := split_unique e hq hq'
      exact ⟨rfl, rfl⟩
    | _ => cases hk
  | string hq hb hr =>
    cases h' with
    | string _ hb' hr' =>
      simp only [Token.spelling, List.cons_append, List.append_assoc, List.nil_append,
        List.cons.injEq] at e
      obtain ⟨rfl, e⟩ := e
      obtain ⟨rfl, rfl⟩ := hb.unique (ne_backslash_of_beginsString hq) hb' e hr hr'
      exact ⟨rfl, rfl⟩
    | _ => cases hk
  | lineComment _ _ ht hr =>
    cases h' with
    | lineComment _ _ ht' hr' =>
      simp only [Token.spelling, List.cons_append, List.cons.injEq, true_and] at e
      obtain ⟨rfl, e⟩ := e
      obtain ⟨rfl, rfl⟩ := run_unique (p := fun c => !endsLine c) e (by simpa using ht)
        (by simpa using hr) (by simpa using ht') (by simpa using hr')
      exact ⟨rfl, rfl⟩
    | _ => cases hk
  | blockComment _ hb =>
    cases h' with
    | blockComment _ hb' =>
      simp only [Token.spelling, List.cons_append, List.append_assoc, List.nil_append,
        List.cons.injEq, true_and] at e
      obtain ⟨rfl, rfl⟩ := commentBody_unique hb hb' e
      exact ⟨rfl, rfl⟩
    | _ => cases hk
  | number _ hm hr =>
    cases h' with
    | number _ hm' hr' =>
      simp only [Token.spelling, List.nil_append, List.cons_append, List.cons.injEq] at e
      obtain ⟨rfl, e⟩ := e
      obtain ⟨rfl, rfl⟩ := digits_unique hm hm' hr hr' e
      exact ⟨rfl, rfl⟩
    | _ => cases hk
  | signedNumber _ _ hb hd hm hr =>
    cases h' with
    | signedNumber _ _ hb' hd' hm' hr' =>
      simp only [Token.spelling, List.cons_append, List.append_assoc, List.cons.injEq,
        true_and] at e
      obtain ⟨rfl, hdigits⟩ := run_unique e hb (by simp [not_whitespace_of_digit hd]) hb'
        (by simp [not_whitespace_of_digit hd'])
      rw [List.cons.injEq] at hdigits
      obtain ⟨rfl, hmore⟩ := hdigits
      obtain ⟨rfl, rfl⟩ := digits_unique hm hm' hr hr' hmore
      exact ⟨rfl, rfl⟩
    | _ => cases hk
  | name _ _ hm hr =>
    cases h' with
    | name _ _ hm' hr' =>
      simp only [Token.spelling, List.cons_append, List.cons.injEq] at e
      obtain ⟨rfl, e⟩ := e
      obtain ⟨rfl, rfl⟩ := run_unique e hm hr hm' hr'
      exact ⟨rfl, rfl⟩
    | _ => cases hk
  | other _ =>
    cases h' with
    | other _ =>
      simp only [Token.spelling, List.cons_append, List.nil_append, List.cons.injEq] at e
      obtain ⟨rfl, rfl⟩ := e
      exact ⟨rfl, rfl⟩
    | _ => cases hk

/-! ## Scopes that stay open -/

theorem Unclosed.opens {r : Rules} {scope : Scope} {text : List Char}
    (h : Unclosed r scope text) (before : List Char) :
    ∃ op body, text = op.passed ++ body ∧ op.mode.openScope = some scope ∧
      Opens r before op body := by
  cases h with
  | string hq _ => exact ⟨.string _, _, rfl, rfl, .string hq⟩
  | identifier hq _ => exact ⟨.identifier _, _, rfl, rfl, .identifier hq⟩
  | blockComment hid _ => exact ⟨.blockComment, _, rfl, rfl, .blockComment hid⟩

theorem Unclosed.scope_lead {r : Rules} {scope : Scope} {text : List Char}
    (h : Unclosed r scope text) (before : List Char) :
    (Lead.ofText r before text).kind.bind Lead.scope = some scope := by
  obtain ⟨op, body, rfl, hscope, hopens⟩ := h.opens before
  rw [hopens.lead, op.kind_lead, Option.bind_some, op.scope_lead, hscope]

/-- No token is read where an open scope begins. -/
theorem Unclosed.not_reads {r : Rules} {scope : Scope} {text before rest : List Char} {t : Token}
    (h : Unclosed r scope text) (h' : Reads r before t rest) : text ≠ t.spelling ++ rest := by
  rintro rfl
  have hscope := h.scope_lead before
  rw [h'.kind] at hscope
  cases h' with
  | identifier _ _ =>
    cases hscope
    cases h with
    | identifier _ hq => simp at hq
  | string hq hb hr =>
    cases hscope
    cases h with
    | string _ ho =>
      rw [List.append_eq, List.append_assoc] at ho
      exact hb.not_open (ne_backslash_of_beginsString hq) hr ho
  | @blockComment body _ _ _ =>
    cases hscope
    cases h with
    | blockComment _ hno => exact hno ⟨body, rest, rfl⟩
  | _ => cases hscope

theorem Unclosed.unique {r : Rules} {scope scope' : Scope} {text : List Char}
    (h : Unclosed r scope text) (h' : Unclosed r scope' text) : scope = scope' := by
  have hscope := h.scope_lead []
  rw [h'.scope_lead [], Option.some.injEq] at hscope
  exact hscope.symm

/-! ## Something is read -/

theorem exists_stringBody (q : Char) : ∀ text : List Char,
    (∃ body rest, text = body ++ q :: rest ∧ StringBody q body ∧ rest.head? ≠ some q) ∨
      OpenBody q text
  | [] => .inr .nil
  | [c] => by
    by_cases hq : c = q
    · exact .inl ⟨[], [], by rw [hq]; rfl, .nil, by simp⟩
    by_cases hb : c = '\\'
    · rw [hb]
      exact .inr .backslash
    exact .inr (.plain hq hb .nil)
  | c :: d :: text => by
    by_cases hq : c = q
    · subst hq
      by_cases hd : d = c
      · subst hd
        rcases exists_stringBody d text with ⟨body, rest, rfl, hb, hr⟩ | ho
        · exact .inl ⟨d :: d :: body, rest, rfl, .doubled hb, hr⟩
        · exact .inr (.doubled ho)
      · exact .inl ⟨[], d :: text, rfl, .nil, by simpa using hd⟩
    by_cases hb : c = '\\'
    · subst hb
      rcases exists_stringBody q text with ⟨body, rest, rfl, hb, hr⟩ | ho
      · exact .inl ⟨'\\' :: d :: body, rest, rfl, .escaped hb, hr⟩
      · exact .inr (.escaped ho)
    rcases exists_stringBody q (d :: text) with ⟨body, rest, htext, hbody, hr⟩ | ho
    · exact .inl ⟨c :: body, rest, by rw [htext]; rfl, .plain hq hb hbody, hr⟩
    · exact .inr (.plain hq hb ho)

theorem exists_commentBody (text : List Char) :
    (∃ body rest, text = body ++ '*' :: '/' :: rest ∧ ¬ ['*', '/'] <:+: body) ∨
      ¬ ['*', '/'] <:+: text := by
  induction text with
  | nil => exact .inr (by simp)
  | cons c cs ih =>
    by_cases hpre : ['*', '/'] <+: c :: cs
    · obtain ⟨rest, hrest⟩ := hpre
      exact .inl ⟨[], rest, hrest.symm, by simp⟩
    rcases ih with ⟨body, rest, rfl, hno⟩ | hno
    · refine .inl ⟨c :: body, rest, rfl, ?_⟩
      rw [List.infix_cons_iff]
      rintro (⟨y, hy⟩ | h)
      · exact hpre ⟨y ++ '*' :: '/' :: rest, by rw [← List.append_assoc, hy]; rfl⟩
      · exact hno h
    · refine .inr ?_
      rw [List.infix_cons_iff]
      rintro (h | h)
      · exact hpre h
      · exact hno h

theorem exists_digits (prev : Char) (text : List Char) :
    ∃ more rest, text = more ++ rest ∧ continueDigits prev more = true ∧
      ∀ c ∈ rest.head?, continuesDigits (more.getLastD prev) c = false := by
  induction text generalizing prev with
  | nil => exact ⟨[], [], rfl, rfl, by simp⟩
  | cons c cs ih =>
    cases hc : continuesDigits prev c with
    | false => exact ⟨[], c :: cs, rfl, rfl, by simpa using hc⟩
    | true =>
      obtain ⟨more, rest, rfl, hm, hr⟩ := ih c
      exact ⟨c :: more, rest, rfl, by rw [continueDigits, hc, hm]; rfl,
        by rwa [List.getLastD_cons]⟩

/-- Wherever a text goes on, a token is read or an open scope begins. -/
theorem exists_reads (r : Rules) (before : List Char) (c : Char) (text : List Char) :
    (∃ t rest, c :: text = t.spelling ++ rest ∧ Reads r before t rest) ∨
      ∃ scope, Unclosed r scope (c :: text) := by
  by_cases hblank : (r.strip && ByteClass.whitespace.hasChar c) = true
  · rw [Bool.and_eq_true] at hblank
    exact .inl ⟨.blank c, text, rfl, .blank hblank.1 hblank.2⟩
  by_cases hid : r.quotes.beginsIdentifier c = true
  · by_cases hmem : c ∈ text
    · obtain ⟨inner, rest, rfl, hno⟩ := List.eq_append_cons_of_mem hmem
      exact .inl ⟨.identifier c inner, rest, by simp [Token.spelling], .identifier hid hno⟩
    · exact .inr ⟨.identifier, .identifier hid hmem⟩
  by_cases hstr : r.quotes.beginsString c = true
  · rcases exists_stringBody c text with ⟨body, rest, rfl, hb, hr⟩ | ho
    · exact .inl ⟨.string c body, rest, by simp [Token.spelling], .string hstr hb hr⟩
    · exact .inr ⟨.string, .string hstr ho⟩
  rw [Bool.not_eq_true] at hblank hid hstr
  by_cases hdigit : ByteClass.digit.hasChar c = true
  · obtain ⟨more, rest, rfl, hm, hr⟩ := exists_digits c text
    exact .inl ⟨.number [] c more, rest, rfl, .number hdigit hm hr⟩
  by_cases hname : ByteClass.nameStart.hasChar c = true
  · obtain ⟨more, rest, rfl, hm, hr⟩ := exists_run ByteClass.nameContinue.hasChar text
    exact .inl ⟨.name c more, rest, rfl, .name hid hname hm hr⟩
  rw [Bool.not_eq_true] at hdigit hname
  by_cases hblock : c = '/' ∧ text.head? = some '*'
  · obtain ⟨rfl, hhead⟩ := hblock
    obtain ⟨ds, rfl⟩ := List.head?_eq_some_iff.1 hhead
    rcases exists_commentBody ds with ⟨body, rest, rfl, hno⟩ | hno
    · exact .inl ⟨.blockComment body, rest, by simp [Token.spelling], .blockComment hid hno⟩
    · exact .inr ⟨.blockComment, .blockComment hid hno⟩
  by_cases hline : c = '-' ∧ minusAndBlank text = true
  · obtain ⟨rfl, hline⟩ := hline
    unfold minusAndBlank at hline
    split at hline
    · rename_i mark cs
      obtain ⟨body, rest, rfl, hb, hr⟩ := exists_run (fun c => !endsLine c) cs
      exact .inl ⟨.lineComment mark body, rest, rfl,
        .lineComment hid (by simpa using hline) (by simpa using hb) (by simpa using hr)⟩
    · cases hline
  by_cases hsign : c = '-' ∧ (signMayFollow before && digitFollows text) = true
  · obtain ⟨rfl, hsign⟩ := hsign
    rw [Bool.and_eq_true] at hsign
    obtain ⟨blanks, rest, rfl, hb, hr⟩ := exists_run ByteClass.whitespace.hasChar text
    rw [digitFollows_append hb, digitFollows_of_head hr] at hsign
    cases rest with
    | nil => cases hsign.2
    | cons first cs =>
      obtain ⟨more, rest, rfl, hm, hr⟩ := exists_digits first cs
      exact .inl ⟨.number ('-' :: blanks) first more, rest, by simp [Token.spelling],
        .signedNumber hid hsign.1 hb hsign.2 hm hr⟩
  refine .inl ⟨.other c, text, rfl, .other ⟨hblank, hid, hstr, hdigit, hname, ?_, ?_, ?_⟩⟩
  · exact fun hc => Bool.eq_false_iff.2 fun h => hline ⟨hc, h⟩
  · exact fun hc => Bool.eq_false_iff.2 fun h => hsign ⟨hc, h⟩
  · exact fun hc h => hblock ⟨hc, h⟩

/-! ## Whole texts -/

theorem Token.spelling_ne_nil (t : Token) : t.spelling ≠ [] := by
  cases t <;> simp [spelling]

@[simp] theorem spelling_nil : spelling [] = [] := rfl

@[simp] theorem spelling_cons (t : Token) (ts : List Token) :
    spelling (t :: ts) = t.spelling ++ spelling ts := rfl

@[simp] theorem spelling_append (ts us : List Token) :
    spelling (ts ++ us) = spelling ts ++ spelling us :=
  List.flatMap_append

/-- Every text is read to its end, or up to a scope that stays open. -/
theorem exists_reading (r : Rules) (before text : List Char) :
    ∃ ts tail scope, text = spelling ts ++ tail ∧ ReadsAll r before ts tail ∧
      Ending r scope tail := by
  match text with
  | [] => exact ⟨[], [], none, rfl, .nil, .done⟩
  | c :: cs =>
    rcases exists_reads r before c cs with ⟨t, rest, htext, hread⟩ | ⟨scope, hscope⟩
    · have hlt : rest.length < (c :: cs).length := by
        have := List.length_pos_iff.2 t.spelling_ne_nil
        rw [htext, List.length_append]
        omega
      obtain ⟨ts, tail, scope, rfl, hreads, hend⟩ := exists_reading r (before ++ t.spelling) rest
      exact ⟨t :: ts, tail, scope, by rw [htext, spelling_cons, List.append_assoc],
        .cons hread hreads, hend⟩
    · exact ⟨[], c :: cs, some scope, rfl, .nil, .unclosed hscope⟩
termination_by text.length
decreasing_by
  exact hlt

theorem Ending.not_reads {r : Rules} {scope : Option Scope} {text before rest : List Char}
    {t : Token} (h : Ending r scope text) (h' : Reads r before t rest) :
    text ≠ t.spelling ++ rest := by
  cases h with
  | done => exact fun he => t.spelling_ne_nil (List.append_eq_nil_iff.1 he.symm).1
  | unclosed h => exact h.not_reads h'

theorem Ending.unique {r : Rules} {scope scope' : Option Scope} {text : List Char}
    (h : Ending r scope text) (h' : Ending r scope' text) : scope = scope' := by
  cases h with
  | done =>
    cases h' with
    | done => rfl
    | unclosed h' => cases h'
  | unclosed h =>
    cases h' with
    | done => cases h
    | unclosed h' => rw [h.unique h']

/-- A text has one reading only. -/
theorem ReadsAll.unique {r : Rules} {before tail tail' : List Char} {ts ts' : List Token}
    {scope scope' : Option Scope} (h : ReadsAll r before ts tail) (h' : ReadsAll r before ts' tail')
    (hend : Ending r scope tail) (hend' : Ending r scope' tail')
    (e : spelling ts ++ tail = spelling ts' ++ tail') :
    ts = ts' ∧ tail = tail' ∧ scope = scope' := by
  induction h generalizing ts' with
  | nil =>
    cases h' with
    | nil =>
      obtain rfl : _ = tail' := e
      exact ⟨rfl, rfl, hend.unique hend'⟩
    | cons hread _ =>
      rw [spelling_cons, List.append_assoc] at e
      exact absurd e (hend.not_reads hread)
  | cons hread _ ih =>
    cases h' with
    | nil =>
      rw [spelling_cons, List.append_assoc] at e
      exact absurd e.symm (hend'.not_reads hread)
    | cons hread' hreads' =>
      simp only [spelling_cons, List.append_assoc] at e
      obtain ⟨rfl, hrest⟩ := hread.unique hread' e
      obtain ⟨rfl, rfl, rfl⟩ := ih hreads' hend hrest
      exact ⟨rfl, rfl, rfl⟩

theorem Reading.exists (r : Rules) (text : List Char) :
    ∃ ts scope tail, Reading r text ts scope tail := by
  obtain ⟨ts, tail, scope, htext, hreads, hend⟩ := exists_reading r [] text
  exact ⟨ts, scope, tail, htext, hreads, hend⟩

theorem Reading.unique {r : Rules} {text tail tail' : List Char} {ts ts' : List Token}
    {scope scope' : Option Scope} (h : Reading r text ts scope tail)
    (h' : Reading r text ts' scope' tail') : ts = ts' ∧ tail = tail' ∧ scope = scope' :=
  h.reads.unique h'.reads h.ending h'.ending (h.text_eq.symm.trans h'.text_eq)

theorem ReadsAll.append {r : Rules} {before tail : List Char} {ts us : List Token}
    (h : ReadsAll r before ts (spelling us ++ tail))
    (h' : ReadsAll r (before ++ spelling ts) us tail) : ReadsAll r before (ts ++ us) tail := by
  induction ts generalizing before with
  | nil => simpa using h'
  | cons t ts ih =>
    cases h with
    | cons hread hreads =>
      rw [spelling_cons, ← List.append_assoc] at h'
      have hread' : Reads r before t (spelling (ts ++ us) ++ tail) := by
        rwa [spelling_append, List.append_assoc]
      exact .cons hread' (ih hreads h')

theorem ReadsAll.snoc {r : Rules} {before rest : List Char} {ts : List Token} {t : Token}
    (h : ReadsAll r before ts (t.spelling ++ rest)) (ht : Reads r (before ++ spelling ts) t rest) :
    ReadsAll r before (ts ++ [t]) rest := by
  refine .append ?_ (.cons ht .nil)
  rwa [spelling_cons, spelling_nil, List.append_nil]

end Scan
end QueryDigest
