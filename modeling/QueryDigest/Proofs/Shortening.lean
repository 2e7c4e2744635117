import QueryDigest.Proofs.Copies
import QueryDigest.Proofs.PlaceholderLists
import QueryDigest.Proofs.Trimming

/-!
# QueryDigest.Proofs.Shortening

Shortening the lists of a text that is copied. One placeholder in place of a list is passed by the
reader of the text as the list was, inside a quoted identifier as well as outside of quotes, so the
text is copied still (`Copies.collapse?`). The text keeps its first and its last character, and with
them the ends that were trimmed (`Trimmed.collapse?`).
-/

namespace QueryDigest

open Text

namespace Scan

open EnumList

/-- Not inside a placeholder in quotes. -/
def Place.Settled : Place → Prop
  | .between _ | .quoted => True
  | .opened | .filled => False

section Shorten

variable {r : Rules} {p q : Place} {last : Option Char} {c : Char}
  {x y blanks before list after placeholder items : List Char}

theorem Quoting.passes_quoted (hr : Quoting r) (hc : c = '?' ∨ c = ')') :
    Passes r .quoted c .quoted := by
  rcases hc with rfl | rfl <;> exact .inner (hr.ne_delimiter (by decide) (by decide))

theorem MayFollow.behind_mark (h : MayFollow r last c)
    (hc : ByteClass.digit.hasChar c = false) :
    MayFollow r (some '?') c :=
  { h with
    digit := fun hd => by rw [hc] at hd; cases hd
    minus := fun _ => by decide
    star := fun _ => by decide
    space := fun _ _ => by decide }

/-! ## Where a list leads -/

theorem Passes.settled (hc : c ≠ '\x27') (hmark : c ≠ '?') (h : Passes r p c q) : q.Settled := by
  cases h with
  | fill _ _ => exact absurd rfl hc
  | mark => exact absurd rfl hmark
  | _ => trivial

theorem Passes.between (hc : c ≠ '\x27') (hd : c ≠ r.quotes.delimiter)
    (h : Passes r (.between last) c q) : q = .between (some c) := by
  cases h with
  | quote => exact absurd rfl hd
  | fill _ _ => exact absurd rfl hc
  | plain _ => rfl

theorem Passes.quoted (hd : c ≠ r.quotes.delimiter) (h : Passes r .quoted c q) : q = .quoted := by
  cases h with
  | inner _ => rfl
  | unquote => exact absurd rfl hd

theorem Copies.blanks_between (hr : Quoting r) (hb : Blanks x) (h : Copies r (.between last) x q) :
    ∃ l, q = .between l := by
  rcases h.of_blank hr hb with ⟨-, l, -, rfl⟩ | rfl
  · exact ⟨l, rfl⟩
  · exact ⟨last, rfl⟩

theorem Passes.settled_of_mark (hr : Quoting r) (hp : p.Settled) (h : Passes r p '?' q) :
    q.Settled := by
  have hmark : '?' ≠ r.quotes.delimiter := hr.ne_delimiter (by decide) (by decide)
  cases p with
  | between l =>
    rw [h.between (by decide) hmark]
    trivial
  | quoted =>
    rw [h.quoted hmark]
    trivial
  | opened | filled => cases hp

theorem Copies.quoted_of_not_mem (hx : r.quotes.delimiter ∉ x) (h : Copies r .quoted x q) :
    q = .quoted := by
  induction x with
  | nil =>
    cases h
    rfl
  | cons c x ih =>
    rw [List.mem_cons, not_or] at hx
    cases h with
    | cons hp h =>
      obtain rfl := hp.quoted (Ne.symm hx.1)
      exact ih hx.2 h

theorem Copies.placeholder_between (hr : Quoting r) (hph : Placeholder placeholder)
    (h : Copies r (.between last) placeholder q) : ∃ l, q = .between l := by
  cases hph with
  | mark =>
    cases h with
    | cons hp h =>
      obtain rfl := hp.between (by decide) (hr.ne_delimiter (by decide) (by decide))
      cases h
      exact ⟨_, rfl⟩
  | quoted =>
    generalize hquote : '\x27' = c at h
    cases h with
    | cons hp h =>
      cases hp with
      | quote => exact absurd hquote (hr.ne_delimiter (by decide) (by decide))
      | fill _ _ =>
        cases h with
        | cons hp h =>
          cases hp
          cases h with
          | cons hp h =>
            cases hp
            cases h
            exact ⟨_, rfl⟩
      | plain hc =>
        have := hc.string
        rw [← hquote, hr.beginsString_quote] at this
        cases this

theorem Copies.items_between (hr : Quoting r) (hitems : Items items)
    (h : Copies r (.between last) items q) : ∃ l, q = .between l := by
  induction hitems generalizing last with
  | nil =>
    cases h
    exact ⟨last, rfl⟩
  | cons hb ha hph _ ih =>
    obtain ⟨m, hbefore, h⟩ := h.split
    obtain ⟨l, rfl⟩ := hbefore.blanks_between hr hb
    cases h with
    | cons hp h =>
      obtain rfl := hp.between (by decide) (hr.ne_delimiter (by decide) (by decide))
      obtain ⟨m, hafter, h⟩ := h.split
      obtain ⟨l, rfl⟩ := hafter.blanks_between hr ha
      obtain ⟨m, hplaceholder, h⟩ := h.split
      obtain ⟨l, rfl⟩ := hplaceholder.placeholder_between hr hph
      exact ih h

theorem Blanks.not_mem_delimiter (hr : Quoting r) (hb : Blanks x) : r.quotes.delimiter ∉ x :=
  fun hmem => not_delimiter_of_isBlank hr (hb _ hmem) rfl

theorem Placeholder.not_mem_delimiter (hr : Quoting r) (hph : Placeholder x) :
    r.quotes.delimiter ∉ x := by
  cases hph <;> rcases hr.delimiter with hd | hd <;> rw [hd] <;> decide

theorem Items.not_mem_delimiter (hr : Quoting r) (hitems : Items x) : r.quotes.delimiter ∉ x := by
  induction hitems with
  | nil => exact List.not_mem_nil
  | cons hb ha hph _ ih =>
    have hcomma : r.quotes.delimiter ≠ ',' := (hr.ne_delimiter (by decide) (by decide)).symm
    simp only [List.mem_append, List.mem_cons, not_or]
    exact ⟨Blanks.not_mem_delimiter hr hb, hcomma, Blanks.not_mem_delimiter hr ha,
      Placeholder.not_mem_delimiter hr hph, ih⟩

/-- Nothing is left open behind a list, and a quoted identifier is not closed by it. -/
theorem Copies.of_list (hr : Quoting r) (hlist : PlaceholderList list) (hp : p.Settled)
    (h : Copies r p list q) :
    (p = .quoted ∧ q = .quoted) ∨ ∃ l l', p = .between l ∧ q = .between l' := by
  cases hlist with
  | mk hph hitems _ =>
    cases p with
    | between l =>
      obtain ⟨m, hplaceholder, h⟩ := h.split
      obtain ⟨l', rfl⟩ := hplaceholder.placeholder_between hr hph
      obtain ⟨l'', rfl⟩ := h.items_between hr hitems
      exact .inr ⟨l, l'', rfl, rfl⟩
    | quoted =>
      refine .inl ⟨rfl, h.quoted_of_not_mem ?_⟩
      rw [List.mem_append, not_or]
      exact ⟨Placeholder.not_mem_delimiter hr hph, Items.not_mem_delimiter hr hitems⟩
    | opened | filled => cases hp

/-! ## One placeholder in its place -/

/-- White space before a question mark or a closing parenthesis can be taken away. -/
theorem Copies.drop_blanks (hr : Quoting r) (hb : Blanks blanks) (hc : c = '?' ∨ c = ')')
    (hp : p.Settled) (h : Copies r p (blanks ++ c :: y) q) : Copies r p (c :: y) q := by
  obtain ⟨m, hblanks, h⟩ := h.split
  rcases hblanks.of_blank hr hb with ⟨l, l', rfl, rfl⟩ | rfl
  · cases h with
    | cons hpass h =>
      obtain rfl := hpass.between (by rcases hc with rfl | rfl <;> decide)
        (by rcases hc with rfl | rfl <;> exact hr.ne_delimiter (by decide) (by decide))
      exact .cons (.plain (hr.mayFollow hc l)) h
  · exact h

/-- Behind a list stands white space or a parenthesis, which can stand behind a question mark. -/
theorem Copies.behind_mark (hr : Quoting r) (ha : Blanks after)
    (h : Copies r (.between last) (after ++ ')' :: y) q) :
    Copies r (.between (some '?')) (after ++ ')' :: y) q := by
  cases after with
  | nil =>
    cases h with
    | cons hpass h =>
      obtain rfl := hpass.between (by decide) (hr.ne_delimiter (by decide) (by decide))
      exact .cons (.plain (hr.mayFollow (.inr rfl) _)) h
  | cons c after =>
    have hc := ha c List.mem_cons_self
    have hdigit : ByteClass.digit.hasChar c = false := by
      have := not_nameContinue_of_isBlank hc
      rw [nameContinue_eq, Bool.or_eq_false_iff] at this
      exact this.2
    cases h with
    | cons hpass h =>
      cases hpass with
      | quote => exact absurd rfl (not_delimiter_of_isBlank hr hc)
      | fill _ _ => cases hc
      | plain hfollow => exact .cons (.plain (hfollow.behind_mark hdigit)) h

/-- One placeholder is passed as the list was. -/
theorem Copies.shorten (hr : Quoting r) (hlist : PlaceholderList list) (ha : Blanks after)
    (hp : p.Settled) (h : Copies r p (list ++ (after ++ ')' :: y)) q) :
    Copies r p ('?' :: (after ++ ')' :: y)) q := by
  obtain ⟨m, hcopy, h⟩ := h.split
  rcases hcopy.of_list hr hlist hp with ⟨rfl, rfl⟩ | ⟨l, l', rfl, rfl⟩
  · exact .cons (hr.passes_quoted (.inl rfl)) h
  · exact .cons (.plain (hr.mayFollow (.inl rfl) l)) (h.behind_mark hr ha)

theorem Copies.settled_blanks (hr : Quoting r) (hb : Blanks blanks) (hp : p.Settled)
    (h : Copies r p blanks q) : q.Settled := by
  rcases h.of_blank hr hb with ⟨l, l', -, rfl⟩ | rfl
  · trivial
  · exact hp

theorem Copies.shorten_behind (hr : Quoting r) (hb : Blanks before) (hlist : PlaceholderList list)
    (ha : Blanks after) (hp : p.Settled)
    (h : Copies r p (before ++ (list ++ (after ++ ')' :: y))) q) :
    Copies r p (before ++ '?' :: (after ++ ')' :: y)) q := by
  obtain ⟨m, hbefore, h⟩ := h.split
  exact hbefore.append (h.shorten hr hlist ha (hbefore.settled_blanks hr hb hp))

/-! ## Groups -/

variable {delimiter : Char} {front inside short rest : List Char}

theorem Copies.inGroup (hr : Quoting r) (hg : InGroup delimiter front inside short) (hp : p.Settled)
    (h : Copies r p (inside ++ ')' :: rest) q) : Copies r p (short ++ ')' :: rest) q := by
  cases hg with
  | mk _ _ _ hb hlist ha =>
    rw [List.append_assoc, List.append_assoc] at h
    have h := (h.shorten_behind hr hb hlist ha hp).drop_blanks hr hb (.inl rfl) hp
    cases h with
    | cons hpass h =>
      exact .cons hpass (h.drop_blanks hr ha (.inr rfl) (hpass.settled_of_mark hr hp))

theorem Copies.fieldGroup (hr : Quoting r) (hg : FieldGroup front inside short)
    (h : Copies r p (inside ++ ')' :: rest) q) : Copies r p (short ++ ')' :: rest) q := by
  cases hg with
  | mk _ _ _ _ _ hb hlist ha =>
    simp only [List.append_assoc, List.cons_append] at h ⊢
    obtain ⟨m, hargument, h⟩ := h.split
    cases h with
    | cons hpass h =>
      have hsettled := hpass.settled (by decide) (by decide)
      exact hargument.append (.cons hpass (h.shorten_behind hr hb hlist ha hsettled))

theorem Copies.group (h : Copies r p (x ++ (front ++ '(' :: (inside ++ ')' :: rest))) q)
    (hinside : ∀ {m : Place}, m.Settled → Copies r m (inside ++ ')' :: rest) q →
      Copies r m (short ++ ')' :: rest) q) :
    Copies r p (x ++ (front ++ '(' :: (short ++ ')' :: rest))) q := by
  obtain ⟨m, hx, h⟩ := h.split
  obtain ⟨m, hfront, h⟩ := h.split
  cases h with
  | cons hpass h =>
    have hsettled := hpass.settled (by decide) (by decide)
    exact hx.append (hfront.append (.cons hpass (hinside hsettled h)))

end Shorten

/-! ## The whole text -/

/-- What shortening one group leaves true, shortening the whole text leaves true. -/
theorem collapse?_induction {delimiter : Char} {P : List Char → Prop}
    (hP : ∀ {front inside short}, Group delimiter front inside short → ∀ x rest,
      P (x ++ (front ++ '(' :: (inside ++ ')' :: rest))) →
      P (x ++ (front ++ '(' :: (short ++ ')' :: rest))))
    {text shortened : String} (h : collapse? delimiter text = some shortened)
    (htext : P text.toList) : P shortened.toList := by
  simp only [collapse?, Option.ite_none_right_eq_some, Option.some.injEq] at h
  obtain ⟨-, rfl⟩ := h
  rw [String.toList_ofList]
  exact finds_fieldRule.replaceAll_induction (fun hg => hP (.inr hg))
    ((finds_inRule delimiter).replaceAll_induction (fun hg => hP (.inl hg)) htext)

/-- A text that is copied is copied with its lists shortened. -/
theorem Copies.collapse? {r : Rules} {p q : Place} {delimiter : Char} (hr : Quoting r)
    {text shortened : String} (h : EnumList.collapse? delimiter text = some shortened)
    (htext : Copies r p text.toList q) : Copies r p shortened.toList q := by
  refine collapse?_induction (P := fun cs => Copies r p cs q) ?_ h htext
  rintro front inside short (hg | hg) x rest htext
  · exact htext.group fun hsettled h => h.inGroup hr hg hsettled
  · exact htext.group fun _ h => h.fieldGroup hr hg

end Scan

/-! ## Trimming -/

namespace Options

section Trimmed

variable {o : Options} {text : String}

theorem Trimmed.collapse? {delimiter : Char} {shortened : String}
    (h : EnumList.collapse? delimiter text = some shortened) (htext : o.Trimmed text.toList) :
    o.Trimmed shortened.toList := by
  have key : ∀ {front inside short : List Char}, front ≠ [] → ∀ x rest,
      o.Trimmed (x ++ (front ++ '(' :: (inside ++ ')' :: rest))) →
      o.Trimmed (x ++ (front ++ '(' :: (short ++ ')' :: rest))) := by
    intro front inside short hfront x rest h
    obtain ⟨lead, front, rfl⟩ := List.exists_cons_of_ne_nil hfront
    refine ⟨?_, fun hs => ?_⟩
    · have hlast := h.last
      simpa [List.getLast?_append, List.getLast?_cons] using hlast
    · have hhead := h.head hs
      simpa [List.head?_append] using hhead
  refine Scan.collapse?_induction (P := o.Trimmed) ?_ h htext
  rintro front inside short (⟨_, _, _, _, _, _⟩ | ⟨_, _, _, _, _, _, _, _⟩)
  · exact key (List.cons_ne_nil _ _)
  · exact key (List.cons_ne_nil _ _)

end Trimmed

end Options
end QueryDigest
