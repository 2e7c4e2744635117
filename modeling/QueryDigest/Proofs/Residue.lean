import Mathlib.Data.List.Chain
import QueryDigest.Proofs.Identifiers
import QueryDigest.Proofs.Shortening
import QueryDigest.Proofs.Whitespace

/-!
# QueryDigest.Proofs.Residue

What is left of a query without quoted identifiers, where whitespace runs are written as one space.
No character of a literal is: what is written has no line break, no double quote and no single quote
but those of placeholders, and its digits belong to names.

A text like that is `Clean`. Most of it is a matter of neighbours: no space is next to another, and
only a letter, a digit or an underscore stands in front of a digit (`Adjoins`). Nothing that is
written begins with a digit, so a text stays clean with every token (`Clean.writtenFrom`), however
the tokens before were glued together. Trimming takes its ends away, and shortening a list puts a
question mark between two characters that stay (`exists_marks`). `digest_no_literal` is what this
means for the digest.
-/

namespace QueryDigest

open Text

namespace Scan

open EnumList
open ByteClass (whitespace digit nameStart nameContinue)

/-! ## Clean texts -/

/-- The characters can stand side by side. -/
def Adjoins (a b : Char) : Prop :=
  (a = ' ' → b ≠ ' ') ∧ (digit.hasChar b = true → nameContinue.hasChar a = true)

/-- Every single quote belongs to a placeholder. -/
inductive QuotesPlaced : List Char → Prop where
  | nil : QuotesPlaced []
  | placeholder {cs : List Char} : QuotesPlaced cs → QuotesPlaced ('\x27' :: '?' :: '\x27' :: cs)
  | plain {c : Char} {cs : List Char} : c ≠ '\x27' → QuotesPlaced cs → QuotesPlaced (c :: cs)

/-- What is written for a query without quoted identifiers; `quoted` if placeholders have quotes. -/
structure Clean (quoted : Bool) (cs : List Char) : Prop where
  chain : cs.IsChain Adjoins
  head : ∀ c ∈ cs.head?, digit.hasChar c = false
  plain : ∀ c ∈ cs, c ≠ '\t' ∧ c ≠ '\r' ∧ c ≠ '\n' ∧ c ≠ '\x22'
  placed : QuotesPlaced cs
  unquoted : quoted = false → '\x27' ∉ cs

/-- No literal is in the text. -/
structure NoLiteral (quoted : Bool) (cs : List Char) : Prop where
  breaks : '\t' ∉ cs ∧ '\r' ∉ cs ∧ '\n' ∉ cs
  spaces : ¬ [' ', ' '] <:+: cs
  head : ∀ c ∈ cs.head?, isBlank c = false
  last : ∀ c ∈ cs.getLast?, isBlank c = false
  doubleQuotes : '\x22' ∉ cs
  quotes : QuotesPlaced cs
  unquoted : quoted = false → '\x27' ∉ cs
  /-- The longest run of name characters up to a digit begins with a letter or an underscore. -/
  digits : ∀ a d b, cs = a ++ d :: b → digit.hasChar d = true →
    ∃ x c y, a ++ [d] = x ++ c :: y ∧ nameStart.hasChar c = true ∧
      (∀ e ∈ y, nameContinue.hasChar e = true) ∧ ∀ e ∈ x.getLast?, nameContinue.hasChar e = false

section Quotes

variable {u v x y : List Char} {c : Char}

theorem QuotesPlaced.of_not_mem (h : '\x27' ∉ x) : QuotesPlaced x := by
  induction x with
  | nil => exact .nil
  | cons c x ih =>
    rw [List.mem_cons, not_or] at h
    exact .plain (Ne.symm h.1) (ih h.2)

theorem QuotesPlaced.append (h : QuotesPlaced x) (h' : QuotesPlaced y) : QuotesPlaced (x ++ y) := by
  induction h with
  | nil => exact h'
  | placeholder _ ih => exact .placeholder ih
  | plain hc _ ih => exact .plain hc ih

/-- A character outside of placeholders separates them. -/
theorem QuotesPlaced.split (hc : c ≠ '\x27') (hmark : c ≠ '?') (h : QuotesPlaced (u ++ c :: v)) :
    QuotesPlaced u ∧ QuotesPlaced v := by
  generalize hcs : u ++ c :: v = cs at h
  induction h generalizing u with
  | nil => simp at hcs
  | placeholder h ih =>
    match u with
    | [] => exact absurd (List.cons.inj hcs).1 hc
    | [_] => exact absurd (List.cons.inj (List.cons.inj hcs).2).1 hmark
    | [_, _] => exact absurd (List.cons.inj (List.cons.inj (List.cons.inj hcs).2).2).1 hc
    | a :: b :: d :: u =>
      simp only [List.cons_append, List.cons.injEq] at hcs
      obtain ⟨rfl, rfl, rfl, hcs⟩ := hcs
      obtain ⟨hu, hv⟩ := ih hcs
      exact ⟨.placeholder hu, hv⟩
  | plain ha h ih =>
    cases u with
    | nil =>
      obtain ⟨rfl, rfl⟩ := List.cons.inj hcs
      exact ⟨.nil, h⟩
    | cons b u =>
      obtain ⟨rfl, htail⟩ := List.cons.inj hcs
      obtain ⟨hu, hv⟩ := ih htail
      exact ⟨.plain ha hu, hv⟩

theorem QuotesPlaced.of_append_blanks (h : QuotesPlaced (u ++ v))
    (hb : ∀ d ∈ v, isBlank d = true) : QuotesPlaced u := by
  cases v with
  | nil => simpa using h
  | cons c v =>
    have hc := hb c List.mem_cons_self
    exact (h.split (ne_of_isBlank hc (by decide)) (ne_of_isBlank hc (by decide))).1

theorem QuotesPlaced.of_blanks_append (h : QuotesPlaced (u ++ v))
    (hb : ∀ d ∈ u, isBlank d = true) : QuotesPlaced v := by
  induction u with
  | nil => exact h
  | cons c u ih =>
    rw [List.forall_mem_cons] at hb
    exact ih (h.split (u := []) (ne_of_isBlank hb.1 (by decide))
      (ne_of_isBlank hb.1 (by decide))).2 hb.2

end Quotes

section Neighbours

variable {quoted : Bool} {a b cs : List Char} {c d : Char}

theorem not_spaces_of_chain (h : cs.IsChain Adjoins) : ¬ [' ', ' '] <:+: cs := by
  intro hinfix
  have hinner := List.IsChain.infix h hinfix
  have hpair := List.isChain_pair.1 hinner
  exact hpair.1 rfl rfl

/-- A run of name characters does not begin with a digit. -/
theorem exists_nameStart (h : cs.IsChain Adjoins) (hhead : ∀ c ∈ cs.head?, digit.hasChar c = false)
    (hcs : cs = a ++ d :: b) (hd : nameContinue.hasChar d = true) :
    ∃ x c y, a ++ [d] = x ++ c :: y ∧ nameStart.hasChar c = true ∧
      (∀ e ∈ y, nameContinue.hasChar e = true) ∧ ∀ e ∈ x.getLast?, nameContinue.hasChar e = false := by
  induction a using List.reverseRecOn generalizing d b with
  | nil =>
    subst hcs
    have hdigit := hhead d rfl
    rw [nameContinue_eq, hdigit, Bool.or_false] at hd
    exact ⟨[], d, [], rfl, hd, by simp, by simp⟩
  | append_singleton a e ih =>
    rw [List.append_assoc, List.singleton_append] at hcs
    by_cases he : nameContinue.hasChar e = true
    · obtain ⟨x, c, y, hxy, hc, hy, hx⟩ := ih hcs he
      refine ⟨x, c, y ++ [d], ?_, hc, ?_, hx⟩
      · rw [hxy, List.append_assoc, List.cons_append]
      · simpa [List.mem_append, or_imp, forall_and, hd] using hy
    · -- a digit cannot stand behind this character
      refine ⟨a ++ [e], d, [], rfl, ?_, by simp, ?_⟩
      · rw [hcs, List.isChain_append_cons_cons] at h
        have hdigit : digit.hasChar d = false := Bool.eq_false_iff.2 fun hd' => he (h.2.1.2 hd')
        rwa [nameContinue_eq, hdigit, Bool.or_false] at hd
      · rw [List.getLast?_concat]
        rintro _ ⟨⟩
        exact Bool.eq_false_iff.2 he

/-- With nothing to be trimmed, a clean text has no literal in it. -/
theorem Clean.noLiteral (h : Clean quoted cs) (hhead : ∀ c ∈ cs.head?, isBlank c = false)
    (hlast : ∀ c ∈ cs.getLast?, isBlank c = false) : NoLiteral quoted cs where
  breaks := ⟨fun hc => (h.plain _ hc).1 rfl, fun hc => (h.plain _ hc).2.1 rfl,
    fun hc => (h.plain _ hc).2.2.1 rfl⟩
  spaces := not_spaces_of_chain h.chain
  head := hhead
  last := hlast
  doubleQuotes hc := (h.plain _ hc).2.2.2 rfl
  quotes := h.placed
  unquoted := h.unquoted
  digits _ _ _ hcs hd := exists_nameStart h.chain h.head hcs (nameContinue_of_digit hd)

end Neighbours

/-! ## What is written is clean -/

section Written

variable {quoted : Bool} {r : Rules} {before rest out w : List Char} {c : Char} {t : Token}
  {ts : List Token}

theorem Clean.append (h : Clean quoted out) (h' : Clean quoted w)
    (hspace : out.getLast? = some ' ' → w.head? ≠ some ' ') : Clean quoted (out ++ w) where
  chain := by
    refine h.chain.append h'.chain fun a ha b hb => ⟨?_, fun hd => ?_⟩
    · rintro rfl rfl
      exact hspace ha hb
    · rw [h'.head b hb] at hd
      cases hd
  head := by
    intro c hc
    rw [List.head?_append] at hc
    cases hout : out.head? with
    | none =>
      rw [hout, Option.none_or] at hc
      exact h'.head c hc
    | some d =>
      rw [hout, Option.some_or] at hc
      exact h.head c (hout ▸ hc)
  plain := by
    intro c hc
    rcases List.mem_append.1 hc with hc | hc
    · exact h.plain c hc
    · exact h'.plain c hc
  placed := h.placed.append h'.placed
  unquoted hq hc := by
    rcases List.mem_append.1 hc with hc | hc
    · exact h.unquoted hq hc
    · exact h'.unquoted hq hc

theorem clean_nil : Clean quoted [] where
  chain := .nil
  head := by simp
  plain := by simp
  placed := .nil
  unquoted := by simp

theorem clean_singleton (hd : digit.hasChar c = false) (hline : endsLine c = false)
    (htab : c ≠ '\t') (hdouble : c ≠ '\x22') (hsingle : c ≠ '\x27') : Clean quoted [c] where
  chain := .singleton c
  head := by simpa using hd
  plain := by
    rw [endsLine, Bool.or_eq_false_iff, beq_eq_false_iff_ne, beq_eq_false_iff_ne] at hline
    simpa using ⟨htab, hline.1, hline.2, hdouble⟩
  placed := .plain hsingle .nil
  unquoted _ := by simpa using Ne.symm hsingle

theorem clean_name {first : Char} {more : List Char} (hfirst : nameStart.hasChar first = true)
    (hmore : ∀ c ∈ more, nameContinue.hasChar c = true) : Clean quoted (first :: more) := by
  have hall : ∀ c ∈ first :: more, nameContinue.hasChar c = true := by
    rw [List.forall_mem_cons, nameContinue_eq, hfirst]
    exact ⟨rfl, hmore⟩
  have hquote : '\x27' ∉ first :: more := fun hc => absurd (hall _ hc) (by decide)
  refine ⟨?_, ?_, fun c hc => ?_, .of_not_mem hquote, fun _ => hquote⟩
  · clear hfirst hmore hquote
    generalize first :: more = cs at hall
    induction cs with
    | nil => exact .nil
    | cons a cs ih =>
      rw [List.forall_mem_cons] at hall
      refine (ih hall.2).cons fun b _ => ⟨?_, fun _ => hall.1⟩
      rintro rfl
      exact absurd hall.1 (by decide)
  · rintro c ⟨⟩
    exact not_digit_of_nameStart hfirst
  · have hne : ∀ d, nameContinue.hasChar d = false → c ≠ d := fun d hd =>
      ne_of_hasChar (hall c hc) hd
    exact ⟨hne _ (by decide), hne _ (by decide), hne _ (by decide), hne _ (by decide)⟩

theorem clean_mark : Clean quoted ['?'] :=
  clean_singleton (by decide) (by decide) (by decide) (by decide) (by decide)

/-- The placeholders of the settings. -/
theorem clean_placeholder {o : Options} (hr : Rules.ofOptions o = .ok r) :
    Clean o.addRemovedStringQuotes r.placeholder.toList ∧ r.placeholder.toList.head? ≠ some ' ' := by
  obtain ⟨_, rfl⟩ := Rules.eq_of_ofOptions hr
  cases hq : o.addRemovedStringQuotes with
  | false =>
    have hplaceholder : o.stringPlaceholder.toList = ['?'] := by
      rw [Options.stringPlaceholder, hq]
      decide
    rw [hplaceholder]
    exact ⟨clean_mark, by decide⟩
  | true =>
    have hplaceholder : o.stringPlaceholder.toList = ['\x27', '?', '\x27'] := by
      rw [Options.stringPlaceholder, hq]
      decide
    rw [hplaceholder]
    refine ⟨⟨?_, ?_, by simp, .placeholder .nil, fun h => absurd h (by decide)⟩, by decide⟩
    · simp only [List.isChain_cons_cons, List.isChain_singleton, Adjoins]
      decide
    · rintro c ⟨⟩
      decide

theorem Alone.clean (hs : r.strip = true) (h : Alone r before c rest) :
    Clean quoted [c] ∧ c ≠ ' ' := by
  have hblank := h.not_whitespace hs
  have hne : ∀ d, whitespace.hasChar d = true → c ≠ d := fun d hd => (ne_of_hasChar hd hblank).symm
  have hidentifier := h.identifier
  have hstring := h.string
  rw [Quotes.beginsString, hidentifier, Bool.not_false, Bool.true_and, Bool.or_eq_false_iff] at hstring
  rw [Quotes.beginsIdentifier, Bool.or_eq_false_iff] at hidentifier
  have hdouble : c ≠ '\x22' := by
    rintro rfl
    cases hq : r.quotes.dialect with
    | mysql =>
      rw [hq] at hstring
      exact absurd hstring.2 (by decide)
    | ansi =>
      rw [hq] at hidentifier
      exact absurd hidentifier.2 (by decide)
  have hline : endsLine c = false := by
    rw [endsLine, beq_false_of_ne (hne _ (by decide)), beq_false_of_ne (hne _ (by decide))]
    rfl
  refine ⟨clean_singleton h.digit hline (hne _ (by decide)) hdouble ?_, hne _ (by decide)⟩
  rw [beq_eq_false_iff_ne] at hstring
  exact hstring.1

/-- A token is written clean, and not with a space behind a space. -/
theorem Reads.clean {o : Options} (hr : Rules.ofOptions o = .ok r) (hs : r.strip = true)
    (h : Reads r before t rest) (hno : ∀ q inner, t ≠ .identifier q inner) (out : List Char) :
    Clean o.addRemovedStringQuotes (t.written r out) ∧
      (out.getLast? = some ' ' → (t.written r out).head? ≠ some ' ') := by
  cases h with
  | blank _ _ =>
    rw [Token.written]
    split
    · exact ⟨clean_nil, fun _ => by simp⟩
    · rename_i hout
      exact ⟨clean_singleton (by decide) (by decide) (by decide) (by decide) (by decide),
        fun h => absurd h hout⟩
  | identifier _ _ => exact absurd rfl (hno _ _)
  | string _ _ _ => exact ⟨(clean_placeholder hr).1, fun _ => (clean_placeholder hr).2⟩
  | lineComment _ _ _ _ | blockComment _ _ => exact ⟨clean_nil, fun _ => by simp [Token.written]⟩
  | number _ _ _ | signedNumber _ _ _ _ _ _ =>
    exact ⟨clean_mark, fun _ => by simp [Token.written]⟩
  | name _ hfirst hmore _ =>
    refine ⟨clean_name hfirst hmore, fun _ => ?_⟩
    rw [Token.written, List.head?_cons, ne_eq, Option.some.injEq]
    exact ne_of_hasChar hfirst (by decide)
  | @other c _ h =>
    obtain ⟨hclean, hspace⟩ : Clean o.addRemovedStringQuotes [c] ∧ c ≠ ' ' := h.clean hs
    rw [Token.written, not_lineWhitespace (h.not_whitespace hs), if_neg Bool.false_ne_true]
    exact ⟨hclean, fun _ => by simpa using hspace⟩

/-- The text stays clean with every token. -/
theorem Clean.writtenFrom {o : Options} (hr : Rules.ofOptions o = .ok r) (hs : r.strip = true)
    (hreads : ReadsAll r before ts rest) (hno : ∀ q inner, .identifier q inner ∉ ts)
    (h : Clean o.addRemovedStringQuotes out) :
    Clean o.addRemovedStringQuotes (writtenFrom r out ts) := by
  induction hreads generalizing out with
  | nil => exact h
  | @cons before rest t ts hread _ ih =>
    have ht : ∀ q inner, t ≠ .identifier q inner := by
      rintro q inner rfl
      exact hno q inner List.mem_cons_self
    obtain ⟨hclean, hspace⟩ := hread.clean hr hs ht out
    exact ih (fun q inner hmem => hno q inner (List.mem_cons_of_mem t hmem)) (h.append hclean hspace)

end Written

/-! ## Trimming and shortening -/

section Shorten

variable {quoted : Bool} {cs blanks u v mid x rest front inside short : List Char} {c d : Char}
  {delimiter : Char}

theorem Clean.of_append_blanks (h : Clean quoted (cs ++ blanks))
    (hb : ∀ d ∈ blanks, isBlank d = true) : Clean quoted cs where
  chain := h.chain.left_of_append
  head c hc := h.head c (by rw [List.head?_append, Option.mem_def.1 hc]; rfl)
  plain c hc := h.plain c (List.mem_append_left blanks hc)
  placed := h.placed.of_append_blanks hb
  unquoted hq hc := h.unquoted hq (List.mem_append_left blanks hc)

theorem Clean.of_blanks_append (h : Clean quoted (blanks ++ cs))
    (hb : ∀ d ∈ blanks, isBlank d = true) : Clean quoted cs := by
  induction blanks with
  | nil => exact h
  | cons b blanks ih =>
    rw [List.forall_mem_cons] at hb
    refine ih ?_ hb.2
    have hadjoins := List.isChain_cons.1 h.chain
    refine ⟨hadjoins.2, fun c hc => Bool.eq_false_iff.2 fun hd => ?_,
      fun c hc => h.plain c (List.mem_cons_of_mem b hc),
      h.placed.of_blanks_append (u := [b]) (by simpa using hb.1),
      fun hq hc => h.unquoted hq (List.mem_cons_of_mem b hc)⟩
    have hname := (hadjoins.1 c hc).2 hd
    rw [not_nameContinue_of_isBlank hb.1] at hname
    cases hname

theorem Clean.trim {text : String} (o : Options) (h : Clean quoted text.toList) :
    Clean quoted (o.trim text).toList := by
  obtain ⟨after, hafter, ha⟩ := exists_trimEnd text.toList
  obtain ⟨before, hbefore, hb⟩ := exists_trimStart (trimEnd text.toList)
  rw [hafter] at h
  have hend := h.of_append_blanks ha
  rw [Options.trim, String.toList_ofList]
  split
  · rw [hbefore] at hend
    exact hend.of_blanks_append hb
  · exact hend

/-- The character can stand on either side of a question mark. -/
structure Beside (c : Char) : Prop where
  quote : c ≠ '\x27'
  mark : c ≠ '?'
  digit : digit.hasChar c = false

theorem beside_of_isBlank (hc : isBlank c = true) : Beside c where
  quote := ne_of_isBlank hc (by decide)
  mark := ne_of_isBlank hc (by decide)
  digit := by
    have hname := not_nameContinue_of_isBlank hc
    rw [nameContinue_eq, Bool.or_eq_false_iff] at hname
    exact hname.2

theorem beside_mark (hc : c = '(' ∨ c = ',' ∨ c = ')') : Beside c := by
  rcases hc with rfl | rfl | rfl <;> constructor <;> decide

/-- Behind a group's first argument, or its parenthesis, stands a character that stays. -/
theorem exists_before (hc : Beside c) (hb : Blanks blanks) :
    ∃ u d, c :: blanks = u ++ [d] ∧ Beside d := by
  induction blanks using List.reverseRecOn with
  | nil => exact ⟨[], c, rfl, hc⟩
  | append_singleton blanks b _ =>
    exact ⟨c :: blanks, b, rfl, beside_of_isBlank (hb b (by simp))⟩

theorem exists_behind (hc : Beside c) (hb : Blanks blanks) :
    ∃ d v, blanks ++ [c] = d :: v ∧ Beside d := by
  cases blanks with
  | nil => exact ⟨c, [], rfl, hc⟩
  | cons b blanks => exact ⟨b, blanks ++ [c], rfl, beside_of_isBlank (hb b List.mem_cons_self)⟩

/-- Shortening a group puts a question mark between two characters that stay. -/
theorem exists_marks (hg : Group delimiter front inside short) (x rest : List Char) :
    ∃ u c mid d v, Beside c ∧ Beside d ∧
      x ++ (front ++ '(' :: (inside ++ ')' :: rest)) = u ++ c :: (mid ++ d :: v) ∧
      x ++ (front ++ '(' :: (short ++ ')' :: rest)) = u ++ c :: '?' :: d :: v := by
  rcases hg with hg | hg
  · refine ⟨x ++ front, '(', inside, ')', rest, beside_mark (.inl rfl),
      beside_mark (.inr (.inr rfl)), (List.append_assoc _ _ _).symm, ?_⟩
    rw [hg.short_eq, List.append_assoc]
    rfl
  · cases hg with
    | @mk lead word blanks argument before list after _ _ _ _ _ hb _ ha =>
      obtain ⟨u, c, hu, hc⟩ := exists_before (beside_mark (.inr (.inl rfl))) hb
      obtain ⟨d, v, hv, hd⟩ := exists_behind (beside_mark (.inr (.inr rfl))) ha
      have hleft : ∀ y, ',' :: (before ++ y) = u ++ c :: y := by
        intro y
        rw [← List.cons_append, hu, List.append_assoc, List.singleton_append]
      have hright : after ++ ')' :: rest = d :: (v ++ rest) := by
        rw [List.append_cons, hv, List.cons_append]
      refine ⟨x ++ (lead :: (word ++ blanks) ++ '(' :: (argument ++ u)), c, list, d, v ++ rest, hc,
        hd, ?_, ?_⟩
      · simp only [List.append_assoc, List.cons_append, hleft, hright]
      · simp only [List.append_assoc, List.cons_append, hleft, hright]

theorem Clean.mark (hc : Beside c) (hd : Beside d) (h : Clean quoted (u ++ c :: (mid ++ d :: v))) :
    Clean quoted (u ++ c :: '?' :: d :: v) where
  chain := by
    have hleft := (List.isChain_split.1 h.chain).1
    have hright := (List.isChain_split.1 h.chain).2
    rw [← List.cons_append] at hright
    refine List.isChain_append_cons_cons.2 ⟨hleft,
      ⟨fun _ => by decide, fun hq => absurd hq (by decide)⟩,
      List.isChain_cons_cons.2 ⟨⟨fun hq => absurd hq (by decide), fun hq => ?_⟩,
        (List.isChain_split.1 hright).2⟩⟩
    rw [hd.digit] at hq
    cases hq
  head := by
    intro e he
    refine h.head e ?_
    cases u <;> exact he
  plain := by
    intro e he
    by_cases hmark : e = '?'
    · subst hmark
      decide
    · refine h.plain e ?_
      simp only [List.mem_append, List.mem_cons] at he ⊢
      tauto
  placed := by
    obtain ⟨hu, hrest⟩ := h.placed.split hc.quote hc.mark
    obtain ⟨-, hv⟩ := hrest.split hd.quote hd.mark
    exact hu.append (.plain hc.quote (.plain (by decide) (.plain hd.quote hv)))
  unquoted := by
    intro hq hmem
    refine h.unquoted hq ?_
    simp only [List.mem_append, List.mem_cons] at hmem ⊢
    have : '\x27' ≠ '?' := by decide
    tauto

theorem Clean.collapse? {text shortened : String}
    (h : EnumList.collapse? delimiter text = some shortened) (htext : Clean quoted text.toList) :
    Clean quoted shortened.toList := by
  refine collapse?_induction (P := Clean quoted) ?_ h htext
  intro front inside short hg x rest htext
  obtain ⟨u, c, mid, d, v, hc, hd, hold, hnew⟩ := exists_marks hg x rest
  rw [hold] at htext
  rw [hnew]
  exact htext.mark hc hd

end Shorten

/-- No literal is left of a query without quoted identifiers. -/
theorem digest_no_literal {o : Options} {r : Rules} (hr : Rules.ofOptions o = .ok r)
    (hstrip : o.stripWhitespace = true) {query out : String}
    (hscan : scan r (Source.ofText query) = some (.finished out)) (hid : ¬ OpensIdentifier r query) :
    ∃ text, digest o query = .ok text ∧ NoLiteral o.addRemovedStringQuotes text.toList := by
  obtain ⟨ts, htext, hreads, hout⟩ := scan_eq_finished_iff.1 hscan
  have rd : Reading r query.toList ts none [] := ⟨by rw [htext, List.append_nil], hreads, .done⟩
  have hno : ∀ q inner, .identifier q inner ∉ ts := by
    intro q inner hmem
    exact hid (opensIdentifier_iff.2 ⟨inner, (passesIdentifier_iff rd).2 (.inl ⟨q, hmem⟩)⟩)
  have hwritten : Clean o.addRemovedStringQuotes (String.ofList (written r ts)).toList := by
    rw [String.toList_ofList]
    exact clean_nil.writtenFrom hr ((strip_of_ofOptions hr).trans hstrip) hreads hno
  have hclean := hwritten.trim o
  have htrimmed := Options.trimmed_trim o (String.ofList (written r ts))
  rw [digest_eq hr rd]
  generalize o.trim (String.ofList (written r ts)) = text at hclean htrimmed
  have hkept : NoLiteral o.addRemovedStringQuotes text.toList :=
    hclean.noLiteral (htrimmed.head hstrip) htrimmed.last
  simp only [Options.deliver]
  split
  · split
    · rename_i shortened hlists
      have hends := htrimmed.collapse? hlists
      exact ⟨shortened, rfl, (hclean.collapse? hlists).noLiteral (hends.head hstrip) hends.last⟩
    · exact ⟨text, rfl, hkept⟩
  · exact ⟨text, rfl, hkept⟩

/-- A digit of a name stays, the text of a string does not. -/
theorem digest_no_literal_name : ∃ o r, Rules.ofOptions o = .ok r ∧ o.stripWhitespace = true ∧
    scan r (Source.ofText "a2 = 'b'") = some (.finished "a2 = '?'") ∧
    ¬ OpensIdentifier r "a2 = 'b'" ∧
    digest o "a2 = 'b'" = .ok "a2 = '?'" ∧ NoLiteral true "a2 = '?'".toList := by
  generalize hr : (⟨⟨'\x60', by decide, .mysql⟩, true, "'?'"⟩ : Rules) = r
  have hok : Rules.ofOptions { Options.default with addRemovedStringQuotes := true } = .ok r := by
    rw [← hr]
    rfl
  have rd : Reading r "a2 = 'b'".toList
      [.name 'a' ['2'], .blank ' ', .other '=', .blank ' ', .string '\x27' ['b']] none [] := by
    subst hr
    refine ⟨by decide, .cons (.name (by decide) (by decide) ?_ ?_) ?_, .done⟩
    · simp only [List.forall_mem_singleton]
      decide
    · rintro c ⟨⟩
      decide
    refine .cons (.blank rfl (by decide)) (.cons (.other ?_) ?_)
    · constructor <;> decide
    · exact .cons (.blank rfl (by decide)) (.cons (.string (by decide)
        (.plain (by decide) (by decide) .nil) (by decide)) .nil)
  have hscan : scan r (Source.ofText "a2 = 'b'") = some (.finished "a2 = '?'") := by
    rw [scan_eq rd]
    subst hr
    rfl
  have hid : ¬ OpensIdentifier r "a2 = 'b'" := by
    rw [opensIdentifier_iff]
    rintro ⟨inner, h⟩
    rcases (passesIdentifier_iff rd).1 h with ⟨q, hmem⟩ | ⟨hscope, -⟩
    · simp at hmem
    · cases hscope
  have hdigest : digest { Options.default with addRemovedStringQuotes := true } "a2 = 'b'" =
      .ok "a2 = '?'" := by
    rw [digest_eq hok rd]
    subst hr
    rfl
  obtain ⟨text, htext, hno⟩ := digest_no_literal hok rfl hscan hid
  rw [hdigest, Except.ok.injEq] at htext
  subst htext
  exact ⟨_, r, hok, rfl, hscan, hid, hdigest, hno⟩

end Scan
end QueryDigest
