import QueryDigest.Proofs.Groups

/-!
# QueryDigest.Proofs.PlaceholderLists

Which groups the two rules shorten. A list is two placeholders or more with commas between them
(`PlaceholderList`); the rule for `IN` shortens parentheses with a list and white space in them
(`InGroup`), the rule for `FIELD` those with a list behind an argument (`FieldGroup`).

One rule after the other, they shorten all groups of both kinds and nothing else
(`rewrites_collapse`). The last letter of its word tells the two kinds apart (`not_stands_both`), and
with one placeholder in place of the list neither rule matches again, so a text that was shortened
stays as it is (`collapse?_collapse`). What is made of the text on both sides of a list does not depend
on the placeholders in it (`exists_collapse_around`).
-/

namespace QueryDigest
namespace EnumList

open Text

/-- A run of white space, which may be empty. -/
def Blanks (cs : List Char) : Prop :=
  ∀ c ∈ cs, isBlank c = true

/-- A placeholder, in quotes or not. -/
inductive Placeholder : List Char → Prop where
  | mark : Placeholder ['?']
  | quoted : Placeholder ['\x27', '?', '\x27']

/-- Placeholders with a comma before each. -/
inductive Items : List Char → Prop where
  | nil : Items []
  | cons {before after placeholder items : List Char} :
      Blanks before → Blanks after → Placeholder placeholder → Items items →
      Items (before ++ ',' :: (after ++ (placeholder ++ items)))

/-- Two placeholders or more. -/
inductive PlaceholderList : List Char → Prop where
  | mk {placeholder items : List Char} :
      Placeholder placeholder → Items items → items ≠ [] → PlaceholderList (placeholder ++ items)

/-- The characters are the word, in any case. -/
inductive Spells : List Char → List Char → Prop where
  | nil : Spells [] []
  | cons {w c : Char} {word cs : List Char} :
      sameLetter w c = true → Spells word cs → Spells (w :: word) (c :: cs)

/-- What the rule for `IN` shortens. -/
inductive InGroup (delimiter : Char) : List Char → List Char → List Char → Prop where
  | mk {lead : Char} {word blanks before list after : List Char} :
      isBlank lead = true ∨ sameLetter lead delimiter = true → Spells ['i', 'n'] word →
      Blanks blanks → Blanks before → PlaceholderList list → Blanks after →
      InGroup delimiter (lead :: (word ++ blanks)) (before ++ (list ++ after)) ['?']

/-- What the rule for `FIELD` shortens. -/
inductive FieldGroup : List Char → List Char → List Char → Prop where
  | mk {lead : Char} {word blanks argument before list after : List Char} :
      isBlank lead = true → Spells ['f', 'i', 'e', 'l', 'd'] word → Blanks blanks →
      argument ≠ [] → (∀ c ∈ argument, isArgumentChar c = true) →
      Blanks before → PlaceholderList list → Blanks after →
      FieldGroup (lead :: (word ++ blanks)) (argument ++ ',' :: (before ++ (list ++ after)))
        (argument ++ ',' :: (before ++ '?' :: after))

/-! ## What the readers read -/

section Readers

variable {s rest taken : List Char} {c : Char}

theorem Placeholder.head {placeholder : List Char} (h : Placeholder placeholder) :
    ∃ c cs, placeholder = c :: cs ∧ isBlank c = false := by
  cases h with
  | mark => exact ⟨_, _, rfl, by decide⟩
  | quoted => exact ⟨_, _, rfl, by decide⟩

theorem afterPlaceholder?_iff :
    afterPlaceholder? s = some rest ↔ ∃ ph, Placeholder ph ∧ s = ph ++ rest := by
  constructor
  · intro h
    unfold afterPlaceholder? at h
    split at h
    · cases h
      exact ⟨_, .mark, rfl⟩
    · cases h
      exact ⟨_, .quoted, rfl⟩
    · cases h
  · rintro ⟨ph, hph, rfl⟩
    cases hph <;> rfl

theorem afterBlanks_append {blanks : List Char} (hb : Blanks blanks)
    (hs : ∀ c ∈ s.head?, isBlank c = false) : afterBlanks (blanks ++ s) = s := by
  rw [afterBlanks, List.dropWhile_append_of_pos hb]
  cases s with
  | nil => rfl
  | cons c s => rw [List.dropWhile_cons_of_neg (by simp [hs c rfl])]

theorem exists_afterBlanks (s : List Char) : ∃ blanks, Blanks blanks ∧ s = blanks ++ afterBlanks s :=
  ⟨s.takeWhile isBlank, List.all_eq_true.1 List.all_takeWhile,
    List.takeWhile_append_dropWhile.symm⟩

theorem afterItem?_iff : afterItem? s = some rest ↔ ∃ before after ph, Blanks before ∧
    Blanks after ∧ Placeholder ph ∧ s = before ++ ',' :: (after ++ (ph ++ rest)) := by
  constructor
  · intro h
    unfold afterItem? at h
    split at h
    · rename_i s' hs
      obtain ⟨ph, hph, hrest⟩ := afterPlaceholder?_iff.1 h
      obtain ⟨before, hb, hbefore⟩ := exists_afterBlanks s
      obtain ⟨after, ha, hafter⟩ := exists_afterBlanks s'
      refine ⟨before, after, ph, hb, ha, hph, ?_⟩
      rw [hbefore, hs, hafter, hrest]
    · cases h
  · rintro ⟨before, after, ph, hb, ha, hph, rfl⟩
    obtain ⟨c, cs, hcs, hc⟩ := hph.head
    have hafter : afterBlanks (after ++ (ph ++ rest)) = ph ++ rest := by
      refine afterBlanks_append ha fun d hd => ?_
      rw [hcs] at hd
      cases hd
      exact hc
    rw [afterItem?, afterBlanks_append hb (by rintro d ⟨⟩; decide)]
    simp only [hafter]
    exact afterPlaceholder?_iff.2 ⟨ph, hph, rfl⟩

theorem exists_afterItems (s : List Char) :
    ∃ items, Items items ∧ s = items ++ afterItems s ∧ afterItem? (afterItems s) = none := by
  fun_induction afterItems s with
  | case1 s rest h hlt ih =>
    obtain ⟨before, after, ph, hb, ha, hph, rfl⟩ := afterItem?_iff.1 h
    obtain ⟨items, hitems, hrest, hnone⟩ := ih
    refine ⟨_, .cons hb ha hph hitems, ?_, hnone⟩
    rw [List.append_assoc, List.cons_append, List.append_assoc, List.append_assoc, ← hrest]
  | case2 s h => exact ⟨[], .nil, rfl, h⟩

theorem afterItems_append {items : List Char} (h : Items items) (hs : afterItem? s = none) :
    afterItems (items ++ s) = s := by
  induction h with
  | nil =>
    rw [List.nil_append, afterItems]
    split
    · rename_i rest h
      rw [hs] at h
      cases h
    · rfl
  | @cons before after ph items hb ha hph _ ih =>
    rw [afterItems]
    have hitem : afterItem? ((before ++ ',' :: (after ++ (ph ++ items))) ++ s) = some (items ++ s) :=
      afterItem?_iff.2 ⟨before, after, ph, hb, ha, hph, by simp⟩
    split
    · rename_i rest h
      rw [hitem] at h
      cases h
      exact ih
    · rename_i h
      rw [hitem] at h
      cases h

theorem afterList?_eq_some (h : afterList? s = some rest) :
    ∃ list, PlaceholderList list ∧ s = list ++ rest := by
  simp only [afterList?, Option.bind_eq_bind, Option.bind_eq_some_iff, Option.pure_def,
    Option.some.injEq] at h
  obtain ⟨first, h₁, second, h₂, rfl⟩ := h
  obtain ⟨ph, hph, rfl⟩ := afterPlaceholder?_iff.1 h₁
  obtain ⟨before, after, ph', hb, ha, hph', rfl⟩ := afterItem?_iff.1 h₂
  obtain ⟨items, hitems, hsecond, -⟩ := exists_afterItems second
  generalize afterItems second = y at hsecond ⊢
  subst hsecond
  exact ⟨_, .mk hph (.cons hb ha hph' hitems) (by simp), by simp⟩

theorem afterList?_append {list : List Char} (h : PlaceholderList list)
    (hs : afterItem? s = none) : afterList? (list ++ s) = some s := by
  cases h with
  | @mk ph _ hph hitems hne =>
    cases hitems with
    | nil => exact absurd rfl hne
    | @cons before after ph' items hb ha hph' hitems =>
      have hfirst : afterPlaceholder? (ph ++ (before ++ ',' :: (after ++ (ph' ++ items))) ++ s) =
          some (before ++ ',' :: (after ++ (ph' ++ (items ++ s)))) :=
        afterPlaceholder?_iff.2 ⟨_, hph, by simp⟩
      have hsecond : afterItem? (before ++ ',' :: (after ++ (ph' ++ (items ++ s)))) =
          some (items ++ s) := afterItem?_iff.2 ⟨before, after, ph', hb, ha, hph', rfl⟩
      simp only [afterList?, hfirst, hsecond, afterItems_append hitems hs, Option.bind_eq_bind,
        Option.bind_some, Option.pure_def]

theorem takeWord?_iff {word : List Char} :
    takeWord? word s = some (taken, rest) ↔ Spells word taken ∧ s = taken ++ rest := by
  constructor
  · intro h
    refine ⟨?_, (append_of_takeWord? h).symm⟩
    induction word generalizing s taken with
    | nil =>
      cases h
      exact .nil
    | cons w word ih =>
      cases s with
      | nil => cases h
      | cons c s =>
        unfold takeWord? at h
        split at h
        · rename_i hc
          simp only [Option.map_eq_some_iff, Prod.mk.injEq, Prod.exists] at h
          obtain ⟨t, r, hr, rfl, rfl⟩ := h
          exact .cons hc (ih hr)
        · cases h
  · rintro ⟨hspells, rfl⟩
    induction hspells with
    | nil => rfl
    | cons hc _ ih => rw [List.cons_append, takeWord?, if_pos hc, ih, Option.map_some]

theorem takeBlanks_append {blanks : List Char} (hb : Blanks blanks)
    (hs : ∀ c ∈ s.head?, isBlank c = false) : takeBlanks (blanks ++ s) = (blanks, s) := by
  have hdrop : (blanks ++ s).dropWhile isBlank = s := afterBlanks_append hb hs
  rw [takeBlanks, hdrop, Prod.mk.injEq]
  refine ⟨?_, rfl⟩
  have hsplit := List.takeWhile_append_dropWhile (p := isBlank) (l := blanks ++ s)
  rw [hdrop] at hsplit
  exact List.append_cancel_right hsplit

theorem takeMark?_iff (hc : isBlank c = false) : takeMark? c s = some (taken, rest) ↔
    ∃ blanks, Blanks blanks ∧ taken = blanks ++ [c] ∧ s = blanks ++ c :: rest := by
  constructor
  · intro h
    have happ := append_takeBlanks s
    have hb : Blanks (takeBlanks s).1 := List.all_eq_true.1 List.all_takeWhile
    unfold takeMark? at h
    split at h
    · rename_i blanks d r hs
      rw [hs] at happ hb
      split at h
      · rename_i hd
        cases h
        rw [beq_iff_eq] at hd
        exact ⟨blanks, hb, by rw [hd], by rw [← happ, hd]⟩
      · cases h
    · cases h
  · rintro ⟨blanks, hb, rfl, rfl⟩
    rw [takeMark?, takeBlanks_append hb (by rintro d ⟨⟩; exact hc)]
    simp

theorem takeArgument?_iff : takeArgument? s = some (taken, rest) ↔
    ∃ argument, argument ≠ [] ∧ (∀ c ∈ argument, isArgumentChar c = true) ∧
      taken = argument ++ [','] ∧ s = argument ++ ',' :: rest := by
  constructor
  · intro h
    have happ := List.takeWhile_append_dropWhile (p := isArgumentChar) (l := s)
    have hall : ∀ c ∈ s.takeWhile isArgumentChar, isArgumentChar c = true :=
      List.all_eq_true.1 List.all_takeWhile
    unfold takeArgument? at h
    split at h
    · rename_i a run r hrun hrest
      cases h
      rw [hrun] at hall happ
      rw [hrest] at happ
      exact ⟨a :: run, List.cons_ne_nil a run, hall, rfl, happ.symm⟩
    · cases h
  · rintro ⟨argument, hne, hall, rfl, rfl⟩
    obtain ⟨a, run, rfl⟩ := List.exists_cons_of_ne_nil hne
    have htake : (a :: run ++ ',' :: rest).takeWhile isArgumentChar = a :: run :=
      takeWhile_of_run hall (by rintro d ⟨⟩; decide)
    have hdrop : (a :: run ++ ',' :: rest).dropWhile isArgumentChar = ',' :: rest := by
      have hsplit := List.takeWhile_append_dropWhile (p := isArgumentChar)
        (l := a :: run ++ ',' :: rest)
      rw [htake] at hsplit
      exact List.append_cancel_left hsplit
    unfold takeArgument?
    rw [htake, hdrop]
    rfl

end Readers

/-! ## Letters and white space -/

section Letters

theorem foldCase_of_isBlank {c : Char} (h : isBlank c = true) : foldCase c = c.toNat := by
  have key : ∀ n ∈ blankRanges.flatMap fun range => List.range' range.1 (range.2 + 1 - range.1),
      foldRuns.find? (·.holds n) = none := by decide +kernel
  have hmem : c.toNat ∈ blankRanges.flatMap fun range =>
      List.range' range.1 (range.2 + 1 - range.1) := by
    rw [isBlank, Ranges.hold, List.any_eq_true] at h
    obtain ⟨⟨first, last⟩, hrange, hc⟩ := h
    simp only [Bool.and_eq_true, decide_eq_true_eq] at hc
    refine List.mem_flatMap.2 ⟨(first, last), hrange, ?_⟩
    rw [List.mem_range'_1]
    omega
  rw [foldCase, key _ hmem]

theorem not_isBlank_of_sameLetter {w c : Char} (h : sameLetter w c = true)
    (hw : isBlank (Char.ofNat (foldCase w)) = false) : isBlank c = false := by
  rw [Bool.eq_false_iff]
  intro hc
  rw [sameLetter, beq_iff_eq, foldCase_of_isBlank hc] at h
  rw [h, Char.ofNat_toNat, hc] at hw
  cases hw

theorem ne_of_isBlank {c d : Char} (hc : isBlank c = true) (hd : isBlank d = false) : c ≠ d := by
  rintro rfl
  rw [hc] at hd
  cases hd

theorem ne_of_sameLetter {w c d : Char} (hc : sameLetter w c = true)
    (hd : sameLetter w d = false) : c ≠ d := by
  rintro rfl
  rw [hc] at hd
  cases hd

end Letters

/-! ## Groups -/

section Groups

variable {word front inside short cs : List Char} {delimiter : Char}

theorem Blanks.bare (h : Blanks cs) : Bare cs :=
  ⟨fun hc => ne_of_isBlank (h _ hc) (by decide) rfl,
    fun hc => ne_of_isBlank (h _ hc) (by decide) rfl⟩

theorem bare_of_isArgumentChar (h : ∀ c ∈ cs, isArgumentChar c = true) : Bare cs :=
  ⟨fun hc => absurd (h _ hc) (by decide), fun hc => absurd (h _ hc) (by decide)⟩

theorem Placeholder.bare (h : Placeholder cs) : Bare cs := by
  cases h <;> simp

theorem Items.bare (h : Items cs) : Bare cs := by
  induction h with
  | nil => simp
  | cons hb ha hph _ ih => simp [hb.bare, ha.bare, hph.bare, ih]

theorem PlaceholderList.bare (h : PlaceholderList cs) : Bare cs := by
  cases h with
  | mk hph hitems _ => simp [hph.bare, hitems.bare]

theorem Spells.bare (h : Spells word cs)
    (hword : (word.all fun w => !sameLetter w '(' && !sameLetter w ')') = true) : Bare cs := by
  induction h with
  | nil => simp
  | cons hc _ ih =>
    simp only [List.all_cons, Bool.and_eq_true, Bool.not_eq_true'] at hword
    obtain ⟨⟨hopen, hclose⟩, hword⟩ := hword
    rw [bare_cons]
    exact ⟨⟨ne_of_sameLetter hc hopen, ne_of_sameLetter hc hclose⟩, ih hword⟩

theorem PlaceholderList.comma (h : PlaceholderList cs) : ',' ∈ cs := by
  cases h with
  | mk _ hitems hne =>
    cases hitems with
    | nil => exact absurd rfl hne
    | cons _ _ _ _ => simp

theorem PlaceholderList.head (h : PlaceholderList cs) (y : List Char) :
    ∀ c ∈ (cs ++ y).head?, isBlank c = false := by
  cases h with
  | mk hph _ _ =>
    obtain ⟨c, ph, rfl, hc⟩ := hph.head
    rintro d ⟨⟩
    exact hc

theorem afterItem?_closing {after rest : List Char} (h : Blanks after) :
    afterItem? (after ++ ')' :: rest) = none := by
  rw [afterItem?, afterBlanks_append h (by rintro d ⟨⟩; decide)]
  rfl

theorem inList?_iff {s : List Char} {m : Match} : inList? delimiter s = some m ↔
    ∃ front inside short rest, InGroup delimiter front inside short ∧
      s = front ++ '(' :: (inside ++ ')' :: rest) ∧
      m = ⟨front ++ '(' :: (short ++ [')']), rest⟩ := by
  constructor
  · intro h
    cases s with
    | nil => cases h
    | cons lead s =>
      simp only [inList?, Option.ite_none_right_eq_some, Option.bind_eq_bind,
        Option.bind_eq_some_iff, Option.pure_def, Option.some.injEq, Prod.exists,
        Bool.or_eq_true] at h
      obtain ⟨hlead, word, s₁, h₁, opening, s₂, h₂, s₃, h₃, closing, rest, h₄, rfl⟩ := h
      obtain ⟨hword, rfl⟩ := takeWord?_iff.1 h₁
      obtain ⟨blanks, hblanks, rfl, rfl⟩ := (takeMark?_iff (by decide)).1 h₂
      obtain ⟨before, hb, hs₂⟩ := exists_afterBlanks s₂
      obtain ⟨list, hlist, hs₃⟩ := afterList?_eq_some h₃
      obtain ⟨after, ha, -, rfl⟩ := (takeMark?_iff (by decide)).1 h₄
      refine ⟨_, _, _, rest, .mk hlead hword hblanks hb hlist ha, ?_, by simp⟩
      rw [hs₂, hs₃]
      simp
  · rintro ⟨front, inside, short, rest, hg, rfl, rfl⟩
    cases hg with
    | @mk lead word blanks before list after hlead hword hblanks hb hlist ha =>
      have h₁ : takeWord? ['i', 'n'] (word ++ (blanks ++ '(' :: (before ++ (list ++ (after ++
          ')' :: rest))))) = some (word, blanks ++ '(' :: (before ++ (list ++ (after ++
          ')' :: rest)))) := takeWord?_iff.2 ⟨hword, rfl⟩
      have h₂ : takeMark? '(' (blanks ++ '(' :: (before ++ (list ++ (after ++ ')' :: rest)))) =
          some (blanks ++ ['('], before ++ (list ++ (after ++ ')' :: rest))) :=
        (takeMark?_iff (by decide)).2 ⟨blanks, hblanks, rfl, rfl⟩
      have h₃ : afterList? (afterBlanks (before ++ (list ++ (after ++ ')' :: rest)))) =
          some (after ++ ')' :: rest) := by
        rw [afterBlanks_append hb (hlist.head _)]
        exact afterList?_append hlist (afterItem?_closing ha)
      have h₄ : takeMark? ')' (after ++ ')' :: rest) = some (after ++ [')'], rest) :=
        (takeMark?_iff (by decide)).2 ⟨after, ha, rfl, rfl⟩
      simp only [List.cons_append, List.append_assoc, inList?, Bool.or_eq_true, if_pos hlead, h₁,
        h₂, h₃, h₄, Option.bind_eq_bind, Option.bind_some, Option.pure_def, List.nil_append]

theorem fieldList?_iff {s : List Char} {m : Match} : fieldList? s = some m ↔
    ∃ front inside short rest, FieldGroup front inside short ∧
      s = front ++ '(' :: (inside ++ ')' :: rest) ∧
      m = ⟨front ++ '(' :: (short ++ [')']), rest⟩ := by
  constructor
  · intro h
    cases s with
    | nil => cases h
    | cons lead s =>
      simp only [fieldList?, Option.ite_none_right_eq_some, Option.bind_eq_bind,
        Option.bind_eq_some_iff, Option.pure_def, Option.some.injEq, Prod.exists] at h
      obtain ⟨hlead, word, s₁, h₁, opening, s₂, h₂, first, s₃, h₃, s₄, h₄, closing, rest, h₅,
        rfl⟩ := h
      obtain ⟨hword, rfl⟩ := takeWord?_iff.1 h₁
      obtain ⟨blanks, hblanks, rfl, rfl⟩ := (takeMark?_iff (by decide)).1 h₂
      obtain ⟨argument, hne, hall, rfl, rfl⟩ := takeArgument?_iff.1 h₃
      have hs₃ := append_takeBlanks s₃
      have hb : Blanks (takeBlanks s₃).1 := List.all_eq_true.1 List.all_takeWhile
      obtain ⟨list, hlist, hs₄⟩ := afterList?_eq_some h₄
      obtain ⟨after, ha, rfl, rfl⟩ := (takeMark?_iff (by decide)).1 h₅
      rw [hs₄] at hs₃
      generalize (takeBlanks s₃).1 = before at hs₃ hb ⊢
      subst hs₃
      exact ⟨_, _, _, rest, .mk hlead hword hblanks hne hall hb hlist ha, by simp, by simp⟩
  · rintro ⟨front, inside, short, rest, hg, rfl, rfl⟩
    cases hg with
    | @mk lead word blanks argument before list after hlead hword hblanks hne hall hb hlist ha =>
      have h₁ : takeWord? ['f', 'i', 'e', 'l', 'd'] (word ++ (blanks ++ '(' :: (argument ++ ',' ::
          (before ++ (list ++ (after ++ ')' :: rest)))))) = some (word, blanks ++ '(' :: (argument ++
          ',' :: (before ++ (list ++ (after ++ ')' :: rest))))) := takeWord?_iff.2 ⟨hword, rfl⟩
      have h₂ : takeMark? '(' (blanks ++ '(' :: (argument ++ ',' :: (before ++ (list ++ (after ++
          ')' :: rest))))) = some (blanks ++ ['('], argument ++ ',' :: (before ++ (list ++ (after ++
          ')' :: rest)))) := (takeMark?_iff (by decide)).2 ⟨blanks, hblanks, rfl, rfl⟩
      have h₃ : takeArgument? (argument ++ ',' :: (before ++ (list ++ (after ++ ')' :: rest)))) =
          some (argument ++ [','], before ++ (list ++ (after ++ ')' :: rest))) :=
        takeArgument?_iff.2 ⟨argument, hne, hall, rfl, rfl⟩
      have h₄ : takeBlanks (before ++ (list ++ (after ++ ')' :: rest))) =
          (before, list ++ (after ++ ')' :: rest)) := takeBlanks_append hb (hlist.head _)
      have h₅ : afterList? (list ++ (after ++ ')' :: rest)) = some (after ++ ')' :: rest) :=
        afterList?_append hlist (afterItem?_closing ha)
      have h₆ : takeMark? ')' (after ++ ')' :: rest) = some (after ++ [')'], rest) :=
        (takeMark?_iff (by decide)).2 ⟨after, ha, rfl, rfl⟩
      simp only [List.cons_append, List.append_assoc, fieldList?, if_pos hlead, h₁, h₂, h₃, h₄, h₅,
        h₆, Option.bind_eq_bind, Option.bind_some, Option.pure_def, List.nil_append]

theorem Spells.exists_last (word : List Char) {w : Char} (h : Spells (word ++ [w]) cs) :
    ∃ x c, cs = x ++ [c] ∧ sameLetter w c = true := by
  induction word generalizing cs with
  | nil =>
    cases h with
    | @cons _ c _ _ hc h =>
      cases h
      exact ⟨[], c, rfl, hc⟩
  | cons v word ih =>
    cases h with
    | @cons _ d _ _ _ h =>
      obtain ⟨x, c, rfl, hc⟩ := ih h
      exact ⟨d :: x, c, rfl, hc⟩

theorem lastVisible_unique {x y b b' : List Char} {c d : Char} (h : x ++ c :: b = y ++ d :: b')
    (hb : Blanks b) (hb' : Blanks b') (hc : isBlank c = false) (hd : isBlank d = false) : c = d := by
  have hrev := congrArg List.reverse h
  simp only [List.reverse_append, List.reverse_cons, List.append_assoc, List.singleton_append]
    at hrev
  have hrun : ∀ {b : List Char}, Blanks b → ∀ a ∈ b.reverse, isBlank a = true :=
    fun hb a ha => hb a (List.mem_reverse.1 ha)
  obtain ⟨-, hrest⟩ := run_unique hrev (hrun hb) (by simpa using hc) (hrun hb') (by simpa using hd)
  exact (List.cons.inj hrest).1

/-- Behind the word of one kind stands no group of the other. -/
theorem not_stands_both {cs' short' : List Char} {text : List Char}
    (h : Stands FieldGroup text inside short) : ¬ Stands (InGroup delimiter) text cs' short' := by
  obtain ⟨x, d, blanks, rfl, hd, hblanks⟩ : ∃ x d blanks,
      text = x ++ d :: blanks ∧ sameLetter 'd' d = true ∧ Blanks blanks := by
    obtain ⟨front, ⟨a, rfl⟩, hg⟩ := h
    cases hg with
    | @mk lead _ blanks _ _ _ _ _ hword hblanks _ _ _ _ _ =>
      obtain ⟨x, d, rfl, hd⟩ := hword.exists_last ['f', 'i', 'e', 'l']
      exact ⟨a ++ lead :: x, d, blanks, by simp, hd, hblanks⟩
  rintro ⟨front, ⟨a, htext⟩, hg⟩
  cases hg with
  | @mk lead _ blanks' _ _ _ _ hword hblanks' _ _ _ =>
    obtain ⟨y, n, rfl, hn⟩ := hword.exists_last ['i']
    have hlast : (a ++ lead :: y) ++ n :: blanks' = x ++ d :: blanks := by simpa using htext
    have hnd := lastVisible_unique hlast hblanks' hblanks
      (not_isBlank_of_sameLetter hn (by decide +kernel))
      (not_isBlank_of_sameLetter hd (by decide +kernel))
    rw [hnd] at hn
    rw [sameLetter, beq_iff_eq] at hn hd
    exact absurd (hn.trans hd.symm) (by decide +kernel)

end Groups

/-! ## The two kinds of groups -/

/-- What is shortened: placeholder lists of `IN` and of `FIELD`. -/
def Group (delimiter : Char) : Groups :=
  fun front inside short => InGroup delimiter front inside short ∨ FieldGroup front inside short

section Kinds

variable {front inside short cs : List Char} {delimiter : Char}

/-- A closing parenthesis has no other case. -/
theorem eq_closing_of_sameLetter {c d : Char} (h : sameLetter c d = true)
    (hc : foldCase c = 0x29) : d = ')' := by
  have himage : ∀ run ∈ foldRuns, 0x29 < run.image := by decide +kernel
  rw [sameLetter, beq_iff_eq, hc, foldCase] at h
  split at h
  · rename_i run hrun
    have := himage run (List.mem_of_find?_eq_some hrun)
    omega
  · rw [← Char.ofNat_toNat d, ← h]

theorem PlaceholderList.length (h : PlaceholderList cs) : 3 ≤ cs.length := by
  cases h with
  | mk hph hitems hne =>
    cases hitems with
    | nil => exact absurd rfl hne
    | @cons before after placeholder items _ _ hph' _ =>
      have hpos : ∀ {cs : List Char}, Placeholder cs → 1 ≤ cs.length := by
        rintro _ (_ | _) <;> simp
      have := hpos hph
      have := hpos hph'
      simp only [List.length_append, List.length_cons]
      omega

theorem InGroup.shorter (h : InGroup delimiter front inside short) :
    short.length < inside.length := by
  obtain ⟨-, -, -, -, hlist, -⟩ := h
  have := hlist.length
  simp only [List.length_append, List.length_cons, List.length_nil]
  omega

theorem FieldGroup.shorter (h : FieldGroup front inside short) : short.length < inside.length := by
  obtain ⟨-, -, -, -, -, -, hlist, -⟩ := h
  have := hlist.length
  simp only [List.length_append, List.length_cons]
  omega

theorem parenthesized_inGroup (hd : delimiter ≠ ')') : Parenthesized (InGroup delimiter) where
  front := by
    rintro _ _ _ ⟨hlead, hword, hblanks, -, -, -⟩
    simp only [List.mem_cons, List.mem_append, not_or]
    refine ⟨?_, (hword.bare (by decide)).2, hblanks.bare.2⟩
    rintro rfl
    rcases hlead with hlead | hlead
    · cases hlead
    · exact hd (eq_closing_of_sameLetter hlead (by decide +kernel))
  inside := by
    rintro _ _ _ ⟨-, -, -, hb, hlist, ha⟩
    simp [hb.bare, hlist.bare, ha.bare]
  short := by
    rintro _ _ _ ⟨-, -, -, -, -, -⟩
    simp
  shorter := InGroup.shorter

theorem parenthesized_fieldGroup : Parenthesized FieldGroup where
  front := by
    rintro _ _ _ ⟨hlead, hword, hblanks, -, -, -, -, -⟩
    simp only [List.mem_cons, List.mem_append, not_or]
    exact ⟨(ne_of_isBlank hlead (by decide)).symm, (hword.bare (by decide)).2, hblanks.bare.2⟩
  inside := by
    rintro _ _ _ ⟨-, -, -, -, hall, hb, hlist, ha⟩
    have hargument := bare_of_isArgumentChar hall
    simp [hargument, hb.bare, hlist.bare, ha.bare]
  short := by
    rintro _ _ _ ⟨-, -, -, -, hall, hb, -, ha⟩
    have hargument := bare_of_isArgumentChar hall
    simp [hargument, hb.bare, ha.bare]
  shorter := FieldGroup.shorter

theorem parenthesized_group (hd : delimiter ≠ ')') : Parenthesized (Group delimiter) where
  front h := h.elim (parenthesized_inGroup hd).front parenthesized_fieldGroup.front
  inside h := h.elim (parenthesized_inGroup hd).inside parenthesized_fieldGroup.inside
  short h := h.elim (parenthesized_inGroup hd).short parenthesized_fieldGroup.short
  shorter h := h.elim (parenthesized_inGroup hd).shorter parenthesized_fieldGroup.shorter

theorem finds_inRule (delimiter : Char) : (inRule delimiter).Finds (InGroup delimiter) :=
  fun _ _ => inList?_iff

theorem finds_fieldRule : fieldRule.Finds FieldGroup :=
  fun _ _ => fieldList?_iff

theorem stands_group_iff {before : List Char} : Stands (Group delimiter) before inside short ↔
    Stands (InGroup delimiter) before inside short ∨ Stands FieldGroup before inside short := by
  constructor
  · rintro ⟨front, hfront, hg | hg⟩
    · exact .inl ⟨front, hfront, hg⟩
    · exact .inr ⟨front, hfront, hg⟩
  · rintro (⟨front, hfront, hg⟩ | ⟨front, hfront, hg⟩)
    · exact ⟨front, hfront, .inl hg⟩
    · exact ⟨front, hfront, .inr hg⟩

theorem InGroup.short_eq (h : InGroup delimiter front inside short) : short = ['?'] := by
  cases h
  rfl

theorem InGroup.comma (h : InGroup delimiter front inside short) : ',' ∈ inside := by
  cases h with
  | mk _ _ _ _ hlist _ => exact List.mem_append_right _ (List.mem_append_left _ hlist.comma)

theorem FieldGroup.comma (h : FieldGroup front inside short) : ',' ∈ inside := by
  cases h
  simp

/-- The text between the parentheses settles what becomes of it. -/
theorem FieldGroup.short_unique {front' short' : List Char} (h : FieldGroup front inside short)
    (h' : FieldGroup front' inside short') : short = short' := by
  have hsame : FieldGroup front inside short' := by
    cases h with
    | mk hlead hword hblanks _ _ _ _ _ =>
      generalize hinside : _ ++ ',' :: _ = inside at h'
      cases h' with
      | mk _ _ _ hne hall hb hlist ha => exact .mk hlead hword hblanks hne hall hb hlist ha
  have hmatch := fieldList?_iff.2 ⟨front, inside, short, [], h, rfl, rfl⟩
  rw [fieldList?_iff.2 ⟨front, inside, short', [], hsame, rfl, rfl⟩, Option.some.injEq,
    Match.mk.injEq] at hmatch
  have hshort := (List.cons.inj (List.append_cancel_left hmatch.1)).2
  exact (List.append_cancel_right hshort).symm

/-- Behind the argument of a shortened group there is one placeholder, so no list. -/
theorem FieldGroup.final {front' short' : List Char} (h : FieldGroup front inside short) :
    ¬ FieldGroup front' short short' := by
  intro h'
  have hcomma : ∀ {cs : List Char}, Blanks cs → ',' ∉ cs := fun hb hc =>
    ne_of_isBlank (hb _ hc) (by decide) rfl
  have hno : ∀ {cs : List Char}, (∀ c ∈ cs, isArgumentChar c = true) → ',' ∉ cs :=
    fun hall hc => absurd (hall _ hc) (by decide)
  cases h with
  | @mk _ _ _ argument before _ after _ _ _ _ hall hb _ ha =>
    generalize hs : argument ++ ',' :: (before ++ '?' :: after) = s at h'
    cases h' with
    | mk _ _ _ _ hall' _ hlist' _ =>
      obtain ⟨-, hrest⟩ := split_unique hs (hno hall) (hno hall')
      have hmem : ',' ∈ before ++ '?' :: after := by
        rw [hrest]
        exact List.mem_append_right _ (List.mem_append_left _ hlist'.comma)
      rcases List.mem_append.1 hmem with hmem | hmem
      · exact hcomma hb hmem
      · rcases List.mem_cons.1 hmem with hmem | hmem
        · cases hmem
        · exact hcomma ha hmem

/-- At one place there is one group at most. -/
theorem stands_unique {before short' : List Char} (h : Stands (Group delimiter) before inside short)
    (h' : Stands (Group delimiter) before inside short') : short = short' := by
  rcases stands_group_iff.1 h with hin | hfield <;> rcases stands_group_iff.1 h' with hin' | hfield'
  · obtain ⟨_, -, hg⟩ := hin
    obtain ⟨_, -, hg'⟩ := hin'
    rw [hg.short_eq, hg'.short_eq]
  · exact absurd hin (not_stands_both hfield')
  · exact absurd hin' (not_stands_both hfield)
  · obtain ⟨_, -, hg⟩ := hfield
    obtain ⟨_, -, hg'⟩ := hfield'
    exact hg.short_unique hg'

/-- A shortened group is not shortened again. -/
theorem not_stands_short {before short' : List Char}
    (h : Stands (Group delimiter) before inside short) :
    ¬ Stands (Group delimiter) before short short' := by
  intro h'
  rcases stands_group_iff.1 h with hin | hfield <;> rcases stands_group_iff.1 h' with hin' | hfield'
  · obtain ⟨_, -, hg⟩ := hin
    obtain ⟨_, -, hg'⟩ := hin'
    exact absurd (hg.short_eq ▸ hg'.comma) (by decide)
  · exact absurd hin (not_stands_both hfield')
  · exact absurd hin' (not_stands_both hfield)
  · obtain ⟨_, -, hg⟩ := hfield
    obtain ⟨_, -, hg'⟩ := hfield'
    exact hg.final hg'

end Kinds

/-! ## The whole text -/

section Collapse

variable {delimiter : Char}

theorem toList_collapse (delimiter : Char) (text : String) : (collapse delimiter text).toList =
    (fieldRule.replaceAll ((inRule delimiter).replaceAll text.toList).1).1 := by
  rw [collapse]
  simp only [collapse?]
  split
  · rw [Option.getD_some, String.toList_ofList]
  · rename_i hnot
    rw [Bool.or_eq_true, not_or, Bool.not_eq_true, Bool.not_eq_true] at hnot
    rw [Option.getD_none, Rule.replaceAll_of_not_matched hnot.2,
      Rule.replaceAll_of_not_matched hnot.1]

/-- The lists of a text are shortened, and nothing else is changed. -/
theorem rewrites_collapse (hd : delimiter ≠ ')') (text : String) :
    Rewrites (Group delimiter) [] text.toList (collapse delimiter text).toList := by
  have hin := (finds_inRule delimiter).rewrites_replaceAll (parenthesized_inGroup hd) text.toList
  have hfield := finds_fieldRule.rewrites_replaceAll parenthesized_fieldGroup
    ((inRule delimiter).replaceAll text.toList).1
  rw [toList_collapse]
  exact hin.trans (parenthesized_inGroup hd) parenthesized_fieldGroup
    (fun hg hg' => absurd (hg.short_eq ▸ hg'.comma) (by decide)) (.refl []) hfield

/-- What is left between the parentheses behind `IN`: one placeholder of a list, and all of a text that
has no comma. -/
inductive Shortens : List Char → List Char → Prop where
  | list {inside : List Char} : PlaceholderList inside → Shortens inside ['?']
  | alone {inside : List Char} : Bare inside → ',' ∉ inside → Shortens inside inside

/-- Behind white space and `IN`, a list is shortened and a single placeholder is not. -/
theorem Shortens.rewrites (hd : delimiter ≠ ')') {before inside short rest out : List Char}
    {lead : Char} (hlead : isBlank lead = true) (h : Shortens inside short)
    (hrest : Rewrites (Group delimiter)
      (before ++ lead :: ['I', 'N', ' '] ++ '(' :: (inside ++ [')'])) rest out) :
    Rewrites (Group delimiter) (before ++ lead :: ['I', 'N', ' '])
      ('(' :: (inside ++ ')' :: rest)) ('(' :: (short ++ ')' :: out)) := by
  cases h with
  | list hlist =>
    have hspells : Spells ['i', 'n'] ['I', 'N'] :=
      .cons (by decide +kernel) (.cons (by decide +kernel) .nil)
    have hblank : Blanks [' '] := fun c hc => by
      rw [List.mem_singleton.1 hc]
      decide
    have hnone : Blanks [] := fun c hc => absurd hc List.not_mem_nil
    have hgroup : InGroup delimiter (lead :: (['I', 'N'] ++ [' '])) ([] ++ (inside ++ [])) ['?'] :=
      .mk (.inl hlead) hspells hblank hnone hlist hnone
    rw [List.nil_append, List.append_nil] at hgroup
    exact .shorten ⟨_, List.suffix_append _ _, .inl hgroup⟩ hrest
  | alone hbare hcomma =>
    refine .keep (fun _ inside' short y hy hstands => ?_) (Rewrites.keep_inside hbare.1 ?_)
    · obtain ⟨_, -, hg⟩ := hstands
      obtain ⟨rfl, -⟩ := split_unique hy hbare.2 ((parenthesized_group hd).inside hg).2
      exact hcomma (hg.elim InGroup.comma FieldGroup.comma)
    · simpa using hrest

/-- Around the parentheses behind `IN`, shortening comes to the same whatever is between them. -/
theorem exists_collapse_around (hd : delimiter ≠ ')') (before back : List Char) {lead : Char}
    (hlead : isBlank lead = true) : ∃ before' back', ∀ inside short, Shortens inside short →
      (collapse delimiter (String.ofList (before ++ lead :: ['I', 'N', ' '] ++
        '(' :: (inside ++ ')' :: back)))).toList =
      before' ++ (['I', 'N', ' '] ++ '(' :: (short ++ ')' :: back')) := by
  have hp := parenthesized_group hd
  obtain ⟨before', hbefore⟩ := Rewrites.around hp [] (before ++ [lead])
  obtain ⟨back', hback⟩ := Rewrites.exists (Group delimiter) [')'] back
  refine ⟨before', back', fun inside short h => ?_⟩
  have hrest : Rewrites (Group delimiter)
      (before ++ lead :: ['I', 'N', ' '] ++ '(' :: (inside ++ [')'])) back back' := by
    have hend := SameEnd.closed [] (before ++ lead :: ['I', 'N', ' '] ++ '(' :: inside)
    rw [List.append_assoc, List.cons_append] at hend
    exact hback.congr_before hp hend
  have hgroup := h.rewrites hd hlead hrest
  have hword : ')' ∉ ['I', 'N', ' '] := by decide
  have hkeep : Rewrites (Group delimiter) (before ++ [lead])
      (['I', 'N', ' '] ++ '(' :: (inside ++ ')' :: back))
      (['I', 'N', ' '] ++ '(' :: (short ++ ')' :: back')) := by
    refine Rewrites.keep_to_opening hp hword ?_
    rwa [List.append_assoc, List.singleton_append]
  have hall := hbefore _ _ _ hword hkeep
  have htext := rewrites_collapse hd (String.ofList (before ++ lead :: ['I', 'N', ' '] ++
    '(' :: (inside ++ ')' :: back)))
  rw [String.toList_ofList] at htext
  refine htext.unique hp stands_unique ?_
  simpa using hall

/-- No rule matches in a text with its lists shortened. -/
theorem free_collapse (hd : delimiter ≠ ')') (text : String) :
    (inRule delimiter).Free (collapse delimiter text).toList ∧
      fieldRule.Free (collapse delimiter text).toList := by
  have h := (rewrites_collapse hd text).nowhere (parenthesized_group hd)
    (fun hstands => not_stands_short hstands) (.refl [])
  refine ⟨(finds_inRule delimiter).free fun x y htext i s z hy hstands => ?_,
    finds_fieldRule.free fun x y htext i s z hy hstands => ?_⟩
  · exact h x y htext i s z hy (stands_group_iff.2 (.inl hstands))
  · exact h x y htext i s z hy (stands_group_iff.2 (.inr hstands))

/-- A text with its lists shortened has none that could be shortened. -/
theorem collapse?_collapse (hd : delimiter ≠ ')') (text : String) :
    collapse? delimiter (collapse delimiter text) = none := by
  obtain ⟨hin, hfield⟩ := free_collapse hd text
  simp only [collapse?, Rule.replaceAll_of_free hin, Rule.replaceAll_of_free hfield, Bool.or_self,
    Bool.false_eq_true, if_false]

/-- Each list that is shortened makes the text shorter. -/
theorem length_lt_of_collapse? {text shortened : String}
    (h : collapse? delimiter text = some shortened) :
    shortened.toList.length < text.toList.length := by
  have hin := (finds_inRule delimiter).length_replaceAll InGroup.shorter text.toList
  have hfield := finds_fieldRule.length_replaceAll FieldGroup.shorter
    ((inRule delimiter).replaceAll text.toList).1
  simp only [collapse?, Option.ite_none_right_eq_some, Option.some.injEq, Bool.or_eq_true] at h
  obtain ⟨hmatched | hmatched, rfl⟩ := h
  · rw [hmatched, Bool.toNat_true] at hin
    rw [String.toList_ofList]
    omega
  · rw [hmatched, Bool.toNat_true] at hfield
    rw [String.toList_ofList]
    omega

/-- Lists are reported exactly where the text has changed. -/
theorem collapse?_ne_none_iff (delimiter : Char) (text : String) :
    collapse? delimiter text ≠ none ↔ collapse delimiter text ≠ text := by
  rw [collapse]
  cases h : collapse? delimiter text with
  | none => simp
  | some shortened =>
    have hlt := length_lt_of_collapse? h
    have hne : shortened ≠ text := by
      rintro rfl
      exact absurd hlt (Nat.lt_irrefl _)
    simp [hne]

end Collapse

end EnumList
end QueryDigest
