import QueryDigest.Digest

/-!
# QueryDigest.Proofs.Kept

What trimming and the shortening of lists leave in a text. Trimming takes away blanks only
(`count_trim`), and the shortening of lists blanks, commas, placeholders and quotes only
(`count_collapse?`), so every other character occurs as often afterwards as before.
-/

namespace QueryDigest

/-- The character is no part of the white space or of a placeholder list. -/
def isKept (c : Char) : Bool :=
  !Text.isBlank c && c != ',' && c != '?' && c != '\x27'

section Kept

variable {c : Char}

theorem ne_of_isKept (hc : isKept c = true) {d : Char} (hd : isKept d = false) : d ≠ c := by
  rintro rfl
  rw [hc] at hd
  cases hd

theorem not_isBlank_of_isKept (hc : isKept c = true) : Text.isBlank c = false := by
  simp only [isKept, Bool.and_eq_true, Bool.not_eq_true'] at hc
  exact hc.1.1.1

/-! ## Trimming -/

theorem count_eq_zero_of_blank (hc : Text.isBlank c = false) {cs : List Char}
    (h : ∀ d ∈ cs, Text.isBlank d = true) : cs.count c = 0 := by
  rw [List.count_eq_zero]
  intro hmem
  rw [h c hmem] at hc
  cases hc

theorem count_dropWhile_isBlank (hc : Text.isBlank c = false) (cs : List Char) :
    (cs.dropWhile Text.isBlank).count c = cs.count c := by
  have hsplit := congrArg (List.count c) (List.takeWhile_append_dropWhile (p := Text.isBlank)
    (l := cs))
  have hzero : (cs.takeWhile Text.isBlank).count c = 0 :=
    count_eq_zero_of_blank hc fun d hd => by
      have := List.all_takeWhile (p := Text.isBlank) (l := cs)
      exact List.all_eq_true.1 this d hd
  rw [List.count_append, hzero, Nat.zero_add] at hsplit
  exact hsplit

/-- Trimming keeps every visible character. -/
theorem count_trim (hc : Text.isBlank c = false) (o : Options) (text : String) :
    (o.trim text).toList.count c = text.toList.count c := by
  have hend : (Text.trimEnd text.toList).count c = text.toList.count c := by
    rw [Text.trimEnd, List.count_reverse, count_dropWhile_isBlank hc, List.count_reverse]
  rw [Options.trim, String.toList_ofList]
  cases o.stripWhitespace with
  | true => simp only [if_true, Text.trimStart, count_dropWhile_isBlank hc, hend]
  | false => simpa using hend

/-! ## Placeholder lists -/

namespace EnumList

theorem count_afterPlaceholder? (hc : isKept c = true) {s rest : List Char}
    (h : afterPlaceholder? s = some rest) : rest.count c = s.count c := by
  have hmark : ('?' == c) = false := beq_false_of_ne (ne_of_isKept hc (by decide))
  have hquote : ('\x27' == c) = false := beq_false_of_ne (ne_of_isKept hc (by decide))
  unfold afterPlaceholder? at h
  split at h
  · cases h
    simp [List.count_cons, hmark]
  · cases h
    simp [List.count_cons, hmark, hquote]
  · cases h

theorem count_afterItem? (hc : isKept c = true) {s rest : List Char}
    (h : afterItem? s = some rest) : rest.count c = s.count c := by
  have hcomma : (',' == c) = false := beq_false_of_ne (ne_of_isKept hc (by decide))
  unfold afterItem? at h
  split at h
  · rename_i rest' hs
    rw [count_afterPlaceholder? hc h, afterBlanks, count_dropWhile_isBlank (not_isBlank_of_isKept hc),
      ← count_dropWhile_isBlank (not_isBlank_of_isKept hc) s]
    rw [afterBlanks] at hs
    simp [hs, List.count_cons, hcomma]
  · cases h

theorem count_afterItems (hc : isKept c = true) (s : List Char) :
    (afterItems s).count c = s.count c := by
  fun_induction afterItems s with
  | case1 s rest h hlt ih => rw [ih, count_afterItem? hc h]
  | case2 s h => rfl

theorem count_afterList? (hc : isKept c = true) {s rest : List Char}
    (h : afterList? s = some rest) : rest.count c = s.count c := by
  simp only [afterList?, Option.bind_eq_bind, Option.bind_eq_some_iff, Option.pure_def,
    Option.some.injEq] at h
  obtain ⟨first, h₁, second, h₂, rfl⟩ := h
  rw [count_afterItems hc, count_afterItem? hc h₂, count_afterPlaceholder? hc h₁]

theorem count_takeMark? (hc : isKept c = true) {d : Char} {s taken rest : List Char}
    (h : takeMark? d s = some (taken, rest)) : s.count c = (d :: rest).count c := by
  unfold takeMark? takeBlanks at h
  split at h
  · rename_i blanks e r hs
    split at h
    · rename_i he
      cases h
      rw [Prod.mk.injEq] at hs
      rw [← count_dropWhile_isBlank (not_isBlank_of_isKept hc) s, hs.2, beq_iff_eq.1 he]
    · cases h
  · cases h

theorem count_inList? (hc : isKept c = true) {delimiter : Char} {s : List Char} {m : Match}
    (h : inList? delimiter s = some m) : (m.written ++ m.rest).count c = s.count c := by
  have hmark : ('?' == c) = false := beq_false_of_ne (ne_of_isKept hc (by decide))
  cases s with
  | nil => cases h
  | cons lead s =>
    simp only [inList?, Option.ite_none_right_eq_some, Option.bind_eq_bind,
      Option.bind_eq_some_iff, Option.pure_def, Option.some.injEq, Prod.exists] at h
    obtain ⟨_, word, s₁, h₁, opening, s₂, h₂, s₃, h₃, closing, rest, h₄, rfl⟩ := h
    have e₁ := congrArg (List.count c) (append_of_takeWord? h₁)
    have e₂ := congrArg (List.count c) (append_of_takeMark? h₂)
    have e₃ := count_afterList? hc h₃
    have e₄ := count_takeMark? hc h₄
    rw [afterBlanks, count_dropWhile_isBlank (not_isBlank_of_isKept hc)] at e₃
    simp only [List.count_append, List.count_cons, List.count_nil, hmark, Bool.false_eq_true,
      if_false] at *
    omega

theorem count_fieldList? (hc : isKept c = true) {s : List Char} {m : Match}
    (h : fieldList? s = some m) : (m.written ++ m.rest).count c = s.count c := by
  have hmark : ('?' == c) = false := beq_false_of_ne (ne_of_isKept hc (by decide))
  cases s with
  | nil => cases h
  | cons lead s =>
    simp only [fieldList?, Option.ite_none_right_eq_some, Option.bind_eq_bind,
      Option.bind_eq_some_iff, Option.pure_def, Option.some.injEq, Prod.exists] at h
    obtain ⟨_, word, s₁, h₁, opening, s₂, h₂, first, s₃, h₃, s₄, h₄, closing, rest, h₅, rfl⟩ := h
    have e₁ := congrArg (List.count c) (append_of_takeWord? h₁)
    have e₂ := congrArg (List.count c) (append_of_takeMark? h₂)
    have e₃ := congrArg (List.count c) (append_of_takeArgument? h₃)
    have e₃' := congrArg (List.count c) (append_takeBlanks s₃)
    have e₄ := count_afterList? hc h₄
    have e₅ := congrArg (List.count c) (append_of_takeMark? h₅)
    simp only [List.count_append, List.count_cons, hmark, Bool.false_eq_true, if_false] at *
    omega

theorem count_replaceFrom {rule : Rule}
    (hrule : ∀ {s m}, rule.match? s = some m → (m.written ++ m.rest).count c = s.count c)
    (done : List Char) (matched : Bool) (s : List Char) :
    (rule.replaceFrom done matched s).1.count c = done.count c + s.count c := by
  fun_induction rule.replaceFrom done matched s with
  | case1 done matched => simp
  | case2 done matched d s m hm hlt ih =>
    have := hrule hm
    rw [List.count_append] at this
    rw [ih, List.count_append, List.count_reverse]
    omega
  | case3 done matched d s hm ih =>
    rw [ih, List.count_cons, List.count_cons]
    omega

theorem count_replaceAll {rule : Rule}
    (hrule : ∀ {s m}, rule.match? s = some m → (m.written ++ m.rest).count c = s.count c)
    (s : List Char) : (rule.replaceAll s).1.count c = s.count c := by
  rw [Rule.replaceAll, count_replaceFrom hrule, List.count_nil, Nat.zero_add]

theorem count_collapse? (hc : isKept c = true) {delimiter : Char} {text shortened : String}
    (h : collapse? delimiter text = some shortened) :
    shortened.toList.count c = text.toList.count c := by
  simp only [collapse?, Option.ite_none_right_eq_some, Option.some.injEq] at h
  obtain ⟨_, rfl⟩ := h
  rw [String.toList_ofList, count_replaceAll (count_fieldList? hc),
    count_replaceAll (count_inList? hc)]

end EnumList

/-! ## Answers -/

/-- How often the character occurs in what an answer says of the query. -/
def occurrences (c : Char) : Except DigestError String → Nat
  | .ok text => text.toList.count c
  | .error (.syntaxError e) => e.written.toList.count c
  | .error _ => 0

theorem occurrences_deliver (hc : isKept c = true) (o : Options) (text : String) :
    occurrences c (o.deliver text).answer = text.toList.count c := by
  rcases o.deliver_answer_cases text with ⟨h, -⟩ | ⟨shortened, h, hlists⟩
  · rw [h, occurrences]
  · rw [h, occurrences]
    exact EnumList.count_collapse? hc hlists

/-- Two refusals for the same scope differ by what was written. -/
theorem occurrences_refuse (o : Options) (e e' : SyntaxError) (hs : e.scope = e'.scope) :
    occurrences c (o.refuse e).answer + e'.written.toList.count c =
      occurrences c (o.refuse e').answer + e.written.toList.count c := by
  unfold Options.refuse
  cases o.throwOnSyntaxError with
  | true => exact Nat.add_comm _ _
  | false =>
    simp only [Bool.false_eq_true, if_false, occurrences, SyntaxError.returnedText, hs,
      String.toList_append, List.count_append]
    omega

end Kept
end QueryDigest
