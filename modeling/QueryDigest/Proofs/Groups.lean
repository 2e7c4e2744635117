import QueryDigest.EnumList
import QueryDigest.Proofs.Encoding

/-!
# QueryDigest.Proofs.Groups

What is made of a text group by group. A group is what stands between two parentheses, behind some
text (`Stands`). A text is rewritten by shortening each of its groups and keeping every other
character, in order (`Rewrites`).

* `Rule.Finds.rewrites_replaceAll`: a rule that matches where a group stands rewrites a text, so it
  overlooks no group on its way from match to match.
* `Rewrites.trans`: two rules, one after the other, rewrite the text by the groups of both.
* `Rewrites.around`: what is made of the text in front of a group is the same for every group.
* `Rewrites.nowhere`: where a shortened group is not shortened again, no group is left.

All of this rests on closing parentheses: there is none in a group and none in the text it has to
stand behind, so no group reaches over another.
-/

namespace QueryDigest
namespace EnumList

/-- No parenthesis is among the characters. -/
def Bare (cs : List Char) : Prop :=
  '(' ∉ cs ∧ ')' ∉ cs

@[simp] theorem bare_nil : Bare [] :=
  ⟨List.not_mem_nil, List.not_mem_nil⟩

@[simp] theorem bare_cons {c : Char} {cs : List Char} :
    Bare (c :: cs) ↔ (c ≠ '(' ∧ c ≠ ')') ∧ Bare cs := by
  simp only [Bare, List.mem_cons, not_or, ne_eq, eq_comm]
  exact and_and_and_comm

@[simp] theorem bare_append {x y : List Char} : Bare (x ++ y) ↔ Bare x ∧ Bare y := by
  simp only [Bare, List.mem_append, not_or]
  exact and_and_and_comm

/-- Behind which text what stands between two parentheses is shortened, and to what. -/
abbrev Groups : Type :=
  List Char → List Char → List Char → Prop

/-- Behind the text `before`, a group is shortened from `inside` to `short`. -/
def Stands (group : Groups) (before inside short : List Char) : Prop :=
  ∃ front, front <:+ before ∧ group front inside short

/-- No group is opened between `before` and `rest`. -/
def NoGroup (group : Groups) (before rest : List Char) : Prop :=
  ∀ inside short y, rest = inside ++ ')' :: y → ¬ Stands group before inside short

/-- Behind the text `before`, the text is rewritten by shortening its groups. -/
inductive Rewrites (group : Groups) : List Char → List Char → List Char → Prop where
  | nil {before : List Char} : Rewrites group before [] []
  | shorten {before inside short rest out : List Char} :
      Stands group before inside short →
      Rewrites group (before ++ '(' :: (inside ++ [')'])) rest out →
      Rewrites group before ('(' :: (inside ++ ')' :: rest)) ('(' :: (short ++ ')' :: out))
  | keep {before rest out : List Char} {c : Char} :
      (c = '(' → NoGroup group before rest) → Rewrites group (before ++ [c]) rest out →
      Rewrites group before (c :: rest) (c :: out)

/-- The text, behind `before`, has no group. -/
def Nowhere (group : Groups) (before text : List Char) : Prop :=
  ∀ x y, text = x ++ '(' :: y → NoGroup group (before ++ x) y

/-- The rule matches where a group stands, and writes it shortened. -/
def Rule.Finds (rule : Rule) (group : Groups) : Prop :=
  ∀ s m, rule.match? s = some m ↔ ∃ front inside short rest, group front inside short ∧
    s = front ++ '(' :: (inside ++ ')' :: rest) ∧ m = ⟨front ++ '(' :: (short ++ [')']), rest⟩

/-- The rule matches nowhere in the text. -/
def Rule.Free (rule : Rule) (s : List Char) : Prop :=
  ∀ t, t <:+ s → rule.match? t = none

/-- Groups with no parenthesis in them, which get shorter, and with no closing one in the text they
stand behind. -/
structure Parenthesized (group : Groups) : Prop where
  front : ∀ {front inside short}, group front inside short → ')' ∉ front
  inside : ∀ {front inside short}, group front inside short → Bare inside
  short : ∀ {front inside short}, group front inside short → Bare short
  shorter : ∀ {front inside short}, group front inside short → short.length < inside.length

/-! ## Parentheses -/

section Parentheses

variable {front x y z : List Char}

/-- Where the first parenthesis is a closing one, it is before every opening one. -/
theorem exists_closing {k f : List Char} (h : k ++ ')' :: x = f ++ '(' :: y) (hk : '(' ∉ k) :
    ∃ w, f = k ++ ')' :: w := by
  rcases List.append_eq_append_iff.1 h with ⟨w, rfl, hw⟩ | ⟨w, rfl, hw⟩
  · cases w with
    | nil => cases hw
    | cons c w =>
      obtain ⟨rfl, -⟩ := List.cons.inj hw
      exact ⟨w, rfl⟩
  · cases w with
    | nil => cases hw
    | cons c w =>
      obtain ⟨rfl, -⟩ := List.cons.inj hw
      exact absurd (by simp) hk

theorem closing_not_before_opening {k f : List Char} (h : k ++ ')' :: x = f ++ '(' :: y)
    (hk : '(' ∉ k) (hf : ')' ∉ f) : False := by
  obtain ⟨w, rfl⟩ := exists_closing h hk
  exact hf (by simp)

theorem suffix_append_cases (h : z <:+ x ++ y) : (∃ w, z = w ++ y ∧ w <:+ x) ∨ z <:+ y := by
  obtain ⟨a, ha⟩ := h
  rcases List.append_eq_append_iff.1 ha with ⟨w, rfl, rfl⟩ | ⟨w, rfl, rfl⟩
  · exact .inl ⟨w, rfl, ⟨a, rfl⟩⟩
  · exact .inr ⟨w, rfl⟩

/-- Behind a closing parenthesis, only the empty text has none. -/
theorem eq_nil_of_suffix_closed (h : front <:+ x ++ [')']) (hf : ')' ∉ front) : front = [] := by
  rcases List.suffix_concat_iff.1 h with rfl | ⟨w, rfl, -⟩
  · rfl
  · exact absurd (List.mem_append_right _ List.mem_cons_self) hf

end Parentheses

/-! ## Texts that end alike -/

/-- The same texts without a closing parenthesis end both. -/
def SameEnd (before before' : List Char) : Prop :=
  ∀ front, ')' ∉ front → (front <:+ before ↔ front <:+ before')

section SameEnd

variable {group : Groups} {before before' inside short : List Char}

theorem SameEnd.refl (before : List Char) : SameEnd before before :=
  fun _ _ => Iff.rfl

theorem SameEnd.append (h : SameEnd before before') (x : List Char) :
    SameEnd (before ++ x) (before' ++ x) := by
  have key : ∀ {b b' : List Char}, SameEnd b b' → ∀ front, ')' ∉ front → front <:+ b ++ x →
      front <:+ b' ++ x := by
    intro b b' h front hf hfront
    rcases suffix_append_cases hfront with ⟨w, rfl, hw⟩ | hx
    · obtain ⟨a, rfl⟩ := (h w fun hmem => hf (List.mem_append_left x hmem)).1 hw
      exact ⟨a, (List.append_assoc _ _ _).symm⟩
    · exact hx.trans (List.suffix_append b' x)
  exact fun front hf => ⟨key h front hf, key (fun f hf => (h f hf).symm) front hf⟩

theorem SameEnd.closed (x y : List Char) : SameEnd (x ++ [')']) (y ++ [')']) := by
  refine fun front hf => ⟨fun h => ?_, fun h => ?_⟩
  all_goals
    rw [eq_nil_of_suffix_closed h hf]
    exact List.nil_suffix

theorem SameEnd.behind_group (before before' inside short : List Char) :
    SameEnd (before ++ '(' :: (inside ++ [')'])) (before' ++ '(' :: (short ++ [')'])) := by
  have h := SameEnd.closed (before ++ '(' :: inside) (before' ++ '(' :: short)
  rwa [List.append_assoc, List.append_assoc, List.cons_append, List.cons_append] at h

theorem Stands.congr (hp : Parenthesized group) (hb : SameEnd before before')
    (h : Stands group before inside short) : Stands group before' inside short := by
  obtain ⟨front, hfront, hg⟩ := h
  exact ⟨front, (hb front (hp.front hg)).1 hfront, hg⟩

theorem SameEnd.symm (h : SameEnd before before') : SameEnd before' before :=
  fun front hf => (h front hf).symm

end SameEnd

/-! ## What is kept -/

section Kept

variable {group : Groups} {before w y z s out inside short rest : List Char}

/-- A group cannot be opened where another parenthesis is opened next. -/
theorem noGroup_of_opening (hp : Parenthesized group) (hw : ')' ∉ w) :
    NoGroup group before (w ++ '(' :: y) := by
  rintro inside short z htext ⟨front, -, hg⟩
  exact closing_not_before_opening htext.symm (hp.inside hg).1 hw

theorem Rewrites.keep_to_opening (hp : Parenthesized group) (hw : ')' ∉ w)
    (h : Rewrites group (before ++ w) ('(' :: y) out) :
    Rewrites group before (w ++ '(' :: y) (w ++ out) := by
  induction w generalizing before with
  | nil => rwa [List.append_nil] at h
  | cons c w ih =>
    rw [List.mem_cons, not_or] at hw
    refine .keep (fun _ => noGroup_of_opening hp hw.2) (ih hw.2 ?_)
    rwa [List.append_assoc, List.singleton_append]

theorem Rewrites.keep_all (hw : '(' ∉ w) (h : Rewrites group (before ++ w) y out) :
    Rewrites group before (w ++ y) (w ++ out) := by
  induction w generalizing before with
  | nil => rwa [List.append_nil] at h
  | cons c w ih =>
    rw [List.mem_cons, not_or] at hw
    refine .keep (fun hc => absurd hc.symm hw.1) (ih hw.2 ?_)
    rwa [List.append_assoc, List.singleton_append]

/-- Up to a parenthesis the text is kept. -/
theorem Rewrites.of_append (hw : '(' ∉ w) (h : Rewrites group before (w ++ y) out) :
    ∃ out', out = w ++ out' ∧ Rewrites group (before ++ w) y out' := by
  induction w generalizing before out with
  | nil => exact ⟨out, rfl, by rwa [List.append_nil]⟩
  | cons c w ih =>
    rw [List.mem_cons, not_or] at hw
    generalize hs : c :: w ++ y = s at h
    cases h with
    | nil => cases hs
    | shorten _ _ => exact absurd (List.cons.inj hs).1.symm hw.1
    | keep _ h =>
      obtain ⟨rfl, rfl⟩ := List.cons.inj hs
      obtain ⟨out', rfl, h'⟩ := ih hw.2 h
      exact ⟨out', rfl, by rwa [List.append_assoc, List.singleton_append] at h'⟩

/-- What is made of a text begins, up to a parenthesis, with the text. -/
theorem Rewrites.of_eq_append (hw : '(' ∉ w) (h : Rewrites group before s (w ++ z)) :
    ∃ y, s = w ++ y ∧ Rewrites group (before ++ w) y z := by
  induction w generalizing before s with
  | nil => exact ⟨s, rfl, by rwa [List.append_nil]⟩
  | cons c w ih =>
    rw [List.mem_cons, not_or] at hw
    generalize hout : c :: w ++ z = out at h
    cases h with
    | nil => cases hout
    | shorten _ _ => exact absurd (List.cons.inj hout).1.symm hw.1
    | keep _ h =>
      obtain ⟨rfl, rfl⟩ := List.cons.inj hout
      obtain ⟨y, rfl, h'⟩ := ih hw.2 h
      exact ⟨y, rfl, by rwa [List.append_assoc, List.singleton_append] at h'⟩

theorem Rewrites.keep_inside (hw : '(' ∉ w) (h : Rewrites group (before ++ (w ++ [')'])) y out) :
    Rewrites group before (w ++ ')' :: y) (w ++ ')' :: out) := by
  have hw' : '(' ∉ w ++ [')'] := by simpa using hw
  simpa using Rewrites.keep_all hw' h

theorem Rewrites.inside_kept (hw : '(' ∉ w) (h : Rewrites group before (w ++ ')' :: y) out) :
    ∃ out', out = w ++ ')' :: out' ∧ Rewrites group (before ++ (w ++ [')'])) y out' := by
  have hw' : '(' ∉ w ++ [')'] := by simpa using hw
  obtain ⟨out', rfl, hrest⟩ := Rewrites.of_append (y := y) hw' (by simpa using h)
  exact ⟨out', by simp, hrest⟩

theorem Rewrites.inside_kept_of_eq (hw : '(' ∉ w) (h : Rewrites group before s (w ++ ')' :: z)) :
    ∃ y, s = w ++ ')' :: y := by
  have hw' : '(' ∉ w ++ [')'] := by simpa using hw
  obtain ⟨y, rfl, -⟩ := Rewrites.of_eq_append (z := z) hw' (by simpa using h)
  exact ⟨y, by simp⟩

end Kept

/-! ## One way to rewrite -/

theorem Rewrites.unique {group : Groups} {before s out out' : List Char}
    (hp : Parenthesized group)
    (hone : ∀ {before inside short short'}, Stands group before inside short →
      Stands group before inside short' → short = short')
    (h : Rewrites group before s out) (h' : Rewrites group before s out') : out = out' := by
  induction h generalizing out' with
  | nil =>
    cases h'
    rfl
  | @shorten before inside short rest out hstands _ ih =>
    generalize hs : '(' :: (inside ++ ')' :: rest) = s at h'
    cases h' with
    | nil => cases hs
    | shorten hstands' h' =>
      have hbare : ∀ {b i sh}, Stands group b i sh → ')' ∉ i := fun ⟨_, _, hg⟩ => (hp.inside hg).2
      obtain ⟨rfl, rfl⟩ := Text.split_unique (List.cons.inj hs).2 (hbare hstands) (hbare hstands')
      rw [hone hstands hstands', ih h']
    | keep hno _ =>
      obtain ⟨rfl, rfl⟩ := List.cons.inj hs
      exact absurd hstands (hno rfl _ _ _ rfl)
  | @keep before rest out c hno _ ih =>
    generalize hs : c :: rest = s at h'
    cases h' with
    | nil => cases hs
    | shorten hstands' _ =>
      obtain ⟨rfl, rfl⟩ := List.cons.inj hs
      exact absurd hstands' (hno rfl _ _ _ rfl)
    | keep _ h' =>
      obtain ⟨rfl, rfl⟩ := List.cons.inj hs
      rw [ih h']

/-! ## Around a group -/

section Around

variable {group : Groups} {before before' s out inside short rest y : List Char}

/-- A text is rewritten alike behind texts that end alike. -/
theorem Rewrites.congr_before (hp : Parenthesized group) (hb : SameEnd before before')
    (h : Rewrites group before s out) : Rewrites group before' s out := by
  induction h generalizing before' with
  | nil => exact .nil
  | shorten hstands _ ih => exact .shorten (hstands.congr hp hb) (ih (hb.append _))
  | keep hno _ ih =>
    refine .keep (fun hc inside short y hy hstands => ?_) (ih (hb.append _))
    exact hno hc inside short y hy (hstands.congr hp hb.symm)

/-- Every text can be rewritten. -/
theorem Rewrites.exists (group : Groups) (before s : List Char) :
    ∃ out, Rewrites group before s out := by
  match s with
  | [] => exact ⟨[], .nil⟩
  | c :: s =>
    by_cases hgroup : c = '(' ∧ ∃ inside short rest, s = inside ++ ')' :: rest ∧
        Stands group before inside short
    · obtain ⟨rfl, inside, short, rest, hs, hstands⟩ := hgroup
      have hlt : rest.length < s.length := by
        rw [hs, List.length_append, List.length_cons]
        omega
      obtain ⟨out, hout⟩ := Rewrites.exists group (before ++ '(' :: (inside ++ [')'])) rest
      rw [hs]
      exact ⟨_, .shorten hstands hout⟩
    · obtain ⟨out, hout⟩ := Rewrites.exists group (before ++ [c]) s
      exact ⟨c :: out, .keep (fun hc inside short y hy hstands =>
        hgroup ⟨hc, inside, short, y, hy, hstands⟩) hout⟩
termination_by s.length
decreasing_by all_goals (simp only [List.length_cons]; omega)

/-- A group that is opened in front of a parenthesis is closed there. -/
theorem exists_closing_of_stands {w v : List Char} (hp : Parenthesized group)
    (hstands : Stands group before inside short) (hw : ')' ∉ w)
    (h : s ++ (w ++ '(' :: v) = inside ++ ')' :: y) : ∃ z, s = inside ++ ')' :: z := by
  obtain ⟨front, -, hg⟩ := hstands
  rw [← List.append_assoc] at h
  obtain ⟨z, hz⟩ := exists_closing h.symm (hp.inside hg).1
  rcases List.append_eq_append_iff.1 hz with ⟨a, -, ha⟩ | ⟨a, ha, hz⟩
  · exact absurd (by rw [ha]; simp) hw
  · cases a with
    | nil => exact absurd (by rw [← List.nil_append w, ← hz]; simp) hw
    | cons d a =>
      obtain ⟨rfl, -⟩ := List.cons.inj hz
      exact ⟨a, ha⟩

/-- What is made of a text in front of a parenthesis does not depend on what comes from there on. -/
theorem Rewrites.around (hp : Parenthesized group) (before s : List Char) :
    ∃ out, ∀ w v out', ')' ∉ w → Rewrites group (before ++ s) (w ++ '(' :: v) out' →
      Rewrites group before (s ++ (w ++ '(' :: v)) (out ++ out') := by
  match s with
  | [] => exact ⟨[], fun w v out' _ h => by simpa using h⟩
  | c :: s =>
    by_cases hgroup : c = '(' ∧ ∃ inside short rest, s = inside ++ ')' :: rest ∧
        Stands group before inside short
    · obtain ⟨rfl, inside, short, rest, hs, hstands⟩ := hgroup
      have hlt : rest.length < s.length := by
        rw [hs, List.length_append, List.length_cons]
        omega
      obtain ⟨out, hout⟩ := Rewrites.around hp (before ++ '(' :: (inside ++ [')'])) rest
      refine ⟨'(' :: (short ++ ')' :: out), fun w v out' hw h => ?_⟩
      rw [hs] at h ⊢
      have hrest := hout w v out' hw (by simpa using h)
      simpa using Rewrites.shorten hstands hrest
    · obtain ⟨out, hout⟩ := Rewrites.around hp (before ++ [c]) s
      refine ⟨c :: out, fun w v out' hw h => .keep (fun hc inside short y hy hstands => ?_)
        (hout w v out' hw (by simpa using h))⟩
      obtain ⟨z, hz⟩ := exists_closing_of_stands hp hstands hw hy
      exact hgroup ⟨hc, inside, short, z, hz, hstands⟩
termination_by s.length
decreasing_by all_goals (simp only [List.length_cons]; omega)

end Around

/-! ## No group left -/

/-- Nothing is left to be shortened if a shortened group is not shortened again. -/
theorem Rewrites.nowhere {group : Groups} {before before' s out : List Char}
    (hp : Parenthesized group)
    (hfinal : ∀ {before inside short short'}, Stands group before inside short →
      ¬ Stands group before short short')
    (h : Rewrites group before s out) (hb : SameEnd before before') :
    Nowhere group before' out := by
  induction h generalizing before' with
  | nil => exact fun x y htext => absurd htext (by simp)
  | @shorten before inside short rest out hstands _ ih =>
    have hbare : Bare short := by
      obtain ⟨_, _, hg⟩ := hstands
      exact hp.short hg
    rintro x y htext inside' short' z rfl hstands'
    cases x with
    | nil =>
      have hbare' : ')' ∉ inside' := by
        obtain ⟨_, _, hg⟩ := hstands'
        exact (hp.inside hg).2
      obtain ⟨rfl, -⟩ := Text.split_unique (List.cons.inj htext).2 hbare.2 hbare'
      rw [List.append_nil] at hstands'
      exact hfinal (hstands.congr hp hb) hstands'
    | cons c x =>
      -- the group lies behind the shortened one
      obtain ⟨rfl, hrest⟩ := List.cons.inj htext
      obtain ⟨x, rfl⟩ := exists_closing hrest hbare.1
      obtain rfl : out = x ++ '(' :: (inside' ++ ')' :: z) := by simpa using hrest
      refine ih (SameEnd.behind_group before before' inside short) x _ rfl inside' short' z rfl ?_
      simpa using hstands'
  | @keep before rest out c hno h ih =>
    rintro x y htext inside' short' z rfl hstands'
    cases x with
    | nil =>
      obtain ⟨rfl, rfl⟩ := List.cons.inj htext
      have hopen : '(' ∉ inside' := by
        obtain ⟨_, _, hg⟩ := hstands'
        exact (hp.inside hg).1
      obtain ⟨rest', rfl⟩ := h.inside_kept_of_eq hopen
      rw [List.append_nil] at hstands'
      exact hno rfl _ _ _ rfl (hstands'.congr hp hb.symm)
    | cons d x =>
      obtain ⟨rfl, rfl⟩ := List.cons.inj htext
      refine ih (hb.append [c]) x _ rfl inside' short' z rfl ?_
      simpa using hstands'

/-! ## One kind of groups behind the other -/

theorem Rewrites.trans {group group' : Groups} {before before' s t u : List Char}
    (hp : Parenthesized group) (hp' : Parenthesized group')
    (hcross : ∀ {front inside short front' short'}, group front inside short →
      ¬ group' front' short short')
    (h : Rewrites group before s t) (hb : SameEnd before before') (h' : Rewrites group' before' t u) :
    Rewrites (fun front inside short => group front inside short ∨ group' front inside short)
      before s u := by
  induction h generalizing before' u with
  | nil =>
    cases h'
    exact .nil
  | @shorten before inside short rest out hstands _ ih =>
    obtain ⟨front, hfront, hg⟩ := hstands
    generalize hs : '(' :: (short ++ ')' :: out) = s at h'
    cases h' with
    | nil => cases hs
    | shorten hstands' _ =>
      obtain ⟨front', -, hg'⟩ := hstands'
      obtain ⟨rfl, -⟩ := Text.split_unique (List.cons.inj hs).2 (hp.short hg).2 (hp'.inside hg').2
      exact absurd hg' (hcross hg)
    | keep _ h' =>
      obtain ⟨rfl, rfl⟩ := List.cons.inj hs
      obtain ⟨out', rfl, hrest⟩ := h'.inside_kept (hp.short hg).1
      refine .shorten ⟨front, hfront, .inl hg⟩ (ih (SameEnd.behind_group _ before' inside short) ?_)
      simpa using hrest
  | @keep before rest out c hno h ih =>
    generalize hs : c :: out = s at h'
    cases h' with
    | nil => cases hs
    | @shorten _ inside short rest' out' hstands' h' =>
      obtain ⟨rfl, rfl⟩ := List.cons.inj hs
      have hstands := hstands'.congr hp' hb.symm
      obtain ⟨front, hfront, hg⟩ := hstands
      have hopen : '(' ∉ inside := (hp'.inside hg).1
      obtain ⟨y, rfl⟩ := h.inside_kept_of_eq hopen
      -- the text between the parentheses is as it was, and both pairs of rewrites keep it
      have hkept : Rewrites group' (before' ++ ['(']) (inside ++ ')' :: rest')
          (inside ++ ')' :: out') := by
        refine Rewrites.keep_inside hopen ?_
        simpa using h'
      obtain ⟨z, hz, hrest⟩ := (ih (hb.append ['(']) hkept).inside_kept hopen
      obtain ⟨-, rfl⟩ := List.cons.inj (List.append_cancel_left hz)
      refine .shorten ⟨front, hfront, .inr hg⟩ ?_
      simpa using hrest
    | keep hno' h' =>
      obtain ⟨rfl, rfl⟩ := List.cons.inj hs
      refine .keep (fun hc => ?_) (ih (hb.append [c]) h')
      rintro inside short y rfl ⟨front, hfront, hg | hg⟩
      · exact hno hc _ _ _ rfl ⟨front, hfront, hg⟩
      · obtain ⟨out', rfl, -⟩ := h.inside_kept (hp'.inside hg).1
        exact hno' hc _ _ _ rfl (Stands.congr hp' hb ⟨front, hfront, hg⟩)

/-! ## Rules -/

section Rules

variable {rule : Rule} {group : Groups} {done s : List Char} {matched : Bool}

theorem Rule.replaceFrom_of_free (h : rule.Free s) :
    rule.replaceFrom done matched s = (done.reverse ++ s, matched) := by
  fun_induction rule.replaceFrom done matched s with
  | case1 done matched => rw [List.append_nil]
  | case2 done matched c s m hm hlt ih =>
    rw [h _ (List.suffix_refl _)] at hm
    cases hm
  | case3 done matched c s hm ih =>
    rw [ih fun t ht => h t (ht.trans (List.suffix_cons c s)), List.reverse_cons,
      List.append_assoc, List.singleton_append]

theorem Rule.replaceAll_of_free (h : rule.Free s) : rule.replaceAll s = (s, false) :=
  rule.replaceFrom_of_free h

/-- Where no group stands, the rule matches nowhere. -/
theorem Rule.Finds.free (hr : rule.Finds group) (h : Nowhere group [] s) : rule.Free s := by
  rintro t ⟨a, rfl⟩
  cases hm : rule.match? t with
  | none => rfl
  | some m =>
    obtain ⟨front, inside, short, rest, hg, rfl, -⟩ := (hr t m).1 hm
    have htext : a ++ (front ++ '(' :: (inside ++ ')' :: rest)) =
        (a ++ front) ++ '(' :: (inside ++ ')' :: rest) := (List.append_assoc _ _ _).symm
    exact absurd ⟨front, List.suffix_append a front, hg⟩ (h _ _ htext inside short rest rfl)

/-- What is in front of the place a rule has come to begins no group behind that place. -/
def Passed (group : Groups) (before s : List Char) : Prop :=
  ∀ front front' inside short rest, front <:+ before → front ≠ [] →
    s = front' ++ '(' :: (inside ++ ')' :: rest) → ¬ group (front ++ front') inside short

theorem Passed.noGroup {before : List Char} (hr : rule.Finds group)
    (h : Passed group before ('(' :: s)) (hm : rule.match? ('(' :: s) = none) :
    NoGroup group before s := by
  rintro inside short y rfl ⟨front, hfront, hg⟩
  by_cases hnil : front = []
  · subst hnil
    have hmatch := (hr _ _).2 ⟨[], inside, short, y, hg, rfl, rfl⟩
    exact absurd (hm.symm.trans hmatch) (by simp)
  · refine h front [] inside short y hfront hnil rfl ?_
    rwa [List.append_nil]

theorem Passed.snoc {before : List Char} {c : Char} (hr : rule.Finds group)
    (h : Passed group before (c :: s)) (hm : rule.match? (c :: s) = none) :
    Passed group (before ++ [c]) s := by
  rintro front front' inside short rest hfront hne rfl hg
  rcases List.suffix_concat_iff.1 hfront with rfl | ⟨w, rfl, hw⟩
  · exact hne rfl
  · rw [List.append_assoc, List.singleton_append] at hg
    by_cases hnil : w = []
    · subst hnil
      have hmatch := (hr _ _).2 ⟨c :: front', inside, short, rest, hg, rfl, rfl⟩
      exact absurd (hm.symm.trans hmatch) (by simp)
    · exact h w (c :: front') inside short rest hw hnil rfl hg

theorem passed_closed (hp : Parenthesized group) (x : List Char) :
    Passed group (x ++ [')']) s := by
  rintro front front' inside short rest hfront hne - hg
  have hf : ')' ∉ front := fun hmem => hp.front hg (List.mem_append_left _ hmem)
  exact hne (eq_nil_of_suffix_closed hfront hf)

theorem Rule.Finds.rewrites_replaceFrom (hr : rule.Finds group) (hp : Parenthesized group)
    {before : List Char} (h : Passed group before s) :
    ∃ out, (rule.replaceFrom done matched s).1 = done.reverse ++ out ∧
      Rewrites group before s out := by
  fun_induction rule.replaceFrom done matched s generalizing before with
  | case1 done matched => exact ⟨[], (List.append_nil _).symm, .nil⟩
  | case2 done matched c s m hm hlt ih =>
    obtain ⟨front, inside, short, rest, hg, htext, rfl⟩ := (hr _ _).1 hm
    have hbefore : before ++ front ++ '(' :: (inside ++ [')']) =
        before ++ front ++ '(' :: inside ++ [')'] := by simp
    obtain ⟨out, hout, hrest⟩ := ih (passed_closed hp (before ++ front ++ '(' :: inside))
    refine ⟨front ++ '(' :: (short ++ ')' :: out), hout.trans (by simp), ?_⟩
    rw [htext]
    refine Rewrites.keep_to_opening hp (hp.front hg) (.shorten ⟨front, ?_, hg⟩ ?_)
    · exact List.suffix_append before front
    · rwa [hbefore]
  | case3 done matched c s hm ih =>
    obtain ⟨out, hout, hrest⟩ := ih (h.snoc hr hm)
    refine ⟨c :: out, by simp [hout], .keep ?_ hrest⟩
    rintro rfl
    exact h.noGroup hr hm

/-- A rule rewrites a text by its groups. -/
theorem Rule.Finds.rewrites_replaceAll (hr : rule.Finds group) (hp : Parenthesized group)
    (s : List Char) : Rewrites group [] s (rule.replaceAll s).1 := by
  have hpassed : Passed group [] s := fun front _ _ _ _ hfront hne =>
    absurd (List.suffix_nil.1 hfront) hne
  obtain ⟨out, hout, h⟩ : ∃ out, (rule.replaceFrom [] false s).1 = [].reverse ++ out ∧
      Rewrites group [] s out := hr.rewrites_replaceFrom hp hpassed
  rw [Rule.replaceAll, hout]
  exact h

/-- Without a match the text stays as it is. -/
theorem Rule.replaceFrom_of_not_matched (h : (rule.replaceFrom done matched s).2 = false) :
    matched = false ∧ (rule.replaceFrom done matched s).1 = done.reverse ++ s := by
  fun_induction rule.replaceFrom done matched s with
  | case1 done matched => exact ⟨h, (List.append_nil _).symm⟩
  | case2 done matched c s m hm hlt ih => cases (ih h).1
  | case3 done matched c s hm ih =>
    obtain ⟨hmatched, hsame⟩ := ih h
    exact ⟨hmatched, by simp [hsame]⟩

theorem Rule.replaceAll_of_not_matched (h : (rule.replaceAll s).2 = false) :
    (rule.replaceAll s).1 = s :=
  (rule.replaceFrom_of_not_matched h).2

/-- Each match makes the text shorter. -/
theorem Rule.Finds.length_replaceFrom (hr : rule.Finds group)
    (hshorter : ∀ {front inside short}, group front inside short → short.length < inside.length) :
    (rule.replaceFrom done matched s).1.length + (rule.replaceFrom done matched s).2.toNat ≤
      done.length + s.length + matched.toNat := by
  fun_induction rule.replaceFrom done matched s with
  | case1 done matched => simp
  | case2 done matched c s m hm hlt ih =>
    obtain ⟨front, inside, short, rest, hg, htext, rfl⟩ := (hr _ _).1 hm
    have hlength := hshorter hg
    rw [htext]
    simp only [List.length_append, List.length_reverse, List.length_cons, List.length_nil,
      Bool.toNat_true] at ih ⊢
    omega
  | case3 done matched c s hm ih =>
    simp only [List.length_cons] at ih ⊢
    omega

theorem Rule.Finds.length_replaceAll (hr : rule.Finds group)
    (hshorter : ∀ {front inside short}, group front inside short → short.length < inside.length)
    (s : List Char) :
    (rule.replaceAll s).1.length + (rule.replaceAll s).2.toNat ≤ s.length := by
  have h : (rule.replaceFrom [] false s).1.length + (rule.replaceFrom [] false s).2.toNat ≤
      ([] : List Char).length + s.length + false.toNat := hr.length_replaceFrom hshorter
  simpa [Rule.replaceAll] using h

/-- What shortening one group leaves true, a rule leaves true. -/
theorem Rule.Finds.replaceAll_induction (hr : rule.Finds group) {P : List Char → Prop}
    (hP : ∀ {front inside short}, group front inside short → ∀ x rest,
      P (x ++ (front ++ '(' :: (inside ++ ')' :: rest))) →
      P (x ++ (front ++ '(' :: (short ++ ')' :: rest))))
    (h : P s) : P (rule.replaceAll s).1 := by
  have key : ∀ done matched s, P (done.reverse ++ s) → P (rule.replaceFrom done matched s).1 := by
    intro done matched s h
    fun_induction rule.replaceFrom done matched s with
    | case1 done matched => rwa [List.append_nil] at h
    | case2 done matched c s m hm hlt ih =>
      obtain ⟨front, inside, short, rest, hg, htext, rfl⟩ := (hr _ _).1 hm
      rw [htext] at h
      refine ih ?_
      simpa using hP hg _ _ h
    | case3 done matched c s hm ih =>
      refine ih ?_
      rwa [List.reverse_cons, List.append_assoc]
  exact key [] false s h

end Rules

end EnumList
end QueryDigest
