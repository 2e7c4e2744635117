import QueryDigest.Proofs.PlaceholderLists

/-!
# QueryDigest.Proofs.Patterns

The two rules as patterns with backtracking. `Pattern.ways` lists the ways in which a pattern matches
at the head of a text, in the order in which they are tried: of two alternatives the first one first,
of a greedy repetition the longer one first, of a lazy repetition the shorter one first. The first way
that lets the rest of the pattern match is taken.

The pattern for `IN`, with `d` for the delimiter and `list` for
`(?:'\?'|\?)(?:\s*,\s*(?:'\?'|\?))+`, is `([\sd]in\s*\()\s*list\s*\)`, and that for `FIELD` is
`(\sfield\s*\(\s*[^,()]+?\s*,\s*)list(\s*\))`, both in any case. Some parts of them can match in
several ways, but all ways end at one place and write one text, so the order decides nothing, and the
rules find what the patterns find (`first?_inPieces`, `first?_fieldPieces`).

`collapse_exact` says what shortening the lists of a text comes to.
-/

namespace QueryDigest
namespace EnumList

open Text

/-! ## Patterns -/

/-- A pattern for the head of a text. -/
inductive Pattern where
  | empty
  | one (holds : Char → Bool)
  | seq (first second : Pattern)
  | either (first second : Pattern)
  | many (greedy : Bool) (body : Pattern)

/-- What `once` takes, as often as it takes something, and what follows. -/
def repeated (greedy : Bool) (once : List Char → List (List Char × List Char)) (s : List Char) :
    List (List Char × List Char) :=
  let more := (once s).flatMap fun w =>
    if h : w.2.length < s.length then
      (repeated greedy once w.2).map fun v => (w.1 ++ v.1, v.2)
    else []
  if greedy then more ++ [([], s)] else ([], s) :: more
termination_by s.length

/-- The ways to match the pattern at the head of the text: what is taken and what follows. -/
def Pattern.ways : Pattern → List Char → List (List Char × List Char)
  | empty, s => [([], s)]
  | one _, [] => []
  | one holds, c :: s => if holds c then [([c], s)] else []
  | seq first second, s =>
    (first.ways s).flatMap fun w => (second.ways w.2).map fun v => (w.1 ++ v.1, v.2)
  | either first second, s => first.ways s ++ second.ways s
  | many greedy body, s => repeated greedy body.ways s

/-- The pattern matches all of the text. -/
inductive Pattern.Matches : Pattern → List Char → Prop where
  | empty : Matches .empty []
  | one {holds : Char → Bool} {c : Char} : holds c = true → Matches (.one holds) [c]
  | seq {p q : Pattern} {x y : List Char} : Matches p x → Matches q y → Matches (.seq p q) (x ++ y)
  | first {p q : Pattern} {x : List Char} : Matches p x → Matches (.either p q) x
  | second {p q : Pattern} {x : List Char} : Matches q x → Matches (.either p q) x
  | none {greedy : Bool} {p : Pattern} : Matches (.many greedy p) []
  | more {greedy : Bool} {p : Pattern} {x y : List Char} :
      x ≠ [] → Matches p x → Matches (.many greedy p) y → Matches (.many greedy p) (x ++ y)

section Ways

variable {greedy : Bool} {p q : Pattern} {s x y rest : List Char}

theorem mem_repeated {once : List Char → List (List Char × List Char)} :
    (x, rest) ∈ repeated greedy once s ↔ (x = [] ∧ rest = s) ∨
      ∃ y z s', (y, s') ∈ once s ∧ s'.length < s.length ∧ (z, rest) ∈ repeated greedy once s' ∧
        x = y ++ z := by
  have hmore : (x, rest) ∈ ((once s).flatMap fun w =>
      if _ : w.2.length < s.length then
        (repeated greedy once w.2).map fun v => (w.1 ++ v.1, v.2)
      else []) ↔
      ∃ y z s', (y, s') ∈ once s ∧ s'.length < s.length ∧ (z, rest) ∈ repeated greedy once s' ∧
        x = y ++ z := by
    simp only [List.mem_flatMap, Prod.exists]
    constructor
    · rintro ⟨y, s', hy, hmem⟩
      split at hmem
      · rename_i hlt
        obtain ⟨⟨z, rest'⟩, hz, heq⟩ := List.mem_map.1 hmem
        obtain ⟨rfl, rfl⟩ := Prod.mk.inj heq
        exact ⟨y, z, s', hy, hlt, hz, rfl⟩
      · cases hmem
    · rintro ⟨y, z, s', hy, hlt, hz, rfl⟩
      refine ⟨y, s', hy, ?_⟩
      rw [dif_pos hlt]
      exact List.mem_map.2 ⟨(z, rest), hz, rfl⟩
  rw [repeated]
  cases greedy
  · simp only [Bool.false_eq_true, if_false, List.mem_cons, Prod.mk.injEq, hmore]
  · simp only [if_true, List.mem_append, List.mem_singleton, Prod.mk.injEq, hmore, or_comm]

/-- What a pattern takes matches it, and every text that matches can be taken. -/
theorem Pattern.mem_ways : (x, rest) ∈ p.ways s ↔ s = x ++ rest ∧ p.Matches x := by
  constructor
  · intro h
    induction p generalizing s x rest with
    | empty =>
      obtain ⟨rfl, rfl⟩ := Prod.mk.inj (List.mem_singleton.1 h)
      exact ⟨rfl, .empty⟩
    | one holds =>
      cases s with
      | nil => cases h
      | cons c s =>
        rw [ways] at h
        split at h
        · obtain ⟨rfl, rfl⟩ := Prod.mk.inj (List.mem_singleton.1 h)
          exact ⟨rfl, .one ‹_›⟩
        · cases h
    | seq p q ihp ihq =>
      rw [ways, List.mem_flatMap] at h
      obtain ⟨⟨y, s'⟩, hy, h⟩ := h
      obtain ⟨⟨z, rest'⟩, hz, heq⟩ := List.mem_map.1 h
      obtain ⟨rfl, rfl⟩ := Prod.mk.inj heq
      obtain ⟨rfl, hp⟩ := ihp hy
      obtain ⟨rfl, hq⟩ := ihq hz
      exact ⟨(List.append_assoc _ _ _).symm, .seq hp hq⟩
    | either p q ihp ihq =>
      rw [ways, List.mem_append] at h
      rcases h with h | h
      · exact ⟨(ihp h).1, .first (ihp h).2⟩
      · exact ⟨(ihq h).1, .second (ihq h).2⟩
    | many greedy p ih =>
      rw [ways] at h
      induction hn : s.length using Nat.strongRecOn generalizing s x with
      | ind n ihn =>
        subst hn
        rcases mem_repeated.1 h with ⟨rfl, rfl⟩ | ⟨y, z, s', hy, hlt, hz, rfl⟩
        · exact ⟨rfl, .none⟩
        · obtain ⟨rfl, hp⟩ := ih hy
          obtain ⟨rfl, hmany⟩ := ihn _ hlt hz rfl
          refine ⟨(List.append_assoc _ _ _).symm, .more ?_ hp hmany⟩
          rintro rfl
          exact absurd hlt (Nat.lt_irrefl _)
  · rintro ⟨rfl, h⟩
    induction h generalizing rest with
    | empty => exact List.mem_singleton_self _
    | one hc =>
      rw [List.singleton_append, ways, if_pos hc]
      exact List.mem_singleton_self _
    | @seq p q x y _ _ ihp ihq =>
      rw [ways, List.append_assoc]
      exact List.mem_flatMap.2 ⟨(x, y ++ rest), ihp, List.mem_map.2 ⟨(y, rest), ihq, rfl⟩⟩
    | first _ ih => exact List.mem_append_left _ ih
    | second _ ih => exact List.mem_append_right _ ih
    | none => exact mem_repeated.2 (.inl ⟨rfl, rfl⟩)
    | @more greedy p x y hne _ _ ihp ih =>
      rw [List.append_assoc]
      refine mem_repeated.2 (.inr ⟨x, y, y ++ rest, ihp, ?_, ih, rfl⟩)
      have := List.length_pos_iff.2 hne
      simp only [List.length_append]
      omega

theorem Pattern.matches_one_iff {holds : Char → Bool} :
    (one holds).Matches x ↔ ∃ c, holds c = true ∧ x = [c] := by
  constructor
  · rintro (_ | hc)
    exact ⟨_, hc, rfl⟩
  · rintro ⟨c, hc, rfl⟩
    exact .one hc

theorem Pattern.matches_seq_iff :
    (seq p q).Matches x ↔ ∃ y z, p.Matches y ∧ q.Matches z ∧ x = y ++ z := by
  constructor
  · intro h
    cases h with
    | seq hp hq => exact ⟨_, _, hp, hq, rfl⟩
  · rintro ⟨y, z, hp, hq, rfl⟩
    exact .seq hp hq

theorem Pattern.matches_either_iff : (either p q).Matches x ↔ p.Matches x ∨ q.Matches x := by
  constructor
  · intro h
    cases h with
    | first h => exact .inl h
    | second h => exact .inr h
  · rintro (h | h)
    · exact .first h
    · exact .second h

theorem Pattern.matches_many_one_iff {holds : Char → Bool} :
    (many greedy (one holds)).Matches x ↔ ∀ c ∈ x, holds c = true := by
  constructor
  · intro h
    generalize hp : many greedy (one holds) = p at h
    induction h with
    | none => simp
    | more _ hone _ _ ih =>
      cases hp
      obtain ⟨c, hc, rfl⟩ := matches_one_iff.1 hone
      simpa [hc] using ih rfl
    | _ => cases hp
  · intro h
    induction x with
    | nil => exact .none
    | cons c x ih =>
      rw [List.forall_mem_cons] at h
      exact .more (x := [c]) (List.cons_ne_nil c []) (.one h.1) (ih h.2)

end Ways

/-! ## The parts of the two patterns -/

namespace Pattern

/-- The character itself. -/
def char (c : Char) : Pattern :=
  one (· == c)

/-- The letters of the word, in any case. -/
def word (letters : List Char) : Pattern :=
  letters.foldr (fun w p => seq (one (sameLetter w)) p) empty

/-- White space, as much as there is. -/
def blanks : Pattern :=
  many true (one isBlank)

/-- The pattern once and then as often as wanted. -/
def plus (greedy : Bool) (p : Pattern) : Pattern :=
  seq p (many greedy p)

/-- A placeholder, the one in quotes first. -/
def placeholder : Pattern :=
  either (seq (char '\x27') (seq (char '?') (char '\x27'))) (char '?')

/-- A comma and a placeholder, white space around the comma. -/
def item : Pattern :=
  seq blanks (seq (char ',') (seq blanks placeholder))

/-- Two placeholders or more. -/
def list : Pattern :=
  seq placeholder (plus true item)

end Pattern

section Parts

open Pattern

variable {x : List Char}

theorem matches_char_iff {c : Char} : (char c).Matches x ↔ x = [c] := by
  simp [char, matches_one_iff]

theorem matches_blanks_iff : blanks.Matches x ↔ Blanks x :=
  matches_many_one_iff

theorem matches_word_iff {letters : List Char} : (word letters).Matches x ↔ Spells letters x := by
  induction letters generalizing x with
  | nil =>
    constructor
    · rintro ⟨⟩
      exact .nil
    · rintro ⟨⟩
      exact .empty
  | cons w letters ih =>
    rw [word, List.foldr_cons, matches_seq_iff]
    constructor
    · rintro ⟨y, z, hy, hz, rfl⟩
      obtain ⟨c, hc, rfl⟩ := matches_one_iff.1 hy
      exact .cons hc (ih.1 hz)
    · intro h
      cases h with
      | cons hc h => exact ⟨[_], _, .one hc, ih.2 h, rfl⟩

theorem matches_placeholder_iff : placeholder.Matches x ↔ Placeholder x := by
  simp only [placeholder, matches_either_iff, matches_seq_iff, matches_char_iff]
  constructor
  · rintro (⟨_, _, rfl, ⟨_, _, rfl, rfl, rfl⟩, rfl⟩ | rfl)
    · exact .quoted
    · exact .mark
  · rintro (_ | _)
    · exact .inr rfl
    · exact .inl ⟨_, _, rfl, ⟨_, _, rfl, rfl, rfl⟩, rfl⟩

theorem matches_item_iff : item.Matches x ↔ ∃ before after placeholder, Blanks before ∧
    Blanks after ∧ Placeholder placeholder ∧ x = before ++ ',' :: (after ++ placeholder) := by
  simp only [item, matches_seq_iff, matches_char_iff, matches_blanks_iff, matches_placeholder_iff]
  constructor
  · rintro ⟨before, _, hb, ⟨_, _, rfl, ⟨after, ph, ha, hph, rfl⟩, rfl⟩, rfl⟩
    exact ⟨before, after, ph, hb, ha, hph, rfl⟩
  · rintro ⟨before, after, ph, hb, ha, hph, rfl⟩
    exact ⟨before, _, hb, ⟨_, _, rfl, ⟨after, ph, ha, hph, rfl⟩, rfl⟩, rfl⟩

theorem matches_items_iff : (many true item).Matches x ↔ Items x := by
  constructor
  · intro h
    generalize hp : many true item = p at h
    induction h with
    | none => exact .nil
    | more _ hitem _ _ ih =>
      cases hp
      obtain ⟨before, after, ph, hb, ha, hph, rfl⟩ := matches_item_iff.1 hitem
      simpa using Items.cons hb ha hph (ih rfl)
    | _ => cases hp
  · intro h
    induction h with
    | nil => exact .none
    | @cons before after ph items hb ha hph _ ih =>
      have hitem := matches_item_iff.2 ⟨before, after, ph, hb, ha, hph, rfl⟩
      simpa using Matches.more (by simp) hitem ih

theorem matches_list_iff : list.Matches x ↔ PlaceholderList x := by
  simp only [list, plus, matches_seq_iff, matches_placeholder_iff, matches_item_iff,
    matches_items_iff]
  constructor
  · rintro ⟨ph, _, hph, ⟨_, items, ⟨before, after, ph', hb, ha, hph', rfl⟩, hitems, rfl⟩, rfl⟩
    have hcons := Items.cons hb ha hph' hitems
    simp only [List.append_assoc, List.cons_append]
    exact .mk hph hcons (by simp)
  · intro h
    cases h with
    | @mk ph _ hph hitems hne =>
      cases hitems with
      | nil => exact absurd rfl hne
      | @cons before after ph' items hb ha hph' hitems =>
        exact ⟨ph, _, hph, ⟨_, items, ⟨before, after, ph', hb, ha, hph', rfl⟩, hitems, rfl⟩,
          by simp⟩

end Parts

/-! ## The two patterns -/

namespace Pattern

/-- The pattern for `IN` up to the parenthesis. -/
def inFront (delimiter : Char) : Pattern :=
  seq (one fun c => isBlank c || sameLetter c delimiter)
    (seq (word ['i', 'n']) (seq blanks (char '(')))

/-- White space and the parenthesis behind a list. -/
def closing : Pattern :=
  seq blanks (char ')')

/-- The pattern for `IN` behind the parenthesis. -/
def inInside : Pattern :=
  seq blanks (seq list closing)

/-- The pattern for `FIELD` up to the list. -/
def fieldFront : Pattern :=
  seq (one isBlank) (seq (word ['f', 'i', 'e', 'l', 'd']) (seq blanks (seq (char '(')
    (seq blanks (seq (plus false (one isArgumentChar)) (seq blanks (seq (char ',') blanks)))))))

end Pattern

/-- A part of a pattern, and what is written for the text it takes. -/
structure Piece where
  pattern : Pattern
  written : List Char → List Char

/-- The pattern for `IN`. Its first part stays, and one placeholder stands for the rest. -/
def inPieces (delimiter : Char) : List Piece :=
  [⟨.inFront delimiter, id⟩, ⟨.inInside, fun _ => ['?', ')']⟩]

/-- The pattern for `FIELD`. All but the list stays. -/
def fieldPieces : List Piece :=
  [⟨.fieldFront, id⟩, ⟨.list, fun _ => ['?']⟩, ⟨.closing, id⟩]

/-- The ways to match the pieces one after the other at the head of the text. -/
def matchesOf : List Piece → List Char → List Match
  | [], s => [⟨[], s⟩]
  | p :: ps, s =>
    (p.pattern.ways s).flatMap fun w =>
      (matchesOf ps w.2).map fun m => ⟨p.written w.1 ++ m.written, m.rest⟩

/-- The match that is taken. -/
def first? (ps : List Piece) (s : List Char) : Option Match :=
  (matchesOf ps s).head?

section Pieces

open Pattern

variable {delimiter : Char} {s x : List Char} {m : Match}

theorem mem_matchesOf_nil : m ∈ matchesOf [] s ↔ m = ⟨[], s⟩ :=
  List.mem_singleton

theorem mem_matchesOf_cons {p : Piece} {ps : List Piece} : m ∈ matchesOf (p :: ps) s ↔
    ∃ x y m', s = x ++ y ∧ p.pattern.Matches x ∧ m' ∈ matchesOf ps y ∧
      m = ⟨p.written x ++ m'.written, m'.rest⟩ := by
  rw [matchesOf, List.mem_flatMap]
  constructor
  · rintro ⟨⟨x, y⟩, hx, hm⟩
    obtain ⟨m', hm', rfl⟩ := List.mem_map.1 hm
    obtain ⟨rfl, hp⟩ := mem_ways.1 hx
    exact ⟨x, y, m', rfl, hp, hm', rfl⟩
  · rintro ⟨x, y, m', rfl, hp, hm', rfl⟩
    exact ⟨(x, y), mem_ways.2 ⟨rfl, hp⟩, List.mem_map.2 ⟨m', hm', rfl⟩⟩

theorem matches_inFront_iff : (inFront delimiter).Matches x ↔ ∃ lead word blanks,
    (isBlank lead = true ∨ sameLetter lead delimiter = true) ∧ Spells ['i', 'n'] word ∧
      Blanks blanks ∧ x = lead :: (word ++ blanks) ++ ['('] := by
  simp only [inFront, matches_seq_iff, matches_one_iff, matches_char_iff, matches_blanks_iff,
    matches_word_iff, Bool.or_eq_true]
  constructor
  · rintro ⟨_, _, ⟨lead, hlead, rfl⟩, ⟨word, _, hword, ⟨blanks, _, hblanks, rfl, rfl⟩, rfl⟩, rfl⟩
    exact ⟨lead, word, blanks, hlead, hword, hblanks, by simp⟩
  · rintro ⟨lead, word, blanks, hlead, hword, hblanks, rfl⟩
    exact ⟨[lead], _, ⟨lead, hlead, rfl⟩, ⟨word, _, hword, ⟨blanks, _, hblanks, rfl, rfl⟩, rfl⟩,
      by simp⟩

theorem matches_closing_iff : closing.Matches x ↔ ∃ after, Blanks after ∧ x = after ++ [')'] := by
  simp only [closing, matches_seq_iff, matches_char_iff, matches_blanks_iff]
  constructor
  · rintro ⟨after, _, ha, rfl, rfl⟩
    exact ⟨after, ha, rfl⟩
  · rintro ⟨after, ha, rfl⟩
    exact ⟨after, _, ha, rfl, rfl⟩

theorem matches_inInside_iff : inInside.Matches x ↔ ∃ before list after, Blanks before ∧
    PlaceholderList list ∧ Blanks after ∧ x = before ++ (list ++ after) ++ [')'] := by
  simp only [inInside, matches_seq_iff, matches_closing_iff, matches_blanks_iff, matches_list_iff]
  constructor
  · rintro ⟨before, _, hb, ⟨list, _, hlist, ⟨after, ha, rfl⟩, rfl⟩, rfl⟩
    exact ⟨before, list, after, hb, hlist, ha, by simp⟩
  · rintro ⟨before, list, after, hb, hlist, ha, rfl⟩
    exact ⟨before, _, hb, ⟨list, _, hlist, ⟨after, ha, rfl⟩, rfl⟩, by simp⟩

/-- The blanks around the argument can be counted to it. -/
theorem matches_fieldFront_iff : fieldFront.Matches x ↔ ∃ lead word blanks argument before,
    isBlank lead = true ∧ Spells ['f', 'i', 'e', 'l', 'd'] word ∧ Blanks blanks ∧ argument ≠ [] ∧
      (∀ c ∈ argument, isArgumentChar c = true) ∧ Blanks before ∧
      x = lead :: (word ++ blanks) ++ '(' :: (argument ++ ',' :: before) := by
  have hplus : ∀ {x}, (plus false (one isArgumentChar)).Matches x ↔
      x ≠ [] ∧ ∀ c ∈ x, isArgumentChar c = true := by
    intro x
    rw [plus, matches_seq_iff]
    constructor
    · rintro ⟨_, y, hone, hy, rfl⟩
      obtain ⟨c, hc, rfl⟩ := matches_one_iff.1 hone
      refine ⟨List.cons_ne_nil c y, ?_⟩
      rw [List.singleton_append, List.forall_mem_cons]
      exact ⟨hc, matches_many_one_iff.1 hy⟩
    · rintro ⟨hne, hall⟩
      obtain ⟨c, y, rfl⟩ := List.exists_cons_of_ne_nil hne
      rw [List.forall_mem_cons] at hall
      exact ⟨[c], y, .one hall.1, matches_many_one_iff.2 hall.2, rfl⟩
  have hblank : ∀ {cs}, Blanks cs → ∀ c ∈ cs, isArgumentChar c = true := by
    intro cs hcs c hc
    have hne : ∀ d, isBlank d = false → (c == d) = false := fun d hd =>
      beq_false_of_ne (ne_of_isBlank (hcs c hc) hd)
    simp [isArgumentChar, hne ',' (by decide), hne '(' (by decide), hne ')' (by decide)]
  simp only [fieldFront, matches_seq_iff, hplus, matches_one_iff, matches_char_iff,
    matches_blanks_iff, matches_word_iff]
  constructor
  · rintro ⟨_, _, ⟨lead, hlead, rfl⟩, ⟨word, _, hword, ⟨blanks, _, hblanks, ⟨_, _, rfl,
      ⟨left, _, hleft, ⟨argument, _, ⟨hne, hall⟩, ⟨right, _, hright, ⟨_, before, rfl, hb, rfl⟩, rfl⟩,
      rfl⟩, rfl⟩, rfl⟩, rfl⟩, rfl⟩, rfl⟩
    refine ⟨lead, word, blanks, left ++ (argument ++ right), before, hlead, hword, hblanks,
      by simp [hne], ?_, hb, by simp⟩
    intro c hc
    simp only [List.mem_append] at hc
    rcases hc with hc | hc | hc
    · exact hblank hleft c hc
    · exact hall c hc
    · exact hblank hright c hc
  · rintro ⟨lead, word, blanks, argument, before, hlead, hword, hblanks, hne, hall, hb, rfl⟩
    exact ⟨[lead], _, ⟨lead, hlead, rfl⟩, ⟨word, _, hword, ⟨blanks, _, hblanks, ⟨_, _, rfl,
      ⟨[], _, by simp [Blanks], ⟨argument, _, ⟨hne, hall⟩, ⟨[], _, by simp [Blanks],
      ⟨_, before, rfl, hb, rfl⟩, rfl⟩, rfl⟩, rfl⟩, rfl⟩, rfl⟩, rfl⟩, by simp⟩

theorem mem_matchesOf_inPieces : m ∈ matchesOf (inPieces delimiter) s ↔
    inList? delimiter s = some m := by
  rw [inList?_iff]
  simp only [inPieces, mem_matchesOf_cons, mem_matchesOf_nil, matches_inFront_iff,
    matches_inInside_iff]
  constructor
  · rintro ⟨_, _, _, rfl, ⟨lead, word, blanks, hlead, hword, hblanks, rfl⟩, ⟨_, rest, _, rfl,
      ⟨before, list, after, hb, hlist, ha, rfl⟩, rfl, rfl⟩, rfl⟩
    exact ⟨_, _, _, rest, .mk hlead hword hblanks hb hlist ha, by simp, by simp⟩
  · rintro ⟨_, _, _, rest, hg, rfl, rfl⟩
    cases hg with
    | mk hlead hword hblanks hb hlist ha =>
      refine ⟨_, _, _, ?_, ⟨_, _, _, hlead, hword, hblanks, rfl⟩, ⟨_, rest, _, rfl,
        ⟨_, _, _, hb, hlist, ha, rfl⟩, rfl, rfl⟩, ?_⟩
      · simp
      · simp

theorem mem_matchesOf_fieldPieces : m ∈ matchesOf fieldPieces s ↔ fieldList? s = some m := by
  rw [fieldList?_iff]
  simp only [fieldPieces, mem_matchesOf_cons, mem_matchesOf_nil,
    matches_fieldFront_iff, matches_list_iff, matches_closing_iff]
  constructor
  · rintro ⟨_, _, _, rfl, ⟨lead, word, blanks, argument, before, hlead, hword, hblanks, hne, hall, hb,
      rfl⟩, ⟨list, _, _, rfl, hlist, ⟨_, rest, _, rfl, ⟨after, ha, rfl⟩, rfl, rfl⟩, rfl⟩, rfl⟩
    exact ⟨_, _, _, rest, .mk hlead hword hblanks hne hall hb hlist ha, by simp, by simp⟩
  · rintro ⟨_, _, _, rest, hg, rfl, rfl⟩
    cases hg with
    | mk hlead hword hblanks hne hall hb hlist ha =>
      refine ⟨_, _, _, ?_, ⟨_, _, _, _, _, hlead, hword, hblanks, hne, hall, hb, rfl⟩,
        ⟨_, _, _, rfl, hlist, ⟨_, rest, _, rfl, ⟨_, ha, rfl⟩, rfl, rfl⟩, rfl⟩, ?_⟩
      · simp
      · simp

/-- If the ways to match agree, their order does not matter. -/
theorem first?_eq_of_mem_iff {ps : List Piece} {o : Option Match}
    (h : ∀ m, m ∈ matchesOf ps s ↔ o = some m) : first? ps s = o := by
  rw [first?]
  generalize matchesOf ps s = ms at h ⊢
  cases ms with
  | nil =>
    cases o with
    | none => rfl
    | some m => exact absurd ((h m).2 rfl) List.not_mem_nil
  | cons m ms => exact ((h m).1 List.mem_cons_self).symm

theorem first?_inPieces (delimiter : Char) (s : List Char) :
    first? (inPieces delimiter) s = inList? delimiter s :=
  first?_eq_of_mem_iff fun _ => mem_matchesOf_inPieces

theorem first?_fieldPieces (s : List Char) : first? fieldPieces s = fieldList? s :=
  first?_eq_of_mem_iff fun _ => mem_matchesOf_fieldPieces

end Pieces

/-- Shortening the lists of a text follows the two patterns. It shortens each group of both kinds and
changes nothing else; then neither pattern matches anywhere, and shortening the lists again changes
nothing. Lists are reported exactly where the text has changed. -/
theorem collapse_exact {delimiter : Char} (hd : delimiter ≠ ')') (text : String) :
    (∀ s, (inRule delimiter).match? s = first? (inPieces delimiter) s ∧
      fieldRule.match? s = first? fieldPieces s) ∧
    (∀ out : String, Rewrites (Group delimiter) [] text.toList out.toList ↔
      out = collapse delimiter text) ∧
    (∀ s, s <:+ (collapse delimiter text).toList →
      first? (inPieces delimiter) s = none ∧ first? fieldPieces s = none) ∧
    collapse? delimiter (collapse delimiter text) = none ∧
    (collapse? delimiter text ≠ none ↔ collapse delimiter text ≠ text) := by
  refine ⟨fun s => ⟨(first?_inPieces delimiter s).symm, (first?_fieldPieces s).symm⟩,
    fun out => ⟨fun h => ?_, ?_⟩, fun s hs => ?_, collapse?_collapse hd text,
    collapse?_ne_none_iff delimiter text⟩
  · have hout := h.unique (parenthesized_group hd) (fun hs hs' => stands_unique hs hs')
      (rewrites_collapse hd text)
    exact String.toList_inj.1 hout
  · rintro rfl
    exact rewrites_collapse hd text
  · obtain ⟨hin, hfield⟩ := free_collapse hd text
    rw [first?_inPieces, first?_fieldPieces]
    exact ⟨hin s hs, hfield s hs⟩

/-- Lists of both kinds. What is left between the second parentheses is no list of `IN`. -/
theorem collapse_exact_both : '\x60' ≠ ')' ∧
    Rewrites (Group '\x60') [] "a\x60in( ?,'?' ) field(?, ?, ?)".toList
      "a\x60in(?) field(?, ?)".toList ∧
    collapse? '\x60' "a\x60in(?) field(?, ?)" = none := by
  have hd : '\x60' ≠ ')' := by decide
  obtain ⟨-, hrewrites, -, hagain, -⟩ := collapse_exact hd "a\x60in( ?,'?' ) field(?, ?, ?)"
  have hcollapse : collapse '\x60' "a\x60in( ?,'?' ) field(?, ?, ?)" =
      "a\x60in(?) field(?, ?)" := by
    decide +kernel
  rw [hcollapse] at hrewrites hagain
  exact ⟨hd, (hrewrites _).2 rfl, hagain⟩

end EnumList
end QueryDigest
