import QueryDigest.Text.Blank
import QueryDigest.Text.Fold

/-!
# QueryDigest.EnumList.Rule

The two rules by which placeholder lists are shortened, each tried at one place of a text. A rule
answers with what to write for the text it matches and with what follows that text; it matches
only if all that stands between the parentheses fits, so a list with a column or a query in it is
left alone.

What a rule reads it takes from the head of the text, so what follows a match is shorter than the
text (`length_of_inList?`, `length_of_fieldList?`).
-/

namespace QueryDigest
namespace EnumList

/-! ## Placeholder lists -/

/-- What follows a placeholder at the head of the text. -/
def afterPlaceholder? : List Char → Option (List Char)
  | '?' :: rest => some rest
  | '\x27' :: '?' :: '\x27' :: rest => some rest
  | _ => none

/-- What follows the white space at the head of the text. -/
def afterBlanks (s : List Char) : List Char :=
  s.dropWhile Text.isBlank

/-- What follows a comma and a placeholder, white space around the comma. -/
def afterItem? (s : List Char) : Option (List Char) :=
  match afterBlanks s with
  | ',' :: rest => afterPlaceholder? (afterBlanks rest)
  | _ => none

theorem length_afterPlaceholder? {s r : List Char} (h : afterPlaceholder? s = some r) :
    r.length < s.length := by
  unfold afterPlaceholder? at h
  split at h
  · cases h
    simp
  · cases h
    simp
    omega
  · cases h

theorem length_afterBlanks (s : List Char) : (afterBlanks s).length ≤ s.length :=
  List.dropWhile_sublist _ |>.length_le

theorem length_afterItem? {s r : List Char} (h : afterItem? s = some r) :
    r.length < s.length := by
  unfold afterItem? at h
  split at h
  · rename_i rest hs
    have h₁ := length_afterPlaceholder? h
    have h₂ := length_afterBlanks rest
    have h₃ := length_afterBlanks s
    rw [hs, List.length_cons] at h₃
    omega
  · cases h

/-- What follows as many items as there are. -/
def afterItems (s : List Char) : List Char :=
  match h : afterItem? s with
  | some rest =>
    have := length_afterItem? h
    afterItems rest
  | none => s
termination_by s.length

/-- What follows a list of two placeholders or more. -/
def afterList? (s : List Char) : Option (List Char) := do
  let first ← afterPlaceholder? s
  let second ← afterItem? first
  return afterItems second

theorem length_afterItems (s : List Char) : (afterItems s).length ≤ s.length := by
  fun_induction afterItems s with
  | case1 s rest h hlt ih => omega
  | case2 s h => exact Nat.le_refl _

theorem length_afterList? {s r : List Char} (h : afterList? s = some r) :
    r.length < s.length := by
  simp only [afterList?, Option.bind_eq_bind, Option.bind_eq_some_iff, Option.pure_def,
    Option.some.injEq] at h
  obtain ⟨first, h₁, second, h₂, rfl⟩ := h
  have := length_afterPlaceholder? h₁
  have := length_afterItem? h₂
  have := length_afterItems second
  omega

/-! ## Rules -/

/-- A place where a rule fits. -/
structure Match where
  /-- What is written for the text matched. -/
  written : List Char
  /-- What follows the text matched. -/
  rest : List Char

/-- The word at the head of the text, in any case, and what follows it. -/
def takeWord? : List Char → List Char → Option (List Char × List Char)
  | [], s => some ([], s)
  | w :: word, c :: s =>
    if Text.sameLetter w c then
      (takeWord? word s).map fun (taken, rest) => (c :: taken, rest)
    else
      none
  | _ :: _, [] => none

/-- The white space at the head of the text, and what follows it. -/
def takeBlanks (s : List Char) : List Char × List Char :=
  (s.takeWhile Text.isBlank, s.dropWhile Text.isBlank)

/-- The character `c` at the head of the text, white space before it, and what follows. -/
def takeMark? (c : Char) (s : List Char) : Option (List Char × List Char) :=
  match takeBlanks s with
  | (blanks, d :: rest) => if d == c then some (blanks ++ [d], rest) else none
  | (_, []) => none

/-- Can the character stand in a first argument? -/
def isArgumentChar (c : Char) : Bool :=
  !(c == ',' || c == '(' || c == ')')

/-- A non-empty run of characters other than comma and parentheses with the comma after it, and
what follows. -/
def takeArgument? (s : List Char) : Option (List Char × List Char) :=
  match s.takeWhile isArgumentChar, s.dropWhile isArgumentChar with
  | a :: run, ',' :: rest => some (a :: (run ++ [',']), rest)
  | _, _ => none

/-- The rule for `IN (?, ?)`, which white space or the identifier delimiter comes before. The text
up to the parenthesis stays as it is. -/
def inList? (delimiter : Char) : List Char → Option Match
  | [] => none
  | lead :: s =>
    if Text.isBlank lead || Text.sameLetter lead delimiter then do
      let (word, s) ← takeWord? ['i', 'n'] s
      let (opening, s) ← takeMark? '(' s
      let s ← afterList? (afterBlanks s)
      let (_, rest) ← takeMark? ')' s
      return ⟨lead :: (word ++ opening ++ ['?', ')']), rest⟩
    else none

/-- The rule for `FIELD(x, ?, ?)`, which white space comes before. All but the list stays as it
is. -/
def fieldList? : List Char → Option Match
  | [] => none
  | lead :: s =>
    if Text.isBlank lead then do
      let (word, s) ← takeWord? ['f', 'i', 'e', 'l', 'd'] s
      let (opening, s) ← takeMark? '(' s
      let (first, s) ← takeArgument? s
      let (blanks, s) := takeBlanks s
      let s ← afterList? s
      let (closing, rest) ← takeMark? ')' s
      return ⟨lead :: (word ++ opening ++ first ++ blanks ++ '?' :: closing), rest⟩
    else none

/-! ## What is taken and what follows are the text -/

theorem append_takeBlanks (s : List Char) : (takeBlanks s).1 ++ (takeBlanks s).2 = s :=
  List.takeWhile_append_dropWhile

theorem append_of_takeWord? {word s taken rest : List Char}
    (h : takeWord? word s = some (taken, rest)) : taken ++ rest = s := by
  induction word generalizing s taken with
  | nil =>
    cases h
    rfl
  | cons w word ih =>
    cases s with
    | nil => cases h
    | cons c s =>
      unfold takeWord? at h
      split at h
      · simp only [Option.map_eq_some_iff, Prod.mk.injEq, Prod.exists] at h
        obtain ⟨t, r, hr, rfl, rfl⟩ := h
        simp [ih hr]
      · cases h

theorem append_of_takeMark? {c : Char} {s taken rest : List Char}
    (h : takeMark? c s = some (taken, rest)) : taken ++ rest = s := by
  have happ := append_takeBlanks s
  unfold takeMark? at h
  split at h
  · rename_i blanks d r hs
    rw [hs] at happ
    split at h
    · cases h
      simpa using happ
    · cases h
  · cases h

theorem append_of_takeArgument? {s taken rest : List Char}
    (h : takeArgument? s = some (taken, rest)) : taken ++ rest = s := by
  have happ : s.takeWhile isArgumentChar ++ s.dropWhile isArgumentChar = s :=
    List.takeWhile_append_dropWhile
  unfold takeArgument? at h
  split at h
  · rename_i a run r hrun hrest
    cases h
    rw [hrun, hrest] at happ
    simpa using happ
  · cases h

/-- What follows a match of the rule for `IN` is shorter than the text. -/
theorem length_of_inList? {delimiter : Char} {s : List Char} {m : Match}
    (h : inList? delimiter s = some m) : m.rest.length < s.length := by
  cases s with
  | nil => cases h
  | cons lead s =>
    simp only [inList?, Option.ite_none_right_eq_some, Option.bind_eq_bind,
      Option.bind_eq_some_iff, Option.pure_def, Option.some.injEq, Prod.exists] at h
    obtain ⟨_, word, s₁, h₁, opening, s₂, h₂, s₃, h₃, closing, rest, h₄, rfl⟩ := h
    have e₁ := congrArg List.length (append_of_takeWord? h₁)
    have e₂ := congrArg List.length (append_of_takeMark? h₂)
    have e₃ := length_afterList? h₃
    have e₃' := length_afterBlanks s₂
    have e₄ := congrArg List.length (append_of_takeMark? h₄)
    simp only [List.length_append, List.length_cons] at *
    omega

/-- What follows a match of the rule for `FIELD` is shorter than the text. -/
theorem length_of_fieldList? {s : List Char} {m : Match} (h : fieldList? s = some m) :
    m.rest.length < s.length := by
  cases s with
  | nil => cases h
  | cons lead s =>
    simp only [fieldList?, Option.ite_none_right_eq_some, Option.bind_eq_bind,
      Option.bind_eq_some_iff, Option.pure_def, Option.some.injEq, Prod.exists] at h
    obtain ⟨_, word, s₁, h₁, opening, s₂, h₂, first, s₃, h₃, s₄, h₄, closing, rest, h₅, rfl⟩ := h
    have e₁ := congrArg List.length (append_of_takeWord? h₁)
    have e₂ := congrArg List.length (append_of_takeMark? h₂)
    have e₃ := congrArg List.length (append_of_takeArgument? h₃)
    have e₃' := congrArg List.length (append_takeBlanks s₃)
    have e₄ := length_afterList? h₄
    have e₅ := congrArg List.length (append_of_takeMark? h₅)
    simp only [List.length_append, List.length_cons] at *
    omega

/-- A rule whose matches take at least one character. -/
structure Rule where
  match? : List Char → Option Match
  length_lt : ∀ {s m}, match? s = some m → m.rest.length < s.length

/-- The rule for `IN` lists behind the given identifier delimiter. -/
def inRule (delimiter : Char) : Rule :=
  ⟨inList? delimiter, length_of_inList?⟩

/-- The rule for `FIELD` lists. -/
def fieldRule : Rule :=
  ⟨fieldList?, length_of_fieldList?⟩

end EnumList
end QueryDigest
