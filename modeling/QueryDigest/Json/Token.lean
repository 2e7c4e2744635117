import QueryDigest.Json.Piece

/-!
# QueryDigest.Json.Token

The tokens of a JSON text. `tokens?` splits a text into them, white space between them dropped;
it has no answer for a text that some token of it breaks the grammar.
-/

namespace QueryDigest
namespace Json

/-- A token of a JSON text. -/
inductive Token where
  | openBrace
  | closeBrace
  | openBracket
  | closeBracket
  | comma
  | colon
  | null
  | bool (b : Bool)
  | number (digits : String)
  | string (text : Option String)
deriving DecidableEq, Repr

namespace Token

/-- White space between tokens. -/
def isSpace (c : Char) : Bool :=
  c == ' ' || c == '\t' || c == '\n' || c == '\r'

/-- The digits at the head of the text, at least one of them, and what follows. -/
def digits? (s : List Char) : Option (List Char × List Char) :=
  match s.takeWhile Char.isDigit with
  | [] => none
  | d :: ds => some (d :: ds, s.dropWhile Char.isDigit)

/-- The whole part of a number: a zero, or digits of which the first is none. -/
def whole? (s : List Char) : Option (List Char × List Char) := do
  let (digits, rest) ← digits? s
  if digits.head? != some '0' || digits.length == 1 then some (digits, rest) else none

/-- The fraction of a number, where there is one: a point and digits. -/
def fraction? : List Char → Option (List Char × List Char)
  | '.' :: s => do
    let (digits, rest) ← digits? s
    return ('.' :: digits, rest)
  | s => some ([], s)

/-- The exponent of a number, where there is one: a letter, perhaps a sign, and digits. -/
def exponent? : List Char → Option (List Char × List Char)
  | [] => some ([], [])
  | e :: s =>
    if e == 'e' || e == 'E' then
      match s with
      | sign :: s' =>
        if sign == '+' || sign == '-' then do
          let (digits, rest) ← digits? s'
          return (e :: sign :: digits, rest)
        else do
          let (digits, rest) ← digits? s
          return (e :: digits, rest)
      | [] => none
    else
      some ([], e :: s)

/-- A number without its sign, and what follows. -/
def unsigned? (s : List Char) : Option (List Char × List Char) := do
  let (whole, s) ← whole? s
  let (fraction, s) ← fraction? s
  let (exponent, rest) ← exponent? s
  return (whole ++ fraction ++ exponent, rest)

/-- The token that begins with the character `c`, the rest of the text being `s`, and what follows
the token. -/
def read? (c : Char) (s : List Char) : Option (Token × List Char) :=
  match c, s with
  | '\x7b', _ => some (.openBrace, s)
  | '\x7d', _ => some (.closeBrace, s)
  | '[', _ => some (.openBracket, s)
  | ']', _ => some (.closeBracket, s)
  | ',', _ => some (.comma, s)
  | ':', _ => some (.colon, s)
  | 'n', 'u' :: 'l' :: 'l' :: rest => some (.null, rest)
  | 't', 'r' :: 'u' :: 'e' :: rest => some (.bool true, rest)
  | 'f', 'a' :: 'l' :: 's' :: 'e' :: rest => some (.bool false, rest)
  | '\x22', _ => do
    let (pieces, rest) ← readPieces? s
    return (.string ((text? pieces).map String.ofList), rest)
  | '-', _ => do
    let (digits, rest) ← unsigned? s
    return (.number (String.ofList ('-' :: digits)), rest)
  | _, _ => do
    let (digits, rest) ← unsigned? (c :: s)
    return (.number (String.ofList digits), rest)

theorem length_of_digits? {s digits rest : List Char} (h : digits? s = some (digits, rest)) :
    rest.length < s.length := by
  have happ : s.takeWhile Char.isDigit ++ s.dropWhile Char.isDigit = s :=
    List.takeWhile_append_dropWhile
  unfold digits? at h
  split at h
  · cases h
  · rename_i d ds hd
    cases h
    rw [hd] at happ
    have := congrArg List.length happ
    simp only [List.length_append, List.length_cons] at this
    omega

theorem length_of_fraction? {s digits rest : List Char} (h : fraction? s = some (digits, rest)) :
    rest.length ≤ s.length := by
  unfold fraction? at h
  split at h
  · simp only [Option.bind_eq_bind, Option.bind_eq_some_iff, Option.pure_def, Option.some.injEq,
      Prod.mk.injEq, Prod.exists] at h
    obtain ⟨ds, r, hd, _, rfl⟩ := h
    have := length_of_digits? hd
    simp only [List.length_cons]
    omega
  · cases h
    exact Nat.le_refl _

theorem length_of_exponent? {s digits rest : List Char} (h : exponent? s = some (digits, rest)) :
    rest.length ≤ s.length := by
  unfold exponent? at h
  split at h
  · cases h
    exact Nat.le_refl _
  · split at h
    · split at h
      · split at h <;>
          · simp only [Option.bind_eq_bind, Option.bind_eq_some_iff, Option.pure_def,
              Option.some.injEq, Prod.mk.injEq, Prod.exists] at h
            obtain ⟨ds, r, hd, _, rfl⟩ := h
            have := length_of_digits? hd
            simp only [List.length_cons] at *
            omega
      · cases h
    · cases h
      exact Nat.le_refl _

theorem length_of_unsigned? {s digits rest : List Char} (h : unsigned? s = some (digits, rest)) :
    rest.length < s.length := by
  simp only [unsigned?, whole?, Option.bind_eq_bind, Option.bind_eq_some_iff, Option.pure_def,
    Option.ite_none_right_eq_some, Option.some.injEq, Prod.mk.injEq, Prod.exists] at h
  obtain ⟨w, s₁, ⟨ds, r, hd, _, _, rfl⟩, f, s₂, hf, e, s₃, he, _, rfl⟩ := h
  have := length_of_digits? hd
  have := length_of_fraction? hf
  have := length_of_exponent? he
  omega

/-- What follows a token is no longer than what follows its first character. -/
theorem length_of_read? {c : Char} {s rest : List Char} {t : Token}
    (h : read? c s = some (t, rest)) : rest.length ≤ s.length := by
  unfold read? at h
  split at h
  case h_10 =>
    simp only [Option.bind_eq_bind, Option.bind_eq_some_iff, Option.pure_def, Option.some.injEq,
      Prod.mk.injEq, Prod.exists] at h
    obtain ⟨_, r, hr, _, rfl⟩ := h
    exact Nat.le_of_lt (length_of_readPieces? hr)
  case h_11 =>
    simp only [Option.bind_eq_bind, Option.bind_eq_some_iff, Option.pure_def, Option.some.injEq,
      Prod.mk.injEq, Prod.exists] at h
    obtain ⟨_, r, hr, _, rfl⟩ := h
    exact Nat.le_of_lt (length_of_unsigned? hr)
  case h_12 =>
    simp only [Option.bind_eq_bind, Option.bind_eq_some_iff, Option.pure_def, Option.some.injEq,
      Prod.mk.injEq, Prod.exists] at h
    obtain ⟨_, r, hr, _, rfl⟩ := h
    have := length_of_unsigned? hr
    simp only [List.length_cons] at this
    omega
  all_goals
    simp only [Option.some.injEq, Prod.mk.injEq] at h
    obtain ⟨_, rfl⟩ := h
    grind

end Token

/-- The tokens of a text behind the tokens `done`, which are kept in reverse. -/
def tokensFrom? (done : List Token) (s : List Char) : Option (List Token) :=
  match s with
  | [] => some done.reverse
  | c :: s =>
    if Token.isSpace c then
      tokensFrom? done s
    else
      match h : Token.read? c s with
      | some (t, rest) =>
        have := Token.length_of_read? h
        tokensFrom? (t :: done) rest
      | none => none
termination_by s.length

/-- The tokens of a text. -/
def tokens? (s : List Char) : Option (List Token) :=
  tokensFrom? [] s

end Json
end QueryDigest
