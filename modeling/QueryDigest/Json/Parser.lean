import QueryDigest.Json.Basic
import QueryDigest.Json.Token

/-!
# QueryDigest.Json.Parser

Reading a JSON text. The text holds one value and white space; arrays and objects nest to any
depth. Each function takes what it reads from the head of the tokens and answers with fewer
tokens than it was given, by which the recursion ends.
-/

namespace QueryDigest
namespace Json

/-- Tokens, fewer than `ts`. -/
abbrev Fewer (ts : List Token) :=
  { rest : List Token // rest.length < ts.length }

mutual

/-- The value at the head of the tokens, and what follows it. -/
def value? : (ts : List Token) → Option (Json × Fewer ts)
  | .null :: ts => some (.null, ⟨ts, Nat.lt_succ_self _⟩)
  | .bool b :: ts => some (.bool b, ⟨ts, Nat.lt_succ_self _⟩)
  | .number digits :: ts => some (.number digits, ⟨ts, Nat.lt_succ_self _⟩)
  | .string text :: ts => some (.string text, ⟨ts, Nat.lt_succ_self _⟩)
  | .openBracket :: .closeBracket :: ts =>
    some (.array [], ⟨ts, Nat.lt_succ_of_lt (Nat.lt_succ_self _)⟩)
  | .openBracket :: ts =>
    match items? ts with
    | some (items, ⟨rest, h⟩) => some (.array items, ⟨rest, Nat.lt_succ_of_lt h⟩)
    | none => none
  | .openBrace :: .closeBrace :: ts =>
    some (.object [], ⟨ts, Nat.lt_succ_of_lt (Nat.lt_succ_self _)⟩)
  | .openBrace :: ts =>
    match members? ts with
    | some (members, ⟨rest, h⟩) => some (.object members, ⟨rest, Nat.lt_succ_of_lt h⟩)
    | none => none
  | _ => none
termination_by ts => (ts.length, 0)

/-- The values of an array up to its closing bracket, at least one, and what follows. -/
def items? (ts : List Token) : Option (List Json × Fewer ts) :=
  match value? ts with
  | some (item, ⟨.comma :: rest, h⟩) =>
    have hlt : rest.length < ts.length := Nat.lt_of_succ_lt h
    match items? rest with
    | some (items, ⟨rest', h'⟩) => some (item :: items, ⟨rest', Nat.lt_trans h' hlt⟩)
    | none => none
  | some (item, ⟨.closeBracket :: rest, h⟩) => some ([item], ⟨rest, Nat.lt_of_succ_lt h⟩)
  | _ => none
termination_by (ts.length, 1)

/-- The members of an object up to its closing brace, at least one, and what follows. -/
def members? : (ts : List Token) → Option (List (Option String × Json) × Fewer ts)
  | .string key :: .colon :: ts =>
    match value? ts with
    | some (value, ⟨.comma :: rest, h⟩) =>
      have hlt : rest.length < ts.length := Nat.lt_of_succ_lt h
      match members? rest with
      | some (members, ⟨rest', h'⟩) =>
        some ((key, value) :: members,
          ⟨rest', Nat.lt_succ_of_lt (Nat.lt_succ_of_lt (Nat.lt_trans h' hlt))⟩)
      | none => none
    | some (value, ⟨.closeBrace :: rest, h⟩) =>
      some ([(key, value)],
        ⟨rest, Nat.lt_succ_of_lt (Nat.lt_succ_of_lt (Nat.lt_of_succ_lt h))⟩)
    | _ => none
  | _ => none
termination_by ts => (ts.length, 1)

end

/-- The value that the text holds; none if it is no JSON text. -/
def parse? (text : String) : Option Json := do
  let tokens ← tokens? text.toList
  match ← value? tokens with
  | (value, ⟨[], _⟩) => return value
  | _ => none

end Json
end QueryDigest
