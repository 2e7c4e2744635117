import QueryDigest.EnumList.Rule

/-!
# QueryDigest.EnumList

Shortening placeholder lists. `IN (?, ?, ?)` and `FIELD(x, ?, ?)` are as long as the number of
values bound in the query; with one placeholder for the whole list the variants of one query come
out alike. The lists are looked for in the text, with no grammar of the query.

A rule is tried at each place of the text from left to right, and behind a match it goes on after
the text matched (`Rule.replaceAll`). Lists of `IN` are shortened first, then those of `FIELD`.
-/

namespace QueryDigest
namespace EnumList

/-- The text `s` with every match of the rule replaced, behind the text `done`, which is kept in
reverse; and whether there was a match, now or before. -/
def Rule.replaceFrom (rule : Rule) (done : List Char) (matched : Bool) (s : List Char) :
    List Char × Bool :=
  match s with
  | [] => (done.reverse, matched)
  | c :: s' =>
    match hm : rule.match? (c :: s') with
    | some m =>
      have := rule.length_lt hm
      rule.replaceFrom (m.written.reverse ++ done) true m.rest
    | none => rule.replaceFrom (c :: done) matched s'
termination_by s.length
decreasing_by all_goals (simp only [List.length_cons] at *; omega)

/-- The text with every match of the rule replaced, and whether there was one. -/
def Rule.replaceAll (rule : Rule) (s : List Char) : List Char × Bool :=
  rule.replaceFrom [] false s

/-- The text with its placeholder lists shortened; none if it has none. -/
def collapse? (delimiter : Char) (text : String) : Option String :=
  let (afterIn, inMatched) := (inRule delimiter).replaceAll text.toList
  let (afterField, fieldMatched) := fieldRule.replaceAll afterIn
  if inMatched || fieldMatched then some (String.ofList afterField) else none

/-- The text with its placeholder lists shortened. -/
def collapse (delimiter : Char) (text : String) : String :=
  (collapse? delimiter text).getD text

end EnumList
end QueryDigest
