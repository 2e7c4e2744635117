/-!
# QueryDigest.Json.Basic

JSON values as a settings file holds them. Numbers keep their spelling, since nothing here counts
with them, and objects keep their members in order, repeated keys included.

A string can name halves of UTF-16 pairs by escapes. If a half stands alone the string has no
text, and its text is `none`.
-/

namespace QueryDigest

/-- A JSON value. -/
inductive Json where
  | null
  | bool (b : Bool)
  | number (digits : String)
  | string (text : Option String)
  | array (items : List Json)
  | object (members : List (Option String × Json))
deriving Inhabited

end QueryDigest
