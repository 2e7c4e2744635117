import QueryDigest.Proofs.Reach

/-!
# QueryDigest.Proofs.Scopes

Which places of a query lie inside strings, quoted identifiers and comments. A scan that comes upon
such a token goes past its opening in one step and past the rest of it in the next, so a place
between the two is one that it passes inside (`PassesInside`). Where a reading of the query is known,
the places inside are those between the opening of one of its tokens and the end of the token
(`PassesInside.of_token`, `PassesInside.token`), and those behind the opening of an open scope.
-/

namespace QueryDigest

open Text

namespace Scan

/-- Inside a string, a quoted identifier or a comment. -/
def Mode.isScope : Mode → Bool
  | string _ | identifier _ | blockComment | lineComment => true
  | between | name | number => false

/-- The scan of the query stands inside a string, a quoted identifier or a comment and has not left
it where `before` ends. -/
def PassesInside (r : Rules) (query before : String) : Prop :=
  ∃ s, Steps r (State.start (Source.ofText query)) s ∧ s.mode.isScope = true ∧
    s.cursor.pos ≤ before.utf8ByteSize ∧
    ∀ t, step r s = some (.next t) → before.utf8ByteSize < t.cursor.pos

/-- A line comment of the query ends where `before` does. -/
def EndsLineComment (r : Rules) (query before : String) : Prop :=
  ∃ s t, Steps r (State.start (Source.ofText query)) s ∧ s.mode = .lineComment ∧
    step r s = some (.next t) ∧ t.cursor.pos = before.utf8ByteSize

theorem Mode.isScope_of_openScope {m : Mode} (h : m.openScope ≠ none) : m.isScope = true := by
  cases m <;> first | rfl | exact absurd rfl h

section Scopes

variable {r : Rules} {query before : String} {ts : List Token} {t : Token} {op : Opening}
  {rest : List Char}

theorem exists_inside (hq : query.toList = spelling ts ++ (op.passed ++ rest))
    (hreads : ReadsAll r [] ts (op.passed ++ rest)) (hop : Opens r (spelling ts) op rest) :
    ∃ s, Steps r (State.start (Source.ofText query)) s ∧
      Inside r (Source.ofText query) ts op rest s := by
  obtain ⟨s, hsteps, h⟩ := (Between.start hq).steps_tokens hop.ne_nil hreads
  rw [List.nil_append] at h
  obtain ⟨t, hstep, ht⟩ := h.enter hop
  exact ⟨t, hsteps.trans (.cons (h.not_atEnd hop.ne_nil) hstep .refl), ht⟩

/-- From behind the opening of a token a step leads behind the token. -/
theorem exists_inside_token (hq : query.toList = spelling ts ++ (t.spelling ++ rest))
    (hreads : ReadsAll r [] ts (t.spelling ++ rest)) (ht : Reads r (spelling ts) t rest)
    (hop : t.opening? = some op) :
    ∃ s s', Steps r (State.start (Source.ofText query)) s ∧ s.mode = op.mode ∧
      s.cursor.pos = width (spelling ts ++ op.passed) ∧ step r s = some (.next s') ∧
      s'.cursor.pos = width (spelling ts ++ t.spelling) := by
  obtain ⟨body, hbody, hopens⟩ := ht.opens hop
  rw [hbody] at hq hreads
  obtain ⟨s, hsteps, h⟩ := exists_inside hq hreads hopens
  obtain ⟨s', hstep, h'⟩ := h.leave ht hop hbody
  refine ⟨s, s', hsteps, h.mode, h.cursor.pos, hstep, ?_⟩
  rw [h'.cursor.pos, spelling_snoc]

theorem PassesInside.of_token (hq : query.toList = spelling ts ++ (t.spelling ++ rest))
    (hreads : ReadsAll r [] ts (t.spelling ++ rest)) (ht : Reads r (spelling ts) t rest)
    (hop : t.opening? = some op) (hscope : op.mode.isScope = true)
    (hle : width (spelling ts ++ op.passed) ≤ before.utf8ByteSize)
    (hlt : before.utf8ByteSize < width (spelling ts ++ t.spelling)) :
    PassesInside r query before := by
  obtain ⟨s, s', hsteps, hmode, hpos, hstep, hpos'⟩ := exists_inside_token hq hreads ht hop
  refine ⟨s, hsteps, hmode ▸ hscope, hpos ▸ hle, fun u hu => ?_⟩
  rw [hstep] at hu
  cases hu
  rwa [hpos']

theorem PassesInside.of_unclosed {scope : Scope} (hrest : rest ≠ [])
    (rd : Reading r query.toList ts (some scope) (op.passed ++ rest))
    (hopens : Opens r (spelling ts) op rest) (hscope : op.mode.openScope = some scope)
    (hle : width (spelling ts ++ op.passed) ≤ before.utf8ByteSize) :
    PassesInside r query before := by
  obtain ⟨s, hsteps, h⟩ := exists_inside rd.text_eq rd.reads hopens
  have hmode : s.mode.isScope = true := by
    rw [h.mode]
    exact Mode.isScope_of_openScope (hscope ▸ Option.some_ne_none _)
  refine ⟨s, hsteps, hmode, h.cursor.pos ▸ hle, fun u hu => ?_⟩
  cases rd.ending with
  | unclosed hun =>
    obtain ⟨v, hstep, -, -⟩ := h.stop hun hscope hrest
    rw [hstep] at hu
    cases hu

theorem EndsLineComment.of_token {mark : Char} {text : List Char}
    (hq : query.toList = spelling ts ++ ((Token.lineComment mark text).spelling ++ rest))
    (hreads : ReadsAll r [] ts ((Token.lineComment mark text).spelling ++ rest))
    (ht : Reads r (spelling ts) (.lineComment mark text) rest)
    (hbefore : before.toList = spelling ts ++ (Token.lineComment mark text).spelling) :
    EndsLineComment r query before := by
  obtain ⟨s, s', hsteps, hmode, -, hstep, hpos⟩ := exists_inside_token hq hreads ht rfl
  exact ⟨s, s', hsteps, hmode, hstep, by rw [hpos, ← hbefore, width_toList]⟩

/-- In a query of closed tokens only, a place inside is inside one of them. -/
theorem PassesInside.token {all : List Token} (h : PassesInside r query before)
    (rd : Reading r query.toList all none []) :
    ∃ ts t us op, all = ts ++ t :: us ∧ t.opening? = some op ∧ op.mode.isScope = true ∧
      width (spelling ts ++ op.passed) ≤ before.utf8ByteSize ∧
      before.utf8ByteSize < width (spelling ts ++ t.spelling) := by
  obtain ⟨s, hsteps, hscope, hle, hlt⟩ := h
  cases (Standing.start (Source.ofText query) rd).steps rd hsteps with
  | between _ h =>
    rw [h.mode] at hscope
    cases hscope
  | @inside ts us t op _ hall hop hbody h =>
    have hread := rd
    rw [hall] at hread
    obtain ⟨s', hstep, h'⟩ := h.leave hread.reads_next hop hbody
    have := hlt s' hstep
    rw [h'.cursor.pos, spelling_snoc] at this
    exact ⟨ts, t, us, op, hall, hop, h.mode ▸ hscope, h.cursor.pos ▸ hle, this⟩
  | unclosed hne _ _ _ => exact absurd rfl hne

end Scopes

end Scan
end QueryDigest
