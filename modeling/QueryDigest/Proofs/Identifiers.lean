import QueryDigest.Proofs.Scopes

/-!
# QueryDigest.Proofs.Identifiers

The quoted identifiers of a query. A scan that opens one stands behind its quote, in front of the
inner text up to the next such quote, or up to the end of the query if there is none
(`PassesIdentifier`). In the reading of the query these are the inner texts of the identifier tokens,
and the text behind the quote of an identifier that stays open (`passesIdentifier_iff`).
-/

namespace QueryDigest

open Text

namespace Scan

/-- The scan of the query stands behind the quote of an identifier whose text is `inner`. -/
def PassesIdentifier (r : Rules) (query : String) (inner : List Char) : Prop :=
  ∃ s quote before rest, Steps r (State.start (Source.ofText query)) s ∧
    s.mode = .identifier quote ∧ s.cursor.At before rest ∧
    rest.takeWhile (· != Char.ofUInt8 quote) = inner

/-- The scan of the query opens a quoted identifier. -/
def OpensIdentifier (r : Rules) (query : String) : Prop :=
  ∃ s quote, Steps r (State.start (Source.ofText query)) s ∧ s.mode = .identifier quote

section Identifiers

variable {r : Rules} {query : String} {inner : List Char} {ts : List Token}
  {scope : Option Scope} {tail : List Char}

theorem takeWhile_ne_quote {q : Char} {x y : List Char} (hq : isAscii q = true) (hx : q ∉ x)
    (hy : ∀ c ∈ y.head?, c = q) :
    (x ++ y).takeWhile (· != Char.ofUInt8 q.toUInt8) = x := by
  rw [ofUInt8_toUInt8 hq]
  refine takeWhile_of_run (fun c hc => bne_iff_ne.2 ?_) fun c hc => ?_
  · rintro rfl
    exact hx hc
  · rw [hy c hc, bne_self_eq_false]

theorem PassesIdentifier.of_inside {s : State} {q : Char} {x y : List Char}
    (hsteps : Steps r (State.start (Source.ofText query)) s)
    (h : Inside r (Source.ofText query) ts (.identifier q) (x ++ y) s)
    (hq : r.quotes.beginsIdentifier q = true) (hx : q ∉ x) (hy : ∀ c ∈ y.head?, c = q) :
    PassesIdentifier r query x :=
  ⟨s, q.toUInt8, _, _, hsteps, h.mode, h.cursor,
    takeWhile_ne_quote (Quotes.isAscii_of_beginsIdentifier hq) hx hy⟩

/-- Where the scan stands in the text, the text in front of it is what the reading says. -/
theorem Inside.rest_eq {source : Source} {op : Opening} {before rest rest' : List Char} {s : State}
    (h : Inside r source ts op rest s) (hat : s.cursor.At before rest') : rest' = rest := by
  have htext := h.cursor.text.symm.trans hat.text
  exact (append_inj_of_width htext (h.cursor.pos.symm.trans hat.pos)).2.symm

/-- The quoted identifiers of a query are those of its reading. -/
theorem passesIdentifier_iff (rd : Reading r query.toList ts scope tail) :
    PassesIdentifier r query inner ↔
      (∃ q, .identifier q inner ∈ ts) ∨ scope = some .identifier ∧ ∃ q, tail = q :: inner := by
  constructor
  · rintro ⟨s, quote, before, rest, hsteps, hmode, hat, rfl⟩
    cases (Standing.start (Source.ofText query) rd).steps rd hsteps with
    | between _ h =>
      rw [h.mode] at hmode
      cases hmode
    | @inside us vs t op _ hall hop hbody h =>
      rw [h.mode] at hmode
      obtain rfl := h.rest_eq hat
      rw [hall] at rd
      have hread := rd.reads_next
      cases hread with
      | @identifier q x _ hq hx =>
        cases hop
        cases hmode
        obtain rfl : x ++ q :: (spelling vs ++ tail) = rest := by
          simpa [Token.spelling, Opening.passed] using hbody
        rw [takeWhile_ne_quote (Quotes.isAscii_of_beginsIdentifier hq) hx (by simp)]
        exact .inl ⟨q, hall ▸ by simp⟩
      | blank _ _ | other _ => cases hop
      | _ =>
        cases hop
        cases hmode
    | @unclosed op _ _ hscope htail h =>
      rw [h.mode] at hmode
      obtain rfl := h.rest_eq hat
      cases op with
      | identifier q =>
        cases hmode
        subst hscope htail
        cases rd.ending with
        | unclosed hun =>
          cases hun with
          | identifier hq hx =>
            have htake : rest.takeWhile (· != Char.ofUInt8 q.toUInt8) = rest := by
              have := takeWhile_ne_quote (Quotes.isAscii_of_beginsIdentifier hq) hx
                (y := []) (by simp)
              rwa [List.append_nil] at this
            rw [htake]
            exact .inr ⟨rfl, q, rfl⟩
      | _ => cases hmode
  · rintro (⟨q, hmem⟩ | ⟨rfl, q, rfl⟩)
    · obtain ⟨us, vs, rfl⟩ := List.append_of_mem hmem
      have hread := rd.reads_next
      have htext := rd.text_eq
      have hreads := rd.reads.split.1
      rw [spelling_append, spelling_cons, List.append_assoc, List.append_assoc] at htext
      rw [spelling_cons, List.append_assoc] at hreads
      obtain ⟨body, hbody, hopens⟩ := hread.opens rfl
      rw [hbody] at htext hreads
      obtain ⟨s, hsteps, h⟩ := exists_inside htext hreads hopens
      cases hread with
      | identifier hq hx =>
        obtain rfl : inner ++ q :: (spelling vs ++ tail) = body := by
          simpa [Token.spelling, Opening.passed] using hbody
        exact .of_inside hsteps h hq hx (by simp)
    · cases rd.ending with
      | unclosed hun =>
        cases hun with
        | identifier hq hx =>
          have hopens : Opens r (spelling ts) (.identifier q) inner := .identifier hq
          obtain ⟨s, hsteps, h⟩ := exists_inside rd.text_eq rd.reads hopens
          rw [← List.append_nil inner] at h
          exact .of_inside hsteps h hq hx (by simp)

theorem opensIdentifier_iff : OpensIdentifier r query ↔ ∃ inner, PassesIdentifier r query inner := by
  constructor
  · rintro ⟨s, quote, hsteps, hmode⟩
    obtain ⟨_, _, _, rd⟩ := Reading.exists r query.toList
    obtain ⟨-, before, rest, hat⟩ :=
      ((Standing.start (Source.ofText query) rd).steps rd hsteps).exists_at
    exact ⟨_, s, quote, before, rest, hsteps, hmode, hat, rfl⟩
  · rintro ⟨_, s, quote, _, _, hsteps, hmode, _, _⟩
    exact ⟨s, quote, hsteps, hmode⟩

/-- No quoted identifier is among the tokens of the reading, and none is open at its end. -/
theorem not_identifier_of_not_opens (hid : ¬ OpensIdentifier r query)
    (rd : Reading r query.toList ts scope tail) :
    (∀ q inner, .identifier q inner ∉ ts) ∧ scope ≠ some .identifier := by
  have hpasses : ∀ inner, ¬ PassesIdentifier r query inner := fun inner h =>
    hid (opensIdentifier_iff.2 ⟨inner, h⟩)
  refine ⟨fun q inner hmem => hpasses inner ((passesIdentifier_iff rd).2 (.inl ⟨q, hmem⟩)), ?_⟩
  rintro rfl
  cases rd.ending with
  | unclosed h =>
    cases h with
    | identifier _ _ => exact hpasses _ ((passesIdentifier_iff rd).2 (.inr ⟨rfl, _, rfl⟩))

end Identifiers

end Scan
end QueryDigest
