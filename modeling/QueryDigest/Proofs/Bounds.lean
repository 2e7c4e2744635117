import QueryDigest.Digest
import QueryDigest.Proofs.Course

/-!
# QueryDigest.Proofs.Bounds

A scan stays inside the padded query. In every state that its steps reach, the cursor stands between
two characters of the text, the bytes that it can look at exist, and the next step has a result, so
nothing is read outside the padded copy and no character is cut in two (`scan_safe`). Only the search
for a closing quote leaves the text, by one byte behind a backslash at its end, and then it reads no
more (`closeRound_of_size_lt`).
-/

namespace QueryDigest
namespace Scan

/-! ## The search for a closing quote -/

/-- Rounds of the search lead from the first cursor to the second. -/
inductive Rounds (quote : UInt8) : Cursor → Cursor → Prop where
  | refl {c : Cursor} : Rounds quote c c
  | cons {c d e : Cursor} : closeRound quote c = some (.again d) → Rounds quote d e →
      Rounds quote c e

section Rounds

variable {quote : UInt8} {c d : Cursor}

theorem closeRound_eq_again (h : closeRound quote c = some (.again d)) :
    d.source = c.source ∧ c.pos < d.pos ∧ d.pos ≤ c.source.size + 1 := by
  unfold closeRound at h
  split at h
  · cases h
  · rename_i c' b hseek
    obtain ⟨hs, hle, hlt, _⟩ := Cursor.of_seek_eq_some hseek
    have hd : d = c'.advance 2 := by
      split at h
      · cases h
        rfl
      · rw [Option.map_eq_some_iff] at h
        obtain ⟨next, _, h⟩ := h
        split at h
        · cases h
          rfl
        · cases h
    subst hd
    refine ⟨hs, ?_, ?_⟩ <;> rw [Cursor.pos_advance] <;> omega

/-- A round looks at the byte after one of the text, which the padded copy has. -/
theorem exists_closeRound (quote : UInt8) (c : Cursor) : ∃ round, closeRound quote c = some round := by
  unfold closeRound
  split
  · exact ⟨_, rfl⟩
  · rename_i c' b hseek
    obtain ⟨hs, _, hlt, _⟩ := Cursor.of_seek_eq_some hseek
    obtain ⟨b', hpeek, -⟩ := c'.source.exists_byte? (i := c'.pos + 1) (by rw [hs]; omega)
    split
    · exact ⟨_, rfl⟩
    · rw [Cursor.peek?, hpeek]
      exact ⟨_, rfl⟩

theorem closeRound_of_size_lt (h : c.source.size < c.pos) :
    closeRound quote c = some (.done c.toEnd false) := by
  rw [closeRound, Cursor.toQuoteOrBackslash, Cursor.seek_of_size_le (Nat.le_of_lt h)]

theorem Rounds.pos_le (h : Rounds quote c d) (hc : c.pos ≤ c.source.size + 1) :
    d.source = c.source ∧ d.pos ≤ c.source.size + 1 := by
  induction h with
  | refl => exact ⟨rfl, hc⟩
  | cons hround _ ih =>
    obtain ⟨hs, _, hle⟩ := closeRound_eq_again hround
    rw [hs] at ih
    exact ih hle

end Rounds

/-! ## Reachable states -/

/-- The state that a step comes to. -/
def Step.state : Step → State
  | next s | unclosed _ s => s

/-- Nothing a scan does next leaves the padded query or splits a character: a read behind the
padding and a cut that is not from one character to a later one have no result. -/
structure Safe (r : Rules) (source : Source) (s : State) : Prop where
  source_eq : s.cursor.source = source
  pos_le : s.cursor.pos ≤ source.size
  whole : String.Pos.Raw.IsValid source.text ⟨s.cursor.pos⟩
  reads : ∀ k ≤ 2, s.cursor.pos + k < source.padded.size
  atEnd : ∃ b, s.cursor.atEnd? = some b
  steps : s.cursor.atEnd? = some false → ∃ st, step r s = some st ∧
    s.cursor.pos ≤ st.state.cursor.pos ∧ st.state.cursor.pos ≤ source.size
  /-- While a closing quote is looked for, the cursor is past the text by one byte at most. -/
  rounds : ∀ quote c, s.mode = .string quote → Rounds quote s.cursor c →
    c.pos ≤ source.size + 1 ∧ (∃ round, closeRound quote c = some round) ∧
    (source.size < c.pos → closeRound quote c = some (.done c.toEnd false))

theorem Standing.safe {r : Rules} {source : Source} {all : List Token} {scope : Option Scope}
    {tail : List Char} {s : State} (rd : Reading r source.text.toList all scope tail)
    (h : Standing r source all scope tail s) : Safe r source s := by
  obtain ⟨hs, before, rest, hat⟩ := h.exists_at
  have hpos : s.cursor.pos ≤ source.size := by
    rw [← hs, hat.size, hat.pos]
    omega
  refine ⟨hs, hpos, hs ▸ hat.isValid, ?_, ⟨_, hat.atEnd?⟩, ?_, ?_⟩
  · intro k hk
    have hroom := add_three_le_paddedSize source.size
    rw [Source.size_padded]
    omega
  · intro hend
    rcases h.step rd hend with ⟨t, hstep, ht, hle⟩ | ⟨sc, t, _, hstep, hcursor, _⟩
    · obtain ⟨hs', before', rest', hat'⟩ := ht.exists_at
      refine ⟨_, hstep, hle, ?_⟩
      rw [Step.state, ← hs', hat'.size, hat'.pos]
      omega
    · refine ⟨_, hstep, ?_⟩
      rw [Step.state, hcursor, Cursor.pos_toEnd, hs]
      exact ⟨hpos, Nat.le_refl _⟩
  · intro quote c _ hc
    obtain ⟨hsource, hle⟩ := hc.pos_le (by rw [hs]; omega)
    rw [hs] at hsource hle
    exact ⟨hle, exists_closeRound quote c, fun h => closeRound_of_size_lt (by rwa [hsource])⟩

theorem deliver_answer_ne (o : Options) (text : String) (e : DigestError) :
    (o.deliver text).answer ≠ .error e := by
  rcases o.deliver_answer_cases text with ⟨h, -⟩ | ⟨_, h, -⟩ <;> rw [h] <;> exact nofun

theorem refuse_answer_ne (o : Options) (e : SyntaxError) :
    (o.refuse e).answer ≠ .error .outOfBounds := by
  unfold Options.refuse
  cases o.throwOnSyntaxError <;> exact fun h => by cases h

/-- Every state of every scan is safe, and the digest never fails for want of a byte. -/
theorem scan_safe {o : Options} {r : Rules} (hr : Rules.ofOptions o = .ok r) (query : String) :
    (∀ s, Steps r (State.start (Source.ofText query)) s → Safe r (Source.ofText query) s) ∧
    scan r (Source.ofText query) ≠ none ∧ digest o query ≠ .error .outOfBounds := by
  obtain ⟨ts, scope, tail, rd⟩ := Reading.exists r query.toList
  have hscan := scan_eq rd
  refine ⟨fun s hs => ?_, ?_, ?_⟩
  · exact ((Standing.start (Source.ofText query) rd).steps rd hs).safe rd
  · rw [hscan]
    exact Option.some_ne_none _
  · rw [digest, report, hr]
    simp only [hscan]
    cases outcome r ts scope tail with
    | finished out => exact deliver_answer_ne o _ _
    | unclosed scope offset out => exact refuse_answer_ne o _

/-- A backslash at the end of an open string. -/
theorem scan_safe_open_backslash : ∃ r, Rules.ofOptions .default = .ok r ∧
    Safe r (Source.ofText "'\\") (State.start (Source.ofText "'\\")) ∧
    digest .default "'\\" ≠ .error .outOfBounds :=
  ⟨_, rfl, (scan_safe (o := .default) rfl _).1 _ .refl, (scan_safe (o := .default) rfl _).2.2⟩

end Scan
end QueryDigest
