import QueryDigest.Proofs.Position

/-!
# QueryDigest.Proofs.ByteSteps

The searches of a cursor against a cursor that goes from byte to byte. What is `Sought` is a byte,
one of two bytes, or a pair of them. `c.Finds s d found` says where a search for it from `c` has to
end: at the first place at or behind the cursor where it begins, or at the end of the text if there
is none. Nothing but the text counts, neither the zero behind it nor the padding.

Three ways to search end there: going on byte by byte (`finds_walk?`), asking any first-match search
about the bytes that remain and adding what it answers to the position (`finds_searched`), and the
searches of the cursor (`finds_seek`, `finds_pastBlockComment`). There is one such place
(`Finds.unique`), so the three agree (`searches_stepwise`).
-/

namespace QueryDigest

/-- What a search looks for. -/
inductive Sought where
  | byte (b : UInt8)
  /-- One of the two bytes. -/
  | either (a b : UInt8)
  /-- The two bytes in a row. -/
  | pair (a b : UInt8)
deriving DecidableEq, Repr

namespace Sought

/-- It begins at place `i` of the bytes. -/
def At (bytes : List UInt8) (i : Nat) : Sought → Prop
  | byte b => bytes[i]? = some b
  | either a b => bytes[i]? = some a ∨ bytes[i]? = some b
  | pair a b => bytes[i]? = some a ∧ bytes[i + 1]? = some b

/-- It does not go on with a zero byte, which would be read behind the text as well. -/
def EndsInText : Sought → Prop
  | byte _ | either _ _ => True
  | pair _ b => b ≠ 0

/-- The search answers with the first place of the bytes where it begins, and gives none only if it
begins nowhere. -/
def FoundBy (s : Sought) (find : List UInt8 → Option Nat) : Prop :=
  ∀ bytes, match find bytes with
    | some i => s.At bytes i ∧ ∀ k < i, ¬ s.At bytes k
    | none => ∀ k, ¬ s.At bytes k

instance (bytes : List UInt8) (i : Nat) : (s : Sought) → Decidable (s.At bytes i)
  | byte b => inferInstanceAs (Decidable (bytes[i]? = some b))
  | either a b => inferInstanceAs (Decidable (bytes[i]? = some a ∨ bytes[i]? = some b))
  | pair a b => inferInstanceAs (Decidable (bytes[i]? = some a ∧ bytes[i + 1]? = some b))

/-- The first place where it begins. -/
def first? (s : Sought) (bytes : List UInt8) : Option Nat :=
  (List.range bytes.length).find? fun i => s.At bytes i

theorem At.lt {s : Sought} {bytes : List UInt8} {i : Nat} (h : s.At bytes i) :
    i < bytes.length := by
  have hlt : ∀ {b : UInt8}, bytes[i]? = some b → i < bytes.length := by
    intro b hb
    exact (List.getElem?_eq_some_iff.1 hb).1
  cases s with
  | byte b => exact hlt h
  | either a b =>
    rcases h with h | h
    · exact hlt h
    · exact hlt h
  | pair a b => exact hlt h.1

theorem at_drop {s : Sought} {bytes : List UInt8} {n i : Nat} :
    s.At (bytes.drop n) i ↔ s.At bytes (n + i) := by
  cases s with
  | byte b | either a b | pair a b => simp only [At, List.getElem?_drop, Nat.add_assoc]

theorem foundBy_first? (s : Sought) : s.FoundBy s.first? := by
  intro bytes
  unfold first?
  split
  · rename_i i hfind
    rw [List.find?_range_eq_some] at hfind
    obtain ⟨hat, -, hbefore⟩ := hfind
    refine ⟨by simpa using hat, ?_⟩
    intro k hk
    simpa using hbefore k hk
  · rename_i hfind
    intro k hat
    have hno := List.find?_eq_none.1 hfind k (List.mem_range.2 hat.lt)
    simp [hat] at hno

end Sought

/-- Up to two bytes past the end, what is read is the text and then zeros. -/
theorem Source.byte?_eq_getD {s : Source} {i : Nat} (hi : i ≤ s.size + 2) :
    s.byte? i = some (s.bytes.data.toList.getD i 0) := by
  have h : s.text.toList = [] ++ s.text.toList := rfl
  have hread := byte?_eq h (k := i) (by rw [← s.size_eq]; exact hi)
  rw [Text.width_nil, Nat.zero_add] at hread
  rw [hread, s.toList_bytes]

namespace Cursor

/-- The bytes of the text. -/
def textBytes (c : Cursor) : List UInt8 :=
  c.source.bytes.data.toList

/-- The bytes of the text from the cursor on. -/
def remaining (c : Cursor) : List UInt8 :=
  c.textBytes.drop (min c.pos c.source.size)

/-- The cursor at the place that the search gives among the remaining bytes, or at the end. -/
def searched (find : List UInt8 → Option Nat) (c : Cursor) : Cursor × Bool :=
  match find c.remaining with
  | some offset => (c.advance offset, true)
  | none => (c.toEnd, false)

/-- Does what is sought begin at the cursor, as far as the bytes there tell? -/
def reads? (s : Sought) (c : Cursor) : Option Bool :=
  match s with
  | .byte b => c.current?.map (· == b)
  | .either a b => c.current?.map fun x => x == a || x == b
  | .pair a b => do
    let x ← c.current?
    let y ← c.peek?
    return x == a && y == b

/-- The cursor taken on byte by byte to the next place where what is sought begins, or to the end of
the text; none if a byte is read outside the padded copy. -/
def walk? (s : Sought) (c : Cursor) : Option (Cursor × Bool) :=
  match hend : c.atEnd? with
  | none => none
  | some true => some (c, false)
  | some false =>
    match c.reads? s with
    | none => none
    | some true => some (c, true)
    | some false =>
      have := pos_lt_size_of_atEnd? hend
      walk? s (c.advance 1)
termination_by c.source.size - c.pos

/-- A search from cursor `c` ends at cursor `d`, and has found or has not. -/
inductive Finds (s : Sought) (c : Cursor) : Cursor → Bool → Prop where
  | found {i : Nat} : c.pos ≤ i → s.At c.textBytes i →
      (∀ k, c.pos ≤ k → k < i → ¬ s.At c.textBytes k) → Finds s c { c with pos := i } true
  | missing : (∀ k, c.pos ≤ k → ¬ s.At c.textBytes k) → Finds s c c.toEnd false

section Searches

variable {s : Sought} {c d : Cursor}

theorem length_textBytes (c : Cursor) : c.textBytes.length = c.source.size := by
  rw [textBytes, Array.length_toList, ← Source.size_bytes]
  rfl

theorem Finds.unique {d' : Cursor} {found found' : Bool} (h : Finds s c d found)
    (h' : Finds s c d' found') : d = d' ∧ found = found' := by
  cases h with
  | @found i hle hat hfirst =>
    cases h' with
    | @found j hle' hat' hfirst' =>
      have hij : i = j := by
        rcases Nat.lt_trichotomy i j with hlt | heq | hlt
        · exact absurd hat (hfirst' i hle hlt)
        · exact heq
        · exact absurd hat' (hfirst j hle' hlt)
      subst hij
      exact ⟨rfl, rfl⟩
    | missing hno => exact absurd hat (hno i hle)
  | missing hno =>
    cases h' with
    | @found j hle' hat' hfirst' => exact absurd hat' (hno j hle')
    | missing hno' => exact ⟨rfl, rfl⟩

/-- A search has not found exactly if what it looks for begins nowhere in the rest of the text. -/
theorem Finds.not_found_iff {found : Bool} (h : Finds s c d found) :
    found = false ↔ ∀ k, c.pos ≤ k → ¬ s.At c.textBytes k := by
  cases h with
  | @found i hle hat hfirst =>
    constructor
    · intro hfound
      cases hfound
    · intro hno
      exact absurd hat (hno i hle)
  | missing hno =>
    constructor
    · intro _
      exact hno
    · intro _
      rfl

/-- From the end of the text on nothing is found. -/
theorem finds_of_size_le (s : Sought) (h : c.source.size ≤ c.pos) : Finds s c c.toEnd false := by
  refine .missing ?_
  intro k hle hat
  have hlt := hat.lt
  rw [length_textBytes] at hlt
  omega

/-! ## From byte to byte -/

theorem current?_eq_getD (h : c.pos ≤ c.source.size) :
    c.current? = some (c.textBytes.getD c.pos 0) :=
  Source.byte?_eq_getD (by omega)

theorem peek?_eq_getD (h : c.pos ≤ c.source.size) :
    c.peek? = some (c.textBytes.getD (c.pos + 1) 0) :=
  Source.byte?_eq_getD (by omega)

theorem atEnd?_eq (h : c.pos ≤ c.source.size) :
    c.atEnd? = some (decide (c.source.size ≤ c.pos)) := by
  rw [atEnd?, current?_eq_getD h, Option.map_some]
  by_cases hend : c.source.size ≤ c.pos
  · have hnone : c.textBytes[c.pos]? = none :=
      List.getElem?_eq_none (by rw [length_textBytes]; exact hend)
    simp [hend, hnone]
  · simp [hend]

theorem exists_current? (h : c.pos < c.source.size) :
    ∃ b, c.textBytes[c.pos]? = some b ∧ c.current? = some b := by
  have hget := List.getElem?_eq_getElem (l := c.textBytes) (by rw [length_textBytes]; exact h)
  refine ⟨_, hget, ?_⟩
  rw [current?_eq_getD (Nat.le_of_lt h), List.getD_eq_getElem?_getD, hget, Option.getD_some]

/-- What is read at a place inside the text is told by the text. -/
theorem exists_reads? (hs : s.EndsInText) (h : c.pos < c.source.size) :
    ∃ begins, c.reads? s = some begins ∧ (begins = true ↔ s.At c.textBytes c.pos) := by
  obtain ⟨x, hx, hread⟩ := exists_current? h
  cases s with
  | byte b =>
    refine ⟨x == b, by rw [reads?, hread, Option.map_some], ?_⟩
    rw [beq_iff_eq, Sought.At, hx, Option.some.injEq]
  | either a b =>
    refine ⟨x == a || x == b, by rw [reads?, hread, Option.map_some], ?_⟩
    rw [Bool.or_eq_true, beq_iff_eq, beq_iff_eq, Sought.At, hx, Option.some.injEq, Option.some.injEq]
  | pair a b =>
    refine ⟨_, by rw [reads?, hread, peek?_eq_getD (Nat.le_of_lt h)]; rfl, ?_⟩
    rw [Bool.and_eq_true, beq_iff_eq, beq_iff_eq, Sought.At, hx, Option.some.injEq,
      List.getD_eq_getElem?_getD]
    cases c.textBytes[c.pos + 1]? with
    | none => simp [hs.symm]
    | some y => simp

theorem Finds.of_advance {found : Bool} (hno : ¬ s.At c.textBytes c.pos)
    (h : Finds s (c.advance 1) d found) : Finds s c d found := by
  have hne : ∀ k, c.pos ≤ k → s.At c.textBytes k → c.pos + 1 ≤ k := by
    intro k hle hat
    rcases Nat.eq_or_lt_of_le hle with heq | hlt
    · rw [← heq] at hat
      exact absurd hat hno
    · exact hlt
  cases h with
  | @found i hle hat hfirst =>
    rw [pos_advance] at hle
    refine .found (by omega) hat ?_
    intro k hk hki hatk
    exact hfirst k (hne k hk hatk) hki hatk
  | missing hnone =>
    refine .missing ?_
    intro k hk hatk
    exact hnone k (hne k hk hatk) hatk

/-- Going on byte by byte finds what is sought, and reads no byte outside the padded copy. -/
theorem finds_walk? (hs : s.EndsInText) (hc : c.pos ≤ c.source.size) :
    ∃ d found, c.walk? s = some (d, found) ∧ Finds s c d found := by
  fun_induction walk? s c with
  | case1 c hend =>
    rw [atEnd?_eq hc] at hend
    cases hend
  | case2 c hend =>
    rw [atEnd?_eq hc, Option.some.injEq, decide_eq_true_eq] at hend
    have hpos : c.pos = c.source.size := Nat.le_antisymm hc hend
    have hstay : c.toEnd = c := by rw [toEnd, ← hpos]
    exact ⟨c.toEnd, false, by rw [hstay], finds_of_size_le s hend⟩
  | case3 c hend hreads =>
    obtain ⟨begins, hbegins, -⟩ := exists_reads? hs (pos_lt_size_of_atEnd? hend)
    cases hreads.symm.trans hbegins
  | case4 c hend hreads =>
    obtain ⟨begins, hbegins, hiff⟩ := exists_reads? hs (pos_lt_size_of_atEnd? hend)
    cases hreads.symm.trans hbegins
    refine ⟨c, true, rfl, .found (Nat.le_refl _) (hiff.1 rfl) ?_⟩
    intro k hle hlt
    omega
  | case5 c hend hreads hlt ih =>
    obtain ⟨begins, hbegins, hiff⟩ := exists_reads? hs hlt
    cases hreads.symm.trans hbegins
    obtain ⟨d, found, hwalk, hfinds⟩ := ih hlt
    refine ⟨d, found, hwalk, hfinds.of_advance ?_⟩
    intro hat
    cases hiff.2 hat

theorem walk?_eq {found : Bool} (hs : s.EndsInText) (hc : c.pos ≤ c.source.size)
    (h : Finds s c d found) : c.walk? s = some (d, found) := by
  obtain ⟨d', found', hwalk, hfinds⟩ := finds_walk? hs hc
  obtain ⟨rfl, rfl⟩ := hfinds.unique h
  exact hwalk

/-! ## Over the remaining bytes -/

/-- The offset that a search gives is counted from where the remaining bytes begin, which is the
cursor unless the cursor is past the end, and then there is no offset. -/
theorem finds_searched {find : List UInt8 → Option Nat} (hfind : s.FoundBy find) (c : Cursor) :
    Finds s c (c.searched find).1 (c.searched find).2 := by
  have hfirst := hfind c.remaining
  unfold searched
  cases h : find c.remaining with
  | some offset =>
    rw [h] at hfirst
    obtain ⟨hat, hbefore⟩ := hfirst
    have hlt := hat.lt
    rw [remaining, List.length_drop, length_textBytes] at hlt
    have hmin : min c.pos c.source.size = c.pos := by omega
    rw [remaining, hmin, Sought.at_drop] at hat
    refine .found (by omega) hat ?_
    intro k hle hk hatk
    obtain ⟨j, rfl⟩ := Nat.exists_eq_add_of_le hle
    refine hbefore j (by omega) ?_
    rw [remaining, hmin, Sought.at_drop]
    exact hatk
  | none =>
    rw [h] at hfirst
    refine .missing ?_
    intro k hle hat
    have hlt := hat.lt
    rw [length_textBytes] at hlt
    have hmin : min c.pos c.source.size = c.pos := by omega
    obtain ⟨j, rfl⟩ := Nat.exists_eq_add_of_le hle
    refine hfirst j ?_
    rw [remaining, hmin, Sought.at_drop]
    exact hat

theorem searched_eq {found : Bool} {find : List UInt8 → Option Nat} (hfind : s.FoundBy find)
    (h : Finds s c d found) : c.searched find = (d, found) := by
  obtain ⟨hd, hfound⟩ := (finds_searched hfind c).unique h
  rw [← hd, ← hfound]

/-! ## In one go -/

theorem getElem?_textBytes {i : Nat} (h : i < c.source.bytes.size) :
    c.textBytes[i]? = some c.source.bytes[i] := by
  rw [textBytes, ByteArray.getElem_eq_getElem_data, Array.getElem?_toList]
  exact Array.getElem?_eq_getElem h

theorem lt_size_of_at {i : Nat} (h : s.At c.textBytes i) : i < c.source.bytes.size := by
  have hlt := h.lt
  rwa [length_textBytes, ← Source.size_bytes] at hlt

/-- A search for a byte that passes a test finds what begins wherever a byte passes it. -/
theorem finds_seek {p : UInt8 → Bool} (hp : ∀ bytes i, s.At bytes i ↔ ∃ b, bytes[i]? = some b ∧ p b)
    (c : Cursor) : Finds s c (c.seek p).1 (c.seek p).2.isSome := by
  have hat : ∀ i (h : i < c.source.bytes.size),
      s.At c.textBytes i ↔ p c.source.bytes[i] = true := by
    intro i h
    rw [hp, getElem?_textBytes h]
    simp
  rw [seek]
  split
  · rename_i i hfind
    obtain ⟨hle, ⟨hlt, hpi⟩, hfirst⟩ := Bytes.findIdx?_eq_some_iff.1 hfind
    rw [getElem?_pos c.source.bytes i hlt]
    refine .found hle ((hat i hlt).2 hpi) ?_
    intro k hk hki hatk
    have hno := hfirst k (lt_size_of_at hatk) hk hki
    rw [(hat k (lt_size_of_at hatk)).1 hatk] at hno
    cases hno
  · rename_i hfind
    rw [Bytes.findIdx?_eq_none_iff] at hfind
    refine .missing ?_
    intro k hk hatk
    have hno := hfind k (lt_size_of_at hatk) hk
    rw [(hat k (lt_size_of_at hatk)).1 hatk] at hno
    cases hno

theorem finds_toByte (b : UInt8) (c : Cursor) : Finds (.byte b) c (c.toByte b).1 (c.toByte b).2 := by
  refine finds_seek ?_ c
  intro bytes i
  simp [Sought.At]

theorem finds_either (a b : UInt8) (c : Cursor) :
    Finds (.either a b) c (c.seek fun x => x == a || x == b).1
      (c.seek fun x => x == a || x == b).2.isSome := by
  refine finds_seek ?_ c
  intro bytes i
  cases h : bytes[i]? <;> simp [Sought.At, h]

/-- The cursor, with the byte at it if a search has found it. -/
def withByte : Cursor × Bool → Cursor × Option UInt8
  | (d, found) => (d, if found then d.current? else none)

/-- The cursor past the `n` bytes that a search has found. -/
def passed (n : Nat) : Cursor × Bool → Cursor × Bool
  | (d, found) => (if found then d.advance n else d, found)

theorem withByte_seek (p : UInt8 → Bool) (c : Cursor) :
    withByte ((c.seek p).1, (c.seek p).2.isSome) = c.seek p := by
  rcases hseek : c.seek p with ⟨d, _ | b⟩
  · rfl
  · obtain ⟨-, -, -, -, hb⟩ := of_seek_eq_some hseek
    simp only [withByte, Option.isSome_some, if_true, hb]

theorem finds_pastBlockComment (c : Cursor) : ∃ d found,
    Finds (.pair '*'.toUInt8 '/'.toUInt8) c d found ∧ c.pastBlockComment = passed 2 (d, found) := by
  have hat : ∀ k (h : k + 1 < c.source.bytes.size),
      (Sought.pair '*'.toUInt8 '/'.toUInt8).At c.textBytes k ↔
        c.source.bytes[k] = '*'.toUInt8 ∧ c.source.bytes[k + 1] = '/'.toUInt8 := by
    intro k h
    rw [Sought.At, getElem?_textBytes (Nat.lt_of_succ_lt h), getElem?_textBytes h, Option.some.injEq,
      Option.some.injEq]
  have hin : ∀ {k}, (Sought.pair '*'.toUInt8 '/'.toUInt8).At c.textBytes k →
      k + 1 < c.source.bytes.size := by
    intro k h
    exact lt_size_of_at (s := .byte '/'.toUInt8) h.2
  rw [pastBlockComment]
  split
  · rename_i i hfind
    obtain ⟨hle, ⟨hlt, hpair⟩, hfirst⟩ := Bytes.findPair?_eq_some_iff.1 hfind
    refine ⟨_, _, .found hle ((hat i hlt).2 hpair) ?_, rfl⟩
    intro k hk hki hatk
    exact hfirst k (hin hatk) hk hki ((hat k (hin hatk)).1 hatk)
  · rename_i hfind
    rw [Bytes.findPair?_eq_none_iff] at hfind
    refine ⟨_, _, .missing ?_, rfl⟩
    intro k hk hatk
    exact hfind k (hin hatk) hk ((hat k (hin hatk)).1 hatk)

end Searches

/-! ## The three ways -/

/-- The searches from a cursor, against a search of the bytes that remain and against going on from
byte to byte. -/
structure Stepwise (find : Sought → List UInt8 → Option Nat) (c : Cursor) : Prop where
  searchedByte : ∀ b, c.toByte b = c.searched (find (.byte b))
  searchedQuote : ∀ quote, c.toQuoteOrBackslash quote =
    withByte (c.searched (find (.either quote '\\'.toUInt8)))
  searchedLineEnd : c.toLineEnd = (c.searched (find (.either '\r'.toUInt8 '\n'.toUInt8))).1
  searchedBlockComment :
    c.pastBlockComment = passed 2 (c.searched (find (.pair '*'.toUInt8 '/'.toUInt8)))
  walkedByte : c.pos ≤ c.source.size → ∀ b, c.walk? (.byte b) = some (c.toByte b)
  walkedQuote : c.pos ≤ c.source.size → ∀ quote,
    (c.walk? (.either quote '\\'.toUInt8)).map withByte = some (c.toQuoteOrBackslash quote)
  walkedLineEnd : c.pos ≤ c.source.size →
    (c.walk? (.either '\r'.toUInt8 '\n'.toUInt8)).map Prod.fst = some c.toLineEnd
  walkedBlockComment : c.pos ≤ c.source.size →
    (c.walk? (.pair '*'.toUInt8 '/'.toUInt8)).map (passed 2) = some c.pastBlockComment
  /-- Zero can stand for the byte that was not found: it is what is read at the end of the text, and
  it is not found itself. -/
  quoteOrZero : ∀ quote, quote ≠ 0 →
    (c.toQuoteOrBackslash quote).1.current? = some ((c.toQuoteOrBackslash quote).2.getD 0) ∧
    ((c.toQuoteOrBackslash quote).2.getD 0 = 0 ↔ (c.toQuoteOrBackslash quote).2 = none)
  noByte : ∀ b, (c.toByte b).2 = false ↔
    ∀ k, c.pos ≤ k → ¬ (Sought.byte b).At c.textBytes k
  noQuote : ∀ quote, (c.toQuoteOrBackslash quote).2 = none ↔
    ∀ k, c.pos ≤ k → ¬ (Sought.either quote '\\'.toUInt8).At c.textBytes k
  noBlockComment : c.pastBlockComment.2 = false ↔
    ∀ k, c.pos ≤ k → ¬ (Sought.pair '*'.toUInt8 '/'.toUInt8).At c.textBytes k
  pastEnd : c.source.size < c.pos → (∀ b, c.toByte b = (c.toEnd, false)) ∧
    (∀ quote, c.toQuoteOrBackslash quote = (c.toEnd, none)) ∧ c.toLineEnd = c.toEnd ∧
    c.pastBlockComment = (c.toEnd, false)

theorem toQuoteOrBackslash_byte {quote : UInt8} {c : Cursor} (hq : quote ≠ 0) :
    (c.toQuoteOrBackslash quote).1.current? = some ((c.toQuoteOrBackslash quote).2.getD 0) ∧
      ((c.toQuoteOrBackslash quote).2.getD 0 = 0 ↔ (c.toQuoteOrBackslash quote).2 = none) := by
  rw [toQuoteOrBackslash]
  rcases hseek : c.seek (fun b => b == quote || b == '\\'.toUInt8) with ⟨d, _ | b⟩
  · rw [of_seek_eq_none hseek]
    have hend : c.textBytes[c.source.size]? = none :=
      List.getElem?_eq_none (Nat.le_of_eq (length_textBytes c))
    have hzero : c.toEnd.current? = some (c.textBytes.getD c.source.size 0) :=
      current?_eq_getD (c := c.toEnd) (Nat.le_refl _)
    rw [hzero, List.getD_eq_getElem?_getD, hend]
    simp
  · obtain ⟨-, -, -, hb, hcur⟩ := of_seek_eq_some hseek
    have hne : b ≠ 0 := by
      rw [Bool.or_eq_true, beq_iff_eq, beq_iff_eq] at hb
      rcases hb with rfl | rfl
      · exact hq
      · decide
    refine ⟨hcur, ?_⟩
    simp [hne]

/-- The searches of a cursor inside the text, or at its end, leave the cursor where going on from
byte to byte does, and answer the same. They do so by any search that gives the first place among the
bytes that remain. Nothing is found only where the text has no more of what is sought, and that is
so from the end of the text on. -/
theorem searches_stepwise {find : Sought → List UInt8 → Option Nat}
    (hfind : ∀ s : Sought, s.FoundBy (find s)) (c : Cursor) : Stepwise find c := by
  have hbyte := fun b => finds_toByte b c
  have hquote := fun quote => finds_either quote '\\'.toUInt8 c
  have hline := finds_either '\r'.toUInt8 '\n'.toUInt8 c
  obtain ⟨d, found, hcomment, hpast⟩ := finds_pastBlockComment c
  have heither : ∀ a b, (Sought.either a b).EndsInText := fun _ _ => trivial
  have hslash : (Sought.pair '*'.toUInt8 '/'.toUInt8).EndsInText := by
    rw [Sought.EndsInText]
    decide
  exact {
    searchedByte := fun b => (searched_eq (hfind _) (hbyte b)).symm
    searchedQuote := fun quote => by
      rw [searched_eq (hfind _) (hquote quote), withByte_seek]
      rfl
    searchedLineEnd := by
      rw [searched_eq (hfind _) hline]
      rfl
    searchedBlockComment := by rw [searched_eq (hfind _) hcomment, hpast]
    walkedByte := fun hc b => walk?_eq trivial hc (hbyte b)
    walkedQuote := fun hc quote => by
      rw [walk?_eq (heither _ _) hc (hquote quote), Option.map_some, withByte_seek]
      rfl
    walkedLineEnd := fun hc => by
      rw [walk?_eq (heither _ _) hc hline]
      rfl
    walkedBlockComment := fun hc => by
      rw [walk?_eq hslash hc hcomment, hpast]
      rfl
    quoteOrZero := fun quote hq => toQuoteOrBackslash_byte hq
    noByte := fun b => (hbyte b).not_found_iff
    noQuote := fun quote => by
      rw [← (hquote quote).not_found_iff, Option.isSome_eq_false_iff, Option.isNone_iff_eq_none]
      rfl
    noBlockComment := by
      rw [← hcomment.not_found_iff, hpast]
      rfl
    pastEnd := fun hc => by
      have hle := Nat.le_of_lt hc
      have hseek := fun p => seek_of_size_le (p := p) hle
      obtain ⟨rfl, rfl⟩ := hcomment.unique (finds_of_size_le _ hle)
      refine ⟨?_, ?_, ?_, hpast⟩
      · intro b
        rw [toByte, hseek]
        rfl
      · intro quote
        exact hseek _
      · rw [toLineEnd, hseek] }

/-- From behind a zero byte of the query, with a star in front of the comment's end. -/
theorem searches_stepwise_zero : (∀ s : Sought, s.FoundBy s.first?) ∧
    ((Source.ofText "a\x00'**/").cursor.advance 1).walk? (.byte 0x27) =
      some (((Source.ofText "a\x00'**/").cursor.advance 1).toByte 0x27) ∧
    (((Source.ofText "a\x00'**/").cursor.advance 1).walk?
        (.pair '*'.toUInt8 '/'.toUInt8)).map (passed 2) =
      some ((Source.ofText "a\x00'**/").cursor.advance 1).pastBlockComment := by
  have hfind := fun s : Sought => s.foundBy_first?
  have hsteps := searches_stepwise hfind
    ((Source.ofText "a\x00'**/").cursor.advance 1)
  have hin : ((Source.ofText "a\x00'**/").cursor.advance 1).pos ≤
      ((Source.ofText "a\x00'**/").cursor.advance 1).source.size := by decide
  exact ⟨hfind, hsteps.walkedByte hin _, hsteps.walkedBlockComment hin⟩

end Cursor
end QueryDigest
