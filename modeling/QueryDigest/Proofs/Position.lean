import QueryDigest.Cursor.Search
import QueryDigest.Proofs.Encoding

/-!
# QueryDigest.Proofs.Position

A cursor between two characters. `c.At before rest` says that the text of the cursor is `before`
followed by `rest` and that the cursor stands between them. At such a place the bytes that can be
read are those of `rest` and then zeros (`At.byte?`), moving past a character gives such a place
again (`At.advance`), and what is cut out is the characters passed (`At.sliceFrom?`).

Searches for a byte start at such a place or, behind a backslash, inside a character.
`c.Toward p before rest` covers both: no byte from the cursor on to the place passes the test.
-/

namespace QueryDigest

open Text

namespace Source

theorem toList_bytes (s : Source) : s.bytes.data.toList = encode s.text.toList := by
  rw [s.bytes_eq, encode_toList]

theorem size_eq (s : Source) : s.size = width s.text.toList := by
  rw [size, width_toList]

theorem getElem_bytes (s : Source) {i : Nat} (h : i < s.bytes.size)
    (hi : i < (encode s.text.toList).length) : s.bytes[i] = (encode s.text.toList)[i] := by
  simp only [ByteArray.getElem_eq_getElem_data, ← s.toList_bytes, Array.getElem_toList]

theorem lt_length_encode (s : Source) {i : Nat} (h : i < s.bytes.size) :
    i < (encode s.text.toList).length := by
  rw [← s.toList_bytes, Array.length_toList]
  exact h

/-- Behind a beginning of the text, the bytes read are those of the rest and then zeros. -/
theorem byte?_eq {s : Source} {a b : List Char} (h : s.text.toList = a ++ b) {k : Nat}
    (hk : k ≤ width b + 2) : s.byte? (width a + k) = some ((encode b).getD k 0) := by
  have hsize : s.size = width a + width b := by rw [size_eq, h, width_append]
  by_cases hin : k < width b
  · have hlt : width a + k < s.bytes.size := by rw [size_bytes, hsize]; omega
    rw [byte?_eq_bytes hlt, getElem_bytes s hlt (s.lt_length_encode hlt)]
    simp only [h, encode_append]
    rw [List.getElem_append_right (by unfold width; omega)]
    simp only [width, Nat.add_sub_cancel_left] at hin ⊢
    rw [List.getD_eq_getElem?_getD, List.getElem?_eq_getElem hin, Option.getD_some]
  · have hout : s.size ≤ width a + k := by omega
    obtain ⟨b', hread, hzero⟩ := s.exists_byte? (i := width a + k) (by omega)
    rw [List.getD_eq_getElem?_getD, List.getElem?_eq_none (by unfold width at hin; omega), hread,
      hzero hout, Option.getD_none]

/-- ASCII characters behind a beginning of the text are read as their bytes. -/
theorem byte?_of_isAscii {s : Source} {a x y : List Char} (h : s.text.toList = a ++ x ++ y)
    (hx : ∀ c ∈ x, isAscii c = true) {k : Nat} (hk : k < x.length) :
    s.byte? (width a + k) = some x[k].toUInt8 := by
  induction x generalizing a k with
  | nil => cases hk
  | cons c cs ih =>
    rw [List.forall_mem_cons] at hx
    cases k with
    | zero =>
      rw [List.append_assoc] at h
      rw [byte?_eq h (Nat.zero_le _), List.cons_append, encode_cons_of_isAscii hx.1]
      rfl
    | succ k =>
      rw [List.append_cons a c cs] at h
      have hread := ih h hx.2 (Nat.lt_of_succ_lt_succ hk)
      rw [width_append, width_singleton, utf8Size_of_isAscii hx.1] at hread
      rw [← Nat.add_assoc, Nat.add_right_comm]
      exact hread

theorem getElem_mem_encode {s : Source} {a x y : List Char} (h : s.text.toList = a ++ (x ++ y))
    {k : Nat} (hk : k < s.bytes.size) (hle : width a ≤ k) (hlt : k < width a + width x) :
    s.bytes[k] ∈ encode x := by
  rw [getElem_bytes s hk (s.lt_length_encode hk)]
  simp only [h, encode_append]
  rw [List.getElem_append_right hle, List.getElem_append_left (by unfold width at *; omega)]
  exact List.getElem_mem _

/-- Inside a character the bytes are at least `0x80`. -/
theorem le_getElem_inside {s : Source} {a y : List Char} {d : Char}
    (h : s.text.toList = a ++ d :: y) {k : Nat} (hk : k < s.bytes.size) (hlt : width a < k)
    (hle : k < width (a ++ [d])) : 128 ≤ s.bytes[k] := by
  rw [width_append, width_singleton] at hle
  rw [getElem_bytes s hk (s.lt_length_encode hk)]
  simp only [h, encode_append, encode_cons]
  rw [List.getElem_append_right (by unfold width at hlt; omega), List.getElem_append_left
    (by rw [String.length_utf8EncodeChar]; unfold width at *; omega)]
  apply le_of_mem_tail_utf8EncodeChar (c := d)
  obtain ⟨j, hj⟩ : ∃ j, k - (encode a).length = j + 1 :=
    ⟨k - (encode a).length - 1, by unfold width at hlt; omega⟩
  have htail : j < (String.utf8EncodeChar d).tail.length := by
    rw [List.length_tail, String.length_utf8EncodeChar]
    unfold width at hle
    omega
  simp only [hj, ← List.getElem_tail htail]
  exact List.getElem_mem _

theorem getElem_eq_firstByte {s : Source} {a y : List Char} (h : s.text.toList = a ++ y)
    (hy : y ≠ []) :
    ∃ hk : width a < s.bytes.size, s.bytes[width a] = firstByte y := by
  have hpos := width_pos_of_ne_nil hy
  have hk : width a < s.bytes.size := by
    rw [size_bytes, size_eq, h, width_append]
    omega
  refine ⟨hk, ?_⟩
  have hread := byte?_eq h (Nat.zero_le _)
  rw [Nat.add_zero, byte?_eq_bytes hk, Option.some.injEq] at hread
  rw [hread]
  cases hb : encode y <;> simp [firstByte, hb]

end Source

namespace Cursor

/-- The cursor stands between `before` and `rest`, which make up the text. -/
structure At (c : Cursor) (before rest : List Char) : Prop where
  text : c.source.text.toList = before ++ rest
  pos : c.pos = width before

namespace At

variable {c : Cursor} {before rest : List Char}

theorem size (h : c.At before rest) : c.source.size = width before + width rest := by
  rw [Source.size_eq, h.text, width_append]

theorem byte? (h : c.At before rest) {k : Nat} (hk : k ≤ width rest + 2) :
    c.source.byte? (c.pos + k) = some ((encode rest).getD k 0) := by
  rw [h.pos]
  exact Source.byte?_eq h.text hk

theorem current? (h : c.At before rest) : c.current? = some (firstByte rest) := by
  have := h.byte? (Nat.zero_le _)
  rw [Nat.add_zero] at this
  rw [Cursor.current?, this]
  cases hb : encode rest <;> simp [firstByte, hb]

theorem atEnd? (h : c.At before rest) : c.atEnd? = some rest.isEmpty := by
  rw [Cursor.atEnd?, h.current?, Option.map_some, h.size, h.pos]
  cases rest with
  | nil => simp
  | cons d ds =>
    have := width_pos_of_ne_nil (List.cons_ne_nil d ds)
    simp only [List.isEmpty_cons, Option.some.injEq, Bool.and_eq_false_iff, decide_eq_false_iff_not]
    exact .inr (by omega)

theorem advance {x y : List Char} (h : c.At before (x ++ y)) {n : Nat} (hn : n = width x) :
    (c.advance n).At (before ++ x) y where
  text := by rw [source_advance, h.text, List.append_assoc]
  pos := by rw [pos_advance, h.pos, width_append, hn]

theorem toEnd (h : c.At before rest) : c.toEnd.At (before ++ rest) [] where
  text := by rw [source_toEnd, h.text, List.append_nil]
  pos := by rw [pos_toEnd, h.size, width_append]

theorem pos_le {d : Cursor} {x y : List Char} (h : c.At before rest)
    (h' : d.At (before ++ x) y) : c.pos ≤ d.pos := by
  rw [h.pos, h'.pos, width_append]
  omega

theorem isValid (h : c.At before rest) : String.Pos.Raw.IsValid c.source.text ⟨c.pos⟩ := by
  rw [String.Pos.Raw.isValid_iff_exists_append]
  refine ⟨String.ofList before, String.ofList rest, ?_, ?_⟩
  · rw [← String.ofList_append, ← h.text, String.ofList_toList]
  · rw [h.pos, width_eq]
    rfl

theorem sliceFrom? {x y : List Char} (h : c.At (before ++ x) y) :
    c.sliceFrom? (width before) = some (String.ofList x) := by
  have hstart : String.Pos.Raw.IsValid c.source.text ⟨width before⟩ :=
    isValid (c := ⟨c.source, width before⟩) ⟨by rw [h.text, List.append_assoc], rfl⟩
  have hpos : c.pos = width before + width x := by rw [h.pos, width_append]
  have hmin : min c.pos c.source.size = c.pos := by
    have := h.size
    rw [width_append] at this
    omega
  have hstop := h.isValid
  rw [Cursor.sliceFrom?, slice?]
  simp only [hmin]
  rw [dif_pos ⟨by omega, hstart, hstop⟩]
  congr 1
  apply String.toByteArray_inj.1
  have htext : c.source.text.toByteArray =
      before.utf8Encode ++ (x.utf8Encode ++ y.utf8Encode) := by
    rw [← String.utf8Encode_toList, h.text, List.utf8Encode_append, List.utf8Encode_append,
      ByteArray.append_assoc]
  have hx : x.utf8Encode.size = width x := by
    rw [List.utf8Encode, List.size_toByteArray]
    rfl
  have hbefore : before.utf8Encode.size = width before := by
    rw [List.utf8Encode, List.size_toByteArray]
    rfl
  rw [String.toByteArray_extract, String.toByteArray_ofList]
  show c.source.text.toByteArray.extract (width before) c.pos = _
  rw [htext, hpos, ← hbefore, ← Nat.add_zero before.utf8Encode.size, Nat.add_assoc,
    ByteArray.extract_append_size_add, Nat.zero_add, ← hx, ByteArray.extract_append_eq_left rfl]

end At

/-! ## Searches -/

/-- The cursor stands at or before the place between `before` and `rest`, and no byte on the way to
it passes the test. -/
structure Toward (p : UInt8 → Bool) (c : Cursor) (before rest : List Char) : Prop where
  text : c.source.text.toList = before ++ rest
  pos_le : c.pos ≤ width before
  gap : ∀ k (hk : k < c.source.bytes.size), c.pos ≤ k → k < width before →
    p c.source.bytes[k] = false

theorem At.toward {c : Cursor} {before rest : List Char} (h : c.At before rest)
    (p : UInt8 → Bool) : c.Toward p before rest where
  text := h.text
  pos_le := Nat.le_of_eq h.pos
  gap := fun k _ hle hlt => by
    rw [h.pos] at hle
    omega

namespace Toward

variable {p : UInt8 → Bool} {c : Cursor} {before rest : List Char}

theorem size (h : c.Toward p before rest) : c.source.size = width before + width rest := by
  rw [Source.size_eq, h.text, width_append]

/-- A search passes over characters none of whose bytes it looks for. -/
theorem append {x y : List Char} (h : c.Toward p before (x ++ y))
    (hx : ∀ b ∈ encode x, p b = false) : c.Toward p (before ++ x) y where
  text := by rw [h.text, List.append_assoc]
  pos_le := by
    have := h.pos_le
    rw [width_append]
    omega
  gap := by
    intro k hk hle hlt
    rw [width_append] at hlt
    by_cases hb : k < width before
    · exact h.gap k hk hle hb
    · exact hx _ (Source.getElem_mem_encode h.text hk (by omega) hlt)

theorem findIdx?_some {d : Char} {ds : List Char} (h : c.Toward p before (d :: ds))
    (hp : p (firstByte (d :: ds)) = true) :
    c.source.bytes.findIdx? p c.pos = some (width before) := by
  obtain ⟨hk, he⟩ := Source.getElem_eq_firstByte h.text (List.cons_ne_nil d ds)
  exact Bytes.findIdx?_eq_some_iff.2
    ⟨h.pos_le, ⟨hk, by rw [he, hp]⟩, fun k hk hle hlt => h.gap k hk hle hlt⟩

theorem findIdx?_none (h : c.Toward p before []) : c.source.bytes.findIdx? p c.pos = none := by
  refine Bytes.findIdx?_eq_none_iff.2 fun k hk hle => h.gap k hk hle ?_
  have := h.size
  rw [Source.size_bytes] at hk
  rw [width_nil] at this
  omega

/-- The search ends at the first character it looks for. -/
theorem seek_some {d : Char} {ds : List Char} (h : c.Toward p before (d :: ds))
    (hp : p (firstByte (d :: ds)) = true) :
    c.seek p = (⟨c.source, width before⟩, some (firstByte (d :: ds))) := by
  obtain ⟨hk, he⟩ := Source.getElem_eq_firstByte h.text (List.cons_ne_nil d ds)
  simp only [seek, h.findIdx?_some hp]
  rw [getElem?_pos c.source.bytes (width before) hk, he]

theorem seek_none (h : c.Toward p before []) : c.seek p = (c.toEnd, none) := by
  rw [seek, h.findIdx?_none]

end Toward

theorem seek_of_size_le {p : UInt8 → Bool} {c : Cursor} (h : c.source.size ≤ c.pos) :
    c.seek p = (c.toEnd, none) := by
  have hnone : c.source.bytes.findIdx? p c.pos = none := by
    refine Bytes.findIdx?_eq_none_iff.2 fun k hk hle => ?_
    rw [Source.size_bytes] at hk
    omega
  rw [seek, hnone]

namespace At

variable {c : Cursor} {before rest : List Char}

/-- Skipping bytes of a kind ends at the first character that does not begin with one. -/
theorem skipWhile? {p : UInt8 → Bool} {x y : List Char} (h : c.At before (x ++ y))
    (hx : ∀ b ∈ encode x, p b = true) (hy : p (firstByte y) = false) :
    ∃ c', c.skipWhile? p = some c' ∧ c'.source = c.source ∧ c'.At (before ++ x) y := by
  have hat : At ⟨c.source, width (before ++ x)⟩ (before ++ x) y :=
    ⟨by rw [h.text, List.append_assoc], rfl⟩
  refine ⟨⟨c.source, width (before ++ x)⟩, ?_, rfl, hat⟩
  have hstop := hat.current?
  simp only [Cursor.current?, Source.byte?, Option.dite_none_right_eq_some, Option.some.injEq] at hstop
  obtain ⟨hlt, hstop⟩ := hstop
  rw [Cursor.skipWhile?, Bytes.findIdx?_eq_some_iff.2 ⟨?_, ⟨hlt, ?_⟩, ?_⟩]
  · rfl
  · rw [h.pos, width_append]
    omega
  · rw [hstop, hy]
    rfl
  · intro k hk hle hltk
    rw [h.pos] at hle
    rw [width_append] at hltk
    have hin : k < c.source.bytes.size := by
      have := h.size
      rw [width_append] at this
      rw [Source.size_bytes]
      omega
    have hmem := Source.getElem_mem_encode h.text hin hle hltk
    have hread := Source.byte?_eq_bytes hin
    simp only [Source.byte?, Option.dite_none_right_eq_some, Option.some.injEq] at hread
    obtain ⟨_, hread⟩ := hread
    rw [hread, hx _ hmem]
    rfl

end At

/-! ## Pairs of characters -/

theorem findPair?_skip {bytes : ByteArray} {a b : UInt8} {i j : Nat} (hij : i ≤ j)
    (hno : ∀ k (h : k + 1 < bytes.size), i ≤ k → k < j → ¬ (bytes[k] = a ∧ bytes[k + 1] = b)) :
    Bytes.findPair? bytes a b i = Bytes.findPair? bytes a b j := by
  cases hj : Bytes.findPair? bytes a b j with
  | none =>
    rw [Bytes.findPair?_eq_none_iff] at hj ⊢
    intro k hk hle
    by_cases hkj : k < j
    · exact hno k hk hle hkj
    · exact hj k hk (by omega)
  | some m =>
    rw [Bytes.findPair?_eq_some_iff] at hj ⊢
    obtain ⟨hle, hm, hmin⟩ := hj
    refine ⟨by omega, hm, fun k hk hik hkm => ?_⟩
    by_cases hkj : k < j
    · exact hno k hk hik hkj
    · exact hmin k hk (by omega) hkm

section Pair

variable {s : Source} {a b : Char}

/-- A search for a pair passes over a character at which the pair does not begin. -/
theorem findPair?_cons (ha : isAscii a = true) (hb : isAscii b = true) {before rest : List Char}
    {d : Char} (h : s.text.toList = before ++ d :: rest)
    (hno : ¬ (d = a ∧ rest.head? = some b)) :
    Bytes.findPair? s.bytes a.toUInt8 b.toUInt8 (width before) =
      Bytes.findPair? s.bytes a.toUInt8 b.toUInt8 (width (before ++ [d])) := by
  apply findPair?_skip
  · rw [width_append]
    omega
  · rintro k hk hle hlt ⟨hka, hkb⟩
    by_cases hkeq : k = width before
    · subst hkeq
      obtain ⟨_, he⟩ := Source.getElem_eq_firstByte h (List.cons_ne_nil d rest)
      rw [he] at hka
      have hd := firstByte_cons_beq ha d rest
      rw [beq_iff_eq.2 hka] at hd
      obtain rfl := beq_iff_eq.1 hd.symm
      have h' : s.text.toList = (before ++ [d]) ++ rest := by rw [h, List.append_assoc]; rfl
      have hw : width (before ++ [d]) = width before + 1 := by
        rw [width_append, width_singleton, utf8Size_of_isAscii ha]
      have hrest : rest ≠ [] := by
        rintro rfl
        rw [Source.size_bytes, Source.size_eq, h', List.append_nil, hw] at hk
        omega
      obtain ⟨_, he'⟩ := Source.getElem_eq_firstByte h' hrest
      simp only [hw, hkb] at he'
      refine hno ⟨rfl, ?_⟩
      obtain ⟨e, es, rfl⟩ := List.exists_cons_of_ne_nil hrest
      have hed := firstByte_cons_beq hb e es
      rw [← he', beq_self_eq_true] at hed
      rw [List.head?_cons, beq_iff_eq.1 hed.symm]
    · have hge := Source.le_getElem_inside h (by omega) (by omega) hlt
      rw [hka] at hge
      exact UInt8.not_le.2 (toUInt8_lt ha) hge

end Pair

end Cursor
end QueryDigest
