import QueryDigest.ByteClass
import QueryDigest.Source

/-!
# QueryDigest.Proofs.Encoding

A query is scanned byte by byte, but what a scan does is said of its characters. This module ties
the two: `Text.encode` is the UTF-8 form of a list of characters, `Text.width` its length, and
`Text.firstByte` the byte read where the list begins (zero where it is empty, as past the end of a
padded text).

An ASCII character is its own byte, and every byte of another character is at least `0x80`. So a
test on bytes that no such byte passes is a test on characters (`AsciiTest`), and the byte classes
are such tests (`has_firstByte`).
-/

namespace QueryDigest

namespace Text

/-- The UTF-8 bytes of the characters. -/
def encode (cs : List Char) : List UInt8 :=
  cs.flatMap String.utf8EncodeChar

/-- How many bytes the characters take. -/
def width (cs : List Char) : Nat :=
  (encode cs).length

/-- The first byte of the characters, zero if there is none. -/
def firstByte (cs : List Char) : UInt8 :=
  (encode cs).headD 0

@[simp] theorem encode_nil : encode [] = [] := rfl

theorem encode_cons (c : Char) (cs : List Char) :
    encode (c :: cs) = String.utf8EncodeChar c ++ encode cs := rfl

@[simp] theorem encode_append (a b : List Char) : encode (a ++ b) = encode a ++ encode b := by
  simp [encode]

@[simp] theorem width_nil : width [] = 0 := rfl

@[simp] theorem width_append (a b : List Char) : width (a ++ b) = width a + width b := by
  simp [width]

theorem width_singleton (c : Char) : width [c] = c.utf8Size := by
  simp [width, encode]

theorem width_cons (c : Char) (cs : List Char) : width (c :: cs) = c.utf8Size + width cs := by
  rw [← List.singleton_append, width_append, width_singleton]

theorem width_pos_of_ne_nil {cs : List Char} (h : cs ≠ []) : 0 < width cs := by
  cases cs with
  | nil => exact absurd rfl h
  | cons c cs =>
    have := c.utf8Size_pos
    rw [width_cons]
    omega

theorem encode_toList (s : String) : encode s.toList = s.toByteArray.data.toList := by
  rw [← String.utf8Encode_toList, List.utf8Encode, List.data_toByteArray]
  rfl

theorem width_toList (s : String) : width s.toList = s.utf8ByteSize := by
  rw [width, encode_toList]
  rfl

theorem width_eq (cs : List Char) : width cs = (String.ofList cs).utf8ByteSize := by
  rw [← width_toList, String.toList_ofList]

theorem append_inj_of_width {a b x y : List Char} (h : a ++ x = b ++ y) (hs : width a = width b) :
    a = b ∧ x = y := by
  induction a generalizing b with
  | nil =>
    cases b with
    | nil => exact ⟨rfl, h⟩
    | cons c cs =>
      have := width_pos_of_ne_nil (List.cons_ne_nil c cs)
      rw [width_nil] at hs
      omega
  | cons c cs ih =>
    cases b with
    | nil =>
      have := width_pos_of_ne_nil (List.cons_ne_nil c cs)
      rw [width_nil] at hs
      omega
    | cons d ds =>
      simp only [List.cons_append, List.cons.injEq] at h
      obtain ⟨rfl, h⟩ := h
      simp only [width_cons, Nat.add_left_cancel_iff] at hs
      obtain ⟨rfl, hxy⟩ := ih h hs
      exact ⟨rfl, hxy⟩

/-! ## The bytes of one character -/

/-- Does the character take a single byte? -/
def isAscii (c : Char) : Bool :=
  c.val < 128

theorem toNat_lt_of_isAscii {c : Char} (h : isAscii c = true) : c.toNat < 128 := by
  simp only [isAscii, decide_eq_true_eq] at h
  exact UInt32.lt_iff_toNat_lt.1 h

theorem isAscii_of_toNat_lt {c : Char} (h : c.toNat < 128) : isAscii c = true := by
  simp only [isAscii, decide_eq_true_eq]
  exact UInt32.lt_iff_toNat_lt.2 h

theorem utf8Size_of_isAscii {c : Char} (h : isAscii c = true) : c.utf8Size = 1 := by
  have := toNat_lt_of_isAscii h
  rw [Char.utf8Size_eq_one_iff, UInt32.le_iff_toNat_le]
  exact Nat.le_of_lt_succ this

theorem width_of_isAscii {cs : List Char} (h : ∀ c ∈ cs, isAscii c = true) :
    width cs = cs.length := by
  induction cs with
  | nil => rfl
  | cons c cs ih =>
    rw [List.forall_mem_cons] at h
    rw [width_cons, utf8Size_of_isAscii h.1, ih h.2, List.length_cons, Nat.add_comm]

theorem utf8EncodeChar_of_isAscii {c : Char} (h : isAscii c = true) :
    String.utf8EncodeChar c = [c.toUInt8] :=
  String.utf8EncodeChar_eq_singleton (utf8Size_of_isAscii h)

theorem encode_cons_of_isAscii {c : Char} (h : isAscii c = true) (cs : List Char) :
    encode (c :: cs) = c.toUInt8 :: encode cs := by
  rw [encode_cons, utf8EncodeChar_of_isAscii h, List.singleton_append]

theorem toNat_toUInt8 {c : Char} (h : isAscii c = true) : c.toUInt8.toNat = c.toNat := by
  have := toNat_lt_of_isAscii h
  show c.val.toUInt8.toNat = c.val.toNat
  have : c.val.toNat < 128 := this
  rw [UInt32.toNat_toUInt8]
  omega

theorem ofUInt8_toUInt8 {c : Char} (h : isAscii c = true) : Char.ofUInt8 c.toUInt8 = c := by
  apply Char.ext
  apply UInt32.toNat_inj.1
  show c.toUInt8.toUInt32.toNat = c.val.toNat
  rw [UInt8.toNat_toUInt32, toNat_toUInt8 h]
  rfl

theorem toUInt8_lt {c : Char} (h : isAscii c = true) : c.toUInt8 < 128 := by
  rw [UInt8.lt_iff_toNat_lt, toNat_toUInt8 h]
  exact toNat_lt_of_isAscii h

theorem toUInt8_inj {c d : Char} (hc : isAscii c = true) (hd : isAscii d = true)
    (h : c.toUInt8 = d.toUInt8) : c = d := by
  apply Char.toNat_inj.1
  rw [← toNat_toUInt8 hc, ← toNat_toUInt8 hd, h]

/-- Every byte of a character outside ASCII is at least `0x80`. -/
theorem le_of_mem_utf8EncodeChar {c : Char} (h : isAscii c = false) {b : UInt8}
    (hb : b ∈ String.utf8EncodeChar c) : 128 ≤ b := by
  have hc : 128 ≤ c.val.toNat := by
    apply Nat.le_of_not_lt
    intro hlt
    rw [isAscii_of_toNat_lt hlt] at h
    cases h
  rw [UInt8.le_iff_toNat_le]
  unfold String.utf8EncodeChar at hb
  generalize c.val.toNat = v at hb hc
  dsimp only at hb
  split at hb
  · omega
  · split at hb
    · simp only [List.mem_cons, List.not_mem_nil, or_false] at hb
      rcases hb with rfl | rfl <;> simp <;> omega
    · split at hb
      · simp only [List.mem_cons, List.not_mem_nil, or_false] at hb
        rcases hb with rfl | rfl | rfl <;> simp <;> omega
      · simp only [List.mem_cons, List.not_mem_nil, or_false] at hb
        rcases hb with rfl | rfl | rfl | rfl <;> simp <;> omega

/-- The bytes of a character after the first are at least `0x80`. -/
theorem le_of_mem_tail_utf8EncodeChar {c : Char} {b : UInt8}
    (hb : b ∈ (String.utf8EncodeChar c).tail) : 128 ≤ b := by
  cases h : isAscii c with
  | true =>
    rw [utf8EncodeChar_of_isAscii h] at hb
    cases hb
  | false => exact le_of_mem_utf8EncodeChar h (List.mem_of_mem_tail hb)

/-! ## Tests that only ASCII bytes pass -/

/-- A test that no byte outside ASCII passes. -/
def AsciiTest (p : UInt8 → Bool) : Prop :=
  ∀ b, 128 ≤ b → p b = false

/-- The test on characters that an ASCII test is. -/
def onChar (p : UInt8 → Bool) (c : Char) : Bool :=
  isAscii c && p c.toUInt8

theorem AsciiTest.or {p q : UInt8 → Bool} (hp : AsciiTest p) (hq : AsciiTest q) :
    AsciiTest fun b => p b || q b := by
  intro b hb
  simp [hp b hb, hq b hb]

theorem asciiTest_eq {c : Char} (hc : isAscii c = true) : AsciiTest (· == c.toUInt8) := by
  intro b hb
  rw [beq_eq_false_iff_ne]
  rintro rfl
  exact UInt8.not_le.2 (toUInt8_lt hc) hb

theorem asciiTest_has (k : ByteClass) : AsciiTest k.has :=
  fun b hb => k.has_eq_false b hb

theorem onChar_eq {d : Char} (hd : isAscii d = true) (c : Char) :
    onChar (· == d.toUInt8) c = (c == d) := by
  cases hc : isAscii c with
  | true =>
    simp only [onChar, hc, Bool.true_and]
    by_cases h : c = d
    · simp [h]
    · have : c.toUInt8 ≠ d.toUInt8 := fun he => h (toUInt8_inj hc hd he)
      rw [beq_eq_false_iff_ne.2 h, beq_eq_false_iff_ne.2 this]
  | false =>
    have : c ≠ d := by
      rintro rfl
      rw [hd] at hc
      cases hc
    simp [onChar, hc, this]

theorem isAlpha_iff {c : Char} :
    c.isAlpha = true ↔ ('A' ≤ c ∧ c ≤ 'Z') ∨ ('a' ≤ c ∧ c ≤ 'z') := by
  change (decide ('A' ≤ c ∧ c ≤ 'Z') || (decide ('a' ≤ c) && decide (c ≤ 'z'))) = true ↔ _
  simp only [Bool.or_eq_true, Bool.and_eq_true, decide_eq_true_eq]

theorem toNat_lt_of_hasChar {k : ByteClass} {c : Char} (h : k.hasChar c = true) :
    c.toNat < 128 := by
  have hle : ∀ d : Char, c ≤ d → d.toNat < 128 → c.toNat < 128 := fun d hcd hd =>
    Nat.lt_of_le_of_lt (UInt32.le_iff_toNat_le.1 hcd) hd
  cases k <;> simp only [ByteClass.hasChar, isAlpha_iff, Char.isDigit, Char.isAlphanum,
    ByteClass.operators, Bool.or_eq_true, Bool.and_eq_true, decide_eq_true_eq, beq_iff_eq,
    List.contains_eq_mem, List.mem_cons, List.not_mem_nil, or_false] at h
  case nameStart =>
    rcases h with (⟨-, h⟩ | ⟨-, h⟩) | rfl
    · exact hle 'Z' h (by decide)
    · exact hle 'z' h (by decide)
    · decide
  case nameContinue =>
    rcases h with ((⟨-, h⟩ | ⟨-, h⟩) | ⟨-, h⟩) | rfl
    · exact hle 'Z' h (by decide)
    · exact hle 'z' h (by decide)
    · exact hle '9' h (by decide)
    · decide
  case digit => exact hle '9' h.2 (by decide)
  case numberContinue =>
    rcases h with (((⟨-, h⟩ | ⟨-, h⟩) | ⟨-, h⟩) | rfl) | rfl
    · exact hle '9' h (by decide)
    · exact hle 'f' h (by decide)
    · exact hle 'F' h (by decide)
    · decide
    · decide
  case whitespace => rcases h with ((rfl | rfl) | rfl) | rfl <;> decide
  case lineWhitespace => rcases h with (rfl | rfl) | rfl <;> decide
  case operator =>
    rcases h with rfl | rfl | rfl | rfl | rfl | rfl | rfl | rfl | rfl | rfl | rfl | rfl | rfl | rfl <;>
      decide

theorem isAscii_of_hasChar {k : ByteClass} {c : Char} (h : k.hasChar c = true) :
    isAscii c = true :=
  isAscii_of_toNat_lt (toNat_lt_of_hasChar h)

theorem onChar_has (k : ByteClass) (c : Char) : onChar k.has c = k.hasChar c := by
  cases hc : isAscii c with
  | true =>
    simp only [onChar, hc, Bool.true_and]
    exact k.has_toUInt8 c (of_decide_eq_true hc)
  | false =>
    cases hk : k.hasChar c with
    | true =>
      rw [isAscii_of_hasChar hk] at hc
      cases hc
    | false => simp [onChar, hc]

/-! ## The first byte -/

theorem getD_one {d : Char} (hd : isAscii d = true) (rest : List Char) :
    (encode (d :: rest)).getD 1 0 = firstByte rest := by
  rw [encode_cons_of_isAscii hd, firstByte]
  cases hb : encode rest <;> rfl

theorem getD_two {d : Char} (hd : isAscii d = true) (rest : List Char) :
    (encode (d :: rest)).getD 2 0 = (encode rest).getD 1 0 := by
  rw [encode_cons_of_isAscii hd]
  cases hb : encode rest <;> rfl

@[simp] theorem firstByte_nil : firstByte [] = 0 := rfl

theorem firstByte_cons_of_isAscii {c : Char} (h : isAscii c = true) (cs : List Char) :
    firstByte (c :: cs) = c.toUInt8 := by
  rw [firstByte, encode_cons_of_isAscii h, List.headD_cons]

theorem le_firstByte_of_not_isAscii {c : Char} (h : isAscii c = false) (cs : List Char) :
    128 ≤ firstByte (c :: cs) := by
  apply le_of_mem_utf8EncodeChar h
  rw [firstByte, encode_cons]
  cases he : String.utf8EncodeChar c with
  | nil => exact absurd he String.utf8EncodeChar_ne_nil
  | cons b bs => exact List.mem_cons_self

theorem AsciiTest.firstByte_cons {p : UInt8 → Bool} (hp : AsciiTest p) (c : Char)
    (cs : List Char) : p (firstByte (c :: cs)) = onChar p c := by
  cases h : isAscii c with
  | true => rw [firstByte_cons_of_isAscii h, onChar, h, Bool.true_and]
  | false => rw [hp _ (le_firstByte_of_not_isAscii h cs), onChar, h, Bool.false_and]

theorem has_of_mem_encode {k : ByteClass} {x : List Char} (hx : ∀ a ∈ x, k.hasChar a = true) :
    ∀ b ∈ encode x, k.has b = true := by
  intro b hb
  obtain ⟨a, ha, hb⟩ := List.mem_flatMap.1 hb
  have hascii := isAscii_of_hasChar (hx a ha)
  rw [utf8EncodeChar_of_isAscii hascii, List.mem_singleton] at hb
  rw [hb, k.has_toUInt8 a (of_decide_eq_true hascii), hx a ha]

theorem AsciiTest.not_of_mem_encode {p : UInt8 → Bool} (hp : AsciiTest p) {x : List Char}
    (hx : ∀ a ∈ x, onChar p a = false) : ∀ b ∈ encode x, p b = false := by
  intro b hb
  obtain ⟨a, ha, hb⟩ := List.mem_flatMap.1 hb
  cases hascii : isAscii a with
  | true =>
    have := hx a ha
    rw [utf8EncodeChar_of_isAscii hascii, List.mem_singleton] at hb
    rw [onChar, hascii, Bool.true_and] at this
    rw [hb, this]
  | false => exact hp b (le_of_mem_utf8EncodeChar hascii hb)

theorem has_firstByte_cons (k : ByteClass) (d : Char) (ds : List Char) :
    k.has (firstByte (d :: ds)) = k.hasChar d := by
  rw [(asciiTest_has k).firstByte_cons, onChar_has]

theorem has_firstByte (k : ByteClass) (cs : List Char) :
    k.has (firstByte cs) = cs.head?.any k.hasChar := by
  cases cs with
  | nil => exact k.has_zero
  | cons d ds => exact has_firstByte_cons k d ds

theorem firstByte_cons_beq {e : Char} (he : isAscii e = true) (d : Char) (ds : List Char) :
    (firstByte (d :: ds) == e.toUInt8) = (d == e) := by
  rw [(asciiTest_eq he).firstByte_cons, onChar_eq he]

theorem firstByte_beq {e : Char} (he : isAscii e = true) (h0 : 0 < e.toNat) (cs : List Char) :
    (firstByte cs == e.toUInt8) = (cs.head? == some e) := by
  cases cs with
  | nil =>
    rw [firstByte_nil, List.head?_nil, beq_eq_false_iff_ne.2]
    · rfl
    · intro h
      have := toNat_toUInt8 he
      rw [← h] at this
      simp at this
      omega
  | cons d ds =>
    rw [firstByte_cons_beq he]
    simp

/-! ## Runs of characters -/

/-- A list begins with a longest run of a kind. -/
theorem exists_run (p : Char → Bool) (l : List Char) :
    ∃ x y, l = x ++ y ∧ (∀ a ∈ x, p a = true) ∧ ∀ a ∈ y.head?, p a = false := by
  induction l with
  | nil => exact ⟨[], [], rfl, by simp, by simp⟩
  | cons c cs ih =>
    cases hc : p c with
    | false => exact ⟨[], c :: cs, rfl, by simp, by simpa using hc⟩
    | true =>
      obtain ⟨x, y, rfl, hx, hy⟩ := ih
      refine ⟨c :: x, y, rfl, ?_, hy⟩
      intro a ha
      rcases List.mem_cons.1 ha with rfl | ha
      · exact hc
      · exact hx a ha

/-- A list begins with one longest run of a kind only. -/
theorem run_unique {p : Char → Bool} {x y x' y' : List Char} (h : x ++ y = x' ++ y')
    (hx : ∀ a ∈ x, p a = true) (hy : ∀ a ∈ y.head?, p a = false)
    (hx' : ∀ a ∈ x', p a = true) (hy' : ∀ a ∈ y'.head?, p a = false) : x = x' ∧ y = y' := by
  induction x generalizing x' with
  | nil =>
    cases x' with
    | nil => exact ⟨rfl, h⟩
    | cons c cs =>
      have hc := hy c (by rw [show y = c :: (cs ++ y') from h]; rfl)
      rw [hx' c List.mem_cons_self] at hc
      cases hc
  | cons c cs ih =>
    cases x' with
    | nil =>
      have hc := hy' c (by rw [show y' = c :: (cs ++ y) from h.symm]; rfl)
      rw [hx c List.mem_cons_self] at hc
      cases hc
    | cons d ds =>
      simp only [List.cons_append, List.cons.injEq] at h
      obtain ⟨rfl, h⟩ := h
      obtain ⟨rfl, hyy⟩ := ih h (fun a ha => hx a (List.mem_cons_of_mem _ ha))
        (fun a ha => hx' a (List.mem_cons_of_mem _ ha))
      exact ⟨rfl, hyy⟩

/-- A list is split one way only at the first place of a character. -/
theorem split_unique {a : Char} {x y x' y' : List Char} (h : x ++ a :: y = x' ++ a :: y')
    (hx : a ∉ x) (hx' : a ∉ x') : x = x' ∧ y = y' := by
  have hrun : ∀ cs : List Char, a ∉ cs → ∀ c ∈ cs, (c != a) = true := by
    intro cs hcs c hc
    exact bne_iff_ne.2 fun heq => hcs (heq ▸ hc)
  obtain ⟨rfl, hy⟩ := run_unique h (hrun _ hx) (by simp) (hrun _ hx') (by simp)
  exact ⟨rfl, List.tail_eq_of_cons_eq hy⟩

theorem takeWhile_of_run {p : Char → Bool} {x y : List Char} (hx : ∀ a ∈ x, p a = true)
    (hy : ∀ a ∈ y.head?, p a = false) : (x ++ y).takeWhile p = x := by
  rw [List.takeWhile_append_of_pos hx]
  cases y with
  | nil => rw [List.takeWhile_nil, List.append_nil]
  | cons d ds => rw [List.takeWhile_cons_of_neg (by simp [hy d rfl]), List.append_nil]

theorem find?_append_of_run {p : Char → Bool} {x : List Char} (hx : ∀ a ∈ x, p a = true)
    (y : List Char) : (x ++ y).find? (fun a => !p a) = y.find? (fun a => !p a) := by
  rw [List.find?_append, List.find?_eq_none.2, Option.none_or]
  intro a ha
  simp [hx a ha]

theorem find?_of_head {p : Char → Bool} {y : List Char} (hy : ∀ a ∈ y.head?, p a = false) :
    y.find? (fun a => !p a) = y.head? := by
  cases y with
  | nil => rfl
  | cons d ds =>
    have hd := hy d rfl
    rw [List.find?_cons, hd]
    rfl

end Text
end QueryDigest
