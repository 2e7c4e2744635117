import QueryDigest.Proofs.Closing

/-!
# QueryDigest.Proofs.Characters

A cursor that goes from character to character. `c.stops?` lists where it stands on its way from `c`
to the end of the text. From a place between two characters it comes to all such places behind it
and to no other (`At.stops?_eq`): the first byte of a character says how long it is, and a zero byte
inside the text is not taken for its end. Cut at its stops the text falls into its characters
(`slices_places`).
-/

namespace QueryDigest

open Text

namespace Cursor

/-- The positions of a cursor that is taken on character by character to the end of the text; none
if a byte is read outside the padded copy. -/
def stops? (c : Cursor) : Option (List Nat) :=
  if hend : c.atEnd? = some false then
    match hnext : c.advanceChar? with
    | none => none
    | some d =>
      have : d.source.size - d.pos < c.source.size - c.pos := by
        obtain ⟨hs, hp⟩ := advanceChar?_eq hnext
        have hin := pos_lt_size_of_atEnd? hend
        rw [hs]
        omega
      (stops? d).map (c.pos :: ·)
  else
    c.atEnd?.map fun _ => [c.pos]
termination_by c.source.size - c.pos

/-- One character of the way. -/
theorem stops?_eq (c : Cursor) : c.stops? = if c.atEnd? = some false then
      c.advanceChar?.bind fun d => d.stops?.map (c.pos :: ·)
    else c.atEnd?.map fun _ => [c.pos] := by
  rw [stops?]
  split
  · split
    · rename_i hnext
      rw [hnext, Option.bind_none]
    · rename_i d hnext
      simp only [hnext, Option.bind_some]
  · rfl

end Cursor

/-- The places in front of, between and behind the characters, if they begin at byte `i`. -/
def places (i : Nat) : List Char → List Nat
  | [] => [i]
  | c :: cs => i :: places (i + c.utf8Size) cs

section Places

variable {i k : Nat} {cs : List Char}

theorem mem_places : k ∈ places i cs ↔ ∃ x y, cs = x ++ y ∧ k = i + width x := by
  induction cs generalizing i with
  | nil =>
    rw [places, List.mem_singleton]
    constructor
    · rintro rfl
      exact ⟨[], [], rfl, rfl⟩
    · rintro ⟨x, y, hxy, rfl⟩
      obtain ⟨rfl, -⟩ := List.append_eq_nil_iff.1 hxy.symm
      rfl
  | cons c cs ih =>
    rw [places, List.mem_cons, ih]
    constructor
    · rintro (rfl | ⟨x, y, rfl, rfl⟩)
      · exact ⟨[], c :: cs, rfl, rfl⟩
      · exact ⟨c :: x, y, rfl, by rw [width_cons, Nat.add_assoc]⟩
    · rintro ⟨x, y, hxy, rfl⟩
      cases x with
      | nil => exact .inl rfl
      | cons d x =>
        obtain ⟨rfl, rfl⟩ := List.cons_eq_cons.1 hxy
        exact .inr ⟨x, y, rfl, by rw [width_cons, Nat.add_assoc]⟩

/-- The places are told in their order. -/
theorem pairwise_places (i : Nat) (cs : List Char) : (places i cs).Pairwise (· < ·) := by
  induction cs generalizing i with
  | nil => exact List.pairwise_singleton _ _
  | cons c cs ih =>
    rw [places, List.pairwise_cons]
    refine ⟨?_, ih _⟩
    intro k hk
    obtain ⟨x, y, -, rfl⟩ := mem_places.1 hk
    have hpos := c.utf8Size_pos
    omega

theorem exists_places_cons (i : Nat) (cs : List Char) : ∃ ks, places i cs = i :: ks := by
  cases cs with
  | nil => exact ⟨[], rfl⟩
  | cons c cs => exact ⟨_, rfl⟩

theorem getLast?_places (i : Nat) (cs : List Char) :
    (places i cs).getLast? = some (i + width cs) := by
  induction cs generalizing i with
  | nil => rfl
  | cons c cs ih =>
    obtain ⟨ks, hks⟩ := exists_places_cons (i + c.utf8Size) cs
    rw [places, hks, List.getLast?_cons_cons, ← hks, ih, width_cons, Nat.add_assoc]

/-- The places of a text are those where it can be cut. -/
theorem mem_places_iff_isValid {text : String} :
    k ∈ places 0 text.toList ↔ String.Pos.Raw.IsValid text ⟨k⟩ := by
  rw [mem_places, String.Pos.Raw.isValid_iff_exists_append]
  constructor
  · rintro ⟨x, y, hxy, rfl⟩
    refine ⟨String.ofList x, String.ofList y, ?_, ?_⟩
    · rw [← String.ofList_append, ← hxy, String.ofList_toList]
    · rw [Nat.zero_add, width_eq]
      rfl
  · rintro ⟨s, t, rfl, hi⟩
    refine ⟨s.toList, t.toList, String.toList_append, ?_⟩
    rw [Nat.zero_add, width_toList]
    exact congrArg String.Pos.Raw.byteIdx hi

end Places

namespace Cursor

section Walk

variable {c : Cursor} {before rest : List Char}

/-- From between two characters the stops are the places behind. -/
theorem At.stops?_eq (h : c.At before rest) : c.stops? = some (places (width before) rest) := by
  induction rest generalizing c before with
  | nil =>
    rw [Cursor.stops?_eq, h.atEnd?, List.isEmpty_nil, if_neg (by decide), h.pos]
    rfl
  | cons d ds ih =>
    have hnext : (c.advance d.utf8Size).At (before ++ [d]) ds :=
      h.advance (x := [d]) (width_singleton d).symm
    rw [Cursor.stops?_eq, h.atEnd?, List.isEmpty_cons, if_pos rfl, Scan.advanceChar?_eq_of_cons h,
      Option.bind_some, ih hnext, Option.map_some, h.pos, places, width_append, width_singleton]

/-- Between two places next to each other lies one character. -/
theorem slices_places (h : c.source.text.toList = before ++ rest) :
    List.zipWith c.slice? (places (width before) rest) (places (width before) rest).tail =
      rest.map fun d => some (String.singleton d) := by
  induction rest generalizing before with
  | nil => rfl
  | cons d ds ih =>
    rw [List.append_cons] at h
    have hat : (⟨c.source, width (before ++ [d])⟩ : Cursor).At (before ++ [d]) ds := ⟨h, rfl⟩
    have hslice : c.slice? (width before) (width (before ++ [d])) = some (String.singleton d) :=
      hat.sliceFrom?
    have hplaces : places (width before + d.utf8Size) ds = places (width (before ++ [d])) ds := by
      rw [width_append, width_singleton]
    obtain ⟨ks, hks⟩ := exists_places_cons (width (before ++ [d])) ds
    have hrest := ih h
    rw [hks, List.tail_cons] at hrest
    rw [places, hplaces, hks, List.tail_cons, List.zipWith_cons_cons, hslice, hrest, List.map_cons]

end Walk

theorem join_singletons (cs : List Char) :
    String.join (cs.map String.singleton) = String.ofList cs := by
  induction cs with
  | nil => rfl
  | cons c cs ih =>
    rw [List.map_cons, String.join_cons, ih, String.singleton_eq_ofList, ← String.ofList_append,
      List.singleton_append]

/-- Taken on character by character from the first byte, a cursor stands at the places between whole
characters in their order, from the first byte to the end of the text, and at no other. What lies
between two stops is the next character of the text. Every stop is a place that the padded copy has,
and nothing is read elsewhere. -/
theorem stops_source (text : String) :
    ∃ stops, (Source.ofText text).cursor.stops? = some stops ∧
      (∀ i, i ∈ stops ↔ String.Pos.Raw.IsValid text ⟨i⟩) ∧
      stops.Pairwise (· < ·) ∧
      stops.head? = some 0 ∧ stops.getLast? = some text.utf8ByteSize ∧
      List.zipWith (Source.ofText text).cursor.slice? stops stops.tail =
        text.toList.map (fun c => some (String.singleton c)) ∧
      String.join (List.zipWith (Source.ofText text).cursor.slice stops stops.tail) = text ∧
      ∀ i ∈ stops, i < (Source.ofText text).padded.size := by
  have htext : (Source.ofText text).text.toList = [] ++ text.toList := rfl
  have hat : (Source.ofText text).cursor.At [] text.toList := ⟨htext, rfl⟩
  have hslices := slices_places (c := (Source.ofText text).cursor) htext
  rw [width_nil] at hslices
  refine ⟨places 0 text.toList, hat.stops?_eq, fun i => mem_places_iff_isValid, pairwise_places 0 _,
    ?_, ?_, hslices, ?_, ?_⟩
  · obtain ⟨ks, hks⟩ := exists_places_cons 0 text.toList
    rw [hks, List.head?_cons]
  · rw [getLast?_places, Nat.zero_add, width_toList]
  · have hslice : List.zipWith (Source.ofText text).cursor.slice (places 0 text.toList)
        (places 0 text.toList).tail = text.toList.map String.singleton := by
      have hget := congrArg (List.map fun slice => slice.getD "") hslices
      rw [List.map_zipWith, List.map_map] at hget
      exact hget
    rw [hslice, join_singletons, String.ofList_toList]
  · intro i hi
    obtain ⟨x, y, hxy, rfl⟩ := mem_places.1 hi
    have hroom := add_three_le_paddedSize (Source.ofText text).size
    have hsize : (Source.ofText text).size = width text.toList := Source.size_eq _
    rw [hxy, width_append] at hsize
    rw [Source.padded_eq, size_pad, Source.size_bytes]
    omega

end Cursor
end QueryDigest
