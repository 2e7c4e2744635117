import QueryDigest.Digest

/-!
# QueryDigest.Proofs.Trimming

Texts with the white space at their ends taken away. What is taken is white space only, and nothing
is left to be taken (`Options.trimmed_trim`); a text with none at its ends stays as it is
(`Options.Trimmed.trim_eq`).
-/

namespace QueryDigest
namespace Text

section Trimming

variable {cs blanks : List Char}

theorem trimStart_of_head (h : ∀ c ∈ cs.head?, isBlank c = false) : trimStart cs = cs := by
  cases cs with
  | nil => rfl
  | cons c cs => exact List.dropWhile_cons_of_neg (by simp [h c rfl])

theorem trimEnd_of_last (h : ∀ c ∈ cs.getLast?, isBlank c = false) : trimEnd cs = cs := by
  have hrev : trimStart cs.reverse = cs.reverse :=
    trimStart_of_head fun c hc => h c (by rwa [List.head?_reverse] at hc)
  rw [trimEnd, ← trimStart, hrev, List.reverse_reverse]

theorem head_trimStart (cs : List Char) : ∀ c ∈ (trimStart cs).head?, isBlank c = false := by
  intro c hc
  have h := List.head?_dropWhile_not isBlank cs
  rw [trimStart] at hc
  rwa [Option.mem_def.1 hc] at h

theorem last_trimEnd (cs : List Char) : ∀ c ∈ (trimEnd cs).getLast?, isBlank c = false := by
  intro c hc
  rw [trimEnd, List.getLast?_reverse] at hc
  exact head_trimStart cs.reverse c hc

theorem last_trimStart (h : ∀ c ∈ cs.getLast?, isBlank c = false) :
    ∀ c ∈ (trimStart cs).getLast?, isBlank c = false := by
  intro c hc
  have hsplit : cs.takeWhile isBlank ++ trimStart cs = cs := List.takeWhile_append_dropWhile
  refine h c ?_
  rw [← hsplit, List.getLast?_append, Option.mem_def.1 hc, Option.some_or]
  exact rfl

theorem exists_trimStart (x : List Char) :
    ∃ blanks, x = blanks ++ trimStart x ∧ ∀ d ∈ blanks, isBlank d = true :=
  ⟨x.takeWhile isBlank, List.takeWhile_append_dropWhile.symm,
    List.all_eq_true.1 List.all_takeWhile⟩

theorem exists_trimEnd (x : List Char) :
    ∃ blanks, x = trimEnd x ++ blanks ∧ ∀ d ∈ blanks, isBlank d = true := by
  refine ⟨(x.reverse.takeWhile isBlank).reverse, ?_, fun d hd => ?_⟩
  · rw [trimEnd, ← List.reverse_append, List.takeWhile_append_dropWhile, List.reverse_reverse]
  · exact List.all_eq_true.1 List.all_takeWhile d (List.mem_reverse.1 hd)

theorem trimEnd_append_blanks (h : ∀ d ∈ blanks, isBlank d = true) :
    trimEnd (cs ++ blanks) = trimEnd cs := by
  rw [trimEnd, trimEnd, List.reverse_append,
    List.dropWhile_append_of_pos fun d hd => h d (List.mem_reverse.1 hd)]

/-- Behind a visible character the text is trimmed by itself. -/
theorem trimEnd_append_cons {c : Char} (hc : isBlank c = false) (x y : List Char) :
    trimEnd (x ++ c :: y) = x ++ c :: trimEnd y := by
  obtain ⟨blanks, hy, hblanks⟩ := exists_trimEnd y
  have hlast : ∀ d ∈ (x ++ c :: trimEnd y).getLast?, isBlank d = false := by
    intro d hd
    rw [List.getLast?_append, List.getLast?_cons, Option.some_or, Option.mem_def,
      Option.some.injEq] at hd
    subst hd
    cases h : (trimEnd y).getLast? with
    | none => exact hc
    | some e => exact last_trimEnd y e h
  calc trimEnd (x ++ c :: y)
      = trimEnd ((x ++ c :: trimEnd y) ++ blanks) := by rw [List.append_assoc, List.cons_append, ← hy]
    _ = trimEnd (x ++ c :: trimEnd y) := trimEnd_append_blanks hblanks
    _ = x ++ c :: trimEnd y := trimEnd_of_last hlast

theorem trimStart_append (h : trimStart cs ≠ []) (x : List Char) :
    trimStart (cs ++ x) = trimStart cs ++ x := by
  rw [trimStart] at h
  rw [trimStart, List.dropWhile_append, if_neg (by simpa using h), trimStart]

theorem getLast?_trimStart (h : trimStart cs ≠ []) : (trimStart cs).getLast? = cs.getLast? := by
  obtain ⟨blanks, hcs, -⟩ := exists_trimStart cs
  conv => rhs; rw [hcs]
  rw [List.getLast?_append, List.getLast?_eq_some_getLast h, Option.some_or]

end Trimming

end Text

namespace Options

open Text

/-- Nothing is to be trimmed. -/
structure Trimmed (o : Options) (cs : List Char) : Prop where
  last : ∀ c ∈ cs.getLast?, isBlank c = false
  head : o.stripWhitespace = true → ∀ c ∈ cs.head?, isBlank c = false

variable {o : Options} {text : String}

theorem trimmed_trim (o : Options) (text : String) : o.Trimmed (o.trim text).toList := by
  rw [trim, String.toList_ofList]
  split
  · exact ⟨last_trimStart (last_trimEnd _), fun _ => head_trimStart _⟩
  · exact ⟨last_trimEnd _, fun hs => absurd hs ‹_›⟩

/-- The characters at the front of a text that are left when it is trimmed. -/
def trimFront (o : Options) (cs : List Char) : List Char :=
  if o.stripWhitespace then trimStart cs else cs

/-- With visible characters at the front and `c` behind it, only the ends of both are trimmed. -/
theorem toList_trim_around (o : Options) {front x y : List Char} {c : Char}
    (hfront : trimStart front ≠ []) (hc : isBlank c = false) :
    (o.trim (String.ofList (front ++ (x ++ c :: y)))).toList =
      o.trimFront front ++ (x ++ c :: trimEnd y) := by
  rw [trim, String.toList_ofList, String.toList_ofList, ← List.append_assoc,
    trimEnd_append_cons hc, List.append_assoc, trimFront]
  split
  · exact trimStart_append hfront _
  · rfl

theorem getLast?_trimFront (o : Options) {front : List Char} (hfront : trimStart front ≠ []) :
    (o.trimFront front).getLast? = front.getLast? := by
  rw [trimFront]
  split
  · exact getLast?_trimStart hfront
  · rfl

theorem Trimmed.trim_eq (h : o.Trimmed text.toList) : o.trim text = text := by
  rw [trim, trimEnd_of_last h.last]
  by_cases hs : o.stripWhitespace = true
  · rw [if_pos hs, trimStart_of_head (h.head hs), String.ofList_toList]
  · rw [if_neg hs, String.ofList_toList]

end Options
end QueryDigest
