import QueryDigest.Proofs.Exchange

/-!
# QueryDigest.Proofs.Contents

What a string or a block comment holds does not count. Two strings between the same quotes, or two
comments, can be exchanged in any query (`exchangeable_string`, `exchangeable_blockComment`), for
behind either of them stands the same closing character. So their digests agree
(`digest_contents`).
-/

namespace QueryDigest

open Text

namespace Scan

theorem Alike.of_cons {x y : List Char} {c : Char} (hc : ByteClass.whitespace.hasChar c = false)
    (hm : c ≠ '-') : Alike (c :: x) (c :: y) where
  head := .inl rfl
  minusAndBlank := by
    rw [minusAndBlank_cons, minusAndBlank_cons, beq_false_of_ne hm, Bool.false_and, Bool.false_and]
  digitFollows := by
    rw [digitFollows_of_head (by simpa using hc), digitFollows_of_head (by simpa using hc)]
    rfl

section Contents

variable {r : Rules} {before rest : List Char}

theorem exchangeable_string {q : Char} {body body' : List Char}
    (hq : r.quotes.beginsString q = true) (hb : StringBody q body) (hb' : StringBody q body')
    (hr : rest.head? ≠ some q) :
    Exchangeable r before rest (.string q body) (.string q body') := by
  have hw : ByteClass.whitespace.hasChar q = false := by
    rcases (eq_of_beginsString hq).2 with rfl | rfl <;> decide
  have hm : q ≠ '-' := by rcases (eq_of_beginsString hq).2 with rfl | rfl <;> decide
  refine ⟨.string hq hb hr, .string hq hb' hr, .of_cons hw hm, fun _ _ _ h => h.congr_before ?_,
    fun _ => rfl⟩
  have hlast : ∀ b, before ++ (Token.string q b).spelling = (before ++ q :: b) ++ [q] := by
    intro b
    rw [Token.spelling, List.append_assoc, List.cons_append]
  rw [hlast, hlast, signMayFollow_concat _ hw, signMayFollow_concat _ hw]

theorem exchangeable_blockComment {body body' : List Char}
    (hid : r.quotes.beginsIdentifier '/' = false) (hb : ¬ ['*', '/'] <:+: body)
    (hb' : ¬ ['*', '/'] <:+: body') :
    Exchangeable r before rest (.blockComment body) (.blockComment body') := by
  have hw : ByteClass.whitespace.hasChar '/' = false := by decide
  refine ⟨.blockComment hid hb, .blockComment hid hb', .of_cons hw (by decide),
    fun _ _ _ h => h.congr_before ?_, fun _ => rfl⟩
  have hlast : ∀ b, before ++ (Token.blockComment b).spelling =
      (before ++ '/' :: '*' :: (b ++ ['*'])) ++ ['/'] := by
    intro b
    simp [Token.spelling]
  rw [hlast, hlast, signMayFollow_concat _ hw, signMayFollow_concat _ hw]

/-- The quotes that open strings are characters of one byte. -/
theorem beginsString_of_opensString {q : Quotes} {b : UInt8} (hid : q.opensIdentifier b = false)
    (hs : q.opensString b = true) : q.beginsString (Char.ofUInt8 b) = true := by
  obtain ⟨c, hc, rfl⟩ : ∃ c, isAscii c = true ∧ b = c.toUInt8 := by
    simp only [Quotes.opensString, Bool.or_eq_true, beq_iff_eq] at hs
    rcases hs with rfl | rfl
    · exact ⟨_, by decide, rfl⟩
    · exact ⟨_, Quotes.isAscii_stringQuote _, rfl⟩
  rw [ofUInt8_toUInt8 hc]
  rw [← firstByte_cons_of_isAscii hc []] at hid hs
  rw [Quotes.opensIdentifier_firstByte] at hid
  rwa [Quotes.opensString_firstByte _ hid] at hs

end Contents

/-- The digest does not depend on what a string or a block comment holds. -/
theorem digest_contents {o : Options} {r : Rules} (hr : Rules.ofOptions o = .ok r)
    (p s c₁ c₂ : String) :
    (∀ b : UInt8, r.quotes.opensIdentifier b = false → r.quotes.opensString b = true →
      let q := String.singleton (Char.ofUInt8 b)
      StringBody (Char.ofUInt8 b) c₁.toList → StringBody (Char.ofUInt8 b) c₂.toList →
      s.toList.head? ≠ some (Char.ofUInt8 b) →
      Reaches r (p ++ q ++ c₁ ++ q ++ s) p →
      Agree (fun n m => n + c₂.utf8ByteSize = m + c₁.utf8ByteSize)
        (digest o (p ++ q ++ c₁ ++ q ++ s)) (digest o (p ++ q ++ c₂ ++ q ++ s))) ∧
    (r.quotes.opensIdentifier '/'.toUInt8 = false →
      ¬ ['*', '/'] <:+: c₁.toList → ¬ ['*', '/'] <:+: c₂.toList →
      Reaches r (p ++ "/*" ++ c₁ ++ "*/" ++ s) p →
      Agree (fun n m => n + c₂.utf8ByteSize = m + c₁.utf8ByteSize)
        (digest o (p ++ "/*" ++ c₁ ++ "*/" ++ s)) (digest o (p ++ "/*" ++ c₂ ++ "*/" ++ s))) := by
  constructor
  · intro b hid hs q h₁ h₂ hhead hreach
    have hq := beginsString_of_opensString hid hs
    have htext : ∀ c : String, (p ++ q ++ c ++ q ++ s).toList =
        p.toList ++ ((Token.string (Char.ofUInt8 b) c.toList).spelling ++ s.toList) := by
      intro c
      simp [Token.spelling, q, List.append_assoc]
    have hwidth : ∀ c : String, width (Token.string (Char.ofUInt8 b) c.toList).spelling =
        c.utf8ByteSize + 2 * (Char.ofUInt8 b).utf8Size := by
      intro c
      rw [Token.spelling, width_cons, width_append, width_singleton, width_toList]
      omega
    refine ((exchangeable_string hq h₁ h₂ hhead).agree hr hreach (htext c₁) (htext c₂)).imp ?_
    intro n m hnm
    rw [hwidth, hwidth] at hnm
    omega
  · intro hid h₁ h₂ hreach
    have hslash : r.quotes.beginsIdentifier '/' = false := by
      rw [← Quotes.opensIdentifier_firstByte _ _ []]
      exact hid
    have htext : ∀ c : String, (p ++ "/*" ++ c ++ "*/" ++ s).toList =
        p.toList ++ ((Token.blockComment c.toList).spelling ++ s.toList) := by
      intro c
      simp [Token.spelling, List.append_assoc]
    have hwidth : ∀ c : String,
        width (Token.blockComment c.toList).spelling = c.utf8ByteSize + 4 := by
      intro c
      rw [Token.spelling, width_cons, width_cons, width_append, width_toList]
      have : width ['*', '/'] = 2 := rfl
      have : '/'.utf8Size = 1 := rfl
      have : '*'.utf8Size = 1 := rfl
      omega
    refine ((exchangeable_blockComment hslash h₁ h₂).agree hr hreach (htext c₁) (htext c₂)).imp ?_
    intro n m hnm
    rw [hwidth, hwidth] at hnm
    omega

/-- Quotes in a string, and in a comment before an open string. -/
theorem digest_contents_quotes :
    Agree (fun n m => n + 4 = m + 1) (digest .default "a 'x' -1")
      (digest .default "a 'it''' -1") ∧
    Agree (fun n m => n + 1 = m + 2) (digest .default "a /*--*/ 'b")
      (digest .default "a /*'*/ 'b") := by
  have hreach : ∀ {rest : List Char} {query : String}, rest ≠ [] →
      query.toList = ['a', ' '] ++ rest →
      Reaches ⟨⟨'\x60', by decide, .mysql⟩, true, "?"⟩ query "a " := by
    intro rest query hrest hq
    refine (reaches_iff hrest hq).2 ⟨[.name 'a' [], .blank ' '], by decide, ?_⟩
    refine .cons (.name (by decide) (by decide) (by simp) ?_)
      (.cons (.blank rfl (by decide)) .nil)
    rintro c ⟨⟩
    decide
  constructor
  · have h := (digest_contents (o := .default) rfl "a " " -1" "x" "it''").1 '\x27'.toUInt8
    exact h (by decide) (by decide) (.plain (by decide) (by decide) .nil)
      (.plain (by decide) (by decide) (.plain (by decide) (by decide) (.doubled .nil)))
      (by decide) (hreach (List.cons_ne_nil _ _) rfl)
  · have h := (digest_contents (o := .default) rfl "a " " 'b" "--" "'").2
    exact h (by decide) (by decide) (by decide) (hreach (List.cons_ne_nil _ _) rfl)

end Scan
end QueryDigest
