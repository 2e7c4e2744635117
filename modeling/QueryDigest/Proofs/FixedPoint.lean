import QueryDigest.Proofs.Phrases
import QueryDigest.Proofs.Shortening

/-!
# QueryDigest.Proofs.FixedPoint

Digests that are their own digest. A text is one if a scan copies it, nothing of it is to be trimmed
and none of its lists is to be shortened (`Canonical.digest_eq`). What a scan has written is made
one by trimming and shortening it if it is copied (`exists_canonical`), and that is so for every
query with white space between its words (`digest_spaced`).
-/

namespace QueryDigest

open Text

namespace Scan

open EnumList

/-- A text that a digest leaves as it is. -/
structure Canonical (o : Options) (r : Rules) (text : String) : Prop where
  copied : ∃ last, Copies r (.between none) text.toList (.between last)
  trimmed : o.Trimmed text.toList
  shortened : o.reduceEnumsToOneElement = true → collapse? o.identifierDelimiter text = none

section FixedPoint

variable {o : Options} {r : Rules} {query text : String} {ts : List Token}

theorem exists_quoting
    (hd : o.identifierDelimiter = '\x60' ∨ o.identifierDelimiter = '\x22') :
    ∃ r, Rules.ofOptions o = .ok r ∧ Quoting r := by
  have hpunctuation : isAsciiPunctuation o.identifierDelimiter = true := by
    rcases hd with hd | hd <;> rw [hd] <;> decide
  refine ⟨⟨⟨o.identifierDelimiter, hpunctuation, o.dialect⟩, o.stripWhitespace,
    o.stringPlaceholder⟩, ?_, hd, ?_⟩
  · rw [Rules.ofOptions, Options.quotes, dif_pos hpunctuation]
    rfl
  · rw [Options.stringPlaceholder]
    split
    · exact .inr rfl
    · exact .inl rfl

theorem Canonical.digest_eq (hr : Rules.ofOptions o = .ok r) (hq : Quoting r)
    (h : Canonical o r text) : digest o text = .ok text := by
  obtain ⟨last, hcopied⟩ := h.copied
  obtain ⟨ts, hts, hreads, hwritten⟩ := hcopied.reads hq
  rw [digest_eq_deliver hr hts hreads, hwritten, String.ofList_toList, h.trimmed.trim_eq,
    Options.deliver]
  cases hs : o.reduceEnumsToOneElement with
  | false => rfl
  | true => rw [if_pos rfl, h.shortened hs]

theorem Copies.trim (hq : Quoting r) {last : Option Char}
    (h : Copies r (.between none) text.toList (.between last)) :
    ∃ l, Copies r (.between none) (o.trim text).toList (.between l) := by
  obtain ⟨l, hend⟩ := h.trimEnd hq
  rw [Options.trim, String.toList_ofList]
  split
  · exact hend.trimStart hq
  · exact ⟨l, hend⟩

/-- Trimmed, and with its lists shortened, a text that is copied is left as it is. -/
theorem exists_canonical (hq : Quoting r)
    (hd : o.identifierDelimiter = '\x60' ∨ o.identifierDelimiter = '\x22')
    (h : ∃ last, Copies r (.between none) text.toList (.between last)) :
    ∃ digested, (o.deliver (o.trim text)).answer = .ok digested ∧ Canonical o r digested := by
  have hclose : o.identifierDelimiter ≠ ')' := by
    rcases hd with hd | hd <;> rw [hd] <;> decide
  obtain ⟨last, h⟩ := h
  obtain ⟨l, hcopied⟩ := h.trim (o := o) hq
  have htrimmed := Options.trimmed_trim o text
  rcases o.deliver_answer_cases (o.trim text) with ⟨hkept, hnone⟩ | ⟨shortened, hshort, hlists⟩
  · exact ⟨_, hkept, ⟨l, hcopied⟩, htrimmed, hnone⟩
  · have hshortened : collapse o.identifierDelimiter (o.trim text) = shortened := by
      rw [collapse, hlists]
      rfl
    refine ⟨shortened, hshort, ⟨l, hcopied.collapse? hq hlists⟩, htrimmed.collapse? hlists,
      fun _ => ?_⟩
    rw [← hshortened]
    exact collapse?_collapse hclose _

end FixedPoint

/-- A query with white space between its words has a digest, and the digest is its own digest. -/
theorem digest_spaced (o : Options)
    (hd : o.identifierDelimiter = '\x60' ∨ o.identifierDelimiter = '\x22') :
    ∃ r, Rules.ofOptions o = .ok r ∧ ∀ query : String, Spaced r query.toList →
      ∃ text, digest o query = .ok text ∧ digest o text = .ok text := by
  obtain ⟨r, hr, hq⟩ := exists_quoting hd
  refine ⟨r, hr, fun query hquery => ?_⟩
  obtain ⟨ts, last, hts, hreads, hcopied⟩ := hquery.reads hq
  rw [digest_eq_deliver hr hts hreads]
  have hwritten : Copies r (.between none) (String.ofList (written r ts)).toList
      (.between last) := by
    rwa [String.toList_ofList]
  obtain ⟨text, hdelivered, hcanonical⟩ := exists_canonical hq hd ⟨last, hwritten⟩
  exact ⟨text, hdelivered, hcanonical.digest_eq hr hq⟩

/-- A minus that belongs to the number behind it, and a comment behind the number. -/
theorem digest_spaced_sign : ∃ r, Rules.ofOptions .default = .ok r ∧
    Spaced r "a = - 1 -- c\n".toList ∧
    ∃ text, digest .default "a = - 1 -- c\n" = .ok text ∧ digest .default text = .ok text := by
  obtain ⟨r, hr, h⟩ := digest_spaced .default (.inl rfl)
  have hblank : BlankRun [' '] := by decide
  have hbreak : BlankRun ['\n'] := by decide
  have htext : "a = - 1 -- c\n".toList = ['a'] ++ ([' '] ++ (['='] ++ ([' '] ++ (['-'] ++
      ([' '] ++ (['1'] ++ ([' '] ++ ('-' :: '-' :: ' ' :: ['c'] ++ (['\n'] ++ []))))))))) := by
    decide
  have hspaced : Spaced r "a = - 1 -- c\n".toList := by
    cases hr
    have hmark : ∀ c ∈ ['='], Mark ⟨⟨'\x60', by decide, .mysql⟩, true, "?"⟩ c := by
      simp only [List.mem_singleton, forall_eq]
      constructor <;> decide
    have hnumber : Phrase ⟨⟨'\x60', by decide, .mysql⟩, true, "?"⟩
        (['1'] ++ ([' '] ++ ('-' :: '-' :: ' ' :: ['c'] ++ (['\n'] ++ [])))) :=
      .cons (.number (by decide) rfl) hblank
        (.lineComment (.inl rfl) (by simp [endsLine]) hbreak (by simp [endsLine]) .nil)
    rw [htext]
    exact .phrase (.cons (.name (by decide) (by simp)) hblank (.cons (.marks hmark) hblank
      (.cons .minus hblank hnumber)))
  exact ⟨r, hr, hspaced, h _ hspaced⟩

end Scan
end QueryDigest
