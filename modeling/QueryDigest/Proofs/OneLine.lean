import Mathlib.Data.Nat.Digits.Defs
import QueryDigest.Proofs.Shortening

/-!
# QueryDigest.Proofs.OneLine

Where the characters of a digest come from. A scan writes characters of the query and a few of its
own (`mem_written`), trimming takes characters away, and a shortened list has no character but those
of the list and a question mark (`mem_collapse?`). The summary of a failure is made of fixed texts,
numbers and a character in quotes. Hence of a query that is one line both are one line
(`newline_not_mem_digest`, `newline_not_mem_summary`).
-/

namespace QueryDigest

open Text

theorem newline_not_mem_message (scope : Scope) : '\n' ∉ scope.message.toList := by
  cases scope <;> simp [Scope.message]

namespace Scan

/-- The character is one that a scan writes by itself. -/
def Rules.Adds (r : Rules) (c : Char) : Prop :=
  c = ' ' ∨ c = '?' ∨ c = r.quotes.delimiter ∨ c ∈ r.placeholder.toList

section Written

variable {r : Rules} {c : Char} {out : List Char}

theorem mem_written {t : Token} (h : c ∈ t.written r out) : c ∈ t.spelling ∨ r.Adds c := by
  cases t with
  | blank d =>
    simp only [Token.written] at h
    split at h
    · cases h
    · exact .inr (.inl (List.mem_singleton.1 h))
  | identifier quote inner =>
    simp only [Token.written, List.mem_cons, List.mem_append, List.not_mem_nil, or_false] at h
    rcases h with h | h | h
    · exact .inr (.inr (.inr (.inl h)))
    · exact .inl (by simp [Token.spelling, h])
    · exact .inr (.inr (.inr (.inl h)))
  | string quote body => exact .inr (.inr (.inr (.inr h)))
  | lineComment mark text => cases h
  | blockComment body => cases h
  | number sign first more => exact .inr (.inr (.inl (List.mem_singleton.1 h)))
  | name first more => exact .inl h
  | other d =>
    simp only [Token.written, List.mem_singleton] at h
    split at h
    · exact .inr (.inl h)
    · exact .inl (List.mem_singleton.2 h)

theorem mem_writtenFrom {ts : List Token} (h : c ∈ writtenFrom r out ts) :
    c ∈ out ∨ c ∈ spelling ts ∨ r.Adds c := by
  induction ts generalizing out with
  | nil => exact .inl h
  | cons t ts ih =>
    rw [spelling_cons, List.mem_append]
    rcases ih h with h | h | h
    · rcases List.mem_append.1 h with h | h
      · exact .inl h
      · rcases mem_written h with h | h
        · exact .inr (.inl (.inl h))
        · exact .inr (.inr h)
    · exact .inr (.inl (.inr h))
    · exact .inr (.inr h)

theorem mem_scopeWritten {scope : Scope} {tail : List Char} (h : c ∈ scope.written r tail) :
    c ∈ tail ∨ r.Adds c := by
  cases scope with
  | string =>
    simp only [Scope.written] at h
    split at h
    · cases h
    · exact .inr (.inr (.inr (.inr h)))
  | identifier =>
    rcases List.mem_cons.1 h with h | h
    · exact .inr (.inr (.inr (.inl h)))
    · exact .inl (List.mem_of_mem_tail h)
  | blockComment => cases h

end Written

theorem mem_trim {c : Char} {o : Options} {text : String} (h : c ∈ (o.trim text).toList) :
    c ∈ text.toList := by
  have hend : ∀ {cs : List Char}, c ∈ trimEnd cs → c ∈ cs := by
    intro cs hc
    rw [trimEnd, List.mem_reverse] at hc
    exact List.mem_reverse.1 ((List.dropWhile_suffix _).subset hc)
  rw [Options.trim, String.toList_ofList] at h
  split at h
  · exact hend ((List.dropWhile_suffix _).subset h)
  · exact hend h

/-- Shortening a list adds nothing but a question mark. -/
theorem mem_collapse? {c : Char} (hc : c ≠ '?') {delimiter : Char} {text shortened : String}
    (h : EnumList.collapse? delimiter text = some shortened) (hmem : c ∉ text.toList) :
    c ∉ shortened.toList := by
  refine collapse?_induction (P := fun cs => c ∉ cs) ?_ h hmem
  intro front inside short hg x rest hno
  have hshort : c ∈ short → c ∈ inside := by
    intro hmem
    rcases hg with hg | hg
    · rw [hg.short_eq] at hmem
      exact absurd (List.mem_singleton.1 hmem) hc
    · cases hg with
      | mk _ _ _ _ _ _ _ _ =>
        simp only [List.mem_append, List.mem_cons, hc, false_or] at hmem ⊢
        rcases hmem with hmem | hmem | hmem | hmem
        · exact .inl hmem
        · exact .inr (.inl hmem)
        · exact .inr (.inr (.inl hmem))
        · exact .inr (.inr (.inr (.inr hmem)))
  simp only [List.mem_append, List.mem_cons, not_or] at hno ⊢
  exact ⟨hno.1, hno.2.1, hno.2.2.1, fun hmem => hno.2.2.2.1 (hshort hmem), hno.2.2.2.2⟩

/-! ## Digests -/

section Digests

variable {o : Options} {query text : String}

theorem not_adds_newline {r : Rules} (hr : Rules.ofOptions o = .ok r) : ¬ r.Adds '\n' := by
  obtain ⟨hd, rfl⟩ := Rules.eq_of_ofOptions hr
  intro h
  rcases h with h | h | h | h
  · cases h
  · cases h
  · rw [← show '\n' = o.identifierDelimiter from h] at hd
    cases hd
  · revert h
    simp only [Options.stringPlaceholder]
    split <;> decide

theorem newline_not_mem_deliver (h : '\n' ∉ text.toList) {answer : String}
    (ha : (o.deliver text).answer = .ok answer) : '\n' ∉ answer.toList := by
  rcases o.deliver_answer_cases text with ⟨hkept, -⟩ | ⟨shortened, hshort, hlists⟩
  · rw [hkept] at ha
    cases ha
    exact h
  · rw [hshort] at ha
    cases ha
    exact mem_collapse? (by decide) hlists h

theorem newline_not_mem_refuse {e : SyntaxError} (h : '\n' ∉ e.written.toList) {answer : String}
    (ha : (o.refuse e).answer = .ok answer) : '\n' ∉ answer.toList := by
  unfold Options.refuse at ha
  split at ha
  · cases ha
  · cases ha
    simp [SyntaxError.returnedText, newline_not_mem_message, h]

/-- The digest of one line is one line. -/
theorem newline_not_mem_digest (hq : '\n' ∉ query.toList) (h : digest o query = .ok text) :
    '\n' ∉ text.toList := by
  cases hr : Rules.ofOptions o with
  | error e =>
    rw [digest, report, hr] at h
    cases h
  | ok r =>
    obtain ⟨ts, scope, tail, rd⟩ := Reading.exists r query.toList
    have hadds := not_adds_newline hr
    rw [rd.text_eq, List.mem_append, not_or] at hq
    have hwritten : '\n' ∉ written r ts := by
      intro hmem
      rcases mem_writtenFrom hmem with hmem | hmem | hmem
      · cases hmem
      · exact hq.1 hmem
      · exact hadds hmem
    rw [digest_eq hr rd] at h
    cases scope with
    | none =>
      refine newline_not_mem_deliver (fun hmem => hwritten ?_) h
      simpa using mem_trim hmem
    | some sc =>
      refine newline_not_mem_refuse (fun hmem => ?_) h
      have hmem := mem_trim hmem
      rw [String.toList_ofList, List.mem_append] at hmem
      rcases hmem with hmem | hmem
      · exact hwritten hmem
      · rcases mem_scopeWritten hmem with hmem | hmem
        · exact hq.2 hmem
        · exact hadds hmem

end Digests

end Scan

/-! ## Summaries -/

theorem newline_not_mem_toDigits (n : Nat) : '\n' ∉ Nat.toDigits 16 n := by
  have hdigit : ∀ d < 16, '\n' ≠ Nat.digitChar d := by decide
  induction n using Nat.strongRecOn with
  | ind n ih =>
    rw [Nat.toDigits_eq_if (by omega)]
    split
    · rename_i hn
      rw [List.mem_singleton]
      exact hdigit n hn
    · rename_i hn
      rw [List.mem_append, List.mem_singleton, not_or]
      exact ⟨ih (n / 16) (by omega), hdigit _ (by omega)⟩

theorem newline_not_mem_toString (n : Nat) : '\n' ∉ (toString n).toList := by
  rw [Nat.toString_eq_ofList_toDigits, String.toList_ofList]
  intro h
  exact absurd (Nat.isDigit_of_mem_toDigits (by decide) (by decide) h) (by decide)

theorem newline_not_mem_escape (mark c : Char) : '\n' ∉ (escape mark c).toList := by
  by_cases hc : c = '\n'
  · rw [hc]
    simp [escape]
  · have hsingle : '\n' ∉ (String.singleton c).toList := by simpa using Ne.symm hc
    have hnumber : '\n' ∉ (hexDigits c.toNat).toList := by
      simpa [hexDigits] using newline_not_mem_toDigits c.toNat
    unfold escape
    repeat' split
    all_goals simp_all

theorem newline_not_mem_quoteChar (c : Char) : '\n' ∉ (quoteChar c).toList := by
  simp [quoteChar, newline_not_mem_escape]

theorem newline_not_mem_append {x y : String} (hx : '\n' ∉ x.toList) (hy : '\n' ∉ y.toList) :
    '\n' ∉ (x ++ y).toList := by
  rw [String.toList_append, List.mem_append, not_or]
  exact ⟨hx, hy⟩

/-- The summary of a failure is one line. -/
theorem newline_not_mem_summary (e : DigestError) : '\n' ∉ e.summary.toList := by
  cases e with
  | syntaxError e =>
    have hmessage := newline_not_mem_message e.scope
    have hplace : '\n' ∉ " (at byte ".toList := by simp
    have hclose : '\n' ∉ ")".toList := by simp
    exact newline_not_mem_append (newline_not_mem_append (newline_not_mem_append hmessage hplace)
      (newline_not_mem_toString e.offset)) hclose
  | invalidDelimiter c =>
    have hfront : '\n' ∉ "identifier delimiter ".toList := by simp
    have hbehind : '\n' ∉ " must be a single ASCII punctuation character".toList := by simp
    exact newline_not_mem_append (newline_not_mem_append hfront (newline_not_mem_quoteChar c)) hbehind
  | outOfBounds =>
    have hmessage : '\n' ∉ "read outside the bounds of the query".toList := by simp
    exact hmessage

end QueryDigest
