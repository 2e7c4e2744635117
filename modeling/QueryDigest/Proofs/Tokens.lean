import QueryDigest.Digest
import QueryDigest.Proofs.Course

/-!
# QueryDigest.Proofs.Tokens

A scan reads the token grammar. It finishes exactly if the query is a sequence of tokens, each read
where the one before it ends, and then it has written what the tokens stand for
(`scan_finished_iff_reads`). The tokens are not empty, there is one way only to split the query into
them, and together they are all of it.
-/

namespace QueryDigest
namespace Scan

/-- A scan finishes exactly if the query splits into tokens, and what is delivered is made from what
they stand for. -/
theorem scan_finished_iff_reads {o : Options} {r : Rules} (hr : Rules.ofOptions o = .ok r)
    (query : String) :
    (∀ out : String, scan r (Source.ofText query) = some (.finished out) ↔
      ∃ ts, spelling ts = query.toList ∧ ReadsAll r [] ts [] ∧ out.toList = written r ts) ∧
    (∀ ts us, spelling ts = query.toList → ReadsAll r [] ts [] →
      spelling us = query.toList → ReadsAll r [] us [] → ts = us) ∧
    (∀ t : Token, t.spelling ≠ []) ∧
    ∀ ts, spelling ts = query.toList → ReadsAll r [] ts [] →
      report o query = o.deliver (o.trim (String.ofList (written r ts))) := by
  refine ⟨fun out => scan_eq_finished_iff, ?_, fun t => t.spelling_ne_nil, ?_⟩
  · intro ts us hts hreads hus hreads'
    exact (hreads.unique hreads' .done .done (by rw [hts, hus])).1
  · intro ts hts hreads
    have hscan := scan_eq_finished_iff.2 ⟨ts, hts, hreads, String.toList_ofList⟩
    simp only [report, hr, hscan]

/-- Of two signs the last one goes with the number. -/
theorem scan_finished_signs : ∃ r, Rules.ofOptions .default = .ok r ∧
    scan r (Source.ofText "a = - -1") = some (.finished "a = - ?") := by
  refine ⟨⟨⟨'\x60', by decide, .mysql⟩, true, "?"⟩, rfl, ?_⟩
  have hiff := (scan_finished_iff_reads (o := .default) rfl "a = - -1").1 "a = - ?"
  refine hiff.2 ⟨[.name 'a' [], .blank ' ', .other '=', .blank ' ', .other '-', .blank ' ',
    .number ['-'] '1' []], by decide, ?_, by decide⟩
  refine .cons (.name (by decide) (by decide) (by simp) ?_) ?_
  · rintro c ⟨⟩
    decide
  refine .cons (.blank rfl (by decide)) ?_
  refine .cons (.other ?_) ?_
  · constructor <;> decide
  refine .cons (.blank rfl (by decide)) ?_
  refine .cons (.other ?_) ?_
  · constructor <;> decide
  refine .cons (.blank rfl (by decide)) ?_
  exact .cons (.signedNumber (by decide) (by decide) (by simp) (by decide) rfl (by simp)) .nil

end Scan
end QueryDigest
