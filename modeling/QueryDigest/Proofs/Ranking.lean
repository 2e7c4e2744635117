import Mathlib.Algebra.BigOperators.Group.List.Lemmas
import QueryDigest.Proofs.InputLines

/-!
# QueryDigest.Proofs.Ranking

The run that counts digests. It tells each digest that a run over lines tells, once, with how often
it does (`Counted`), in an order that ranks any two of them (`ranking_strict`). So in whichever order
the digests are collected, there is one way to tell them (`eq_ranking`), and the lines of an input
can be put in any order (`run_count`).
-/

namespace QueryDigest
namespace Batch

open Text

/-- Each of the texts is there once, with how often it occurs. -/
structure Counted (texts : List String) (entries : List (String × Nat)) : Prop where
  once : (entries.map Prod.fst).Nodup
  mem : ∀ text, text ∈ entries.map Prod.fst ↔ text ∈ texts
  count : ∀ entry ∈ entries, entry.2 = texts.count entry.1

section Counted

variable {texts texts' : List String} {entries entries' : List (String × Nat)}

/-- A text that is not among them is counted once. -/
theorem Counted.cons {text : String} (h : Counted texts entries) (hnew : text ∉ texts) :
    Counted (text :: texts) ((text, 1) :: entries) where
  once := by
    rw [List.map_cons, List.nodup_cons]
    exact ⟨fun hmem => hnew ((h.mem text).1 hmem), h.once⟩
  mem other := by
    rw [List.map_cons, List.mem_cons, List.mem_cons, h.mem]
  count entry hentry := by
    rcases List.mem_cons.1 hentry with rfl | hentry
    · rw [List.count_cons_self, List.count_eq_zero.2 hnew]
    · have hold : entry.1 ∈ texts := (h.mem entry.1).1 (List.mem_map_of_mem hentry)
      have hne : text ≠ entry.1 := fun he => hnew (he ▸ hold)
      rw [h.count entry hentry, List.count_cons_of_ne hne]

/-- A text that is counted already is counted once more. -/
theorem Counted.again {text : String} {n : Nat} (h : Counted texts ((text, n) :: entries)) :
    Counted (text :: texts) ((text, n + 1) :: entries) where
  once := h.once
  mem other := by
    have hold : text ∈ texts := (h.mem text).1 (by simp)
    have hmem := h.mem other
    rw [List.map_cons] at hmem ⊢
    rw [hmem, List.mem_cons]
    constructor
    · exact .inr
    · intro hother
      rcases hother with rfl | hother
      · exact hold
      · exact hother
  count entry hentry := by
    rcases List.mem_cons.1 hentry with rfl | hentry
    · have hn : n = texts.count text := h.count (text, n) List.mem_cons_self
      rw [List.count_cons_self, hn]
    · have honce := h.once
      rw [List.map_cons, List.nodup_cons] at honce
      have hkey : entry.1 ∈ entries.map Prod.fst := List.mem_map_of_mem hentry
      have hne : text ≠ entry.1 := fun he => honce.1 (he ▸ hkey)
      rw [h.count entry (List.mem_cons_of_mem _ hentry), List.count_cons_of_ne hne]

theorem exists_runLengths_cons (text : String) (texts : List String) :
    ∃ n runs, runLengths (text :: texts) = (text, n) :: runs := by
  rw [runLengths]
  split
  · split
    · rename_i heq
      rw [beq_iff_eq] at heq
      exact ⟨_, _, by rw [heq]⟩
    · exact ⟨_, _, rfl⟩
  · exact ⟨_, _, rfl⟩

/-- In order, equal texts stand side by side, so their runs count them. -/
theorem counted_runLengths (h : texts.Pairwise fun a b => a ≤ b) :
    Counted texts (runLengths texts) := by
  induction texts with
  | nil => exact ⟨List.nodup_nil, by simp [runLengths], by simp [runLengths]⟩
  | cons text texts ih =>
    rw [List.pairwise_cons] at h
    have hcounted := ih h.2
    cases texts with
    | nil => exact hcounted.cons List.not_mem_nil
    | cons next texts =>
      obtain ⟨n, runs, hruns⟩ := exists_runLengths_cons next texts
      rw [runLengths, hruns]
      rw [hruns] at hcounted
      by_cases he : text = next
      · simp only [he, beq_self_eq_true, if_true]
        exact hcounted.again
      · simp only [beq_false_of_ne he, Bool.false_eq_true, if_false]
        refine hcounted.cons fun hmem => ?_
        rcases List.mem_cons.1 hmem with hmem | hmem
        · exact he hmem
        · have hle := (List.pairwise_cons.1 h.2).1 text hmem
          exact he (String.le_antisymm (h.1 next List.mem_cons_self) hle)

theorem Counted.of_perm (h : Counted texts entries) (hp : texts.Perm texts') :
    Counted texts' entries where
  once := h.once
  mem text := (h.mem text).trans hp.mem_iff
  count entry hentry := (h.count entry hentry).trans (hp.count_eq entry.1)

theorem Counted.perm (h : Counted texts entries) (hp : entries.Perm entries') :
    Counted texts entries' where
  once := ((hp.map Prod.fst).nodup_iff).1 h.once
  mem text := ((hp.map Prod.fst).mem_iff).symm.trans (h.mem text)
  count entry hentry := h.count entry (hp.mem_iff.2 hentry)

theorem Counted.mem_iff (h : Counted texts entries) (entry : String × Nat) :
    entry ∈ entries ↔ entry.1 ∈ texts ∧ entry.2 = texts.count entry.1 := by
  constructor
  · intro hentry
    exact ⟨(h.mem entry.1).1 (List.mem_map_of_mem hentry), h.count entry hentry⟩
  · rintro ⟨htext, hcount⟩
    obtain ⟨entry', hentry', hsame⟩ := List.mem_map.1 ((h.mem entry.1).2 htext)
    have hcount' := h.count entry' hentry'
    rw [hsame, ← hcount] at hcount'
    obtain rfl : entry' = entry := Prod.ext hsame hcount'
    exact hentry'

/-- Two ways to count the texts differ in the order only. -/
theorem Counted.unique (h : Counted texts entries) (h' : Counted texts entries') :
    entries.Perm entries' := by
  refine (List.perm_ext_iff_of_nodup (List.Nodup.of_map _ h.once) (List.Nodup.of_map _ h'.once)).2 ?_
  intro entry
  rw [h.mem_iff, h'.mem_iff]

/-- All texts are counted. -/
theorem Counted.sum (h : Counted texts entries) :
    (entries.map Prod.snd).sum = texts.length := by
  have hcounts : entries.map Prod.snd = (entries.map Prod.fst).map fun text => texts.count text := by
    rw [List.map_map]
    exact List.map_congr_left fun entry hentry => h.count entry hentry
  have hkeys : (entries.map Prod.fst).Perm texts.dedup := by
    refine (List.perm_ext_iff_of_nodup h.once (List.nodup_dedup texts)).2 fun text => ?_
    rw [h.mem, List.mem_dedup]
  rw [hcounts, ← List.sum_map_count_dedup_eq_length texts]
  exact (hkeys.map _).sum_eq

end Counted

/-! ## The order of the ranking -/

section Order

variable {texts texts' : List String} {entries : List (String × Nat)} {a b c : String × Nat}

theorem ranksBefore_iff : ranksBefore a b = true ↔ b.2 < a.2 ∨ a.2 = b.2 ∧ a.1 ≤ b.1 := by
  simp [ranksBefore]

theorem ranksBefore_trans (hab : ranksBefore a b = true) (hbc : ranksBefore b c = true) :
    ranksBefore a c = true := by
  rw [ranksBefore_iff] at hab hbc ⊢
  rcases hab with hab | ⟨hab, hle⟩ <;> rcases hbc with hbc | ⟨hbc, hle'⟩
  · exact .inl (by omega)
  · exact .inl (by omega)
  · exact .inl (by omega)
  · exact .inr ⟨by omega, String.le_trans hle hle'⟩

theorem ranksBefore_total (a b : String × Nat) : (ranksBefore a b || ranksBefore b a) = true := by
  rw [Bool.or_eq_true, ranksBefore_iff, ranksBefore_iff]
  rcases Nat.lt_trichotomy a.2 b.2 with h | h | h
  · exact .inr (.inl h)
  · rcases String.le_total a.1 b.1 with hle | hle
    · exact .inl (.inr ⟨h, hle⟩)
    · exact .inr (.inr ⟨h.symm, hle⟩)
  · exact .inl (.inl h)

theorem ranksBefore_antisymm (hab : ranksBefore a b = true) (hba : ranksBefore b a = true) :
    a = b := by
  rw [ranksBefore_iff] at hab hba
  rcases hab with hab | ⟨hab, hle⟩ <;> rcases hba with hba | ⟨hba, hle'⟩
  · omega
  · omega
  · omega
  · exact Prod.ext (String.le_antisymm hle hle') hab

theorem pairwise_ranking (texts : List String) :
    (ranking texts).Pairwise fun a b => ranksBefore a b = true :=
  List.pairwise_mergeSort (fun a b c => ranksBefore_trans (a := a) (b := b) (c := c))
    ranksBefore_total _

theorem counted_ranking (texts : List String) : Counted texts (ranking texts) := by
  have hsorted : (texts.mergeSort fun a b => a ≤ b).Pairwise fun a b => a ≤ b := by
    refine (List.pairwise_mergeSort ?_ ?_ texts).imp fun h => of_decide_eq_true h
    · intro a b c hab hbc
      exact decide_eq_true (String.le_trans (of_decide_eq_true hab) (of_decide_eq_true hbc))
    · intro a b
      rw [Bool.or_eq_true, decide_eq_true_eq, decide_eq_true_eq]
      exact String.le_total a b
  have hcounted := (counted_runLengths hsorted).of_perm (List.mergeSort_perm texts _)
  exact hcounted.perm (List.mergeSort_perm _ _).symm

/-- In whichever order the texts were counted, ranking the counts gives one list. -/
theorem eq_ranking (h : Counted texts entries)
    (hranked : entries.Pairwise fun a b => ranksBefore a b = true) : entries = ranking texts :=
  List.Perm.eq_of_pairwise (fun _ _ _ _ => ranksBefore_antisymm) hranked (pairwise_ranking texts)
    (h.unique (counted_ranking texts))

theorem ranking_perm (h : texts.Perm texts') : ranking texts = ranking texts' :=
  eq_ranking ((counted_ranking texts).of_perm h) (pairwise_ranking texts)

/-- No two texts share a rank. -/
theorem ranking_strict (texts : List String) :
    (ranking texts).Pairwise fun a b => b.2 < a.2 ∨ a.2 = b.2 ∧ a.1 < b.1 := by
  have hne : (ranking texts).Pairwise fun a b => a.1 ≠ b.1 :=
    List.pairwise_map.1 (counted_ranking texts).once
  refine (hne.and (pairwise_ranking texts)).imp ?_
  intro a b ⟨hne, h⟩
  rcases ranksBefore_iff.1 h with h | ⟨h, hle⟩
  · exact .inl h
  · exact .inr ⟨h, Std.lt_of_le_of_ne hle hne⟩

end Order

/-! ## Lines -/

section Lines

variable {o : Options}

/-- A text has as many line ends as lines were written. -/
theorem count_newline_join {texts : List String} (h : ∀ text ∈ texts, '\n' ∉ text.toList) :
    (String.join (texts.map line)).toList.count '\n' = texts.length := by
  induction texts with
  | nil => rfl
  | cons text texts ih =>
    have hzero : text.toList.count '\n' = 0 := List.count_eq_zero.2 (h text List.mem_cons_self)
    have hrest := ih fun other hmem => h other (List.mem_cons_of_mem _ hmem)
    rw [List.map_cons, String.join_cons, line, String.toList_append, String.toList_append,
      List.count_append, List.count_append, hzero, hrest, List.length_cons]
    have hend : "\n".toList.count '\n' = 1 := by decide
    omega

theorem newline_not_mem_failures {reports : List (Nat × Report)} {text : String}
    (h : text ∈ failures reports) : '\n' ∉ text.toList := by
  obtain ⟨⟨number, r⟩, -, htext⟩ := List.mem_filterMap.1 h
  simp only at htext
  split at htext
  · cases htext
  · cases htext
    have hline : '\n' ∉ "line ".toList := by decide
    have hcolon : '\n' ∉ ": ".toList := by decide
    exact newline_not_mem_append (newline_not_mem_append
      (newline_not_mem_append hline (newline_not_mem_toString number)) hcolon)
      (newline_not_mem_summary _)

theorem newline_not_mem_digests {input text : String} (h : text ∈ digests (lineReports o input)) :
    '\n' ∉ text.toList := by
  rw [lineReports_eq, digests_reportsFrom] at h
  obtain ⟨query, hquery, htext⟩ := List.mem_filterMap.1 h
  have hline : '\n' ∉ query.toList :=
    (splits_lines input).newline_not_mem _ (List.mem_map_of_mem (List.mem_of_mem_filter hquery))
  cases hdigest : digest o query with
  | ok text' =>
    rw [hdigest] at htext
    cases htext
    exact Scan.newline_not_mem_digest hline hdigest
  | error e =>
    rw [hdigest] at htext
    cases htext

/-- Each report is a digest or a failure. -/
theorem length_digests_add_failures (reports : List (Nat × Report)) :
    (digests reports).length + (failures reports).length = reports.length := by
  induction reports with
  | nil => rfl
  | cons entry reports ih =>
    obtain ⟨number, r⟩ := entry
    cases h : r.answer with
    | ok text =>
      have hdigests : digests ((number, r) :: reports) = text :: digests reports :=
        List.filterMap_cons_some (congrArg Except.toOption h)
      have hfailures : failures ((number, r) :: reports) = failures reports :=
        List.filterMap_cons_none (by simp [h])
      rw [hdigests, hfailures, List.length_cons, List.length_cons]
      omega
    | error e =>
      have hdigests : digests ((number, r) :: reports) = digests reports :=
        List.filterMap_cons_none (congrArg Except.toOption h)
      have hfailures : (failures ((number, r) :: reports)).length = (failures reports).length + 1 := by
        rw [failures, List.filterMap_cons_some (by simp [h]; rfl), List.length_cons, failures]
      rw [hdigests, hfailures, List.length_cons]
      omega

theorem length_reportsFrom (o : Options) (n : Nat) (ls : List String) :
    (reportsFrom o n ls).length = (ls.filter fun query => !allBlank query).length := by
  induction ls generalizing n with
  | nil => rfl
  | cons query ls ih =>
    rw [reportsFrom_cons]
    by_cases hb : allBlank query = true
    · rw [if_pos hb, ih, List.filter_cons_of_neg (by simp [hb])]
    · rw [if_neg hb, List.filter_cons_of_pos (by simp [hb]), List.length_cons, List.length_cons, ih]

/-- Texts written as lines are the lines of what is written. -/
theorem lines_join {ls : List String} (h : ∀ l ∈ ls, '\n' ∉ l.toList ∧ '\r' ∉ l.toList) :
    lines (String.join (ls.map line)) = ls := by
  have hsplits : Splits (String.join (ls.map line)).toList (ls.map String.toList) := by
    induction ls with
    | nil => exact .nil
    | cons l ls ih =>
      obtain ⟨hl, hcr⟩ := h l List.mem_cons_self
      have hrest := ih fun other hmem => h other (List.mem_cons_of_mem _ hmem)
      have htext : (String.join ((l :: ls).map line)).toList =
          l.toList ++ '\n' :: (String.join (ls.map line)).toList := by
        simp [line]
      rw [htext]
      exact .feed hl (fun hlast => hcr (List.mem_of_getLast? hlast)) hrest
  rw [lines, ← splits_iff.1 hsplits, List.map_map]
  simp [Function.comp_def]

end Lines

/-- The entries are the ranking of the texts: no two of them share a rank, and whoever counts the texts
and puts the counts in order comes to the same list. -/
structure Ranked (texts : List String) (entries : List (String × Nat)) : Prop where
  counted : Counted texts entries
  strict : entries.Pairwise fun a b => b.2 < a.2 ∨ a.2 = b.2 ∧ a.1 < b.1
  unique : ∀ others, Counted texts others →
    (others.Pairwise fun a b => ranksBefore a b = true) → others = entries

theorem ranked_ranking (texts : List String) : Ranked texts (ranking texts) where
  counted := counted_ranking texts
  strict := ranking_strict texts
  unique _ := eq_ranking

theorem join_rankingLines (entries : List (String × Nat)) :
    String.join ((entries.map rankingLine).map line) =
      String.join (entries.map fun (text, n) => toString n ++ "\t" ++ text ++ "\n") := by
  rw [List.map_map]
  rfl

/-- The run that counts is the run over lines with its texts ranked. It fails where that run fails and
says the same of it; each text that run writes is told once, with how often it is written. Every line
that is not blank is counted or told as a failure, and the order of the lines makes no difference. -/
theorem run_count (o : Options) (input : String) :
    (run .count o input).ok = (run .lines o input).ok ∧
    (run .count o input).err = (run .lines o input).err ∧
    (∃ texts entries, (∀ text ∈ texts, '\n' ∉ text.toList) ∧
      (run .lines o input).out = String.join (texts.map line) ∧
      (run .count o input).out = String.join (entries.map fun (text, n) =>
        toString n ++ "\t" ++ text ++ "\n") ∧
      Ranked texts entries ∧
      ∃ ls : List String, Splits input.toList (ls.map String.toList) ∧
        (entries.map Prod.snd).sum + (run .count o input).err.toList.count '\n' =
          (ls.filter fun query => !allBlank query).length) ∧
    ∀ ls ls' : List String, input = String.join (ls.map line) →
      (∀ l ∈ ls, '\n' ∉ l.toList ∧ '\r' ∉ l.toList) → ls.Perm ls' →
      (run .count o (String.join (ls'.map line))).out = (run .count o input).out := by
  refine ⟨rfl, rfl, ?_, ?_⟩
  · refine ⟨digests (lineReports o input), ranking (digests (lineReports o input)),
      fun text htext => newline_not_mem_digests htext, rfl, join_rankingLines _, ranked_ranking _,
      lines input, splits_lines input, ?_⟩
    have hfailures : (String.join ((failures (lineReports o input)).map line)).toList.count '\n' =
        (failures (lineReports o input)).length :=
      count_newline_join fun _ htext => newline_not_mem_failures htext
    have hlength := length_digests_add_failures (lineReports o input)
    rw [(counted_ranking _).sum, ← length_reportsFrom o 1, ← lineReports_eq, ← hlength]
    exact congrArg _ hfailures
  · intro ls ls' hinput hls hperm
    have hls' : ∀ l ∈ ls', '\n' ∉ l.toList ∧ '\r' ∉ l.toList :=
      fun l hl => hls l (hperm.mem_iff.2 hl)
    have hdigests : (digests (lineReports o (String.join (ls'.map line)))).Perm
        (digests (lineReports o input)) := by
      rw [hinput, lineReports_eq, lineReports_eq, lines_join hls, lines_join hls',
        digests_reportsFrom, digests_reportsFrom]
      exact ((hperm.filter _).filterMap _).symm
    simp only [run, runCount, transcript, ranking_perm hdigests]

/-- Three lines in two orders. -/
theorem run_count_reordered :
    (∀ l ∈ ["b", "a 1", "a 2"], '\n' ∉ l.toList ∧ '\r' ∉ l.toList) ∧
    ["b", "a 1", "a 2"].Perm ["a 1", "a 2", "b"] ∧
    (run .count .default (String.join (["a 1", "a 2", "b"].map line))).out =
      (run .count .default (String.join (["b", "a 1", "a 2"].map line))).out := by
  have hlines : ∀ l ∈ ["b", "a 1", "a 2"], '\n' ∉ l.toList ∧ '\r' ∉ l.toList := by decide
  have hperm : ["b", "a 1", "a 2"].Perm ["a 1", "a 2", "b"] := by decide
  exact ⟨hlines, hperm, (run_count .default _).2.2.2 _ _ rfl hlines hperm⟩

end Batch
end QueryDigest
