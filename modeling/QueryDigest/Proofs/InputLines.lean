import QueryDigest.Batch
import QueryDigest.Proofs.OneLine

/-!
# QueryDigest.Proofs.InputLines

The run over each line of an input. A text has exactly one division into lines (`splits_iff`), and
the run over lines tells each of them as the run over a whole input tells it alone, failures with the
number of their line (`run_lines`).
-/

namespace QueryDigest
namespace Text

/-- The text is divided into lines, each without what ends it. -/
inductive Splits : List Char → List (List Char) → Prop where
  | nil : Splits [] []
  | last {l : List Char} : l ≠ [] → '\n' ∉ l → Splits l [l]
  | feed {l rest : List Char} {ls : List (List Char)} :
      '\n' ∉ l → l.getLast? ≠ some '\r' → Splits rest ls → Splits (l ++ '\n' :: rest) (l :: ls)
  | crlf {l rest : List Char} {ls : List (List Char)} :
      '\n' ∉ l → Splits rest ls → Splits (l ++ '\r' :: '\n' :: rest) (l :: ls)

/-- The text with a CR before each LF. -/
def withCRLF (text : String) : String :=
  String.ofList (text.toList.flatMap fun c => if c = '\n' then ['\r', '\n'] else [c])

section Splits

variable {l rest cs : List Char} {ls : List (List Char)}

theorem Splits.of_feed (hl : '\n' ∉ l) (h : Splits rest ls) :
    Splits (l ++ '\n' :: rest) (dropCR l :: ls) := by
  by_cases hcr : l.getLast? = some '\r'
  · obtain ⟨x, rfl⟩ := List.getLast?_eq_some_iff.1 hcr
    have hdrop : dropCR (x ++ ['\r']) = x := by simp [dropCR]
    rw [hdrop, List.append_assoc]
    exact .crlf (fun hmem => hl (List.mem_append_left _ hmem)) h
  · have hdrop : dropCR l = l := by simp [dropCR, hcr]
    rw [hdrop]
    exact .feed hl hcr h

theorem splits_linesFrom (current s : List Char) (hc : '\n' ∉ current) :
    Splits (current.reverse ++ s) (linesFrom current s) := by
  induction s generalizing current with
  | nil =>
    rw [linesFrom, List.append_nil]
    cases current with
    | nil => exact .nil
    | cons c current => exact .last (by simp) (by simpa [and_comm] using hc)
  | cons c s ih =>
    rw [linesFrom]
    by_cases hnl : c = '\n'
    · rw [if_pos (beq_iff_eq.2 hnl), hnl]
      exact .of_feed (by simpa using hc) (ih [] List.not_mem_nil)
    · rw [if_neg (by simpa using hnl)]
      have h := ih (c :: current) (by simpa [hc] using Ne.symm hnl)
      rwa [List.reverse_cons, List.append_assoc] at h

theorem linesFrom_append (hl : '\n' ∉ l) (current : List Char) :
    linesFrom current (l ++ '\n' :: rest) =
      dropCR (current.reverse ++ l) :: linesFrom [] rest := by
  induction l generalizing current with
  | nil => simp [linesFrom]
  | cons c l ih =>
    rw [List.mem_cons, not_or] at hl
    rw [List.cons_append, linesFrom, if_neg (by simpa using Ne.symm hl.1), ih hl.2]
    simp

theorem linesFrom_of_not_mem (hl : '\n' ∉ l) (current : List Char) (hne : current ++ l ≠ []) :
    linesFrom current l = [current.reverse ++ l] := by
  induction l generalizing current with
  | nil =>
    rw [List.append_nil] at hne
    simp [linesFrom, hne]
  | cons c l ih =>
    rw [List.mem_cons, not_or] at hl
    rw [linesFrom, if_neg (by simpa using Ne.symm hl.1), ih hl.2 _ (by simp)]
    simp

/-- A text has one division into lines, the one that is computed. -/
theorem splits_iff : Splits cs ls ↔ ls = linesFrom [] cs := by
  constructor
  · intro h
    induction h with
    | nil => rfl
    | last hne hl => exact (linesFrom_of_not_mem hl [] hne).symm
    | @feed l rest ls hl hcr _ ih =>
      rw [linesFrom_append hl, ← ih]
      simp [dropCR, hcr]
    | @crlf l rest ls hl _ ih =>
      have hline : '\n' ∉ l ++ ['\r'] := by simpa using hl
      have h : linesFrom [] (l ++ ['\r'] ++ '\n' :: rest) =
          dropCR (l ++ ['\r']) :: linesFrom [] rest := linesFrom_append hline []
      rw [List.append_assoc, List.singleton_append, ← ih] at h
      rw [h]
      simp [dropCR]
  · intro h
    rw [h]
    exact splits_linesFrom [] cs List.not_mem_nil

theorem Splits.newline_not_mem (h : Splits cs ls) : ∀ l ∈ ls, '\n' ∉ l := by
  induction h with
  | nil => simp
  | last _ hl => simpa using hl
  | feed hl _ _ ih => simpa [hl] using ih
  | crlf hl _ ih => simpa [hl] using ih

/-- A CR before each LF leaves the lines as they are. -/
theorem Splits.withCRLF (h : Splits cs ls) (hcr : '\r' ∉ cs) :
    Splits (cs.flatMap fun c => if c = '\n' then ['\r', '\n'] else [c]) ls := by
  have hline : ∀ {l : List Char}, '\n' ∉ l →
      (l.flatMap fun c => if c = '\n' then ['\r', '\n'] else [c]) = l := by
    intro l hl
    induction l with
    | nil => rfl
    | cons c l ih =>
      rw [List.mem_cons, not_or] at hl
      rw [List.flatMap_cons, if_neg (Ne.symm hl.1), ih hl.2, List.singleton_append]
  induction h with
  | nil => exact .nil
  | last hne hl =>
    rw [hline hl]
    exact .last hne hl
  | feed hl _ _ ih =>
    rw [List.mem_append, List.mem_cons, not_or, not_or] at hcr
    rw [List.flatMap_append, hline hl, List.flatMap_cons, if_pos rfl]
    exact .crlf hl (ih hcr.2.2)
  | crlf _ _ _ => exact absurd (by simp) hcr

theorem splits_lines (text : String) :
    Splits text.toList ((lines text).map String.toList) := by
  rw [splits_iff, lines, List.map_map]
  simp [Function.comp_def]

theorem lines_withCRLF {text : String} (hcr : '\r' ∉ text.toList) :
    lines (withCRLF text) = lines text := by
  have h := splits_iff.1 ((splits_iff.2 rfl).withCRLF hcr)
  rw [lines, lines, Text.withCRLF, String.toList_ofList, ← h]

end Splits

end Text

namespace Batch

open Text

/-- Is the line a query whose run fails? -/
def fails (o : Options) (query : String) : Bool :=
  !allBlank query && !(run .whole o query).ok

/-- What a run over these lines says, by what the run over each of them says. -/
structure LineByLine (o : Options) (ls : List String) (t : Transcript) : Prop where
  out : t.out = String.join ((ls.filter fun query => !allBlank query).map fun query =>
    (run .whole o query).out)
  err : ∃ said : String → String,
    (∀ query, (run .whole o query).ok = false →
      (run .whole o query).err = "error: " ++ said query) ∧
    t.err = String.join (((ls.zipIdx 1).filter fun (query, _) => fails o query).map
      fun (query, number) => "line " ++ toString number ++ ": " ++ said query)
  ok : t.ok = (ls.filter fun query => !allBlank query).all fun query => (run .whole o query).ok
  told : ∀ query ∈ ls, ((run .whole o query).ok = false → (run .whole o query).out = "") ∧
    ((run .whole o query).ok = true →
      ∃ text, '\n' ∉ text.toList ∧ (run .whole o query).out = line text)

section Runs

variable {o : Options} {query : String}

theorem runWhole_of_ok {text : String} (h : digest o query = .ok text) :
    (run .whole o query).ok = true ∧ (run .whole o query).out = line text ∧
      (run .whole o query).err = "" := by
  rw [digest] at h
  simp only [run, runWhole, h, and_self]

theorem runWhole_of_error {e : DigestError} (h : digest o query = .error e) :
    (run .whole o query).ok = false ∧ (run .whole o query).out = "" ∧
      (run .whole o query).err = line ("error: " ++ e.summary) := by
  rw [digest] at h
  simp only [run, runWhole, h, and_self]

/-- What is said of a failure behind the place of it. -/
def said (o : Options) (query : String) : String :=
  match digest o query with
  | .ok _ => ""
  | .error e => line e.summary

/-- The reports on the lines that are not blank, with numbers from `n` on. -/
def reportsFrom (o : Options) (n : Nat) (ls : List String) : List (Nat × Report) :=
  ((ls.zipIdx n).filterMap fun (query, number) =>
    if allBlank query then none else some (number, query)).map
      fun (number, query) => (number, report o query)

theorem reportsFrom_cons (o : Options) (n : Nat) (query : String) (ls : List String) :
    reportsFrom o n (query :: ls) = if allBlank query then reportsFrom o (n + 1) ls
      else (n, report o query) :: reportsFrom o (n + 1) ls := by
  rw [reportsFrom, List.zipIdx_cons]
  by_cases hb : allBlank query = true
  · rw [List.filterMap_cons_none (by simp [hb]), if_pos hb, reportsFrom]
  · rw [List.filterMap_cons_some (b := (n, query)) (by simp [hb]), if_neg hb, reportsFrom,
      List.map_cons]

theorem lineReports_eq (o : Options) (input : String) :
    lineReports o input = reportsFrom o 1 (lines input) :=
  rfl

section Cons

variable {n : Nat} {reports : List (Nat × Report)} {text : String} {e : DigestError}

theorem digests_cons_ok (h : digest o query = .ok text) :
    digests ((n, report o query) :: reports) = text :: digests reports :=
  List.filterMap_cons_some (congrArg Except.toOption h)

theorem digests_cons_error (h : digest o query = .error e) :
    digests ((n, report o query) :: reports) = digests reports :=
  List.filterMap_cons_none (congrArg Except.toOption h)

theorem failures_cons_ok (h : digest o query = .ok text) :
    failures ((n, report o query) :: reports) = failures reports := by
  rw [digest] at h
  exact List.filterMap_cons_none (by simp [h])

theorem failures_cons_error (h : digest o query = .error e) :
    failures ((n, report o query) :: reports) =
      ("line " ++ toString n ++ ": " ++ e.summary) :: failures reports := by
  rw [digest] at h
  exact List.filterMap_cons_some (by simp [h])

theorem fails_of_ok (h : digest o query = .ok text) : fails o query = false := by
  rw [fails, (runWhole_of_ok h).1, Bool.not_true, Bool.and_false]

theorem fails_of_error (h : digest o query = .error e) (hb : ¬ allBlank query = true) :
    fails o query = true := by
  simp [fails, (runWhole_of_error h).1, hb]

theorem isOk_answer (o : Options) (query : String) :
    (report o query).answer.isOk = (run .whole o query).ok := by
  cases h : digest o query with
  | ok text =>
    rw [(runWhole_of_ok h).1, ← digest, h]
    rfl
  | error e =>
    rw [(runWhole_of_error h).1, ← digest, h]
    rfl

end Cons

/-- The digests of the lines, in the order of the lines. -/
theorem digests_reportsFrom (o : Options) (n : Nat) (ls : List String) :
    digests (reportsFrom o n ls) =
      (ls.filter fun query => !allBlank query).filterMap fun query => (digest o query).toOption := by
  induction ls generalizing n with
  | nil => rfl
  | cons query ls ih =>
    rw [reportsFrom_cons]
    by_cases hb : allBlank query = true
    · rw [if_pos hb, ih, List.filter_cons_of_neg (by simp [hb])]
    · rw [if_neg hb, List.filter_cons_of_pos (by simp [hb]), List.filterMap_cons]
      cases h : digest o query with
      | ok text =>
        rw [digests_cons_ok h, ih]
        rfl
      | error e =>
        rw [digests_cons_error h, ih]
        rfl

theorem join_digests (o : Options) (queries : List String) :
    String.join ((queries.filterMap fun query => (digest o query).toOption).map line) =
      String.join (queries.map fun query => (run .whole o query).out) := by
  induction queries with
  | nil => rfl
  | cons query queries ih =>
    rw [List.filterMap_cons, List.map_cons, String.join_cons, ← ih]
    cases h : digest o query with
    | ok text => simp [Except.toOption, (runWhole_of_ok h).2.1]
    | error e => simp [Except.toOption, (runWhole_of_error h).2.1]

theorem join_failures (o : Options) (n : Nat) (ls : List String) :
    String.join ((failures (reportsFrom o n ls)).map line) =
      String.join (((ls.zipIdx n).filter fun (query, _) => fails o query).map
        fun (query, number) => "line " ++ toString number ++ ": " ++ said o query) := by
  induction ls generalizing n with
  | nil => rfl
  | cons query ls ih =>
    rw [reportsFrom_cons, List.zipIdx_cons]
    by_cases hb : allBlank query = true
    · rw [if_pos hb, ih, List.filter_cons_of_neg (by simp [fails, hb])]
    · rw [if_neg hb]
      cases h : digest o query with
      | ok text =>
        rw [failures_cons_ok h, ih, List.filter_cons_of_neg (by simp [fails_of_ok h])]
      | error e =>
        rw [failures_cons_error h, List.filter_cons_of_pos (by simp [fails_of_error h hb]),
          List.map_cons, List.map_cons, String.join_cons, String.join_cons, ih]
        simp only [said, h, line, String.append_assoc]

theorem all_reportsFrom (o : Options) (n : Nat) (ls : List String) :
    ((reportsFrom o n ls).all fun (_, r) => r.answer.isOk) =
      (ls.filter fun query => !allBlank query).all fun query => (run .whole o query).ok := by
  induction ls generalizing n with
  | nil => rfl
  | cons query ls ih =>
    rw [reportsFrom_cons]
    by_cases hb : allBlank query = true
    · rw [if_pos hb, ih, List.filter_cons_of_neg (by simp [hb])]
    · rw [if_neg hb, List.filter_cons_of_pos (by simp [hb]), List.all_cons, List.all_cons, ih,
        ← isOk_answer]

end Runs

/-- The run over lines is the run over a whole input, line by line: what each line that is not blank
would have written is written in order, and each failure names the number of its line in the input,
blank lines counted. Which of the two line endings an input has makes no difference, also where the
digests are counted. -/
theorem run_lines (o : Options) (input : String) :
    (∃ ls, Splits input.toList (ls.map String.toList) ∧ LineByLine o ls (run .lines o input)) ∧
    ('\r' ∉ input.toList → run .lines o (withCRLF input) = run .lines o input ∧
      run .count o (withCRLF input) = run .count o input) := by
  constructor
  · refine ⟨lines input, splits_lines input, ?_, ⟨said o, ?_, ?_⟩, ?_, ?_⟩
    · rw [← join_digests, ← digests_reportsFrom o 1]
      rfl
    · intro query hfail
      cases h : digest o query with
      | ok text =>
        rw [(runWhole_of_ok h).1] at hfail
        cases hfail
      | error e =>
        simp only [(runWhole_of_error h).2.2, said, h, line, String.append_assoc]
    · exact join_failures o 1 (lines input)
    · exact all_reportsFrom o 1 (lines input)
    · intro query hmem
      have hline : '\n' ∉ query.toList :=
        (splits_lines input).newline_not_mem _ (List.mem_map_of_mem hmem)
      cases h : digest o query with
      | ok text =>
        obtain ⟨hok, hout, -⟩ := runWhole_of_ok h
        refine ⟨fun hfail => ?_, fun _ => ⟨text, Scan.newline_not_mem_digest hline h, hout⟩⟩
        rw [hok] at hfail
        cases hfail
      | error e =>
        obtain ⟨hfail, hout, -⟩ := runWhole_of_error h
        refine ⟨fun _ => hout, fun hok => ?_⟩
        rw [hfail] at hok
        cases hok
  · intro hcr
    have hreports : lineReports o (withCRLF input) = lineReports o input := by
      rw [lineReports_eq, lineReports_eq, lines_withCRLF hcr]
    constructor
    · simp only [run, runLines, hreports]
    · simp only [run, runCount, hreports]

/-- A query, a blank line and a query that fails, with either line ending. -/
theorem run_lines_open_string : '\r' ∉ "a 1\n\n'x\n".toList ∧
    run .lines .default (withCRLF "a 1\n\n'x\n") = run .lines .default "a 1\n\n'x\n" ∧
    run .count .default (withCRLF "a 1\n\n'x\n") = run .count .default "a 1\n\n'x\n" := by
  have hcr : '\r' ∉ "a 1\n\n'x\n".toList := by decide
  exact ⟨hcr, (run_lines .default "a 1\n\n'x\n").2 hcr⟩

end Batch
end QueryDigest
