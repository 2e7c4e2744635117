import QueryDigest.Digest
import QueryDigest.Text.Lines

/-!
# QueryDigest.Batch

Digests of an input that holds one query or many. As a whole the input is one query; in lines
each line that is not blank is one, and a failure names the line; counted, equal digests of lines
are told once, with their number, the most frequent first.

A run gives a `Transcript`: what goes to standard output and to standard error, whether every
query had a digest, and the events recorded.
-/

namespace QueryDigest
namespace Batch

/-- How an input is divided into queries and told. -/
inductive Layout where
  /-- The input is one query. -/
  | whole
  /-- Each line that is not blank is a query. -/
  | lines
  /-- As in lines, with equal digests counted. -/
  | count
deriving DecidableEq, Repr

/-- What a run writes and records. -/
structure Transcript where
  /-- Does every query have a digest? -/
  ok : Bool
  out : String
  err : String
  events : List Event

/-- The text as a line. -/
def line (text : String) : String :=
  text ++ "\n"

/-- The lines of an input that are not blank, with their numbers from 1 on. -/
def queries (input : String) : List (Nat × String) :=
  ((Text.lines input).zipIdx 1).filterMap fun (query, number) =>
    if Text.allBlank query then none else some (number, query)

/-- The reports on the lines of an input, with their numbers. -/
def lineReports (o : Options) (input : String) : List (Nat × Report) :=
  (queries input).map fun (number, query) => (number, report o query)

/-- The digests among the reports. -/
def digests (reports : List (Nat × Report)) : List String :=
  reports.filterMap fun (_, r) => r.answer.toOption

/-- The failures among the reports, each with the number of its line. -/
def failures (reports : List (Nat × Report)) : List String :=
  reports.filterMap fun (number, r) =>
    match r.answer with
    | .ok _ => none
    | .error e => some ("line " ++ toString number ++ ": " ++ e.summary)

/-- The transcript of reports on lines that writes the given lines to standard output. -/
def transcript (reports : List (Nat × Report)) (out : List String) : Transcript where
  ok := reports.all fun (_, r) => r.answer.isOk
  out := String.join (out.map line)
  err := String.join ((failures reports).map line)
  events := reports.flatMap fun (_, r) => r.events

/-- The lengths of the runs of equal texts. -/
def runLengths : List String → List (String × Nat)
  | [] => []
  | text :: texts =>
    match runLengths texts with
    | (first, n) :: runs =>
      if text == first then (first, n + 1) :: runs else (text, 1) :: (first, n) :: runs
    | [] => [(text, 1)]

/-- Is the text counted more often, or as often and not after the other? -/
def ranksBefore (a b : String × Nat) : Bool :=
  b.2 < a.2 || (a.2 == b.2 && a.1 ≤ b.1)

/-- Each text once, with how often it occurs: the most frequent first, equally frequent ones in
order. -/
def ranking (texts : List String) : List (String × Nat) :=
  (runLengths (texts.mergeSort fun a b => a ≤ b)).mergeSort ranksBefore

/-- A counted text as it is written. -/
def rankingLine (entry : String × Nat) : String :=
  toString entry.2 ++ "\t" ++ entry.1

/-- The run over the whole input as one query. -/
def runWhole (o : Options) (input : String) : Transcript :=
  let r := report o input
  match r.answer with
  | .ok text => ⟨true, line text, "", r.events⟩
  | .error e => ⟨false, "", line ("error: " ++ e.summary), r.events⟩

/-- The run over each line. -/
def runLines (o : Options) (input : String) : Transcript :=
  let reports := lineReports o input
  transcript reports (digests reports)

/-- The run over each line that counts the digests. -/
def runCount (o : Options) (input : String) : Transcript :=
  let reports := lineReports o input
  transcript reports ((ranking (digests reports)).map rankingLine)

/-- The run in the given layout. -/
def run (layout : Layout) (o : Options) (input : String) : Transcript :=
  match layout with
  | .whole => runWhole o input
  | .lines => runLines o input
  | .count => runCount o input

end Batch
end QueryDigest
