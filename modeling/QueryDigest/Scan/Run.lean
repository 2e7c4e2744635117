import QueryDigest.Scan.Progress

/-!
# QueryDigest.Scan.Run

A whole scan: steps from the start of a query until its end, or until a step finds that the query
ends inside a scope. The recursion ends because every step leaves less to do (`effort_step_lt`).

`run_eq` unrolls one step. A run has no outcome (`none`) only if a step has none.
-/

namespace QueryDigest
namespace Scan

/-- The outcome of a scan that stands in state `s`. -/
def run (r : Rules) (s : State) : Option Outcome :=
  match hend : s.cursor.atEnd? with
  | none => none
  | some true => some s.finish
  | some false =>
    match hstep : step r s with
    | none => none
    | some (.unclosed scope t) => some (t.stop scope)
    | some (.next t) =>
      have := effort_step_lt (Cursor.pos_lt_size_of_atEnd? hend) hstep
      run r t
termination_by s.effort

/-- The outcome of the scan of a source. -/
def scan (r : Rules) (source : Source) : Option Outcome :=
  run r (State.start source)

/-- One step of a run. -/
theorem run_eq (r : Rules) (s : State) :
    run r s = match s.cursor.atEnd? with
      | none => none
      | some true => some s.finish
      | some false =>
        match step r s with
        | none => none
        | some (.unclosed scope t) => some (t.stop scope)
        | some (.next t) => run r t := by
  rw [run]
  grind

end Scan
end QueryDigest
