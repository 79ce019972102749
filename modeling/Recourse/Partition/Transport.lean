/-
  Partition/Transport.lean --- running one job per partition.

  A transport answers only when every job it started is done, with the results
  in the order of the items.  The sequential one starts no job after a failure.
  Threads run all jobs, and the failure that surfaces is that of the first item
  that failed.
-/
import Recourse.Act

set_option autoImplicit false

namespace Recourse

/-- How jobs are run. -/
inductive Transport where
  /-- One after the other. -/
  | sequential
  /-- All of them, on a number of threads. -/
  | threads (maxWorkers : Option Int)
  deriving DecidableEq, Repr, Inhabited

namespace Transport

/-- A transport written out. -/
def shown : Transport → String
  | .sequential => "LocalTransport()"
  | .threads none => "ThreadTransport(max_workers=None)"
  | .threads (some n) => "ThreadTransport(max_workers=" ++ toString n ++ ")"

/-- A transport over a positive number of threads. -/
def ofThreads {K : Type} (maxWorkers : Option Int) : Except (Fault K) Transport :=
  match maxWorkers with
  | some n => if n ≤ 0 then .error (.misuse .value) else .ok (.threads (some n))
  | none => .ok (.threads none)

variable {σ K α β : Type}

/-- Run a job for every item. -/
def map (t : Transport) (f : α → Act σ K β) (items : List α) : Act σ K (List β) :=
  match t with
  | .sequential => Act.forEach f items
  | .threads _ => do
      let results ← Act.forEach (fun x => Act.attempt (f x)) items
      Act.ofExcept (results.mapM id)

end Transport

end Recourse
