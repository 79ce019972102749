/-
  Proofs/Transport/Interleaving.lean --- generation and collection in every order.

  A transport runs one job per partition, and threads may be at work on several of them at
  once.  Here the two jobs that a program hands out are cut into the steps they take on the
  program and on the ledger, which they share: building looks up what is pending, calls the
  recipe for a scenario, stores the model and then its epoch; a visit checks the partition
  and calls the job for a scenario after the other.  A pool of them is worked on in the order
  of any schedule, and only when every job is done are failures looked at.

  A recipe that is pure, and a job that is, leave the ledger alone, so that each of these
  jobs keeps to its own partition (`buildJob_shared`, `visitJob_shared`).  Then every schedule
  comes to what the partitions come to one after the other.
-/
import Recourse.Proofs.Transport.Job
import Recourse.Proofs.Layout.Work
import Recourse.Proofs.Program.Purity
import Recourse.Proofs.Solver.Extensive

set_option autoImplicit false

namespace Recourse

variable {S σ K α β : Type}

/-! ## Steps of the jobs -/

namespace Job

/-- Look at the state, and go on with what is there. -/
def look (next : S → Job S β) : Job S β := step id next

/-- Call a procedure on the state, and go on with its answer. -/
def call (procedure : S → Except (Fault K) α × S) (next : Except (Fault K) α → Job S β) :
    Job S β :=
  step (fun s => (procedure s).2) fun s => next (procedure s).1

end Job

/-- What a job on a partition has at hand: the partition, and a procedure to call. -/
structure Desk (S K α β : Type) where
  /-- The partition as it is. -/
  read : S → Partition K
  /-- Change the partition. -/
  write : (Partition K → Partition K) → S → S
  /-- Call the procedure. -/
  call : α → S → Except (Fault K) β × S

namespace Desk

/-- The desk of partition `k` of a program, with a procedure on the ledger. -/
def shared (k : Nat) (call : α → Act σ K β) : Desk (Program σ K × Ledger σ K) K α β where
  read s := s.1.partitions.getD k ⟨0, []⟩
  write f s := ({ s.1 with partitions := s.1.partitions.modify k f }, s.2)
  call a s := (((call a).run.run s.2).1, s.1, ((call a).run.run s.2).2)

/-- The desk of a partition alone, with a procedure without effects. -/
def alone (call : α → Except (Fault K) β) : Desk (Partition K) K α β where
  read := id
  write f := f
  call a q := (call a, q)

/-- Change a slot. -/
def writeSlot (d : Desk S K α β) (i : Nat) (f : Slot K → Slot K) (s : S) : S :=
  d.write (fun q => { q with slots := q.slots.modify i f }) s

end Desk

section Jobs

/-- Build the subproblems at some positions, one after the other.  A model is stored before
its epoch is; a failure empties the slot and is noted. -/
def buildEach (d : Desk S K (Scenario K) (Model K)) (epoch offset : Int) :
    List Nat → List (Int × Fault K) → Job S (List (Int × Fault K))
  | [], failed => .done failed
  | i :: rest, failed => .look fun s =>
      match (d.read s).slots[i]? with
      | none => buildEach d epoch offset rest failed
      | some slot => .call (d.call slot.scenario) fun answer =>
          match answer with
          | .ok m =>
              .step (d.writeSlot i fun s => { s with built := some (m, s.epoch) }) fun _ =>
                .step (d.writeSlot i fun s => { s with built := s.built.map fun b => (b.1, epoch) })
                  fun _ => buildEach d epoch offset rest failed
          | .error f =>
              .step (d.writeSlot i fun s => { s with built := none }) fun _ =>
                buildEach d epoch offset rest (failed ++ [(offset + i, f)])

/-- Build what is pending when the job starts. -/
def buildJob (d : Desk S K (Scenario K) (Model K)) (epoch offset : Int) :
    Job S (List (Int × Fault K)) :=
  .look fun s => buildEach d epoch offset ((d.read s).pending epoch) []

/-- Call a job for the scenarios at some positions, up to the first failure. -/
def visitEach (d : Desk S K (Int × Scenario K × Option (Model K)) α) (withSubproblems : Bool)
    (offset : Int) : List Nat → List α → Job S (Except (Fault K) (List α))
  | [], seen => .done (.ok seen)
  | i :: rest, seen => .look fun s =>
      match (d.read s).slots[i]? with
      | none => .done (.ok seen)
      | some slot =>
          .call (d.call (offset + i, slot.scenario,
            if withSubproblems then slot.model? else none)) fun answer =>
              match answer with
              | .ok a => visitEach d withSubproblems offset rest (seen ++ [a])
              | .error f => .done (.error f)

/-- Call a job for every scenario, after a check that the subproblems are there if they are
asked for. -/
def visitJob (d : Desk S K (Int × Scenario K × Option (Model K)) α) (withSubproblems : Bool)
    (epoch offset : Int) : Job S (Except (Fault K) (List α)) :=
  .look fun s =>
    if withSubproblems && !(d.read s).isGenerated epoch then
      .done (.error (.stale (.partition (d.read s).owner)))
    else visitEach d withSubproblems offset (List.range (d.read s).size) []

end Jobs

namespace Program

/-- Work on a pool of jobs on a program in the order of a schedule, until all are done. -/
def pooled (schedule : List Nat) (pool : List (Job (Program σ K × Ledger σ K) β)) :
    Edit σ K (List β) :=
  ExceptT.mk fun s =>
    let (bs, s) := Job.interleave schedule pool s
    (.ok bs, s)

/-- Build every subproblem that is not current, with a job for every partition, in the order of
a schedule. -/
def generateSubproblemsBy (schedule : List Nat) (r : SecondRecipe σ K) : Edit σ K Unit := do
  let p ← Change.state
  let decisions := p.decisions.getD ⟨[]⟩
  let build := fun (s : Scenario K) => r.generate p.secondData decisions s.data
  let results ← pooled schedule (p.placed.zipIdx.map fun (q : (Partition K × Nat) × Nat) =>
    buildJob (.shared q.2 build) p.secondEpoch q.1.2)
  let failed := results.flatten
  if !failed.isEmpty then throw (.generation failed)
  Change.update fun p => { p with generatedEpoch := some p.secondEpoch }

/-- Build whatever is missing or stale, the subproblems in some way. -/
def generateWith (subproblems : SecondRecipe σ K → Edit σ K Unit) : Edit σ K Unit := do
  match (← Change.state).firstRecipe with
  | none => throw (.undefinedRecipe .first)
  | some r => generateMaster r
  let p ← Change.state
  if p.scenarioCount = 0 then
    if p.secondRecipe.isSome then
      Change.update fun p => { p with generatedEpoch := some p.secondEpoch }
  else match p.secondRecipe with
    | none => throw (.undefinedRecipe .second)
    | some r => subproblems r

/-- Generation, with the jobs on the partitions in the order of a schedule. -/
def generateBy (schedule : List Nat) : Edit σ K Unit :=
  generateWith (generateSubproblemsBy schedule)

/-- Run a job on every scenario, with a visit to every partition, in the order of a schedule.
What surfaces is the failure of the first partition that failed. -/
def collectBy (schedule : List Nat) (withSubproblems : Bool)
    (job : Int → Scenario K → Option (Model K) → Act σ K α) : Edit σ K (List α) := do
  let p ← Change.state
  let results ← pooled schedule (p.placed.zipIdx.map fun (q : (Partition K × Nat) × Nat) =>
    visitJob (.shared q.2 fun a => job a.1 a.2.1 a.2.2) withSubproblems p.secondEpoch q.1.2)
  let chunks ← (results.mapM fun r => r : Except (Fault K) (List (List α)))
  return chunks.flatten

theorem generate_eq_generateWith : (generate : Edit σ K Unit) = generateWith generateSubproblems :=
  rfl

end Program

/-! ## Jobs keep to their partitions -/

/-- The partitions, as places in a program next to its ledger. -/
def partitionPlaces : Job.Places (Program σ K × Ledger σ K) (Partition K) where
  read s := s.1.partitions
  write ps s := ({ s.1 with partitions := ps }, s.2)
  read_write _ _ := rfl
  write_write _ _ _ := rfl
  write_read _ := rfl

namespace Job

variable {A : Type} {P : Places S A} {empty : A} {k : Nat}

theorem Places.modify_id : P.modify k id = id := by
  funext s
  rw [modify, List.modify_id, P.write_read]
  rfl

theorem within_look (next : A → Job A β) : (look next).within P empty k =
    look fun s => (next (P.get empty k s)).within P empty k := by
  show step (P.modify k id) _ = _
  rw [Places.modify_id]
  rfl

end Job

section Shared

variable {k : Nat}

/-- A call without effects is a call by a partition alone. -/
theorem call_shared (call : α → Except (Fault K) β) (a : α) {γ : Type}
    (next : Except (Fault K) β → Job (Partition K) γ) :
    (Job.call ((Desk.alone call).call a) next).within (partitionPlaces (σ := σ)) ⟨0, []⟩ k =
      Job.call ((Desk.shared k fun a => .ofExcept (call a)).call a) fun answer =>
        (next answer).within partitionPlaces ⟨0, []⟩ k :=
  Job.within_look fun _ => next (call a)

theorem buildEach_shared (build : Scenario K → Except (Fault K) (Model K)) (epoch offset : Int)
    (is : List Nat) (failed : List (Int × Fault K)) :
    buildEach (.shared (σ := σ) k fun s => .ofExcept (build s)) epoch offset is failed =
      (buildEach (.alone build) epoch offset is failed).within partitionPlaces ⟨0, []⟩ k := by
  induction is generalizing failed with
  | nil => rfl
  | cons i rest ih =>
    rw [buildEach, buildEach, Job.within_look]
    refine congrArg _ (funext fun s => ?_)
    show (match (partitionPlaces.get ⟨0, []⟩ k s).slots[i]? with
      | none => _
      | some slot => _) = Job.within _ _ _ (match (partitionPlaces.get ⟨0, []⟩ k s).slots[i]? with
      | none => _
      | some slot => _)
    cases (partitionPlaces.get ⟨0, []⟩ k s).slots[i]? with
    | none => exact ih failed
    | some slot =>
      dsimp only
      rw [call_shared]
      refine congrArg _ (funext fun answer => ?_)
      cases answer with
      | ok m => exact congrArg (fun j => Job.step _ fun _ => Job.step _ fun _ => j) (ih failed)
      | error f => exact congrArg (fun j => Job.step _ fun _ => j) (ih _)

/-- A job that builds with a pure recipe keeps to its partition. -/
theorem buildJob_shared (build : Scenario K → Except (Fault K) (Model K)) (epoch offset : Int) :
    buildJob (.shared (σ := σ) k fun s => .ofExcept (build s)) epoch offset =
      (buildJob (.alone build) epoch offset).within partitionPlaces ⟨0, []⟩ k := by
  rw [buildJob, buildJob, Job.within_look]
  exact congrArg _ (funext fun s => buildEach_shared build epoch offset _ [])

theorem visitEach_shared (job : Int × Scenario K × Option (Model K) → Except (Fault K) α)
    (withSubproblems : Bool) (offset : Int) (is : List Nat) (seen : List α) :
    visitEach (.shared (σ := σ) k fun a => .ofExcept (job a)) withSubproblems offset is seen =
      (visitEach (.alone job) withSubproblems offset is seen).within partitionPlaces ⟨0, []⟩ k := by
  induction is generalizing seen with
  | nil => rfl
  | cons i rest ih =>
    rw [visitEach, visitEach, Job.within_look]
    refine congrArg _ (funext fun s => ?_)
    show (match (partitionPlaces.get ⟨0, []⟩ k s).slots[i]? with
      | none => _
      | some slot => _) = Job.within _ _ _ (match (partitionPlaces.get ⟨0, []⟩ k s).slots[i]? with
      | none => _
      | some slot => _)
    cases (partitionPlaces.get ⟨0, []⟩ k s).slots[i]? with
    | none => rfl
    | some slot =>
      dsimp only
      rw [call_shared]
      refine congrArg _ (funext fun answer => ?_)
      cases answer with
      | ok a => exact ih (seen ++ [a])
      | error f => rfl

/-- A visit with a pure job keeps to its partition. -/
theorem visitJob_shared (job : Int × Scenario K × Option (Model K) → Except (Fault K) α)
    (withSubproblems : Bool) (epoch offset : Int) :
    visitJob (.shared (σ := σ) k fun a => .ofExcept (job a)) withSubproblems epoch offset =
      (visitJob (.alone job) withSubproblems epoch offset).within partitionPlaces ⟨0, []⟩ k := by
  rw [visitJob, visitJob, Job.within_look]
  refine congrArg _ (funext fun s => ?_)
  show (if withSubproblems && !(partitionPlaces.get ⟨0, []⟩ k s).isGenerated epoch then _ else _) =
    Job.within _ _ _
      (if withSubproblems && !(partitionPlaces.get ⟨0, []⟩ k s).isGenerated epoch then _ else _)
  split
  · rfl
  · exact visitEach_shared job withSubproblems offset _ []

end Shared

/-! ## What a partition comes to alone -/

/-- What becomes of a slot, and why it failed if it did. -/
def slotResult (build : Scenario K → Except (Fault K) (Model K)) (epoch : Int) (s : Slot K) :
    Slot K × Option (Fault K) :=
  if s.isCurrent epoch then (s, none)
  else match build s.scenario with
    | .ok m => ({ s with built := some (m, epoch) }, none)
    | .error f => ({ s with built := none }, some f)

theorem buildSlot_ofExcept (build : Scenario K → Except (Fault K) (Model K)) (epoch : Int)
    (s : Slot K) : Partition.buildSlot (σ := σ) (fun s => .ofExcept (build s)) epoch s =
      pure (slotResult build epoch s) := by
  unfold Partition.buildSlot slotResult
  split
  · rfl
  · show (Act.attempt (Act.ofExcept (build s.scenario)) >>= _) = _
    cases build s.scenario <;> rfl

theorem failures_cons (start : Int) (r : Slot K × Option (Fault K))
    (rs : List (Slot K × Option (Fault K))) :
    failures start (r :: rs) = (r.2.map fun f => (start, f)).toList ++ failures (start + 1) rs := by
  have happend := failures_append start [r] rs
  rw [List.singleton_append] at happend
  rw [happend]
  obtain ⟨slot, failure⟩ := r
  cases failure <;> simp [failures]

namespace Partition

/-- What a partition comes to whose pending subproblems are built. -/
def builtWith (build : Scenario K → Except (Fault K) (Model K)) (epoch offset : Int)
    (q : Partition K) : Partition K × List (Int × Fault K) :=
  ({ q with slots := (q.slots.map (slotResult build epoch)).map (·.1) },
    failures offset (q.slots.map (slotResult build epoch)))

theorem generate_ofExcept (build : Scenario K → Except (Fault K) (Model K)) (epoch offset : Int)
    (q : Partition K) : q.generate (σ := σ) (fun s => .ofExcept (build s)) epoch offset =
      pure (q.builtWith build epoch offset) := by
  unfold generate
  rw [funext (buildSlot_ofExcept build epoch), Act.forEach_pure]
  rfl

end Partition

/-- Building one subproblem, and then the others. -/
theorem finish_buildEach_cons (build : Scenario K → Except (Fault K) (Model K)) (epoch offset : Int)
    {i : Nat} (is : List Nat) (failed : List (Int × Fault K)) {q : Partition K} {s : Slot K}
    (h : q.slots[i]? = some s) (hpending : s.isCurrent epoch = false) :
    (buildEach (.alone build) epoch offset (i :: is) failed).finish q =
      (buildEach (.alone build) epoch offset is (failed ++
          ((slotResult build epoch s).2.map fun f => (offset + i, f)).toList)).finish
        { q with slots := q.slots.set i (slotResult build epoch s).1 } := by
  have hset (f : Slot K → Slot K) : q.slots.modify i f = q.slots.set i (f s) := by
    rw [List.modify_eq_set_getElem?, h]
    rfl
  have htwice (f g : Slot K → Slot K) :
      (q.slots.modify i f).modify i g = q.slots.set i (g (f s)) := by
    rw [hset, List.modify_eq_set_getElem?,
      List.getElem?_set_self (List.getElem?_eq_some_iff.1 h).1]
    exact List.set_set _
  have hslot : slotResult build epoch s = match build s.scenario with
      | .ok m => ({ s with built := some (m, epoch) }, none)
      | .error f => ({ s with built := none }, some f) := if_neg (by simp [hpending])
  rw [hslot, buildEach]
  show Job.finish (match q.slots[i]? with | none => _ | some slot => _) q = _
  rw [h]
  show Job.finish (match build s.scenario with | .ok m => _ | .error f => _) q = _
  cases build s.scenario with
  | ok m =>
    show (buildEach (.alone build) _ _ is failed).finish
      ⟨q.owner, (q.slots.modify i _).modify i _⟩ = _
    rw [htwice]
    show _ = (buildEach (.alone build) epoch offset is (failed ++ [])).finish _
    rw [List.append_nil]
    rfl
  | error f =>
    show (buildEach (.alone build) _ _ is _).finish ⟨q.owner, q.slots.modify i _⟩ = _
    rw [hset]
    rfl

theorem finish_buildEach (build : Scenario K → Except (Fault K) (Model K))
    (epoch offset owner : Int) (before rest : List (Slot K)) (failed : List (Int × Fault K)) :
    (buildEach (.alone build) epoch offset
        (((rest.zipIdx before.length).filter fun s => !s.1.isCurrent epoch).map (·.2))
        failed).finish ⟨owner, before ++ rest⟩ =
      (failed ++ failures (offset + before.length) (rest.map (slotResult build epoch)),
        ⟨owner, before ++ (rest.map (slotResult build epoch)).map (·.1)⟩) := by
  induction rest generalizing before failed with
  | nil => simp [buildEach, Job.finish, failures]
  | cons s rest ih =>
    have hnext (s' : Slot K) (failed : List (Int × Fault K)) := ih (before ++ [s']) failed
    simp only [List.length_append, List.length_singleton, List.append_assoc, List.singleton_append,
      Nat.cast_add, Nat.cast_one] at hnext
    rw [List.zipIdx_cons, List.map_cons, failures_cons, add_assoc, List.map_cons]
    by_cases hcurrent : s.isCurrent epoch = true
    · have hslot : slotResult build epoch s = (s, none) := if_pos hcurrent
      rw [List.filter_cons_of_neg (by simp [hcurrent]), hnext, hslot]
      rfl
    · rw [List.filter_cons_of_pos (by simp [hcurrent])]
      have hget : (before ++ s :: rest)[before.length]? = some s := by simp
      have hset : (before ++ s :: rest).set before.length (slotResult build epoch s).1 =
          before ++ (slotResult build epoch s).1 :: rest := by simp
      rw [List.map_cons, finish_buildEach_cons build epoch offset
        (q := ⟨owner, before ++ s :: rest⟩) _ failed hget (by simpa using hcurrent)]
      dsimp only
      rw [hset, hnext, List.append_assoc]

theorem finish_buildJob (build : Scenario K → Except (Fault K) (Model K)) (epoch offset : Int)
    (q : Partition K) : (buildJob (.alone build) epoch offset).finish q =
      ((q.builtWith build epoch offset).2, (q.builtWith build epoch offset).1) := by
  have hall := finish_buildEach build epoch offset q.owner [] q.slots []
  rw [List.length_nil, Nat.cast_zero, add_zero] at hall
  exact hall

/-- What a partition comes to that is visited. -/
def Partition.visitedWith (job : Int × Scenario K × Option (Model K) → Except (Fault K) α)
    (withSubproblems : Bool) (epoch : Int) (offset : Nat) (q : Partition K) :
    Except (Fault K) (List α) :=
  if withSubproblems && !q.isGenerated epoch then .error (.stale (.partition q.owner))
  else (q.slots.zipIdx offset).mapM fun s =>
    job (s.2, s.1.scenario, if withSubproblems then s.1.model? else none)

theorem visit_ofExcept (job : Int × Scenario K × Option (Model K) → Except (Fault K) α)
    (withSubproblems : Bool) (epoch : Int) (offset : Nat) (q : Partition K) :
    q.visit (σ := σ) (if withSubproblems then some epoch else none) offset
        (fun i s m => .ofExcept (job (i, s, m))) =
      .ofExcept (q.visitedWith job withSubproblems epoch offset) := by
  unfold Partition.visitedWith
  by_cases hgenerated : withSubproblems = true → q.isGenerated epoch = true
  · rw [Program.visit_eq fun hsub => List.all_eq_true.1 (hgenerated hsub)]
    have hcheck : (withSubproblems && !q.isGenerated epoch) = false := by
      cases withSubproblems with
      | false => rfl
      | true => simp [hgenerated rfl]
    rw [hcheck, if_neg Bool.false_ne_true]
    exact Act.forEach_ofExcept _ _
  · simp only [Classical.not_imp, Bool.not_eq_true] at hgenerated
    obtain ⟨rfl, hgenerated⟩ := hgenerated
    simp only [Partition.visit, if_true, hgenerated]
    rfl

theorem finish_visitEach (job : Int × Scenario K × Option (Model K) → Except (Fault K) α)
    (withSubproblems : Bool) (offset : Nat) (owner : Int) (before rest : List (Slot K))
    (seen : List α) :
    (visitEach (.alone job) withSubproblems offset (List.range' before.length rest.length)
        seen).finish ⟨owner, before ++ rest⟩ =
      (((rest.zipIdx (offset + before.length)).mapM fun s =>
          job (s.2, s.1.scenario, if withSubproblems then s.1.model? else none)).map (seen ++ ·),
        ⟨owner, before ++ rest⟩) := by
  induction rest generalizing before seen with
  | nil =>
    show (Except.ok seen, _) = (Except.ok (seen ++ []), _)
    rw [List.append_nil seen]
  | cons s rest ih =>
    have hget : (before ++ s :: rest)[before.length]? = some s := by simp
    have hnext (a : α) := ih (before ++ [s]) (seen ++ [a])
    simp only [List.length_append, List.length_singleton, List.append_assoc,
      List.singleton_append] at hnext
    rw [List.length_cons, List.range'_succ, List.zipIdx_cons, List.mapM_cons, visitEach]
    show Job.finish (match (before ++ s :: rest)[before.length]? with
      | none => _
      | some slot => _) (⟨owner, before ++ s :: rest⟩ : Partition K) = _
    rw [hget, Nat.cast_add]
    show Job.finish (match job (offset + before.length, s.scenario, _) with
      | .ok a => _
      | .error f => _) (⟨owner, before ++ s :: rest⟩ : Partition K) = _
    cases job (offset + before.length, s.scenario, if withSubproblems then s.model? else none) with
    | error f => rfl
    | ok a =>
      refine (hnext a).trans ?_
      rw [← add_assoc]
      generalize List.mapM (m := Except (Fault K)) _ (rest.zipIdx (offset + before.length + 1)) = r
      cases r <;> rfl

theorem finish_visitJob (job : Int × Scenario K × Option (Model K) → Except (Fault K) α)
    (withSubproblems : Bool) (epoch : Int) (offset : Nat) (q : Partition K) :
    (visitJob (.alone job) withSubproblems epoch offset).finish q =
      (q.visitedWith job withSubproblems epoch offset, q) := by
  have hall := finish_visitEach job withSubproblems offset q.owner [] q.slots []
  show Job.finish (if withSubproblems && !q.isGenerated epoch then _ else _) q = _
  unfold Partition.visitedWith
  split
  · rfl
  · rw [List.length_nil, add_zero, List.nil_append, ← List.range_eq_range'] at hall
    refine hall.trans (congrArg (·, q) ?_)
    generalize List.mapM (m := Except (Fault K)) _ (q.slots.zipIdx offset) = r
    cases r <;> rfl

/-! ## Pools of them -/

/-- The model a recipe gives for every scenario of a program, or why it gives none. -/
theorem SecondRecipe.Pure.exists_build {r : SecondRecipe σ K} (h : r.Pure) (p : Program σ K) :
    ∃ build : Scenario K → Except (Fault K) (Model K),
      (fun (s : Scenario K) => r.generate p.secondData (p.decisions.getD ⟨[]⟩) s.data) =
        fun s => .ofExcept (build s) := by
  choose build hbuild using fun s : Scenario K =>
    h.generate_effectless p.secondData (p.decisions.getD ⟨[]⟩) s.data
  exact ⟨build, funext hbuild⟩

theorem Job.withinEach_map {A γ : Type} {P : Job.Places S A} {empty : A} (f : γ → Job A β)
    (cs : List γ) (k : Nat) : Job.withinEach P empty k (cs.map f) =
      (cs.zipIdx k).map fun c => (f c.1).within P empty c.2 := by
  induction cs generalizing k with
  | nil => rfl
  | cons c cs ih => rw [List.map_cons, Job.withinEach, ih, List.zipIdx_cons, List.map_cons]

theorem zipWith_zip {γ : Type} (f : α × β → α → γ) (as : List α) (bs : List β)
    (h : as.length = bs.length) :
    List.zipWith f (as.zip bs) as = (as.zip bs).map fun a => f a a.1 := by
  induction as generalizing bs with
  | nil => rfl
  | cons a as ih =>
    obtain ⟨b, bs, rfl⟩ := List.exists_cons_of_length_eq_add_one h.symm
    rw [List.zip_cons_cons, List.zipWith_cons_cons, List.map_cons, ih bs (Nat.succ.inj h)]

namespace Program

variable {p : Program σ K}

/-- A pool of jobs that keep to their partitions leaves in every partition what its job comes to
there alone, whatever the schedule. -/
theorem pooled_run (schedule : List Nat) (p : Program σ K) (ledger : Ledger σ K)
    (job : Partition K × Nat → Job (Partition K) β) :
    (pooled schedule (p.placed.zipIdx.map fun q =>
        (job q.1).within partitionPlaces ⟨0, []⟩ q.2)).run.run (p, ledger) =
      (.ok (p.placed.map fun q => ((job q).finish q.1).1),
        { p with partitions := p.placed.map fun q => ((job q).finish q.1).2 }, ledger) := by
  have hlength : p.partitions.length = (offsets p.partitionSizes 0).length := by
    rw [length_offsets, partitionSizes, List.length_map]
  have hall := Job.interleave_within (P := partitionPlaces) (e := ⟨0, []⟩) schedule
    (p.placed.map job) (p, ledger) (by
      rw [List.length_map, placed, List.length_zip, ← hlength, Nat.min_self]
      rfl)
  have hresults : List.zipWith Job.finish (p.placed.map job) (partitionPlaces.read (p, ledger)) =
      p.placed.map fun q => (job q).finish q.1 := by
    rw [List.zipWith_map_left]
    exact zipWith_zip _ p.partitions _ hlength
  rw [Job.withinEach_map, hresults, List.map_map, List.map_map] at hall
  show (Except.ok (Job.interleave schedule _ (p, ledger)).1, (Job.interleave schedule _ _).2) = _
  rw [hall]
  rfl

/-! ## Generation -/

/-- The partitions with their pending subproblems built, and what failed there. -/
def builtEach (build : Scenario K → Except (Fault K) (Model K)) (p : Program σ K) :
    List (Partition K × List (Int × Fault K)) :=
  p.placed.map fun q => q.1.builtWith build p.secondEpoch q.2

/-- What generation comes to once the partitions are built. -/
def noteBuilt (failed : List (Int × Fault K)) : Edit σ K Unit := do
  if !failed.isEmpty then throw (.generation failed)
  Change.update fun p => { p with generatedEpoch := some p.secondEpoch }

theorem generateSubproblemsBy_run (schedule : List Nat) {r : SecondRecipe σ K}
    {build : Scenario K → Except (Fault K) (Model K)}
    (h : (fun (s : Scenario K) => r.generate p.secondData (p.decisions.getD ⟨[]⟩) s.data) =
      fun s => .ofExcept (build s)) (ledger : Ledger σ K) :
    (generateSubproblemsBy schedule r).run.run (p, ledger) =
      (noteBuilt ((p.builtEach build).flatMap (·.2))).run.run
        ({ p with partitions := (p.builtEach build).map (·.1) }, ledger) := by
  have hrun := pooled_run schedule p ledger fun q => buildJob (.alone build) p.secondEpoch q.2
  simp only [finish_buildJob, ← buildJob_shared (σ := σ)] at hrun
  unfold generateSubproblemsBy
  rw [Change.run_bind]
  show (pooled schedule _ >>= fun results => noteBuilt results.flatten).run.run (p, ledger) = _
  rw [Change.run_bind, h, hrun, builtEach, List.flatMap_def, List.map_map, List.map_map]
  rfl

theorem generateSubproblems_run {r : SecondRecipe σ K}
    {build : Scenario K → Except (Fault K) (Model K)}
    (h : (fun (s : Scenario K) => r.generate p.secondData (p.decisions.getD ⟨[]⟩) s.data) =
      fun s => .ofExcept (build s)) (ledger : Ledger σ K) :
    (generateSubproblems r).run.run (p, ledger) =
      (noteBuilt ((p.builtEach build).flatMap (·.2))).run.run
        ({ p with partitions := (p.builtEach build).map (·.1) }, ledger) := by
  have hjobs : p.transport.map (fun (q : Partition K × Nat) => q.1.generate (fun s =>
      r.generate p.secondData (p.decisions.getD ⟨[]⟩) s.data) p.secondEpoch q.2) p.placed =
      .ofExcept (.ok (p.builtEach build)) := by
    rw [h]
    simp only [Partition.generate_ofExcept]
    refine (p.transport.map_ofExcept (fun q => .ok _) p.placed).trans (congrArg _ ?_)
    exact mapM_eq_ok p.placed fun q _ => rfl
  unfold generateSubproblems
  rw [Change.run_bind]
  show (Change.ofAct (p.transport.map _ p.placed) >>= fun results =>
    Change.update (fun p => { p with partitions := results.map Prod.fst }) >>= fun _ =>
      noteBuilt (results.flatMap Prod.snd)).run.run (p, ledger) = _
  rw [hjobs]
  rfl

/-- A program with its partitions worked on through a transport. -/
def via (t : Transport) (p : Program σ K) : Program σ K := { p with transport := t }

/-- From a program, and from the one over a transport, two changes come to the same: the same
result or refusal, the same program afterwards apart from its transport, and the same ledger. -/
def SameOver (t : Transport) (c c' : Edit σ K α) (p : Program σ K) : Prop :=
  c.Agrees True c' p (p.via t) (fun a q b q' => b = a ∧ q' = q.via t) fun q q' => q' = q.via t

variable {t : Transport}

theorem SameOver.run {c c' : Edit σ K α} (h : SameOver t c c' p) (ledger : Ledger σ K) :
    (c'.runOn (p.via t)).run ledger =
      ((((c.runOn p).run ledger).1.1, ((c.runOn p).run ledger).1.2.via t),
        ((c.runOn p).run ledger).2) := by
  obtain ⟨hresult, hledger⟩ := h ledger
  have hledger := hledger (.inl trivial)
  have hsame := hresult.eq fun _ _ hab => hab.1
  have hprogram : (c'.run.run (p.via t, ledger)).2.1 =
      (c.run.run (p, ledger)).2.1.via t := by
    generalize c.run.run (p, ledger) = after at hresult
    generalize c'.run.run (p.via t, ledger) = after' at hresult
    obtain ⟨r, q, l⟩ := after
    obtain ⟨r', q', l'⟩ := after'
    cases r <;> cases r'
    · exact hresult.2
    · exact hresult.elim
    · exact hresult.elim
    · exact hresult.2
  rw [Change.runOn_run, Change.runOn_run, hsame, hprogram, hledger]

theorem noteBuilt_over (failed : List (Int × Fault K)) (p : Program σ K) :
    SameOver t (noteBuilt failed) (noteBuilt failed) p := by
  unfold noteBuilt
  split
  · exact Change.agrees_bind (Change.agrees_fail rfl)
  · exact Change.agrees_update ⟨rfl, rfl⟩

theorem generateSubproblemsBy_over (schedule : List Nat) {r : SecondRecipe σ K}
    (h : r.Pure) (p : Program σ K) :
    SameOver t (generateSubproblemsBy schedule r) (generateSubproblems r) p := by
  intro ledger
  obtain ⟨build, hbuild⟩ := h.exists_build p
  have hnote := noteBuilt_over (t := t) ((p.builtEach build).flatMap (·.2))
    { p with partitions := (p.builtEach build).map (·.1) } ledger
  rw [generateSubproblemsBy_run schedule hbuild,
    generateSubproblems_run (p := p.via t) hbuild]
  exact hnote

theorem generateMaster_over (r : FirstRecipe σ K) (p : Program σ K) :
    (generateMaster r : Edit σ K Unit).Agrees True (generateMaster r) p (p.via t)
      (fun _ q _ q' => q' = q.via t ∧ q.secondRecipe = p.secondRecipe)
      fun q q' => q' = q.via t := by
  unfold generateMaster
  refine Change.agrees_bind (Change.agrees_state ?_)
  show (if p.currentMaster?.isSome = true then _ else _ : Edit σ K Unit).Agrees _
    (if p.currentMaster?.isSome = true then _ else _) _ _ _ _
  split
  · exact Change.agrees_pure ⟨rfl, rfl⟩
  refine Change.agrees_bind (Change.agrees_ofAct (.refl _) rfl ?_)
  rintro m _ rfl
  split
  · exact Change.agrees_bind (Change.agrees_fail rfl)
  · exact Change.agrees_update ⟨rfl, rfl⟩

/-- In whatever order the jobs on the partitions are worked on, generation comes to what it
comes to through any transport. -/
theorem generateBy_over (schedule : List Nat)
    (h : ∀ r, p.secondRecipe = some r → r.Pure) :
    SameOver t (generateBy schedule) generate p := by
  rw [generate_eq_generateWith]
  unfold generateBy generateWith
  refine Change.agrees_bind (Change.agrees_state ?_)
  show (match p.firstRecipe with | none => _ | some r => _ : Edit σ K Unit).Agrees _
    (match p.firstRecipe with | none => _ | some r => _) _ _ _ _
  cases p.firstRecipe with
  | none => exact Change.agrees_bind (Change.agrees_fail rfl)
  | some r =>
    refine Change.agrees_bind ((generateMaster_over r p).mono ?_ fun _ _ h => h)
    rintro _ q _ _ ⟨rfl, hrecipe⟩
    refine Change.agrees_bind (Change.agrees_state ?_)
    show (if q.scenarioCount = 0 then _ else _ : Edit σ K Unit).Agrees _
      (if q.scenarioCount = 0 then _ else _) _ _ _ _
    split
    · show (if q.secondRecipe.isSome = true then _ else _ : Edit σ K Unit).Agrees _
        (if q.secondRecipe.isSome = true then _ else _) _ _ _ _
      split
      · exact Change.agrees_update ⟨rfl, rfl⟩
      · exact Change.agrees_pure ⟨rfl, rfl⟩
    · show (match q.secondRecipe with | none => _ | some r => _ : Edit σ K Unit).Agrees _
        (match q.secondRecipe with | none => _ | some r => _) _ _ _ _
      rw [hrecipe]
      cases hsecond : p.secondRecipe with
      | none => exact Change.agrees_fail rfl
      | some r => exact generateSubproblemsBy_over schedule (h r hsecond) q

/-! ## Collection -/

/-- What a visit to every partition comes to. -/
def visitedEach (job : Int × Scenario K × Option (Model K) → Except (Fault K) α)
    (withSubproblems : Bool) (p : Program σ K) : Except (Fault K) (List (List α)) :=
  p.placed.mapM fun q => q.1.visitedWith job withSubproblems p.secondEpoch q.2

theorem collectBy_run (schedule : List Nat)
    (job : Int × Scenario K × Option (Model K) → Except (Fault K) α) (withSubproblems : Bool)
    (p : Program σ K) (ledger : Ledger σ K) :
    (collectBy schedule withSubproblems fun i s m =>
        .ofExcept (job (i, s, m))).run.run (p, ledger) =
      ((p.visitedEach job withSubproblems).map List.flatten, p, ledger) := by
  have hrun := pooled_run schedule p ledger fun q =>
    visitJob (.alone job) withSubproblems p.secondEpoch q.2
  simp only [finish_visitJob, ← visitJob_shared (σ := σ), map_fst_placed] at hrun
  unfold collectBy
  rw [Change.run_bind]
  show (pooled schedule _ >>= fun results => _).run.run (p, ledger) = _
  rw [Change.run_bind, hrun]
  dsimp only
  rw [List.mapM_map]
  show (liftM (p.visitedEach job withSubproblems) >>= fun chunks => pure chunks.flatten :
    Edit σ K (List α)).run.run (p, ledger) = _
  cases p.visitedEach job withSubproblems <;> rfl

theorem collect_run (job : Int × Scenario K × Option (Model K) → Except (Fault K) α)
    (withSubproblems : Bool) (p : Program σ K) :
    (p.collect withSubproblems fun i s m => .ofExcept (job (i, s, m)) : Act σ K (List α)) =
      .ofExcept ((p.visitedEach job withSubproblems).map List.flatten) := by
  unfold collect
  simp only [visit_ofExcept, Transport.map_ofExcept]
  show (Act.ofExcept (p.visitedEach job withSubproblems) >>= fun chunks => pure chunks.flatten) = _
  cases p.visitedEach job withSubproblems <;> rfl

end Program

/-! ## Which failure surfaces -/

theorem mapM_cons_eq_error_iff {ε : Type} {g : α → Except ε β} {a : α} {as : List α} {f : ε} :
    (a :: as).mapM g = .error f ↔
      g a = .error f ∨ (∃ b, g a = .ok b) ∧ as.mapM g = .error f := by
  rw [List.mapM_cons]
  cases g a with
  | error e =>
    refine ⟨fun h => .inl ?_, fun h => ?_⟩
    · cases h
      rfl
    · obtain h | ⟨⟨b, hb⟩, -⟩ := h
      · cases h
        rfl
      · cases hb
  | ok b =>
    cases as.mapM g with
    | error e =>
      refine ⟨fun h => .inr ⟨⟨b, rfl⟩, ?_⟩, fun h => ?_⟩
      · cases h
        rfl
      · obtain h | ⟨-, h⟩ := h
        · cases h
        · cases h
          rfl
    | ok bs =>
      refine ⟨fun h => (by cases h), fun h => ?_⟩
      obtain h | ⟨-, h⟩ := h <;> cases h

/-- Of computations one after the other, the first that fails decides. -/
theorem mapM_eq_error_iff {ε : Type} {g : α → Except ε β} {as : List α} {f : ε} :
    as.mapM g = .error f ↔ ∃ before a after, as = before ++ a :: after ∧
      (∀ b ∈ before, ∃ c, g b = .ok c) ∧ g a = .error f := by
  induction as with
  | nil =>
    refine ⟨fun h => (by cases h), ?_⟩
    rintro ⟨before, a, after, h, -⟩
    exact absurd h.symm (List.append_ne_nil_of_right_ne_nil _ (List.cons_ne_nil _ _))
  | cons a as ih =>
    rw [mapM_cons_eq_error_iff, ih]
    constructor
    · rintro (h | ⟨ha, before, b, after, rfl, hbefore, hb⟩)
      · exact ⟨[], a, as, rfl, fun _ h => absurd h List.not_mem_nil, h⟩
      · exact ⟨a :: before, b, after, rfl, List.forall_mem_cons.2 ⟨ha, hbefore⟩, hb⟩
    · rintro ⟨before, b, after, hsplit, hbefore, hb⟩
      cases before with
      | nil =>
        obtain ⟨rfl, rfl⟩ := List.cons.inj hsplit
        exact .inl hb
      | cons c before =>
        obtain ⟨rfl, rfl⟩ := List.cons.inj hsplit
        obtain ⟨ha, hbefore⟩ := List.forall_mem_cons.1 hbefore
        exact .inr ⟨ha, before, b, after, rfl, hbefore, hb⟩

theorem exists_mapM_eq_ok_iff {ε : Type} {g : α → Except ε β} {as : List α} :
    (∃ bs, as.mapM g = .ok bs) ↔ ∀ a ∈ as, ∃ b, g a = .ok b := by
  induction as with
  | nil => exact ⟨fun _ _ h => absurd h List.not_mem_nil, fun _ => ⟨[], rfl⟩⟩
  | cons a as ih =>
    rw [List.forall_mem_cons, ← ih, List.mapM_cons]
    cases g a with
    | error e =>
      exact ⟨fun ⟨_, h⟩ => (by cases h), fun ⟨⟨_, h⟩, _⟩ => by cases h⟩
    | ok b =>
      cases as.mapM g with
      | error e => exact ⟨fun ⟨_, h⟩ => (by cases h), fun ⟨_, _, h⟩ => by cases h⟩
      | ok bs => exact ⟨fun _ => ⟨⟨b, rfl⟩, bs, rfl⟩, fun _ => ⟨b :: bs, rfl⟩⟩

/-- Results without effects are the same computation only if they are the same. -/
theorem Act.ofExcept_inj (ledger : Ledger σ K) {r t : Except (Fault K) α} :
    (ofExcept r : Act σ K α) = ofExcept t ↔ r = t :=
  ⟨ofExcept_injective ledger, congrArg ofExcept⟩

namespace Program

variable {p : Program σ K}

section Refusal

variable (withSubproblems : Bool) (epoch : Int)
  (job : Int → Scenario K → Option (Model K) → Act σ K α)

/-- A visit to a partition answers: what it asks for is there, and the job answers for every
scenario. -/
def VisitAnswers (q : Partition K × Nat) : Prop :=
  (withSubproblems = true → q.1.isGenerated epoch = true) ∧
    ∀ s ∈ q.1.slots.zipIdx q.2, ∃ a, jobAt withSubproblems job s = pure a

/-- A visit to a partition is refused: subproblems that it asks for are not there, or the job
is refused for some scenario after it answered for those before. -/
def VisitRefused (q : Partition K × Nat) (f : Fault K) : Prop :=
  (withSubproblems = true ∧ q.1.isGenerated epoch = false ∧ f = .stale (.partition q.1.owner)) ∨
    (withSubproblems = true → q.1.isGenerated epoch = true) ∧
      ∃ before s after, q.1.slots.zipIdx q.2 = before ++ s :: after ∧
        (∀ b ∈ before, ∃ a, jobAt withSubproblems job b = pure a) ∧
        jobAt withSubproblems job s = Act.fail f

/-- A collection is refused by the first partition whose visit is. -/
def CollectRefused (p : Program σ K) (f : Fault K) : Prop :=
  ∃ before q after, p.placed = before ++ q :: after ∧
    (∀ b ∈ before, VisitAnswers withSubproblems p.secondEpoch job b) ∧
    VisitRefused withSubproblems p.secondEpoch job q f

end Refusal

section Pure

variable {withSubproblems : Bool} {epoch : Int}
  {job : Int × Scenario K × Option (Model K) → Except (Fault K) α} {q : Partition K × Nat}

theorem visitAnswers_iff (ledger : Ledger σ K) :
    VisitAnswers withSubproblems epoch (fun i s m => (.ofExcept (job (i, s, m)) : Act σ K α)) q ↔
      ∃ as, q.1.visitedWith job withSubproblems epoch q.2 = .ok as := by
  unfold VisitAnswers Partition.visitedWith
  split
  · rename_i hcheck
    simp only [Bool.and_eq_true, Bool.not_eq_true'] at hcheck
    refine ⟨fun h => ?_, fun ⟨_, h⟩ => by cases h⟩
    rw [h.1 hcheck.1] at hcheck
    exact absurd hcheck.2 Bool.noConfusion
  · rename_i hcheck
    simp only [Bool.and_eq_true, Bool.not_eq_true', not_and, Bool.not_eq_false] at hcheck
    rw [exists_mapM_eq_ok_iff, and_iff_right hcheck]
    refine forall₂_congr fun s _ => exists_congr fun a => ?_
    exact Act.ofExcept_inj (t := .ok a) ledger

theorem visitRefused_iff (ledger : Ledger σ K) (f : Fault K) :
    VisitRefused withSubproblems epoch (fun i s m => (.ofExcept (job (i, s, m)) : Act σ K α)) q f ↔
      q.1.visitedWith job withSubproblems epoch q.2 = .error f := by
  unfold VisitRefused Partition.visitedWith
  split
  · rename_i hcheck
    simp only [Bool.and_eq_true, Bool.not_eq_true'] at hcheck
    simp only [hcheck, true_and, Bool.false_eq_true, imp_false, not_true_eq_false, false_and,
      or_false, Except.error.injEq]
    exact eq_comm
  · rename_i hcheck
    have hnot : ¬(withSubproblems = true ∧ q.1.isGenerated epoch = false) := by
      simpa using hcheck
    simp only [Bool.and_eq_true, Bool.not_eq_true', not_and, Bool.not_eq_false] at hcheck
    rw [mapM_eq_error_iff, ← and_assoc, or_iff_right fun h => hnot h.1, and_iff_right hcheck]
    refine exists_congr fun before => exists_congr fun s => exists_congr fun after => ?_
    refine and_congr Iff.rfl (and_congr ?_ ?_)
    · refine forall₂_congr fun b _ => exists_congr fun a => ?_
      exact Act.ofExcept_inj (t := .ok a) ledger
    · exact Act.ofExcept_inj (t := .error f) ledger

/-- A collection surfaces the failure of the first partition whose visit is refused. -/
theorem collectRefused_iff (ledger : Ledger σ K) (f : Fault K) :
    CollectRefused withSubproblems (fun i s m => (.ofExcept (job (i, s, m)) : Act σ K α)) p f ↔
      p.visitedEach job withSubproblems = .error f := by
  unfold CollectRefused visitedEach
  rw [mapM_eq_error_iff]
  refine exists_congr fun before => exists_congr fun q => exists_congr fun after => ?_
  refine and_congr Iff.rfl (and_congr ?_ (visitRefused_iff ledger f))
  exact forall₂_congr fun b _ => visitAnswers_iff ledger

end Pure

/-- In every order: the jobs on the partitions of a program may be worked on in the order of any
schedule, step by step and many at once.  With a pure recipe, generation comes to what it comes
to through any transport, the sequential one among them: the same models with the same epochs in
the slots, and the same failures by index.  With a pure job, a collection comes to the same too
and changes nothing.  It is refused with the failure of the first partition that fails, at the
first scenario that fails there. -/
theorem interleaved_over (h : ∀ r, p.secondRecipe = some r → r.Pure) (withSubproblems : Bool)
    {job : Int → Scenario K → Option (Model K) → Act σ K α}
    (hjob : ∀ i s m, (job i s m).Effectless) (schedule : List Nat) (t : Transport)
    (ledger : Ledger σ K) :
    (let after := ((generateBy schedule).runOn p).run ledger;
      (generate.runOn (p.via t)).run ledger = ((after.1.1, after.1.2.via t), after.2)) ∧
    (∃ r, ((p.via t).collect withSubproblems job).run.run ledger = (r, ledger) ∧
      ((collectBy schedule withSubproblems job).runOn p).run ledger = ((r, p), ledger) ∧
      ∀ f, r = .error f ↔ CollectRefused withSubproblems job p f) := by
  choose answer hanswer using fun a : Int × Scenario K × Option (Model K) => hjob a.1 a.2.1 a.2.2
  obtain rfl : job = fun i s m => .ofExcept (answer (i, s, m)) :=
    funext fun i => funext fun s => funext fun m => hanswer (i, s, m)
  refine ⟨(generateBy_over schedule h).run ledger,
    (p.visitedEach answer withSubproblems).map List.flatten, ?_, ?_, fun f => ?_⟩
  · rw [collect_run]
    rfl
  · rw [Change.runOn_run, collectBy_run]
  · rw [collectRefused_iff ledger]
    cases p.visitedEach answer withSubproblems with
    | ok chunks => exact ⟨fun h => (by cases h), fun h => by cases h⟩
    | error e => simp only [Except.map, Except.error.injEq]

/-- Three scenarios on two threads; there is no model for two of them, one on each thread. -/
def threadedBatch : Program Unit Int :=
  { ofModels default [(1, default)] with
    generatedEpoch := none
    partitions := [⟨0, [.ofScenario ⟨1, .whole 0, none⟩, .ofScenario ⟨1, .null, none⟩]⟩,
      ⟨1, [.ofScenario ⟨1, .null, none⟩]⟩]
    transport := .threads (some 2) }

/-- The whole number in the payload of a scenario. -/
def wholePayload (_ : Int) (s : Scenario Int) (_ : Option (Model Int)) : Act Unit Int Int :=
  match s.data with
  | .whole i => pure i
  | _ => Act.fail (.misuse .kind)

theorem wholePayload_effectless (i : Int) (s : Scenario Int) (m : Option (Model Int)) :
    (wholePayload i s m).Effectless := by
  unfold wholePayload
  split
  · exact Act.effectless_pure _
  · exact Act.effectless_fail _

theorem threadedBatch_pure : ∀ r, threadedBatch.secondRecipe = some r → r.Pure := by
  rintro _ ⟨⟩ data decisions payload
  exact Act.effectless_pure _

/-- Both threads fail, and the second one is scheduled first. -/
theorem threadedBatch_interleaved :
    (let after := ((generateBy [1, 0, 1, 0, 0, 1]).runOn threadedBatch).run ⟨(), [], 0⟩;
      (generate.runOn (threadedBatch.via .sequential)).run ⟨(), [], 0⟩ =
        ((after.1.1, after.1.2.via .sequential), after.2) ∧
      after.1.1 = .error (.generation [(1, .invalid (.notAModel .second "second" "NoneType")),
        (2, .invalid (.notAModel .second "second" "NoneType"))])) ∧
    ((collectBy [1, 0, 1, 0, 0, 1] false wholePayload).runOn threadedBatch).run ⟨(), [], 0⟩ =
      ((.error (.misuse .kind), threadedBatch), ⟨(), [], 0⟩) ∧
    CollectRefused false wholePayload threadedBatch (.misuse .kind) := by
  obtain ⟨hgenerate, r, -, hcollect, hrefused⟩ := interleaved_over threadedBatch_pure false
    wholePayload_effectless [1, 0, 1, 0, 0, 1] .sequential ⟨(), [], 0⟩
  have hr : r = .error (.misuse .kind) := by
    have hfirst := congrArg (·.1.1) hcollect
    exact hfirst.symm
  rw [hr] at hcollect
  exact ⟨⟨hgenerate, rfl⟩, hcollect, (hrefused _).1 hr⟩

end Program

end Recourse
