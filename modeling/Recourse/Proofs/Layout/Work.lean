/-
  Proofs/Layout/Work.lean --- work on the scenarios in two layouts.

  Work is handed out partition by partition and gathered in global order.  Building the
  subproblems and running a job on every scenario are compared with doing it slot by slot:
  whatever the layout, they agree with that, and so with one another.  A job that is refused
  stops its own partition only where partitions are worked on in parallel, which is why the
  ledgers may then differ.
-/
import Recourse.Proofs.Layout.Relaid
import Recourse.Proofs.Program.Transition

set_option autoImplicit false
set_option linter.unusedSectionVars false

namespace Recourse

variable {σ K : Type} {strict : Prop}

/-! ## Building slot by slot -/

/-- The failures among the results of building, by index from `start` on. -/
def failures (start : Int) (results : List (Slot K × Option (Fault K))) : List (Int × Fault K) :=
  results.zipIdx.filterMap fun r => r.1.2.map (start + r.2, ·)

theorem failures_append (start : Int) (rs rs' : List (Slot K × Option (Fault K))) :
    failures start (rs ++ rs') = failures start rs ++ failures (start + rs.length) rs' := by
  unfold failures
  rw [List.zipIdx_append, List.filterMap_append]
  refine congrArg _ ?_
  rw [Nat.zero_add, List.zipIdx_eq_map_add, List.filterMap_map]
  refine List.filterMap_congr fun r _ => ?_
  simp only [Function.comp_apply]
  rw [Nat.cast_add, add_assoc]

theorem forall_of_failures_eq_nil {start : Int} {rs : List (Slot K × Option (Fault K))}
    (h : failures start rs = []) : ∀ r ∈ rs, r.2 = none := by
  intro r hr
  obtain ⟨i, hi⟩ := List.mem_iff_getElem?.1 hr
  have hnone := List.filterMap_eq_nil_iff.1 h (r, i) (List.mk_mem_zipIdx_iff_getElem?.2 hi)
  exact Option.map_eq_none_iff.1 hnone

namespace Program

/-- What became of partitions that were built, next to the results slot by slot. -/
def Gathers (start : Int) (results : List (Partition K × List (Int × Fault K)))
    (slotwise : List (Slot K × Option (Fault K))) : Prop :=
  results.flatMap (·.1.slots) = slotwise.map (·.1) ∧ results.flatMap (·.2) = failures start slotwise

/-- Building partition by partition is building slot by slot. -/
theorem forEach_generate_agrees (build : Scenario K → Act σ K (Model K)) (epoch : Int)
    (partitions : List (Partition K)) (start : Nat) :
    (Act.forEach (fun (q : Partition K × Nat) => q.1.generate build epoch q.2)
      (partitions.zip (offsets (partitions.map (·.size)) start))).Agrees strict
      (Act.forEach (Partition.buildSlot build epoch) (partitions.flatMap (·.slots)))
      (Gathers start) := by
  induction partitions generalizing start with
  | nil => exact Act.agrees_pure ⟨rfl, rfl⟩
  | cons q rest ih =>
    rw [List.map_cons, offsets, List.zip_cons_cons, List.flatMap_cons, Act.forEach_append,
      Act.forEach]
    unfold Partition.generate
    rw [bind_assoc]
    refine Act.agrees_bind_same (Act.forEach_length _ _) fun rs hrs => ?_
    rw [pure_bind]
    refine Act.agrees_bind ((ih (start + q.size)).mono ?_)
    rintro results slotwise ⟨hslots, hfailed⟩
    refine Act.agrees_pure ⟨?_, ?_⟩
    · rw [List.flatMap_cons, hslots, List.map_append]
    · rw [List.flatMap_cons, hfailed, failures_append, hrs, Nat.cast_add]
      rfl

/-- Building never refuses. -/
theorem buildSlot_ensures (build : Scenario K → Act σ K (Model K)) (epoch : Int) (s : Slot K) :
    (Partition.buildSlot build epoch s).Ensures
      (fun r => r.1.scenario = s.scenario ∧ (r.2 = none → r.1.isCurrent epoch = true))
      fun _ => False := by
  unfold Partition.buildSlot
  split
  · rename_i h
    exact Act.ensures_pure ⟨rfl, fun _ => h⟩
  · refine Act.ensures_bind ((Act.ensures_attempt (Q := fun _ => True) (E := fun _ => True)
      fun _ => (Settles.self _).mono (fun _ _ => trivial) fun _ _ => trivial).mono ?_ fun _ h => h)
    intro r _
    cases r with
    | ok m => exact Act.ensures_pure ⟨rfl, fun _ => by simp [Slot.isCurrent]⟩
    | error f => exact Act.ensures_pure ⟨rfl, fun h => absurd h (Option.some_ne_none f)⟩

/-- The slots of a program that was built, next to those before: scenarios stay, and what did
not fail is current. -/
def Builds (epoch : Int) (slots : List (Slot K)) (slotwise : List (Slot K × Option (Fault K))) :
    Prop :=
  List.Forall₂ (fun s r => r.1.scenario = s.scenario ∧ (r.2 = none → r.1.isCurrent epoch = true))
    slots slotwise

variable [Scalar K]

theorem Builds.weighted {epoch : Int} {slots : List (Slot K)}
    {slotwise : List (Slot K × Option (Fault K))} (h : Builds epoch slots slotwise)
    (hslots : ∀ s ∈ slots, Scalar.isWeight s.scenario.probability = true) :
    ∀ s ∈ slotwise.map (·.1), Scalar.isWeight s.scenario.probability = true := by
  rw [List.forall_mem_map]
  exact forall_of_forall₂ h hslots fun s r hr hs => hr.1 ▸ hs

theorem Builds.current {epoch : Int} {slots : List (Slot K)}
    {slotwise : List (Slot K × Option (Fault K))} (h : Builds epoch slots slotwise)
    (hnone : failures 0 slotwise = []) : ∀ s ∈ slotwise.map (·.1), s.isCurrent epoch = true := by
  rw [List.forall_mem_map]
  have hcurrent := forall_of_forall₂ (P := fun _ => True) h (fun _ _ => trivial) fun s r hr _ => hr.2
  exact fun r hr => hcurrent r hr (forall_of_failures_eq_nil hnone r hr)

/-- However the partitions are worked on, building them is building slot by slot. -/
theorem map_generate_agrees (p : Program σ K) (build : Scenario K → Act σ K (Model K))
    (epoch : Int) :
    (p.transport.map (fun (q : Partition K × Nat) => q.1.generate build epoch q.2) p.placed).Agrees
      True (Act.forEach (Partition.buildSlot build epoch) p.slots)
      fun results slotwise => Gathers 0 results slotwise ∧ Builds epoch p.slots slotwise := by
  have hslotwise : (Act.forEach (Partition.buildSlot build epoch) p.slots).Ensures
      (Builds epoch p.slots) fun _ => False :=
    Act.ensures_forEach p.slots fun s _ => buildSlot_ensures build epoch s
  have hjobs := p.transport.agrees_forEach
    (fun (q : Partition K × Nat) => q.1.generate build epoch q.2) p.placed
  refine ((hjobs.trans (forEach_generate_agrees build epoch p.partitions 0)).strengthen
    hslotwise).mono ?_
  rintro results slotwise ⟨⟨_, rfl, hgathers⟩, hbuilds⟩
  exact ⟨hgathers, hbuilds⟩

/-! ## Two layouts at work -/

/-- Two layouts of a program whose probabilities are weights and whose partitions are worked
on in the way of a transport. -/
structure Layouts (t : Transport) (p q : Program σ K) : Prop where
  /-- They are layouts of one another. -/
  relaid : p.Relaid q
  /-- The probabilities are weights. -/
  weighted : p.Weighted
  /-- How work is run. -/
  transport : p.transport = t

variable {t : Transport} {p q : Program σ K}

/-- What changes neither the slots nor the transport. -/
theorem Layouts.update (h : Layouts t p q) {f : Program σ K → Program σ K}
    (hslots : ∀ p, (f p).partitions = p.partitions) (htransport : ∀ p, (f p).transport = p.transport)
    (hf : ∀ (p : Program σ K) partitions, f { p with partitions } = { f p with partitions }) :
    Layouts t (f p) (f q) where
  relaid := by
    refine ⟨?_, ?_⟩
    · rw [slots, slots, hslots, hslots]
      exact h.relaid.slots
    · rw [hslots, ← hf, ← h.relaid.rest]
  weighted := by
    intro s hs
    rw [slots, hslots] at hs
    exact h.weighted s hs
  transport := (htransport p).trans h.transport

theorem Layouts.noted (h : Layouts t p q) :
    Layouts t { p with generatedEpoch := some p.secondEpoch }
      { q with generatedEpoch := some q.secondEpoch } :=
  h.update (f := fun p => { p with generatedEpoch := some p.secondEpoch }) (fun _ => rfl)
    (fun _ => rfl) fun _ _ => rfl

theorem generateMaster_agrees (h : Layouts t p q) (r : FirstRecipe σ K) :
    (generateMaster r : Edit σ K Unit).Agrees strict (generateMaster r) p q
      (fun _ p' _ q' => Layouts t p' q') (Layouts t) := by
  unfold generateMaster
  refine Change.agrees_bind (Change.agrees_state ?_)
  have hcurrent : q.currentMaster? = p.currentMaster? := h.relaid.congr _ fun _ => rfl
  have hdata : q.firstData = p.firstData := h.relaid.congr (·.firstData) fun _ => rfl
  rw [hcurrent, hdata]
  split
  · exact Change.agrees_pure h
  refine Change.agrees_bind (Change.agrees_ofAct (.refl _) h ?_)
  rintro m _ rfl
  split
  · exact Change.agrees_bind (Change.agrees_fail h)
  · exact Change.agrees_update (h.update (fun _ => rfl) (fun _ => rfl) fun _ _ => rfl)

/-- The slots after building, whichever partitions they are in. -/
theorem Gathers.slots_eq {start : Int} {results : List (Partition K × List (Int × Fault K))}
    {slotwise : List (Slot K × Option (Fault K))} (h : Gathers start results slotwise)
    (p : Program σ K) :
    ({ p with partitions := results.map (·.1) } : Program σ K).slots = slotwise.map (·.1) := by
  rw [slots, List.flatMap_map]
  exact h.1

theorem generateSubproblems_agrees (h : Layouts t p q) (r : SecondRecipe σ K) :
    (generateSubproblems r : Edit σ K Unit).Agrees strict (generateSubproblems r) p q
      (fun _ p' _ q' => Layouts t p' q' ∧ p'.AllCurrent) (Layouts t) := by
  unfold generateSubproblems
  refine Change.agrees_bind (Change.agrees_state ?_)
  obtain ⟨⟨hslots, hrest⟩, hweighted, htransport⟩ := h
  generalize q.partitions = partitions at hrest
  subst hrest
  have hjobs := (map_generate_agrees p
    (fun s => r.generate p.secondData (p.decisions.getD ⟨[]⟩) s.data) p.secondEpoch).trans
    (hslots ▸ (map_generate_agrees { p with partitions }
      (fun s => r.generate p.secondData (p.decisions.getD ⟨[]⟩) s.data) p.secondEpoch).symm)
  refine Change.agrees_bind (Change.agrees_ofAct (hjobs.weaken fun _ => trivial)
    ⟨⟨hslots, rfl⟩, hweighted, htransport⟩ ?_)
  rintro results results' ⟨slotwise, ⟨hgathers, hbuilds⟩, hgathers', -⟩
  refine Change.agrees_bind (Change.agrees_update ?_)
  have hbuilt : Layouts t ({ p with partitions := results.map (·.1) } : Program σ K)
      { p with partitions := results'.map (·.1) } := by
    refine ⟨⟨?_, rfl⟩, ?_, htransport⟩
    · exact (hgathers'.slots_eq p).trans (hgathers.slots_eq p).symm
    · unfold Weighted
      rw [hgathers.slots_eq]
      exact hbuilds.weighted hweighted
  rw [hgathers.2, hgathers'.2]
  dsimp only
  split
  · exact Change.agrees_bind (Change.agrees_fail hbuilt)
  · rename_i hfailed
    have hcurrent := hbuilds.current (by simpa using hfailed)
    rw [← hgathers.slots_eq p] at hcurrent
    exact Change.agrees_update ⟨hbuilt.noted, hcurrent⟩

/-- The next generation comes to the same in both layouts, refused or not. -/
theorem generate_agrees (h : Layouts t p q) : (generate : Edit σ K Unit).Agrees strict generate p q
    (fun _ p' _ q' => Layouts t p' q' ∧ p'.AllCurrent) (Layouts t) := by
  unfold generate
  refine Change.agrees_bind (Change.agrees_state ?_)
  have hfirst : q.firstRecipe = p.firstRecipe := h.relaid.congr (·.firstRecipe) fun _ => rfl
  rw [hfirst]
  cases p.firstRecipe with
  | none => exact Change.agrees_bind (Change.agrees_fail h)
  | some r =>
    refine Change.agrees_bind ((generateMaster_agrees h r).mono ?_ fun _ _ h => h)
    intro _ p' _ q' h'
    refine Change.agrees_bind (Change.agrees_state ?_)
    have hsecond : q'.secondRecipe = p'.secondRecipe := h'.relaid.congr (·.secondRecipe) fun _ => rfl
    rw [hsecond, h'.relaid.scenarioCount]
    by_cases hcount : p'.scenarioCount = 0
    · have hcurrent : p'.AllCurrent := by
        have hslots : p'.slots = [] := List.eq_nil_of_length_eq_zero hcount
        intro s hs
        rw [hslots] at hs
        exact absurd hs List.not_mem_nil
      rw [if_pos hcount]
      split
      · exact Change.agrees_update ⟨h'.noted, hcurrent⟩
      · exact Change.agrees_pure ⟨h', hcurrent⟩
    · rw [if_neg hcount]
      cases p'.secondRecipe with
      | none => exact Change.agrees_fail h'
      | some r => exact generateSubproblems_agrees h' r

/-! ## A job on every scenario -/

section Collect

variable {α : Type}

/-- What a job is handed of a slot and its index, with its subproblem or without. -/
def jobAt (withSubproblems : Bool) (job : Int → Scenario K → Option (Model K) → Act σ K α)
    (s : Slot K × Nat) : Act σ K α :=
  job s.2 s.1.scenario (if withSubproblems then s.1.model? else none)

omit [Scalar K] in
/-- A partition that is not refused is visited slot by slot. -/
theorem visit_eq {q : Partition K} {withSubproblems : Bool} {epoch : Int}
    (h : withSubproblems = true → ∀ s ∈ q.slots, s.isCurrent epoch = true) (start : Nat)
    (job : Int → Scenario K → Option (Model K) → Act σ K α) :
    q.visit (if withSubproblems then some epoch else none) start job =
      Act.forEach (jobAt withSubproblems job) (q.slots.zipIdx start) := by
  rw [List.zipIdx_eq_map_add, Act.forEach_map_items]
  have hcast (i : Nat) : ((start + i : Nat) : Int) = start + i := Nat.cast_add _ _
  unfold Partition.visit jobAt
  cases withSubproblems with
  | false => simp only [Bool.false_eq_true, if_false, hcast]
  | true =>
    have hgenerated : q.isGenerated epoch = true := List.all_eq_true.2 (h rfl)
    simp only [if_true, hgenerated, hcast, Bool.not_true, Bool.false_eq_true, if_false]

/-- Visiting partition by partition is visiting slot by slot, as long as no partition is
refused. -/
theorem forEach_visit_agrees (partitions : List (Partition K)) {withSubproblems : Bool} {epoch : Int}
    (h : withSubproblems = true → ∀ s ∈ partitions.flatMap (·.slots), s.isCurrent epoch = true)
    (job : Int → Scenario K → Option (Model K) → Act σ K α) (start : Nat) :
    (Act.forEach (fun (q : Partition K × Nat) =>
        q.1.visit (if withSubproblems then some epoch else none) q.2 job)
      (partitions.zip (offsets (partitions.map (·.size)) start))).Agrees strict
      (Act.forEach (jobAt withSubproblems job) ((partitions.flatMap (·.slots)).zipIdx start))
      fun chunks all => chunks.flatten = all := by
  induction partitions generalizing start with
  | nil => exact Act.agrees_pure rfl
  | cons q rest ih =>
    simp only [List.flatMap_cons, List.forall_mem_append] at h
    rw [List.map_cons, offsets, List.zip_cons_cons, List.flatMap_cons, List.zipIdx_append,
      Act.forEach_append, Act.forEach, visit_eq fun hsub => (h hsub).1]
    refine Act.agrees_bind_same (P := fun _ => True) (D := fun _ => True)
      (fun _ => (Settles.self _).mono (fun _ _ => trivial) fun _ _ => trivial) fun chunk _ => ?_
    refine Act.agrees_bind ((ih (fun hsub => (h hsub).2) (start + q.size)).mono ?_)
    rintro chunks all rfl
    exact Act.agrees_pure rfl

/-- However the partitions are worked on, a job on every scenario comes to what it comes to
slot by slot. -/
theorem collect_agrees_slots (p : Program σ K) {withSubproblems : Bool}
    (h : withSubproblems = true → p.AllCurrent)
    (job : Int → Scenario K → Option (Model K) → Act σ K α) :
    (p.collect withSubproblems job).Agrees (p.transport = .sequential)
      (Act.forEach (jobAt withSubproblems job) p.slots.zipIdx) fun all all' => all' = all := by
  have hjobs := p.transport.agrees_forEach (fun (q : Partition K × Nat) =>
    q.1.visit (if withSubproblems then some p.secondEpoch else none) q.2 job) p.placed
  have hall := hjobs.trans (forEach_visit_agrees p.partitions h job 0)
  rw [← bind_pure (Act.forEach (jobAt withSubproblems job) p.slots.zipIdx)]
  refine Act.agrees_bind (hall.mono ?_)
  rintro chunks _ ⟨_, rfl, rfl⟩
  exact Act.agrees_pure rfl

/-- A job on every scenario comes to the same in both layouts, and after no failure, or where
partitions are worked on one after the other, to the same ledger. -/
theorem collect_agrees (h : Layouts t p q) {withSubproblems : Bool}
    (hcurrent : withSubproblems = true → p.AllCurrent)
    (job : Int → Scenario K → Option (Model K) → Act σ K α) :
    (p.collect withSubproblems job).Agrees (t = .sequential) (q.collect withSubproblems job)
      fun all all' => all' = all := by
  have htransport : q.transport = p.transport := h.relaid.congr (·.transport) fun _ => rfl
  have hp := p.collect_agrees_slots hcurrent job
  have hq := q.collect_agrees_slots (fun hsub => h.relaid.allCurrent (hcurrent hsub)) job
  rw [h.relaid.slots, htransport] at hq
  rw [← h.transport]
  refine (hp.trans hq.symm).mono ?_
  rintro all all' ⟨_, rfl, hsame⟩
  exact hsame.symm

end Collect

/-! ## Normalizing -/

section Validate

variable {F : Type} [Field F] [LinearOrder F] [IsStrictOrderedRing F] [FloorRing F]
  {p q : Program σ (Exact F)}

theorem Layouts.symm (h : Layouts t p q) : Layouts t q p where
  relaid := h.relaid.symm
  weighted := by
    unfold Weighted
    rw [h.relaid.slots]
    exact h.weighted
  transport := (h.relaid.congr (·.transport) fun _ => rfl).trans h.transport

/-- Weights have the same total in any grouping. -/
theorem Layouts.totalProbability (h : Layouts t p q) : q.totalProbability = p.totalProbability := by
  rw [h.symm.weighted.totalProbability_eq, h.relaid.scenarios, h.weighted.totalProbability_eq]

/-- Two layouts whose weights are multiplied, which drops the solution. -/
theorem Layouts.scaled (h : Layouts t p q) {factor : Exact F}
    (hfactor : ∀ s ∈ p.slots, Scalar.isWeight (s.scenario.probability * factor) = true) :
    Layouts t { p.scaled factor with solution := none } { q.scaled factor with solution := none } where
  relaid := by
    refine ⟨?_, ?_⟩
    · show (q.scaled factor).slots = (p.scaled factor).slots
      rw [slots_scaled, slots_scaled, h.relaid.slots]
    · rw [h.relaid.rest]
      rfl
  weighted := by
    intro s hs
    have hs : s ∈ (p.scaled factor).slots := hs
    rw [slots_scaled] at hs
    obtain ⟨s, hslot, rfl⟩ := List.mem_map.1 hs
    exact hfactor s hslot
  transport := h.transport

theorem AllCurrent.scaled (h : p.AllCurrent) (factor : Exact F) :
    AllCurrent { p.scaled factor with solution := none } := by
  intro s hs
  have hs : s ∈ (p.scaled factor).slots := hs
  rw [slots_scaled] at hs
  obtain ⟨s, hslot, rfl⟩ := List.mem_map.1 hs
  exact h s hslot

/-- Validation comes to the same in both layouts: it accepts, rescales or refuses, with the same
notice. -/
theorem validate_agrees (h : Layouts t p q) (normalize : Option Bool) :
    (validate normalize : Edit σ (Exact F) Unit).Agrees strict (validate normalize) p q
      (fun _ p' _ q' => Layouts t p' q' ∧ (p.AllCurrent → p'.AllCurrent)) (Layouts t) := by
  unfold validate
  refine Change.agrees_bind (Change.agrees_state ?_)
  have hnormalize : q.normalize = p.normalize := h.relaid.congr (·.normalize) fun _ => rfl
  rw [h.relaid.scenarioCount]
  dsimp only
  rw [h.totalProbability, hnormalize]
  split
  · exact Change.agrees_bind (Change.agrees_fail h)
  split
  · exact Change.agrees_pure ⟨h, fun hcurrent => hcurrent⟩
  split
  · exact Change.agrees_bind (Change.agrees_fail h)
  rename_i hpositive
  simp only [Bool.or_eq_true, not_or, Bool.not_eq_true] at hpositive
  have hshare := h.weighted.share hpositive.2
  refine Change.agrees_bind (Change.agrees_ofAct (.refl _) h fun _ _ _ => ?_)
  have hshare' : ∀ s ∈ q.slots,
      Scalar.isWeight (s.scenario.probability * (1 / p.totalProbability)) = true := by
    rw [h.relaid.slots]
    exact hshare
  refine Change.agrees_bind (Change.agrees_of_run (rescale_run hshare) (rescale_run hshare') ?_)
  exact Change.agrees_update ⟨h.scaled hshare, fun hcurrent => hcurrent.scaled _⟩

end Validate

end Program

end Recourse
