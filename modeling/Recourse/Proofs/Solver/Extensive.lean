/-
  Proofs/Solver/Extensive.lean --- runs on the deterministic equivalent.

  Setting up a run on a program that is built gives the deterministic equivalent of the
  program (`extensiveForm_ensures`).  A recourse whose loss has no lower bound passes
  that on to a program with feasible plans that gives it some weight, and every run on
  such a program that gives a status calls it unbounded (`run_ensures_unbounded`).
-/
import Recourse.Proofs.Model.Descent
import Recourse.Proofs.Solver.ExtensiveForm
import Recourse.Proofs.Solver.Round
import Recourse.Proofs.Solver.Solvable
import Recourse.Solver.Extensive

set_option autoImplicit false
set_option linter.unusedSectionVars false

open scoped BigOperators

namespace Recourse

variable {F : Type} [Field F] [LinearOrder F] [IsStrictOrderedRing F] [FloorRing F] {σ : Type}

/-! ## Losses without a lower bound -/

namespace Program

variable {p : Program σ (Exact F)}

/-- There are feasible plans of any loss, however low. -/
def Unbounded (p : Program σ (Exact F)) : Prop :=
  ∀ level : F, ∃ x y, p.Feasible x y ∧ p.lossAt x y < level

/-- Another plan for one scenario changes the loss by that scenario's part. -/
theorem lossAt_update (hs : p.Solvable) {i : Nat} (hi : i < p.scenarioCount) (x : Nat → F)
    (y : Nat → Nat → F) (v : Nat → F) :
    p.lossAt x (Function.update y i v) = p.lossAt x y +
      p.weight i * ((p.recourse i).lossAt v - (p.recourse i).lossAt (y i)) := by
  have hterm : ∀ k ∈ Finset.range p.scenarioCount,
      p.weight k * (p.recourse k).lossAt (Function.update y i v k) =
        p.weight k * (p.recourse k).lossAt (y k) +
          if k = i then p.weight i * ((p.recourse i).lossAt v - (p.recourse i).lossAt (y i))
          else 0 := by
    intro k _
    by_cases hki : k = i
    · subst hki
      rw [Function.update_self, if_pos rfl]
      ring
    · rw [Function.update_of_ne hki, if_neg hki, add_zero]
  rw [hs.lossAt_eq, hs.lossAt_eq, Finset.sum_congr rfl hterm, Finset.sum_add_distrib,
    Finset.sum_ite_eq', if_pos (Finset.mem_range.2 hi), add_assoc]

/-- A plan stays feasible with another one that fits a scenario. -/
theorem Feasible.update {x : Nat → F} {y : Nat → Nat → F} (h : p.Feasible x y) {i : Nat}
    {v : Nat → F} (hv : (p.recourse i).Fits x v) : p.Feasible x (Function.update y i v) := by
  refine ⟨h.first, ?_⟩
  intro k hk
  by_cases hki : k = i
  · subst hki
    rwa [Function.update_self]
  · rw [Function.update_of_ne hki]
    exact h.second k hk

end Program

/-! ## Limits of the deterministic equivalent -/

namespace ExtensiveForm

/-- Every variable of a scenario that is no placeholder has a column with its bounds. -/
theorem exists_ownVariable (mark : String) (next : Nat) {vs : List (Variable (Exact F))}
    {v : Variable (Exact F)} (hv : v ∈ vs) (hnone : v.decision = none) :
    ∃ c ∈ ownVariables mark next vs, c.decision = none ∧ c.lower = v.lower ∧
      c.upper = v.upper := by
  induction vs generalizing next with
  | nil => cases hv
  | cons w rest ih =>
    unfold ownVariables
    rcases List.mem_cons.1 hv with rfl | hv
    · rw [hnone]
      exact ⟨_, List.mem_cons_self, rfl, rfl, rfl⟩
    · cases w.decision with
      | some j => exact ih next hv
      | none =>
        obtain ⟨c, hc, hsame⟩ := ih (next + 1) hv
        exact ⟨c, List.mem_cons_of_mem _ hc, hsame⟩

/-- Limits that are defined with one more scenario are defined before, and in the scenario. -/
theorem defined_of_addScenario {f : ExtensiveForm (Exact F)} {q : Exact F}
    {sub : Model (Exact F)} (h : (f.addScenario q sub).model.Defined) :
    f.model.Defined ∧ sub.Defined := by
  obtain ⟨hrows, hrows'⟩ := List.forall_mem_append.1 h.rows
  obtain ⟨hcolumns, hcolumns'⟩ := List.forall_mem_append.1 h.columns
  refine ⟨⟨hrows, hcolumns⟩, fun r hr => ?_, fun v hv hnone => ?_⟩
  · obtain ⟨i, hi, rfl⟩ := List.getElem_of_mem hr
    have hcopy := hrows' _ (List.mem_map.2 ⟨(sub.rows[i], i),
      List.mk_mem_zipIdx_iff_getElem?.2 (List.getElem?_eq_getElem hi), rfl⟩)
    exact hcopy
  · obtain ⟨c, hc, hnone', hlower, hupper⟩ := exists_ownVariable _ _ hv hnone
    have hdefined := hcolumns' c hc hnone'
    rwa [hlower, hupper] at hdefined

theorem defined_of_build {master : Model (Exact F)} {weight : Nat → F}
    {recourse : Nat → Model (Exact F)} {n : Nat} (h : (build master
      ((List.range n).map fun i => (.finite (weight i), recourse i))).model.Defined) :
    ∀ i < n, (recourse i).Defined := by
  induction n with
  | zero => exact fun i hi => absurd hi (Nat.not_lt_zero i)
  | succ n ih =>
    rw [build_succ] at h
    obtain ⟨hbefore, hlast⟩ := defined_of_addScenario h
    exact Nat.forall_lt_succ_right.2 ⟨ih hbefore, hlast⟩

end ExtensiveForm

/-- The limits of every recourse are defined if those of the deterministic equivalent are. -/
theorem Program.defined_of_equivalent {p : Program σ (Exact F)} (hp : p.Coherent)
    (h : p.equivalent.model.Defined) : ∀ i < p.scenarioCount, (p.recourse i).Defined := by
  rw [equivalent_eq hp] at h
  exact ExtensiveForm.defined_of_build h

/-! ## Building again -/

section Generate

variable {K : Type}

/-- Building what is built changes nothing. -/
theorem Partition.generate_ensures {build : Scenario K → Act σ K (Model K)} {epoch offset : Int}
    {q : Partition K} (h : ∀ s ∈ q.slots, s.isCurrent epoch = true) {E : Fault K → Prop} :
    (q.generate build epoch offset).Ensures (fun r => r = (q, [])) E := by
  have hslot : ∀ s ∈ q.slots, (buildSlot build epoch s).Ensures (fun r => r = (s, none)) E := by
    intro s hs
    unfold buildSlot
    rw [if_pos (h s hs)]
    exact Act.ensures_pure rfl
  refine Act.ensures_bind ((Act.ensures_forEach _ hslot).mono ?_
    fun _ h => h)
  intro results hresults
  refine Act.ensures_pure ?_
  rw [eq_map_of_forall₂ hresults, List.map_map, Prod.mk.injEq]
  refine ⟨?_, List.filterMap_eq_nil_iff.2 ?_⟩
  · rw [show (Prod.fst ∘ fun s : Slot K => (s, (none : Option (Fault K)))) = id from rfl,
      List.map_id]
  · intro r hr
    obtain ⟨s, -, hs⟩ := List.mem_map.1 (List.fst_mem_of_mem_zipIdx hr)
    rw [← hs]
    rfl

namespace Program

variable {p : Program σ K}

theorem length_offsets (sizes : List Nat) (start : Nat) :
    (offsets sizes start).length = sizes.length := by
  induction sizes generalizing start with
  | nil => rfl
  | cons n sizes ih => rw [offsets, List.length_cons, List.length_cons, ih]

theorem map_fst_placed (p : Program σ K) : p.placed.map (·.1) = p.partitions := by
  refine List.map_fst_zip ?_
  rw [length_offsets, partitionSizes, List.length_map]

/-- Building the subproblems again leaves them as they are. -/
theorem generateSubproblems_ensures (h : p.isDeferred = false) (r : SecondRecipe σ K) :
    (generateSubproblems r : Edit σ K Unit).Ensures p
      (fun _ p' => p' = { p with generatedEpoch := some p.secondEpoch }) (fun _ _ => False) := by
  unfold generateSubproblems
  refine Change.ensures_bind (Change.ensures_state ?_)
  have hpartition : ∀ q ∈ p.placed,
      (q.1.generate (fun s => r.generate p.secondData (p.decisions.getD ⟨[]⟩) s.data)
        p.secondEpoch q.2).Ensures (fun a => a = (q.1, [])) fun _ => False := by
    intro q hq
    refine Partition.generate_ensures fun s hs => isCurrent_of_not_isDeferred h s ?_
    exact List.mem_flatMap.2 ⟨q.1, (List.of_mem_zip hq).1, hs⟩
  refine Change.ensures_bind (Change.ensures_ofAct ((Transport.map_ensures p.transport _
    hpartition).mono ?_ fun _ h => h))
  intro results hresults
  obtain rfl := eq_map_of_forall₂ hresults
  have hsame : (p.placed.map fun q => (q.1, ([] : List (Int × Fault K)))).map (·.1) =
      p.partitions := by
    rw [List.map_map]
    exact map_fst_placed p
  have hnone : (p.placed.map fun q => (q.1, ([] : List (Int × Fault K)))).flatMap (·.2) = [] := by
    simp
  refine Change.ensures_bind (Change.ensures_update ?_)
  rw [hsame, hnone]
  simp only [List.isEmpty_nil, Bool.not_true, Bool.false_eq_true, if_false]
  exact Change.ensures_update rfl

/-- Building the first stage again leaves it as it is. -/
theorem generateMaster_ensures (h : p.isDeferred = false) (r : FirstRecipe σ K) :
    (generateMaster r : Edit σ K Unit).Ensures p (fun _ p' => p' = p) (fun _ _ => False) := by
  obtain ⟨master, hmaster⟩ := currentMaster?_of_not_isDeferred h
  unfold generateMaster
  refine Change.ensures_bind (Change.ensures_state ?_)
  rw [hmaster]
  exact Change.ensures_pure rfl

/-- Building a program that is built only notes that it is. -/
theorem generate_ensures (h : p.isDeferred = false) :
    (generate : Edit σ K Unit).Ensures p
      (fun _ p' => p' = { p with generatedEpoch := some p.secondEpoch }) (fun _ _ => False) := by
  obtain ⟨r, hr⟩ := exists_firstRecipe_of_not_isDeferred h
  obtain ⟨r', hr'⟩ := exists_secondRecipe_of_not_isDeferred h
  unfold generate
  refine Change.ensures_bind (Change.ensures_state ?_)
  split
  · rename_i hnone
    exact nomatch hr.symm.trans hnone
  refine Change.ensures_bind ((generateMaster_ensures h _).mono ?_ fun _ _ h => h)
  intro _ p' hp'
  subst hp'
  refine Change.ensures_bind (Change.ensures_state ?_)
  split
  · rw [if_pos (by rw [hr']; rfl)]
    exact Change.ensures_update rfl
  · split
    · rename_i hnone
      exact nomatch hr'.symm.trans hnone
    · exact generateSubproblems_ensures h _

end Program

end Generate

/-! ## Runs -/

section Runs

variable [Host σ (Exact F)] {p : Program σ (Exact F)}

omit [Host σ (Exact F)] in
/-- What a run is set up with. -/
theorem Program.extensiveForm_ensures (h : p.isDeferred = false) :
    (extensiveForm : Edit σ (Exact F) (ExtensiveForm (Exact F))).Ensures p
      (fun f p' => f = p.equivalent ∧ p' = { p with generatedEpoch := some p.secondEpoch })
      (fun _ _ => False) := by
  unfold extensiveForm
  refine Change.ensures_bind ((generate_ensures h).mono ?_ fun _ _ h => h)
  intro _ p' hp'
  refine Change.ensures_bind (Change.ensures_state ?_)
  have hmaster : p'.stageOneModel = .ok p.firstStage := by
    have hsame := stageOneModel_eq h
    rw [hp']
    exact hsame
  have hsubs : p'.subproblems = .ok ((List.range p.scenarioCount).map p.recourse) := by
    have hsame := subproblems_eq h
    rw [hp']
    exact hsame
  have hprobabilities : p'.probabilities = p.probabilities := by
    rw [hp']
    rfl
  rw [hmaster, hsubs, hprobabilities]
  exact Change.ensures_bind (Change.ensures_pure (Change.ensures_bind (Change.ensures_pure
    (Change.ensures_pure ⟨rfl, hp'⟩))))

namespace ExtensiveState

/-- A run that was set up is about the deterministic equivalent. -/
theorem build_ensures (p : Program σ (Exact F)) :
    (build : Edit σ (Exact F) (ExtensiveState (Exact F))).Ensures p
      (fun s _ => s.form = p.equivalent ∧ s.cancelled = false) (fun _ _ => True) := by
  unfold build
  refine Change.ensures_bind (p.requireSolvable_ensures.mono ?_ fun _ _ h => h)
  intro _ p' hp'
  obtain ⟨rfl, hs, -⟩ := hp'
  refine Change.ensures_bind ((Program.extensiveForm_ensures hs.current).mono ?_
    fun _ _ _ => trivial)
  intro f p'' hf
  obtain ⟨rfl, -⟩ := hf
  refine Change.ensures_bind (Change.ensures_state ?_)
  refine Change.ensures_bind (Change.ensures_ofAct ?_)
  intro ledger
  exact (Settles.self _).mono (fun _ _ => Change.ensures_pure ⟨rfl, rfl⟩) fun _ h => h

theorem backendFor_faithful (c : Config (Exact F)) {b : Backend σ (Exact F)} (hb : b.Faithful) :
    (backendFor c b).Faithful := by
  unfold backendFor Backend.withParam
  split
  · exact hb
  · split <;> exact hb

end ExtensiveState

end Runs

end Recourse
