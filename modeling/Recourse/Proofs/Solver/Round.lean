/-
  Proofs/Solver/Round.lean --- what a round at a decision finds.

  Whatever the transport, `Program.collect` runs its job on every scenario and answers
  in global order (`collect_ensures`).  A round therefore says of every scenario either
  its optimal value, with a result and a gradient, or why there is none
  (`solveRound_ensures`).
-/
import Recourse.Proofs.Model.Gradient
import Recourse.Proofs.Model.Posed
import Recourse.Proofs.Program.Meaning
import Recourse.Solver.Round

set_option autoImplicit false
set_option linter.unusedSectionVars false

open scoped BigOperators

namespace Recourse

/-! ## Work on every scenario -/

section Collect

variable {σ K α β : Type}

theorem Settles.mapM_id {R : α → β → Prop} {E : Fault K → Prop} {items : List α}
    {results : List (Except (Fault K) β)}
    (h : List.Forall₂ (fun a r => Settles r (R a) E) items results) :
    Settles (results.mapM id) (List.Forall₂ R items) E := by
  induction h with
  | nil => exact .nil
  | cons hr _ ih =>
    rw [List.mapM_cons]
    refine Settles.bind (hr.mono ?_ fun _ => id)
    intro b hb
    refine Settles.bind (ih.mono ?_ fun _ => id)
    intro bs hbs
    exact .cons hb hbs

/-- A transport answers with the results in the order of the items. -/
theorem Transport.map_ensures (t : Transport) {f : α → Act σ K β} {R : α → β → Prop}
    {E : Fault K → Prop} (items : List α) (h : ∀ a ∈ items, (f a).Ensures (R a) E) :
    (t.map f items).Ensures (List.Forall₂ R items) E := by
  cases t with
  | sequential => exact Act.ensures_forEach items h
  | threads n =>
    refine Act.ensures_bind ((Act.ensures_forEach items fun a ha =>
      Act.ensures_attempt (h a ha)).mono ?_ fun _ => id)
    intro results hresults
    exact Act.ensures_ofExcept (Settles.mapM_id hresults)

/-- A slot of a partition stands behind those of the partitions in front. -/
theorem slot_of_placed (partitions : List (Partition K)) (start : Nat) {q : Partition K × Nat}
    (hq : q ∈ partitions.zip (Program.offsets (partitions.map (·.size)) start)) :
    start ≤ q.2 ∧ ∀ j s, q.1.slots[j]? = some s →
      (partitions.flatMap (·.slots))[q.2 - start + j]? = some s := by
  induction partitions generalizing start with
  | nil => cases hq
  | cons q' rest ih =>
    rw [List.map_cons, Program.offsets, List.zip_cons_cons, List.mem_cons] at hq
    rcases hq with rfl | hq
    · refine ⟨le_refl _, ?_⟩
      intro j s hs
      have hj : j < q'.slots.length := (List.getElem?_eq_some_iff.1 hs).1
      rw [Nat.sub_self, Nat.zero_add, List.flatMap_cons, List.getElem?_append_left hj]
      exact hs
    · obtain ⟨hle, hslot⟩ := ih (start + q'.size) hq
      have hsize : q'.size = q'.slots.length := rfl
      refine ⟨by omega, ?_⟩
      intro j s hs
      rw [List.flatMap_cons, List.getElem?_append_right (by omega), ← hslot j s hs]
      congr 1
      omega

/-- Results by partition, put together, are results by global index. -/
theorem forall₂_placed {R : Nat → β → Prop} (partitions : List (Partition K)) (start : Nat)
    {chunks : List (List β)}
    (h : List.Forall₂ (fun (q : Partition K × Nat) =>
        List.Forall₂ (fun s : Slot K × Nat => R (q.2 + s.2)) q.1.slots.zipIdx)
      (partitions.zip (Program.offsets (partitions.map (·.size)) start)) chunks) :
    List.Forall₂ R (List.range' start (partitions.flatMap (·.slots)).length) chunks.flatten := by
  induction partitions generalizing start chunks with
  | nil =>
    cases h
    exact .nil
  | cons q rest ih =>
    rw [List.map_cons, Program.offsets, List.zip_cons_cons] at h
    cases h with
    | cons hq hrest =>
      rw [List.flatMap_cons, List.length_append, ← List.range'_append_1, List.flatten_cons]
      refine List.rel_append ?_ (ih (start + q.size) hrest)
      have hrange : List.range' start q.slots.length =
          q.slots.zipIdx.map fun s => start + s.2 := by
        rw [List.range'_eq_map_range, List.range_eq_range', ← List.zipIdx_map_snd 0, List.map_map]
        rfl
      rw [hrange, List.forall₂_map_left_iff]
      exact hq

/-- Where every visit of a partition answers in order, all scenarios are answered in global
order. -/
theorem Program.collect_ensures_of_visit {p : Program σ K} {withSubproblems : Bool}
    {job : Int → Scenario K → Option (Model K) → Act σ K β} {R : Nat → β → Prop}
    {E : Fault K → Prop}
    (h : ∀ q ∈ p.placed, (∀ j s, q.1.slots[j]? = some s → p.slots[q.2 + j]? = some s) →
      (q.1.visit (if withSubproblems then some p.secondEpoch else none) q.2 job).Ensures
        (List.Forall₂ (fun s : Slot K × Nat => R (q.2 + s.2)) q.1.slots.zipIdx) E) :
    (p.collect withSubproblems job).Ensures (List.Forall₂ R (List.range p.scenarioCount)) E := by
  unfold Program.collect
  refine Act.ensures_bind ((Transport.map_ensures p.transport _ fun q hq => h q hq
    (slot_of_placed p.partitions 0 hq).2).mono ?_ fun _ h => h)
  intro chunks hchunks
  refine Act.ensures_pure ?_
  rw [List.range_eq_range']
  exact forall₂_placed p.partitions 0 hchunks

/-- A job on every scenario of a program that is built answers in global order. -/
theorem Program.collect_ensures {p : Program σ K} (hp : p.isDeferred = false)
    {job : Int → Scenario K → Option (Model K) → Act σ K β} {R : Nat → β → Prop}
    {E : Fault K → Prop}
    (h : ∀ (i : Nat) (s : Slot K), p.slots[i]? = some s →
      (job (i : Int) s.scenario s.model?).Ensures (R i) E) :
    (p.collect true job).Ensures (List.Forall₂ R (List.range p.scenarioCount)) E := by
  refine collect_ensures_of_visit fun q hq hplaced => ?_
  have hgenerated : q.1.isGenerated p.secondEpoch = true := by
    refine List.all_eq_true.2 fun s hs => isCurrent_of_not_isDeferred hp s ?_
    exact List.mem_flatMap.2 ⟨q.1, (List.of_mem_zip hq).1, hs⟩
  unfold Partition.visit
  simp only [hgenerated, Bool.not_true, Bool.false_eq_true, if_false, if_true]
  apply Act.ensures_forEach _
  intro s hs
  exact_mod_cast h (q.2 + s.2) s.1 (hplaced s.2 s.1 (List.mk_mem_zipIdx_iff_getElem?.1 hs))

end Collect
/-! ## Rounds -/

variable {F : Type} [Field F] [LinearOrder F] [IsStrictOrderedRing F] [FloorRing F]

section Outcomes

variable {σ : Type} (p : Program σ (Exact F)) (x : List (Exact F)) (i : Nat)

/-- A scenario was solved at a decision: its value and its gradient come from a result
that reports an optimum of its recourse. -/
structure Program.Solved (o : Outcome (Exact F)) : Prop where
  /-- The scenario. -/
  index : o.index = i
  /-- Its probability. -/
  probability : o.probability = .finite (p.weight i)
  /-- The result is one of its recourse. -/
  reports : (p.recourse i).Reports x o.result
  /-- It is optimal. -/
  optimal : o.result.status = .optimal
  /-- The value is that of the result. -/
  objective : o.objective = o.result.objective
  /-- The gradient is made of its duals. -/
  gradient : (p.recourse i).recourseGradient o.result x.length = .ok o.gradient
  /-- The recourse is posed. -/
  posed : (p.recourse i).Posed

/-- A scenario has no optimum at a decision. -/
structure Program.Failed (f : RoundFailure (Exact F)) : Prop where
  /-- The scenario. -/
  index : f.index = i
  /-- A result says that there is no optimum, and why. -/
  reports : ∃ r, (p.recourse i).Reports x r ∧ r.status = f.status
  /-- It is not optimal. -/
  not_optimal : f.status ≠ .optimal

/-- What one answer of a round says of a scenario. -/
def Program.Answered (a : Outcome (Exact F) ⊕ RoundFailure (Exact F)) : Prop :=
  match a with
  | .inl o => p.Solved x i o
  | .inr f => p.Failed x i f

end Outcomes

/-- A round tells the truth about a decision. -/
structure Round.Describes {σ : Type} (r : Round (Exact F)) (p : Program σ (Exact F))
    (x : List (Exact F)) : Prop where
  /-- It is about this decision. -/
  decision : r.decision = x
  /-- Every failure is one of a scenario. -/
  failures : ∀ f ∈ r.failures, ∃ i < p.scenarioCount, p.Failed x i f
  /-- Without failures every scenario was solved, in order. -/
  complete : r.failures = [] →
    List.Forall₂ (p.Solved x) (List.range p.scenarioCount) r.outcomes

variable {σ : Type} {p : Program σ (Exact F)} {x : List (Exact F)}

/-- The outcomes of answers without failures. -/
theorem forall₂_outcomes {β γ : Type} {R : Nat → β ⊕ γ → Prop} {is : List Nat}
    {answers : List (β ⊕ γ)} (h : List.Forall₂ R is answers)
    (hnone : answers.filterMap Sum.getRight? = []) :
    List.Forall₂ (fun i o => R i (.inl o)) is (answers.filterMap Sum.getLeft?) := by
  induction h with
  | nil => exact .nil
  | @cons i a is answers ha _ ih =>
    cases a with
    | inl o => exact .cons ha (ih (by simpa using hnone))
    | inr f => simp at hnone

theorem describes_ofAnswers {answers : List (Outcome (Exact F) ⊕ RoundFailure (Exact F))}
    (h : List.Forall₂ (p.Answered x) (List.range p.scenarioCount) answers) :
    (Round.ofAnswers x answers).Describes p x where
  decision := rfl
  failures := by
    intro f hf
    obtain ⟨a, ha, haf⟩ := List.mem_filterMap.1 hf
    cases a with
    | inl o => cases haf
    | inr f' =>
      cases haf
      obtain ⟨k, hk, hget⟩ := List.getElem_of_mem ha
      have hlength := h.length_eq
      have hanswer := h.get (i := k) (by omega) hk
      rw [List.get_eq_getElem, List.get_eq_getElem, hget, List.getElem_range] at hanswer
      exact ⟨k, by rw [List.length_range] at hlength; omega, hanswer⟩
  complete := forall₂_outcomes h

/-- What a scenario answers on a sound engine is true, and nothing is refused as crossed. -/
theorem Program.answer_ensures [Host σ (Exact F)] (host : Host.Sound σ F)
    {b : Backend σ (Exact F)} (hb : b.Faithful) (hp : p.Proper) (hcurrent : p.isDeferred = false)
    (hx : AllFinite x) (hlength : x.length = p.firstStage.columns.length) {i : Nat}
    {s : Slot (Exact F)} (hs : p.slots[i]? = some s) :
    (Program.answer b x (i : Int) s.scenario s.model?).Ensures (p.Answered x i)
      (fun f => ¬ f.IsCrossed) := by
  have hi : i < p.scenarioCount := (List.getElem?_eq_some_iff.1 hs).1
  obtain ⟨s', hs', hbuilt⟩ := exists_slot hcurrent hi
  obtain rfl : s = s' := Option.some.inj (hs.symm.trans hs')
  have hmodel : s.model? = some (p.recourse i) := by rw [Slot.model?, hbuilt]; rfl
  have hcount : (p.recourse i).decisionCount = 0 ∨ (p.recourse i).decisionCount = x.length :=
    hlength ▸ hp.placeholders i hi
  unfold Program.answer
  rw [hmodel]
  refine Act.ensures_bind (Act.ensures_pure ?_)
  refine Act.ensures_bind (((Backend.optimize_ensures host hb (hp.second i hi) hx hcount).and
    (b.optimize_posed (hp.second i hi) hx hcount)).mono ?_ fun _ h => h.1)
  rintro r ⟨hr, hposed⟩
  by_cases hstatus : r.status = .optimal
  · have hfinite := hr.duals_finite hstatus
    simp only [hstatus, ne_eq, not_true, if_false]
    refine Act.ensures_bind (Act.ensures_lift ((Model.recourseGradient_settles (hp.second i hi)
      hfinite.1 hfinite.2 hcount).with_eq.mono ?_ fun _ => False.elim))
    intro g hg
    exact Act.ensures_pure ⟨rfl, hp.probability_eq hs, hr, hstatus, rfl, hg.1, hposed⟩
  · simp only [ne_eq, hstatus, not_false_iff, if_true]
    exact Act.ensures_pure ⟨rfl, ⟨r, hr, rfl⟩, hstatus⟩

/-- A round puts the answers of all scenarios together, in their order. -/
theorem Program.solveRound_answers [Host σ (Exact F)] (host : Host.Sound σ F)
    {b : Backend σ (Exact F)} (hb : b.Faithful) (hp : p.Proper) (hcurrent : p.isDeferred = false)
    (hx : AllFinite x) (hlength : x.length = p.firstStage.columns.length) :
    (p.solveRound b x).Ensures
      (fun r => ∃ answers, List.Forall₂ (p.Answered x) (List.range p.scenarioCount) answers ∧
        r = Round.ofAnswers x answers) (fun f => ¬ f.IsCrossed) := by
  unfold Program.solveRound
  refine Act.ensures_bind ((collect_ensures hcurrent fun i s hs =>
    answer_ensures host hb hp hcurrent hx hlength hs).mono ?_ fun _ h => h)
  intro answers hanswers
  exact Act.ensures_pure ⟨answers, hanswers, rfl⟩

/-- Every round on a sound engine tells the truth, and nothing is refused as crossed. -/
theorem Program.solveRound_ensures [Host σ (Exact F)] (host : Host.Sound σ F)
    {b : Backend σ (Exact F)} (hb : b.Faithful) (hp : p.Proper) (hcurrent : p.isDeferred = false)
    (hx : AllFinite x) (hlength : x.length = p.firstStage.columns.length) :
    (p.solveRound b x).Ensures (·.Describes p x) (fun f => ¬ f.IsCrossed) := by
  refine (solveRound_answers host hb hp hcurrent hx hlength).mono ?_ fun _ h => h
  rintro r ⟨answers, hanswers, rfl⟩
  exact describes_ofAnswers hanswers

end Recourse
