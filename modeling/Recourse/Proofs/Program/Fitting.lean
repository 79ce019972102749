/-
  Proofs/Program/Fitting.lean --- what a program holds fits its schema.

  A payload is checked when its scenario is accepted, and the first of them sets the schema
  where none was declared.  Nothing replaces a schema or a payload later on, so in every state
  that a program gets to, what it holds fits its schema (`Attainable.fitting`).
-/
import Recourse.Proofs.Program.Lasting

set_option autoImplicit false
set_option linter.unusedSectionVars false

namespace Recourse

variable {σ K : Type}

/-! ## Accepting -/

theorem Schema.check_eq_ok {schema schema' : Option Schema} {v : Value K}
    (h : check schema [v] = .ok schema') :
    schema' = some (schema.getD (infer v)) ∧ (schema.getD (infer v)).accepts v = true := by
  rw [check] at h
  split at h
  · rename_i haccepts
    cases h
    exact ⟨rfl, haccepts⟩
  · cases h

namespace Program

/-- The payload fits the schema, which is there. -/
def Fits (schema : Option Schema) (v : Value K) : Prop := ∃ S ∈ schema, S.accepts v = true

/-- Accepting scenarios leaves a schema that is there, and all of them fit afterwards. -/
theorem fits_of_accept {schema schema' : Option Schema} {offered : List (Offered K)}
    {scenarios : List (Scenario K)} (h : accept schema offered = .ok (schema', scenarios)) :
    (∀ S ∈ schema, S ∈ schema') ∧ ∀ s ∈ scenarios, Fits schema' s.data := by
  induction offered generalizing schema scenarios with
  | nil =>
    cases h
    exact ⟨fun _ hS => hS, fun s hs => absurd hs List.not_mem_nil⟩
  | cons o offered ih =>
    cases o with
    | other t => cases h
    | scenario s =>
      rw [accept] at h
      obtain ⟨schema₁, hcheck, h⟩ := bind_eq_ok_iff.1 h
      obtain ⟨⟨schema₂, others⟩, haccept, h⟩ := bind_eq_ok_iff.1 h
      cases h
      obtain ⟨rfl, haccepts⟩ := Schema.check_eq_ok hcheck
      obtain ⟨hkept, hfits⟩ := ih haccept
      refine ⟨fun S hS => hkept S (by rw [Option.mem_def.1 hS]; rfl), ?_⟩
      exact List.forall_mem_cons.2 ⟨⟨_, hkept _ rfl, haccepts⟩, hfits⟩

/-! ## What is held -/

/-- The payloads in global order. -/
def payloads (p : Program σ K) : List (Value K) := p.slots.map (·.scenario.data)

/-- Every payload fits the schema. -/
def Fitting (p : Program σ K) : Prop := ∀ v ∈ p.payloads, Fits p.schema v

/-- What fitting depends on. -/
def holdings (p : Program σ K) : Option Schema × List (Value K) := (p.schema, p.payloads)

variable {p p' : Program σ K}

theorem Fitting.congr (hp : p.Fitting) (h : p'.holdings = p.holdings) : p'.Fitting := by
  have hschema : p'.schema = p.schema := congrArg Prod.fst h
  have hpayloads : p'.payloads = p.payloads := congrArg Prod.snd h
  intro v hv
  rw [hschema]
  exact hp v (hpayloads ▸ hv)

/-- The payloads stay where their scenarios do. -/
theorem payloads_of_scenarios (h : p'.scenarios = p.scenarios) : p'.payloads = p.payloads := by
  have hdata := congrArg (List.map Scenario.data) h
  rwa [scenarios, scenarios, List.map_map, List.map_map] at hdata

/-! ## What happens to a program -/

variable [Scalar K]

/-- Building leaves the schema, and the scenarios in their partitions. -/
theorem generate_sustains_fitting : Sustains Fitting (generate : Edit σ K Unit) := by
  refine .generate (fun _ _ hp _ => hp.congr rfl) (fun p partitions hp h => ?_)
    fun _ hp => hp.congr rfl
  have hscenarios := congrArg List.flatten h
  rw [flatten_placement] at hscenarios
  have hkept : Program.scenarios { p with partitions } = p.scenarios :=
    (flatten_placement _).symm.trans hscenarios
  exact hp.congr (Prod.ext rfl (payloads_of_scenarios hkept))

variable [Host σ K]

theorem rescale_preserves_holdings (factor : K) (p : Program σ K) :
    Preserves holdings (rescale factor) p := by
  refine preserves_state (rescale_go_preserves (fun p done q rest hp => ?_) p.partitions [] rfl)
  refine Prod.ext rfl ?_
  simp [holdings, payloads, slots, hp, Partition.scaled, Scenario.scaled, Function.comp_def]

/-- New payloads fit, and the others fit as before. -/
theorem Fitting.extended (hp : p.Fitting) {offered : List (Offered K)} {schema : Option Schema}
    {scenarios : List (Scenario K)} (haccept : accept p.schema offered = .ok (schema, scenarios))
    {partitions : List (Partition K)}
    (hslots : Extends p.slots (partitions.flatMap (·.slots)) scenarios) :
    Fitting { p with schema, partitions } := by
  obtain ⟨hkept, hfits⟩ := fits_of_accept haccept
  intro v hv
  obtain ⟨s, hs, rfl⟩ := List.mem_map.1 hv
  rcases hslots.origin s hs with hold | hnew
  · obtain ⟨S, hS, haccepts⟩ := hp _ (List.mem_map.2 ⟨s, hold, rfl⟩)
    exact ⟨S, hkept S hS, haccepts⟩
  · obtain ⟨c, hc, rfl⟩ := List.mem_map.1 hnew
    exact hfits c hc

theorem create_fitting (s : Setup σ K) : (create s).Ensures Fitting fun _ => True := by
  refine (create_empty s).mono (fun p hp v hv => ?_) fun _ h => h
  rw [payloads, hp.1] at hv
  cases hv

/-- Payloads go on to fit through whatever is done to a program. -/
theorem fitting_lasting : Lasting (Fitting : Program σ K → Prop) where
  created := create_fitting
  data stage _ := .update fun _ hp => by cases stage <;> exact hp.congr rfl
  recipe r := .update fun _ hp => by cases r <;> exact hp.congr rfl
  generated := generate_sustains_fitting
  extended hp _ _ _ haccept _ hslots := hp.extended haccept hslots
  rescaled factor := .of_ensures (rescale_preserves_holdings factor)
    (fun _ _ _ hp h => hp.congr h) fun _ _ _ hp h => hp.congr h
  regrouped hp _ h := hp.congr (Prod.ext rfl
    (payloads_of_scenarios (congrArg (List.map Slot.scenario) h)))
  installed hp _ _ _ := hp.congr (Prod.ext rfl (payloads_of_scenarios (scenarios_install ..)))
  configured hp _ _ _ := hp.congr rfl

/-- In every state that a program gets to, its payloads fit its schema. -/
theorem Attainable.fitting (h : p.Attainable) : p.Fitting := fitting_lasting.attainable h

end Program

end Recourse
