/-
  Proofs/Program/Purity.lean --- recipes that depend on their arguments only.

  A pure recipe answers the same to the same arguments and does nothing else, so there
  is one model it gives for the data of a stage.  Solving a model later changes nothing
  about it but the result that is loaded.
-/
import Recourse.Proofs.Effect
import Recourse.Program.Recipe

set_option autoImplicit false

namespace Recourse

variable {σ K : Type}

/-! ## Computations without effects -/

namespace Act

variable {α β : Type}

/-- A computation that neither looks at the ledger nor changes it. -/
def Effectless (act : Act σ K α) : Prop := ∃ r, act = ofExcept r

theorem effectless_pure (a : α) : (pure a : Act σ K α).Effectless := ⟨.ok a, rfl⟩

theorem effectless_fail (f : Fault K) : (fail f : Act σ K α).Effectless := ⟨.error f, rfl⟩

theorem effectless_lift (r : Except (Fault K) α) : (liftM r : Act σ K α).Effectless := by
  cases r with
  | ok a => exact effectless_pure a
  | error f => exact effectless_fail f

theorem Effectless.bind {act : Act σ K α} {f : α → Act σ K β} (h : act.Effectless)
    (hf : ∀ a, (f a).Effectless) : (act >>= f).Effectless := by
  obtain ⟨r, rfl⟩ := h
  cases r with
  | ok a => exact hf a
  | error e => exact ⟨.error e, rfl⟩

/-- What a computation without effects answers, it always answers. -/
theorem Effectless.ensures {act : Act σ K α} (h : act.Effectless) :
    act.Ensures (fun a => act = ofExcept (.ok a)) fun _ => True := by
  obtain ⟨r, rfl⟩ := h
  refine ensures_ofExcept ?_
  cases r with
  | ok a => exact rfl
  | error f => trivial

theorem ofExcept_injective (ledger : Ledger σ K) {r r' : Except (Fault K) α}
    (h : (ofExcept r : Act σ K α) = ofExcept r') : r = r' :=
  congrArg (fun act : Act σ K α => (act.run.run ledger).1) h

end Act

/-! ## Models and their results -/

/-- A model is another one, up to the result that is loaded. -/
def Model.LoadedFrom (m m₀ : Model K) : Prop := m = m₀ ∨ ∃ r, m = m₀.load r

namespace Model

variable {m m₀ : Model K}

theorem LoadedFrom.refl (m : Model K) : m.LoadedFrom m := Or.inl rfl

theorem LoadedFrom.load (h : m.LoadedFrom m₀) (r : SolveResult K) : (m.load r).LoadedFrom m₀ := by
  rcases h with rfl | ⟨r', rfl⟩
  · exact Or.inr ⟨r, rfl⟩
  · exact Or.inr ⟨r, rfl⟩

end Model

/-! ## Pure recipes -/

/-- A recipe whose answers depend on the data alone. -/
def FirstRecipe.Pure (r : FirstRecipe σ K) : Prop := ∀ data, (r.build data).Effectless

/-- A recipe whose answers depend on the data, the decisions and the payload alone. -/
def SecondRecipe.Pure (r : SecondRecipe σ K) : Prop :=
  ∀ data decisions payload, (r.build data decisions payload).Effectless

/-- A recipe of either stage is pure. -/
def Recipe.Pure : Recipe σ K → Prop
  | .first r => r.Pure
  | .second r => r.Pure

/-- Whatever stage a candidate is taken for, it is pure. -/
def Candidate.Pure : Candidate σ K → Prop
  | .recipe r => r.Pure
  | .procedure first second => first.Pure ∧ second.Pure
  | .other _ => True

theorem Candidate.Pure.toRecipe {c : Candidate σ K} (h : c.Pure) (stage : Stage) :
    Settles (c.toRecipe stage) Recipe.Pure fun _ => True := by
  cases c with
  | recipe r =>
    show Settles (if r.stage = stage then _ else _) _ _
    split
    · exact h
    · trivial
  | procedure first second =>
    cases stage with
    | first => exact h.1
    | second => exact h.2
  | other t => trivial

/-- The recipe makes this model of the data, whatever the ledger. -/
def FirstRecipe.Gives (r : FirstRecipe σ K) (data : Value K) (m : Model K) : Prop :=
  r.generate data = .ofExcept (.ok m)

/-- The recipe makes this model of the data, the decisions and the payload. -/
def SecondRecipe.Gives (r : SecondRecipe σ K) (data : Value K) (decisions : Decisions)
    (payload : Value K) (m : Model K) : Prop :=
  r.generate data decisions payload = .ofExcept (.ok m)

/-- There is at most one model a recipe makes of its data. -/
theorem FirstRecipe.Gives.unique {r : FirstRecipe σ K} {data : Value K} {m m' : Model K}
    (env : σ) (h : r.Gives data m) (h' : r.Gives data m') : m = m' :=
  Except.ok.inj (Act.ofExcept_injective ⟨env, [], 0⟩ (h.symm.trans h'))

theorem SecondRecipe.Gives.unique {r : SecondRecipe σ K} {data : Value K} {d : Decisions}
    {payload : Value K} {m m' : Model K} (env : σ) (h : r.Gives data d payload m)
    (h' : r.Gives data d payload m') : m = m' :=
  Except.ok.inj (Act.ofExcept_injective ⟨env, [], 0⟩ (h.symm.trans h'))

/-- What a pure recipe builds is what it gives. -/
theorem FirstRecipe.Pure.generate_ensures {r : FirstRecipe σ K} (h : r.Pure) (data : Value K) :
    (r.generate data).Ensures (r.Gives data) fun _ => True := by
  refine Act.Effectless.ensures ?_
  unfold generate
  refine (h data).bind fun product => (Act.effectless_lift _).bind fun m => ?_
  dsimp only
  split
  · exact (Act.effectless_fail _).bind fun _ => Act.effectless_pure m
  · exact Act.effectless_pure m

theorem SecondRecipe.Pure.generate_effectless {r : SecondRecipe σ K} (h : r.Pure)
    (data : Value K) (d : Decisions) (payload : Value K) :
    (r.generate data d payload).Effectless := by
  unfold generate
  refine (h data d payload).bind fun product => (Act.effectless_lift _).bind fun m => ?_
  dsimp only
  split
  · exact (Act.effectless_fail _).bind fun _ => Act.effectless_pure m
  · exact Act.effectless_pure m

theorem SecondRecipe.Pure.generate_ensures {r : SecondRecipe σ K} (h : r.Pure) (data : Value K)
    (d : Decisions) (payload : Value K) :
    (r.generate data d payload).Ensures (r.Gives data d payload) fun _ => True :=
  (h.generate_effectless data d payload).ensures

end Recourse
