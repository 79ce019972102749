/-
  Proofs/Evaluation/ExpectedProgram.lean --- the program of the expected scenario.

  The expected payload of a program fits the schema that the program for it has, since what a
  program holds fits its schema and an expectation keeps the type of the first payload, but for
  integers, which the schema makes room for (`expectedScenario_expected`).  So nothing is said
  against its type when it goes into a program of its own (`expectation_fits`).  Arrays without
  an index are the exception: what comes back for them is a number, which is refused where
  arrays are asked for (`lone_price_refused`).
-/
import Recourse.Evaluation.Values
import Recourse.Proofs.Payload.Outline
import Recourse.Proofs.Payload.Refusal
import Recourse.Proofs.Payload.Tower
import Recourse.Proofs.Program.Fitting

set_option autoImplicit false
set_option linter.unusedSectionVars false

namespace Recourse

variable {σ K α : Type} [Scalar K]

/-! ## Reductions -/

theorem Value.Expected.mono {S : Schema} {vs ws : List (Value K)} {v : Value K}
    (h : Value.Expected S vs v) (hsub : ∀ w ∈ vs, w ∈ ws) : Value.Expected S ws v where
  fits := h.fits.imp_right fun ⟨hS, hv, w, hw, hpoint⟩ => ⟨hS, hv, w, hsub w hw, hpoint⟩
  point := fun hv => (h.point hv).imp fun w hw => ⟨hsub w hw.1, hw.2⟩

/-- A scenario carries the payload that it was made with. -/
theorem Scenario.make_carries (n : Numeral K) (data : Value K) (name : Option String) :
    Settles (make n data name) (fun s => s.data = data) fun f => f.isMismatch = false :=
  Settles.guard (fun _ => rfl) fun _ => rfl

/-- Scenarios whose payloads fit a schema fold to one with an expected payload. -/
theorem Scenario.expected_settles {S : Schema} {scenarios : List (Scenario K)}
    (h : ∀ s ∈ scenarios, S.accepts s.data = true) (name : Option String) :
    Settles (expected scenarios name)
      (fun s => Value.Expected S (scenarios.map (·.data)) s.data)
      fun f => f.isMismatch = false := by
  unfold expected
  cases scenarios with
  | nil => exact rfl
  | cons s scenarios =>
    show Settles (if Scalar.atMost (mass (s :: scenarios)) 0 = true then _ else _) _ _
    split
    · exact rfl
    refine Settles.bind (((Settles.exactly _).and (Value.expectation_typeless _ _)).mono ?_
      fun f hf => hf.2)
    rintro e ⟨he, -⟩
    refine (make_carries _ e name).mono (fun s' hs' => ?_) fun _ h => h
    rw [hs']
    exact Value.expected_of_accepts rfl (by simp) (h s List.mem_cons_self) he

namespace Program

/-- A partition whose payloads fit a schema reduces to an expected payload, if to any. -/
theorem partialExpectation_expected {S : Schema} {q : Partition K}
    (h : ∀ s ∈ q.scenarios, S.accepts s.data = true) :
    Settles q.partialExpectation
      (fun r => ∀ v ∈ r.2, Value.Expected S (q.scenarios.map (·.data)) v)
      fun f => f.isMismatch = false := by
  unfold Partition.partialExpectation
  split
  · rintro v ⟨⟩
  · refine Settles.bind ((Scenario.expected_settles h _).mono (fun e he => ?_) fun _ h => h)
    rintro v ⟨⟩
    exact he

variable {p : Program σ K}

theorem data_mem_payloads {q : Partition K} (hq : q ∈ p.partitions) {v : Value K}
    (hv : v ∈ q.scenarios.map (·.data)) : v ∈ p.payloads := by
  obtain ⟨s, hs, rfl⟩ := List.mem_map.1 hv
  obtain ⟨slot, hslot, rfl⟩ := List.mem_map.1 hs
  exact List.mem_map.2 ⟨slot, List.mem_flatMap.2 ⟨q, hq, hslot⟩, rfl⟩

/-- A program that holds something has the schema that it fits. -/
theorem Fitting.exists_schema (hp : p.Fitting) (hcount : p.scenarioCount ≠ 0) :
    ∃ S ∈ p.schema, ∀ v ∈ p.payloads, S.accepts v = true := by
  obtain ⟨slot, hslot⟩ := List.exists_mem_of_length_pos (Nat.pos_of_ne_zero hcount)
  obtain ⟨S, hS, -⟩ := hp _ (List.mem_map.2 ⟨slot, hslot, rfl⟩)
  refine ⟨S, hS, fun v hv => ?_⟩
  obtain ⟨S', hS', haccepts⟩ := hp v hv
  obtain rfl : S = S' := Option.some.inj (hS.symm.trans hS')
  exact haccepts

/-- The expected scenario has an expected payload. -/
theorem expectedScenario_expected (hp : p.Fitting) :
    p.expectedScenario.Ensures (fun s => ∃ S ∈ p.schema, Value.Expected S p.payloads s.data)
      fun f => f.isMismatch = false := by
  unfold expectedScenario
  split
  · exact Act.ensures_bind (Act.ensures_fail rfl)
  rename_i hcount
  obtain ⟨S, hS, hfits⟩ := hp.exists_schema hcount
  have hpartial : ∀ q ∈ p.partitions, (Act.ofExcept q.partialExpectation : Act σ K _).Ensures
      (fun r => ∀ v ∈ r.2, Value.Expected S p.payloads v) fun f => f.isMismatch = false := by
    intro q hq
    refine Act.ensures_ofExcept ((partialExpectation_expected fun s hs => hfits _
      (data_mem_payloads hq (List.mem_map.2 ⟨s, hs, rfl⟩))).mono (fun r hr v hv => ?_)
      fun _ h => h)
    exact (hr v hv).mono fun w => data_mem_payloads hq
  refine Act.ensures_bind ((Transport.map_ensures p.transport p.partitions hpartial).mono
    (fun partials hpartials => ?_) fun _ h => h)
  have hparts : ∀ t ∈ partials.filterMap (fun r =>
      if Scalar.less 0 r.1 then r.2.map (r.1, ·) else none),
      Value.Expected S p.payloads t.2 := by
    intro t ht
    obtain ⟨r, hr, ht⟩ := List.mem_filterMap.1 ht
    split at ht
    · obtain ⟨v, hv, rfl⟩ := Option.map_eq_some_iff.1 ht
      exact forall_of_forall₂ (P := fun _ => True) hpartials (fun _ _ => trivial)
        (fun _ _ hr _ => hr) r hr v hv
    · cases ht
  -- What was reduced does not matter any more, only that every part is expected.
  generalize (partials.filterMap fun r =>
    if Scalar.less 0 r.1 then r.2.map (r.1, ·) else none) = parts at hparts
  dsimp only
  split
  · exact Act.ensures_bind (Act.ensures_fail rfl)
  refine Act.ensures_bind (Act.ensures_ofExcept (((Settles.exactly _).and
    (Value.expectation_typeless _ _)).mono ?_ fun _ h => h.2))
  rintro e ⟨he, -⟩
  refine Act.ensures_ofExcept ((Scenario.make_carries _ e _).mono (fun s hs => ?_) fun _ h => h)
  rw [hs]
  cases parts with
  | nil => cases he
  | cons t parts =>
    refine ⟨S, hS, Value.Expected.expectation (fun v hv => ?_) rfl (List.cons_ne_nil _ _) he⟩
    obtain ⟨t, ht, rfl⟩ := List.mem_map.1 hv
    exact hparts t ht

/-! ## Programs for one scenario -/

/-- A payload is accepted where there is a schema, and where there is none it sets it. -/
def Admits (schema : Option Schema) (v : Value K) : Prop := ∀ S ∈ schema, S.accepts v = true

theorem accept_settles_admits (schema : Option Schema) (s : Scenario K) :
    Settles (accept schema [.scenario s]) (fun _ => Admits schema s.data)
      fun _ => ¬Admits schema s.data := by
  have hadmits : (schema.getD (.infer s.data)).accepts s.data = true ↔ Admits schema s.data := by
    cases schema with
    | none => exact ⟨fun _ S hS => (nomatch hS), fun _ => Schema.accepts_infer s.data⟩
    | some S => exact ⟨fun h S' hS' => Option.some.inj hS' ▸ h, fun h => h S rfl⟩
  rw [accept, Schema.check]
  dsimp only
  split
  · rename_i h
    exact hadmits.1 h
  · rename_i h
    exact fun h' => h (hadmits.2 h')

/-- The recipe of the first stage raises a fault when it is called for the data of the stage. -/
def FirstStageRaises (p : Program σ K) (f : Fault K) : Prop :=
  ∃ r ledger, p.firstRecipe = some r ∧ ((r.build p.firstData).run.run ledger).1 = .error f

theorem generateMaster_refused {r : FirstRecipe σ K} (hr : p.firstRecipe = some r) :
    (generateMaster r : Edit σ K Unit).Ensures p (fun _ _ => True)
      fun f _ => f.isMismatch = true → p.FirstStageRaises f := by
  have hbuild : (r.build p.firstData).Ensures (fun _ => True) fun f => p.FirstStageRaises f :=
    fun ledger => (Settles.exactly _).mono (fun _ _ => trivial) fun f hf => ⟨r, ledger, hr, hf⟩
  unfold generateMaster
  refine Change.ensures_bind (Change.ensures_state ?_)
  split
  · exact Change.ensures_pure trivial
  refine Change.ensures_bind (Change.ensures_ofAct ?_)
  unfold FirstRecipe.generate
  refine Act.ensures_bind (hbuild.mono (fun product _ => ?_) fun f hf _ => hf)
  refine Act.ensures_bind (Act.ensures_lift ?_)
  cases product with
  | value v => exact fun h => nomatch h
  | model m =>
    show Act.Ensures (if m.decisionCount ≠ 0 then _ else _) _ _
    split
    · exact Act.ensures_bind (Act.ensures_fail fun h => nomatch h)
    refine Act.ensures_pure ?_
    dsimp only
    split
    · exact Change.ensures_bind (Change.ensures_fail fun h => nomatch h)
    · exact Change.ensures_update trivial

/-- Building is refused for the type of a payload only by the recipe of the first stage: what
that of the second stage raises is collected. -/
theorem generate_refused (p : Program σ K) : (generate : Edit σ K Unit).Ensures p
    (fun _ _ => True) fun f _ => f.isMismatch = true → p.FirstStageRaises f := by
  unfold generate
  refine Change.ensures_bind (Change.ensures_state ?_)
  split
  · exact Change.ensures_bind (Change.ensures_fail fun h => nomatch h)
  rename_i r hr
  refine Change.ensures_bind ((generateMaster_refused hr).mono (fun _ p' _ => ?_) fun _ _ h => h)
  refine Change.ensures_bind (Change.ensures_state ?_)
  split
  · split
    · exact Change.ensures_update trivial
    · exact Change.ensures_pure trivial
  split
  · exact Change.ensures_fail fun h => nomatch h
  unfold generateSubproblems
  refine Change.ensures_bind (Change.ensures_state (Change.ensures_bind (Change.ensures_ofAct
    ((Transport.map_ensures p'.transport _ (E := fun _ => False) fun q _ =>
      Partition.generate_keeps q.1).mono (fun results _ => ?_) fun _ h => h.elim))))
  refine Change.ensures_bind (Change.ensures_update ?_)
  dsimp only
  split
  · exact Change.ensures_bind (Change.ensures_fail fun h => nomatch h)
  · exact Change.ensures_update trivial

theorem convert_typeless {β : Type} (r : Except Setting.Unfit β) :
    Typeless (Setting.convert r : Except (Fault K) β) := by
  rcases r with u | b
  · cases u <;> exact .error rfl
  · exact .ok b

theorem create_carries (s : Setup σ K) : (create s).Ensures
    (fun q => q.firstData = s.firstData ∧ q.schema = s.schema) fun f => f.isMismatch = false := by
  unfold create
  refine Act.ensures_bind (Act.ensures_lift ((convert_typeless _).mono (fun workers _ => ?_)
    fun _ h => h))
  dsimp only
  split
  · exact Act.ensures_bind (Act.ensures_fail rfl)
  · exact Act.ensures_bind fun ledger => Act.ensures_pure ⟨rfl, rfl⟩

theorem leastLoaded_typeless (sizes : List Int) :
    Typeless (Policy.leastLoaded sizes : Except (Fault K) Nat) := by
  unfold Policy.leastLoaded
  split
  · exact .ok _
  · exact .error rfl

/-- A scenario that is added without a worker is refused for its type only where its payload is
not admitted. -/
theorem add_deferred (s : Scenario K) (q : Program σ K) :
    (add (.scenario s) none true : Edit σ K Unit).Ensures q
      (fun _ q' => Admits q.schema s.data ∧ q'.firstRecipe = q.firstRecipe ∧
        q'.firstData = q.firstData)
      fun f _ => f.isMismatch = true → ¬Admits q.schema s.data := by
  unfold add
  refine Change.ensures_bind (Change.ensures_state (Change.ensures_bind (Change.ensures_lift
    ((leastLoaded_typeless _).mono (fun least _ => ?_) fun f h h' => ?_))))
  · refine Change.ensures_bind (Change.ensures_lift ?_)
    refine (accept_settles_admits q.schema s).mono (fun a ha => ?_) fun f h _ => h
    refine Change.ensures_bind (Change.ensures_update (Change.ensures_bind
      (Change.ensures_pure (Change.ensures_bind (Change.ensures_update ?_)))))
    exact Change.ensures_bind (Change.ensures_update (Change.ensures_bind
      (Change.ensures_state (Change.ensures_pure ⟨ha, rfl, rfl⟩))))
  · exact nomatch h.symm.trans h'

/-- To a program for one scenario its payload is admitted, or it is refused for its type; and
but for that a type is to blame only in the recipe of the first stage. -/
theorem restricted_refused (p : Program σ K) (s : Scenario K) : (p.restricted s).Ensures
    (fun _ => Admits p.restrictedSetup.schema s.data) fun f => f.isMismatch = true →
      ¬Admits p.restrictedSetup.schema s.data ∨ p.FirstStageRaises f := by
  unfold restricted
  split
  · exact Act.ensures_fail fun h => nomatch h
  · exact Act.ensures_fail fun h => nomatch h
  rename_i first second hfirst _
  have hno {f : Fault K} {P : Prop} (h : f.isMismatch = false) : f.isMismatch = true → P :=
    fun h' => nomatch h.symm.trans h'
  refine Act.ensures_bind ((create_carries p.restrictedSetup).mono ?_ fun _ h => hno h)
  rintro single ⟨hdata, hschema⟩
  refine Act.ensures_bind (Act.Ensures.mono (Change.ensures_apply (Q := fun _ =>
    Admits p.restrictedSetup.schema s.data) ?_) (fun _ h => Act.ensures_pure h) fun _ h => h)
  refine Change.ensures_bind (Change.ensures_update (Change.ensures_bind
    (Change.ensures_update ?_)))
  -- The payload is admitted or refused when the scenario is added; after that only the recipe of
  -- the first stage can fail with a type.
  refine Change.ensures_bind (Change.ensures_lift ((Scenario.make_carries _ _ _).mono
    (fun s' hs' => ?_) fun _ h => hno h))
  refine Change.ensures_bind ((add_deferred s' _).mono ?_ ?_)
  · rintro _ q ⟨hadmits, hrecipe, hq⟩
    rw [hs'] at hadmits
    have hadmitted : Admits p.restrictedSetup.schema s.data := hschema ▸ hadmits
    refine (generate_refused q).mono (fun _ _ _ => hadmitted) fun f _ hf hmismatch => .inr ?_
    obtain ⟨r, ledger, hr, hraised⟩ := hf hmismatch
    refine ⟨r, ledger, ?_, ?_⟩
    · rw [hfirst, ← hr, hrecipe]
    · rw [← hraised, hq]
      exact congrArg (fun data => ((r.build data).run.run ledger).1) hdata.symm
  · intro f _ hf hmismatch
    refine .inl fun hadmits => hf hmismatch ?_
    rw [hs']
    exact hschema.symm ▸ hadmits

/-! ## The expected scenario in its program -/

/-- Arrays are asked for, and one of them is without an index. -/
def HoldsPoint (p : Program σ K) : Prop :=
  p.schema = some (.kind .array) ∧ ∃ v ∈ p.payloads, v.IsPoint

/-- The expected payload is admitted to the program for it, or it is a number in place of an
array without an index. -/
theorem expectedScenario_admitted (hp : p.Fitting) : p.expectedScenario.Ensures
    (fun s => Admits p.restrictedSetup.schema s.data ∨ p.HoldsPoint ∧ s.data.kind = .real)
    fun f => f.isMismatch = false := by
  refine (expectedScenario_expected hp).mono ?_ fun _ h => h
  rintro s ⟨S, hS, hexpected⟩
  obtain haccepts | ⟨rfl, hreal, hpoint⟩ := hexpected.fits
  · refine .inl fun S' hS' => ?_
    obtain rfl : S' = S.relaxed :=
      Option.some.inj (hS'.symm.trans (congrArg (Option.map Schema.relaxed) hS))
    exact haccepts
  · exact .inr ⟨⟨hS, hpoint⟩, hreal⟩

theorem expectedProgram_refused (hp : p.Fitting) : p.expectedProgram.Ensures (fun _ => True)
    fun f => f.isMismatch = true → p.HoldsPoint ∨ p.FirstStageRaises f := by
  unfold expectedProgram
  refine Act.ensures_bind ((expectedScenario_admitted hp).mono (fun s hs => ?_)
    fun f h h' => nomatch h.symm.trans h')
  refine (restricted_refused p s).mono (fun _ _ => trivial) fun f hf hmismatch => ?_
  obtain hadmits | ⟨hpoint, -⟩ := hs
  · exact (hf hmismatch).imp_left fun h => absurd hadmits h
  · exact .inl hpoint

/-- An expectation has the structure of the first payload, with floats for the numbers, and with
numbers for arrays without an index.  So in every state that a program gets to, the expected
payload is admitted to the program for it, and neither finding it nor building that program is
refused for the type of a payload, unless arrays are asked for and one of them is without an
index, or the recipe of the first stage itself complains about a type. -/
theorem expectation_fits [Host σ K] :
    (∀ (vs : List (Value K)) (weights : List K) (first e : Value K), vs.head? = some first →
      weights ≠ [] → (∀ v ∈ vs, v.Proper) → Value.expectation vs weights = .ok e →
        e.mapLeaves Value.blank = first.mapLeaves Value.collapsed ∧
          (first.Settled → e.mapLeaves Value.blank = first.mapLeaves Value.zeroed)) ∧
    ∀ p : Program σ K, p.Attainable →
      p.expectedScenario.Ensures
        (fun s => Admits p.restrictedSetup.schema s.data ∨ p.HoldsPoint ∧ s.data.kind = .real)
        (fun f => f.isMismatch = false) ∧
      p.expectedProgram.Ensures (fun _ => True)
        fun f => f.isMismatch = true → p.HoldsPoint ∨ p.FirstStageRaises f := by
  refine ⟨fun vs weights first e hfirst hweights hproper he => ?_, fun p hp =>
    ⟨expectedScenario_admitted hp.fitting, expectedProgram_refused hp.fitting⟩⟩
  have houtline := Value.expectation_outline hweights first vs e hfirst hproper he
  refine ⟨houtline, fun hsettled => houtline.trans ?_⟩
  exact Value.mapLeaves_collapsed (hproper first (List.mem_of_mem_head? hfirst)) hsettled

/-! ### Instances -/

/-- A season with its probability. -/
def inSeason (season : Value (Exact ℚ) × ℚ) : Scenario (Exact ℚ) :=
  ⟨.finite season.2, season.1, none⟩

/-- What the stock lacks is bought at the price of the season. -/
def seasonalRecipe : SecondRecipe (Transcript ℚ) (Exact ℚ) where
  name := "seasonal"
  build := fun _ _ payload =>
    match payload.numbersAt [.key "price"] with
    | [.finite price] => pure (.model (LShaped.shortage price))
    | _ => Act.fail (.misuse .value)

/-- The stock is set up with three seasons, spread over two partitions. -/
def seasonalOperations : List (Operation (Transcript ℚ) (Exact ℚ)) :=
  [.rebalance (.ofInt 2), .register (.ofInt 1) (.recipe (.first stockRecipe)) true,
    .register (.ofInt 2) (.recipe (.second seasonalRecipe)) true,
    .addAll ([Value.spring, Value.summer, Value.winter].map fun s => .scenario (inSeason s))
      none true]

/-- What comes of the program of the expected scenario. -/
def foreseen (p : Program (Transcript ℚ) (Exact ℚ)) :
    Except (Fault (Exact ℚ)) (Program (Transcript ℚ) (Exact ℚ)) :=
  ((p.expectedProgram : Act (Transcript ℚ) (Exact ℚ) _).run.run ⟨fullStock, [], 0⟩).1

/-- The expected season has the structure of the first one, and a program of its own. -/
theorem seasons_fit : ∃ (p q : Program (Transcript ℚ) (Exact ℚ)) (e : Value (Exact ℚ)),
    p.Attainable ∧ foreseen p = .ok q ∧
      q.payloads.map (·.numbersAt [.key "demand"]) = [[.finite 3, .finite 4]] ∧
      Value.expectation [Value.spring.1, Value.summer.1, Value.winter.1]
        [.finite (1 / 4), .finite (1 / 4), .finite (1 / 2)] = .ok e ∧
      e.mapLeaves Value.blank = .mapping [("demand", .array [2] [0, 0]), ("price", .real 0)] ∧
      p.expectedProgram.Ensures (fun _ => True)
        fun f => f.isMismatch = true → p.HoldsPoint ∨ p.FirstStageRaises f := by
  obtain ⟨p, hp, hstate⟩ := exists_attainable Setup.standard seasonalOperations
    ⟨fullStock, [], 0⟩ (fun p => (foreseen p).toOption.map
      (fun q => q.payloads.map (·.numbersAt [.key "demand"])) == some [[.finite 3, .finite 4]])
    (by decide +kernel)
  obtain ⟨q, hq, hpayloads⟩ := Value.exists_ok_of_map (beq_iff_eq.1 hstate)
  obtain ⟨e, he, -⟩ := Value.exists_ok_of_map (f := (·.numbersAt [.key "demand"]))
    (b := [.finite 3, .finite 4]) (r := Value.expectation
      [Value.spring.1, Value.summer.1, Value.winter.1]
      [.finite (1 / 4), .finite (1 / 4), .finite (1 / 2)]) (by decide +kernel)
  have hproper : ∀ v ∈ [Value.spring.1, Value.summer.1, Value.winter.1], v.Proper :=
    List.forall_mem_map.2 Value.seasons_proper
  refine ⟨p, q, e, hp, hq, hpayloads, he, ?_, (expectation_fits.2 p hp).2⟩
  exact ((expectation_fits (σ := Transcript ℚ)).1 _ _ Value.spring.1 e rfl (List.cons_ne_nil _ _)
    hproper he).1

/-- A price that comes as an array without an index. -/
def lonePrice : Value (Exact ℚ) := .array [] [.finite 5]

/-- The stock is set up with that price alone. -/
def lonePriceOperations : List (Operation (Transcript ℚ) (Exact ℚ)) :=
  [.register (.ofInt 1) (.recipe (.first stockRecipe)) true,
    .register (.ofInt 2) (.recipe (.second shortageRecipe)) true,
    .add (.scenario ⟨1, lonePrice, none⟩) none true]

/-- The expectation of the lone price is a number, which has another structure, and the program
for it refuses it, as it asks for arrays. -/
theorem lone_price_refused :
    (∃ e, Value.expectation [lonePrice] [1] = .ok e ∧
      e.mapLeaves Value.blank ≠ lonePrice.mapLeaves Value.zeroed) ∧
    ∃ p : Program (Transcript ℚ) (Exact ℚ), p.Attainable ∧
      ∃ f, foreseen p = .error f ∧ f.isMismatch = true := by
  obtain ⟨e, he, hkind⟩ := Value.exists_ok_of_map (f := Value.kind) (b := .real)
    (r := Value.expectation [lonePrice] [1]) (by decide +kernel)
  refine ⟨⟨e, he, ?_⟩, ?_⟩
  · cases e with
    | real => exact fun h => nomatch h
    | _ => cases hkind
  obtain ⟨p, hp, hstate⟩ := exists_attainable Setup.standard lonePriceOperations
    ⟨fullStock, [], 0⟩ (fun p => match foreseen p with
      | .ok _ => false
      | .error f => f.isMismatch)
    (by decide +kernel)
  refine ⟨p, hp, ?_⟩
  cases hrun : foreseen p with
  | ok q => rw [hrun] at hstate; cases hstate
  | error f => rw [hrun] at hstate; exact ⟨f, rfl, hstate⟩

end Program

end Recourse
