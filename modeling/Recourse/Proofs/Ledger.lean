/-
  Proofs/Ledger.lean --- what a computation leaves of the ledger.

  `act.Keeps view` says that `act` leaves what a view shows of the ledger, whether it ends
  with a result or a refusal.  A change keeps a view from a state, since what it calls may
  stand there.  The rules follow the way computations are put together.
-/
import Recourse.Proofs.Effect

set_option autoImplicit false

namespace Recourse

variable {S σ K α β τ : Type}

namespace Act

/-- The computation leaves what the view shows. -/
def Keeps (view : Ledger σ K → τ) (act : Act σ K α) : Prop :=
  ∀ ledger, view (act.run.run ledger).2 = view ledger

variable {view : Ledger σ K → τ}

theorem keeps_pure (a : α) : (pure a : Act σ K α).Keeps view := fun _ => rfl

theorem keeps_fail (f : Fault K) : (fail f : Act σ K α).Keeps view := fun _ => rfl

theorem keeps_lift (r : Except (Fault K) α) : (liftM r : Act σ K α).Keeps view := by
  cases r <;> exact fun _ => rfl

/-- What follows only has to deal with the results that there can be. -/
theorem keeps_bind_of_ensures {act : Act σ K α} {Q : α → Prop} {f : α → Act σ K β}
    (h : act.Keeps view) (hresult : act.Ensures Q fun _ => True)
    (hf : ∀ a, Q a → (f a).Keeps view) : (act >>= f).Keeps view := by
  intro ledger
  have hact := h ledger
  have hresult := hresult ledger
  rw [run_bind]
  generalize act.run.run ledger = after at hact hresult ⊢
  obtain ⟨r, l⟩ := after
  cases r with
  | ok a => exact (hf a hresult l).trans hact
  | error e => exact hact

theorem keeps_bind {act : Act σ K α} {f : α → Act σ K β} (h : act.Keeps view)
    (hf : ∀ a, (f a).Keeps view) : (act >>= f).Keeps view :=
  keeps_bind_of_ensures h act.ensures_anything fun a _ => hf a

/-- A check in front of the rest. -/
theorem keeps_guard {c : Prop} [Decidable c] {f : Fault K} {g : α → Act σ K β} {rest : Act σ K β}
    (h : rest.Keeps view) : (if c then fail f >>= g else rest).Keeps view := by
  split
  · exact fun _ => rfl
  · exact h

theorem keeps_attempt {act : Act σ K α} (h : act.Keeps view) : (attempt act).Keeps view := h

/-- A computation in two steps has a result exactly if both steps have one. -/
theorem run_bind_eq_ok_iff {act : Act σ K α} {f : α → Act σ K β} {b : β}
    {ledger ledger' : Ledger σ K} : (act >>= f).run.run ledger = (.ok b, ledger') ↔
      ∃ a between, act.run.run ledger = (.ok a, between) ∧
        (f a).run.run between = (.ok b, ledger') := by
  rw [run_bind]
  rcases act.run.run ledger with ⟨r, l⟩
  constructor
  · intro h
    cases r with
    | ok a => exact ⟨a, l, rfl, h⟩
    | error e => cases h
  · rintro ⟨a, between, hact, h⟩
    cases hact
    exact h

/-- A check passes, or there is no result. -/
theorem run_lift_bind_eq_ok_iff {r : Except (Fault K) α} {f : α → Act σ K β} {b : β}
    {ledger ledger' : Ledger σ K} : (liftM r >>= f : Act σ K β).run.run ledger = (.ok b, ledger') ↔
      ∃ a, r = .ok a ∧ (f a).run.run ledger = (.ok b, ledger') := by
  cases r with
  | ok a => exact ⟨fun h => ⟨a, rfl, h⟩, fun ⟨_, ha, h⟩ => Except.ok.inj ha ▸ h⟩
  | error e => exact ⟨fun h => (nomatch h), fun ⟨_, ha, _⟩ => (nomatch ha)⟩

/-- What is read off a result is read off a run that has one. -/
theorem exists_of_map_eq_some (act : Act σ K α) (ledger : Ledger σ K) (f : α → β) {b : β}
    (h : (act.run.run ledger).1.toOption.map f = some b) :
    ∃ a ledger', act.run.run ledger = (.ok a, ledger') ∧ f a = b := by
  generalize act.run.run ledger = after at h ⊢
  obtain ⟨r, l⟩ := after
  cases r with
  | ok a => exact ⟨a, l, rfl, Option.some.inj h⟩
  | error e => cases h

theorem keeps_forEach {f : α → Act σ K β} (xs : List α) (h : ∀ a ∈ xs, (f a).Keeps view) :
    (forEach f xs).Keeps view := by
  induction xs with
  | nil => exact keeps_pure []
  | cons x xs ih =>
    refine keeps_bind (h x List.mem_cons_self) fun b => ?_
    exact keeps_bind (ih fun a ha => h a (List.mem_cons_of_mem _ ha)) fun bs => keeps_pure _

/-- The first refusal ends what is done for every item. -/
theorem run_forEach_error {f : α → Act σ K β} {xs ys : List α} {x : α} {bs : List β}
    {ledger between ledger' : Ledger σ K} {e : Fault K}
    (hbefore : (forEach f xs).run.run ledger = (.ok bs, between))
    (hx : (f x).run.run between = (.error e, ledger')) :
    (forEach f (xs ++ x :: ys)).run.run ledger = (.error e, ledger') := by
  induction xs generalizing bs ledger with
  | nil =>
    cases hbefore
    rw [List.nil_append, forEach, run_bind, hx]
  | cons y xs ih =>
    obtain ⟨b, after, hy, hrest⟩ := run_bind_eq_ok_iff.1 hbefore
    obtain ⟨bs, last, hrest, hall⟩ := run_bind_eq_ok_iff.1 hrest
    cases hall
    rw [List.cons_append, forEach, run_bind, hy]
    dsimp only
    rw [run_bind, ih hrest]

end Act

namespace Change

/-- From a state the change leaves what the view shows, and the state after it is of a kind. -/
def Keeps (view : Ledger σ K → τ) (I : S → Prop) (c : Change S σ K α) (s : S) : Prop :=
  ∀ ledger, view (c.run.run (s, ledger)).2.2 = view ledger ∧ I (c.run.run (s, ledger)).2.1

variable {view : Ledger σ K → τ} {I : S → Prop} {s : S}

theorem keeps_pure {a : α} (h : I s) : (pure a : Change S σ K α).Keeps view I s :=
  fun _ => ⟨rfl, h⟩

theorem keeps_fail {f : Fault K} (h : I s) : (fail f : Change S σ K α).Keeps view I s :=
  fun _ => ⟨rfl, h⟩

theorem keeps_update {f : S → S} (h : I (f s)) : (update f : Change S σ K Unit).Keeps view I s :=
  fun _ => ⟨rfl, h⟩

theorem keeps_lift {r : Except (Fault K) α} (h : I s) :
    (liftM r : Change S σ K α).Keeps view I s := by
  cases r <;> exact fun _ => ⟨rfl, h⟩

/-- What follows a change starts from a state of the kind. -/
theorem keeps_bind {c : Change S σ K α} {f : α → Change S σ K β} (h : c.Keeps view I s)
    (hf : ∀ a s', I s' → (f a).Keeps view I s') : (c >>= f).Keeps view I s := by
  intro ledger
  have hc := h ledger
  rw [run_bind]
  generalize c.run.run (s, ledger) = after at hc ⊢
  obtain ⟨r, s', l⟩ := after
  cases r with
  | ok a => exact ⟨(hf a s' hc.2 l).1.trans hc.1, (hf a s' hc.2 l).2⟩
  | error e => exact hc

theorem keeps_state_bind {f : S → Change S σ K α} (h : (f s).Keeps view I s) :
    (state >>= f).Keeps view I s := h

theorem keeps_update_bind {g : S → S} {f : Unit → Change S σ K α}
    (h : (f ()).Keeps view I (g s)) : (update g >>= f).Keeps view I s := h

/-- A check is followed by the rest only where it passes. -/
theorem keeps_lift_bind {r : Except (Fault K) α} {f : α → Change S σ K β} (hs : I s)
    (h : ∀ a, r = .ok a → (f a).Keeps view I s) : (liftM r >>= f).Keeps view I s := by
  cases r with
  | ok a => exact h a rfl
  | error e => exact fun _ => ⟨rfl, hs⟩

/-- A check in front of the rest. -/
theorem keeps_guard {c : Prop} [Decidable c] {f : Fault K} {g : β → Change S σ K α}
    {rest : Change S σ K α} (hs : I s) (h : rest.Keeps view I s) :
    (if c then fail f >>= g else rest).Keeps view I s := by
  split
  · exact fun _ => ⟨rfl, hs⟩
  · exact h

/-- A computation on the ledger leaves the state for what follows. -/
theorem keeps_ofAct_bind_of_ensures {act : Act σ K α} {Q : α → Prop} {f : α → Change S σ K β}
    (hs : I s) (hact : act.Keeps view) (hresult : act.Ensures Q fun _ => True)
    (hf : ∀ a, Q a → (f a).Keeps view I s) : (ofAct act >>= f).Keeps view I s := by
  intro ledger
  have hact := hact ledger
  have hresult := hresult ledger
  have run : (ofAct act : Change S σ K α).run.run (s, ledger)
      = ((act.run.run ledger).1, s, (act.run.run ledger).2) := rfl
  rw [run_bind, run]
  generalize act.run.run ledger = after at hact hresult ⊢
  obtain ⟨r, l⟩ := after
  cases r with
  | ok a => exact ⟨(hf a hresult l).1.trans hact, (hf a hresult l).2⟩
  | error e => exact ⟨hact, hs⟩

theorem keeps_ofAct_bind {act : Act σ K α} {f : α → Change S σ K β} (hs : I s)
    (hact : act.Keeps view) (hf : ∀ a, (f a).Keeps view I s) :
    (ofAct act >>= f).Keeps view I s :=
  keeps_ofAct_bind_of_ensures hs hact act.ensures_anything fun a _ => hf a

/-- The states after a change are of the kind. -/
theorem Keeps.ensures {c : Change S σ K α} (h : c.Keeps view I s) :
    c.Ensures s (fun _ s' => I s') fun _ s' => I s' :=
  fun ledger => (Settles.self _).mono (fun _ _ => (h ledger).2) fun _ _ => (h ledger).2

theorem run_bind_eq_ok_iff {c : Change S σ K α} {f : α → Change S σ K β} {b : β}
    {s s' : S} {ledger ledger' : Ledger σ K} :
    (c >>= f).run.run (s, ledger) = (.ok b, s', ledger') ↔
      ∃ a t between, c.run.run (s, ledger) = (.ok a, t, between) ∧
        (f a).run.run (t, between) = (.ok b, s', ledger') := by
  rw [run_bind]
  rcases c.run.run (s, ledger) with ⟨r, t, l⟩
  constructor
  · intro h
    cases r with
    | ok a => exact ⟨a, t, l, rfl, h⟩
    | error e => cases h
  · rintro ⟨a, t', between, hc, h⟩
    cases hc
    exact h

theorem run_apply (c : Change S σ K α) (s : S) (ledger : Ledger σ K) :
    (c.apply s).run.run ledger = ((c.run.run (s, ledger)).1.map (·, (c.run.run (s, ledger)).2.1),
      (c.run.run (s, ledger)).2.2) := rfl

theorem run_apply_eq_ok_iff {c : Change S σ K α} {s s' : S} {a : α} {ledger ledger' : Ledger σ K} :
    (c.apply s).run.run ledger = (.ok (a, s'), ledger') ↔
      c.run.run (s, ledger) = (.ok a, s', ledger') := by
  rw [run_apply]
  rcases c.run.run (s, ledger) with ⟨r, t, l⟩
  cases r with
  | ok b => exact ⟨fun h => by cases h; rfl, fun h => by cases h; rfl⟩
  | error e => exact ⟨fun h => (nomatch h), fun h => (nomatch h)⟩

/-- A change of a state that nobody else sees. -/
theorem keeps_apply {c : Change S σ K α} (h : c.Keeps view I s) : (c.apply s).Keeps view :=
  fun ledger => (h ledger).1

end Change

end Recourse
