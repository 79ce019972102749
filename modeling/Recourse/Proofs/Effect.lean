/-
  Proofs/Effect.lean --- what a computation ensures.

  `act.Ensures Q E` says that `act` ends with a result that satisfies `Q` or with
  a refusal that satisfies `E`, whatever ledger it starts from.  For a change the
  two conditions also see the state afterwards.  The rules follow the way
  computations are put together, so that a statement about a composed one is
  taken apart along its code.
-/
import Recourse.Act
import Mathlib.Data.List.Basic

set_option autoImplicit false

namespace Recourse

variable {S σ K α β : Type}

/-! ## Results without effects -/

/-- Results that are given by the items. -/
theorem eq_map_of_forall₂ {g : α → β} {xs : List α} {ys : List β}
    (h : List.Forall₂ (fun x y => y = g x) xs ys) : ys = xs.map g := by
  induction h with
  | nil => rfl
  | cons hxy _ ih => rw [hxy, ih, List.map_cons]

/-- A computation in two steps has a result exactly if both steps have one. -/
theorem bind_eq_ok_iff {ε : Type} {r : Except ε α} {f : α → Except ε β} {b : β} :
    (r >>= f) = .ok b ↔ ∃ a, r = .ok a ∧ f a = .ok b := by
  cases r with
  | ok a => exact ⟨fun h => ⟨a, rfl, h⟩, fun ⟨_, ha, h⟩ => Except.ok.inj ha ▸ h⟩
  | error e => exact ⟨fun h => (nomatch h), fun ⟨_, ha, _⟩ => (nomatch ha)⟩

/-- A result that satisfies `Q`, or a refusal that satisfies `E`. -/
def Settles (r : Except (Fault K) α) (Q : α → Prop) (E : Fault K → Prop) : Prop :=
  match r with
  | .ok a => Q a
  | .error f => E f

namespace Settles

variable {Q Q' : α → Prop} {E E' : Fault K → Prop} {r : Except (Fault K) α}

theorem mono (h : Settles r Q E) (hQ : ∀ a, Q a → Q' a) (hE : ∀ f, E f → E' f) :
    Settles r Q' E' := by
  cases r with
  | ok a => exact hQ a h
  | error f => exact hE f h

theorem bind {f : α → Except (Fault K) β} {P : β → Prop}
    (h : Settles r (fun a => Settles (f a) P E) E) : Settles (r >>= f) P E := by
  cases r with
  | ok a => exact h
  | error e => exact h

theorem self (r : Except (Fault K) α) : Settles r (fun a => r = .ok a) fun _ => True := by
  cases r <;> trivial

/-- The result or the refusal is the one that there is. -/
theorem exactly (r : Except (Fault K) α) :
    Settles r (fun a => r = .ok a) fun f => r = .error f := by
  cases r <;> rfl

/-- A condition on the results may speak of the computation itself. -/
theorem with_eq (h : Settles r Q E) : Settles r (fun a => r = .ok a ∧ Q a) E := by
  cases r with
  | ok a => exact ⟨rfl, h⟩
  | error f => exact h

/-- A check in front of the rest. -/
theorem guard {c : Prop} [Decidable c] {f : Fault K} (hf : c → E f) (hr : ¬c → Settles r Q E) :
    Settles (if c then .error f else r) Q E := by
  split
  · rename_i h
    exact hf h
  · rename_i h
    exact hr h

theorem and (h : Settles r Q E) (h' : Settles r Q' E') :
    Settles r (fun a => Q a ∧ Q' a) (fun f => E f ∧ E' f) := by
  cases r with
  | ok a => exact ⟨h, h'⟩
  | error f => exact ⟨h, h'⟩

theorem of_ok {a : α} (h : Settles r Q E) (hr : r = .ok a) : Q a := by
  subst hr
  exact h

theorem of_toOption {a : α} (h : Settles r Q E) (hr : r.toOption = some a) : Q a := by
  cases r with
  | ok b => exact Option.some.inj hr ▸ h
  | error f => cases hr

theorem of_error {f : Fault K} (h : Settles r Q E) (hr : r = .error f) : E f := by
  subst hr
  exact h

end Settles

/-- A list of computations that all succeed. -/
theorem mapM_eq_ok {ε : Type} {f : α → Except ε β} {g : α → β} (xs : List α)
    (h : ∀ a ∈ xs, f a = .ok (g a)) : xs.mapM f = .ok (xs.map g) := by
  induction xs with
  | nil => rfl
  | cons x xs ih =>
    rw [List.mapM_cons, h x List.mem_cons_self, ih fun a ha => h a (List.mem_cons_of_mem _ ha)]
    rfl

/-- Computations for the items of a list, up to the first that is refused. -/
theorem Settles.mapM {f : α → Except (Fault K) β} {R : α → β → Prop}
    {E : Fault K → Prop} (xs : List α) (h : ∀ x ∈ xs, Settles (f x) (R x) E) :
    Settles (xs.mapM f) (List.Forall₂ R xs) E := by
  induction xs with
  | nil => exact .nil
  | cons x xs ih =>
    rw [List.mapM_cons]
    refine Settles.bind ((h x List.mem_cons_self).mono (fun y hy => ?_) fun _ h => h)
    refine Settles.bind ((ih fun x hx => h x (List.mem_cons_of_mem _ hx)).mono (fun ys hys => ?_)
      fun _ h => h)
    exact .cons hy hys

/-- The results of computations for the items of a list, where there are any. -/
theorem forall₂_of_mapM {f : α → Except (Fault K) β} {xs : List α} {ys : List β}
    (h : xs.mapM f = .ok ys) : List.Forall₂ (fun x y => f x = .ok y) xs ys :=
  (Settles.mapM xs fun x _ => Settles.self (f x)).of_ok h

/-! ## Computations on a ledger -/

namespace Act

/-- Every result satisfies `Q` and every refusal satisfies `E`. -/
def Ensures (act : Act σ K α) (Q : α → Prop) (E : Fault K → Prop) : Prop :=
  ∀ ledger, Settles (act.run.run ledger).1 Q E

variable {Q Q' : α → Prop} {E E' : Fault K → Prop}

theorem Ensures.mono {act : Act σ K α} (h : act.Ensures Q E) (hQ : ∀ a, Q a → Q' a)
    (hE : ∀ f, E f → E' f) : act.Ensures Q' E' :=
  fun ledger => (h ledger).mono hQ hE

theorem ensures_anything (act : Act σ K α) : act.Ensures (fun _ => True) fun _ => True :=
  fun _ => (Settles.self _).mono (fun _ _ => trivial) fun _ _ => trivial

theorem Ensures.and {act : Act σ K α} (h : act.Ensures Q E) (h' : act.Ensures Q' E') :
    act.Ensures (fun a => Q a ∧ Q' a) (fun f => E f ∧ E' f) :=
  fun ledger => (h ledger).and (h' ledger)

theorem ensures_pure {a : α} (h : Q a) : (pure a : Act σ K α).Ensures Q E := fun _ => h

theorem ensures_fail {f : Fault K} (h : E f) : (fail f : Act σ K α).Ensures Q E := fun _ => h

theorem ensures_ofExcept {r : Except (Fault K) α} (h : Settles r Q E) :
    (ofExcept r : Act σ K α).Ensures Q E := fun _ => h

theorem ensures_lift {r : Except (Fault K) α} (h : Settles r Q E) :
    (liftM r : Act σ K α).Ensures Q E := by
  cases r with
  | ok a => exact ensures_pure h
  | error f => exact ensures_fail h

theorem run_bind (act : Act σ K α) (f : α → Act σ K β) (ledger : Ledger σ K) :
    (act >>= f).run.run ledger =
      match act.run.run ledger with
      | (.ok a, ledger) => (f a).run.run ledger
      | (.error e, ledger) => (.error e, ledger) := by
  show (ExceptT.bindCont f (act.run.run ledger).1).run (act.run.run ledger).2 = _
  rcases act.run.run ledger with ⟨r, l⟩
  cases r <;> rfl

theorem ensures_bind {act : Act σ K α} {f : α → Act σ K β} {P : β → Prop}
    (h : act.Ensures (fun a => (f a).Ensures P E) E) : (act >>= f).Ensures P E := by
  intro ledger
  have h := h ledger
  rw [run_bind]
  generalize act.run.run ledger = after at h ⊢
  obtain ⟨r, l⟩ := after
  cases r with
  | ok a => exact h l
  | error e => exact h

/-- A result that is at hand, of which no more is known than that it is the one there is. -/
theorem ensures_lift_bind {r : Except (Fault K) α} {f : α → Act σ K β} {P : β → Prop}
    (hf : ∀ a, r = .ok a → (f a).Ensures P E) (hrefused : ∀ e, E e) :
    (liftM r >>= f : Act σ K β).Ensures P E :=
  ensures_bind (ensures_lift ((Settles.self r).mono hf fun e _ => hrefused e))

theorem ensures_attempt {act : Act σ K α} (h : act.Ensures Q E) :
    (attempt act).Ensures (fun r => Settles r Q E) E' := by
  intro ledger
  show Settles (Except.ok (act.run.run ledger).1) _ _
  exact h ledger

/-- Running a computation for every item collects what it ensures of each. -/
theorem ensures_forEach {f : α → Act σ K β} {R : α → β → Prop} (xs : List α)
    (h : ∀ a ∈ xs, (f a).Ensures (R a) E) :
    (forEach f xs).Ensures (List.Forall₂ R xs) E := by
  induction xs with
  | nil => exact ensures_pure .nil
  | cons x xs ih =>
    refine ensures_bind ((h x List.mem_cons_self).mono ?_ fun _ => id)
    intro b hb
    refine ensures_bind ((ih fun a ha => h a (List.mem_cons_of_mem _ ha)).mono ?_ fun _ => id)
    intro bs hbs
    exact ensures_pure (.cons hb hbs)

end Act

/-! ## Computations that change a state -/

namespace Change

/-- From state `s`, every result satisfies `Q` together with the state after it, and
every refusal satisfies `E` in the same way. -/
def Ensures (change : Change S σ K α) (s : S) (Q : α → S → Prop) (E : Fault K → S → Prop) : Prop :=
  ∀ ledger, Settles (change.run.run (s, ledger)).1 (Q · (change.run.run (s, ledger)).2.1)
    (E · (change.run.run (s, ledger)).2.1)

variable {s : S} {Q Q' : α → S → Prop} {E E' : Fault K → S → Prop}

theorem Ensures.mono {c : Change S σ K α} (h : c.Ensures s Q E) (hQ : ∀ a s', Q a s' → Q' a s')
    (hE : ∀ f s', E f s' → E' f s') : c.Ensures s Q' E' :=
  fun ledger => (h ledger).mono (hQ · _) (hE · _)

theorem ensures_pure {a : α} (h : Q a s) : (pure a : Change S σ K α).Ensures s Q E := fun _ => h

theorem ensures_fail {f : Fault K} (h : E f s) : (fail f : Change S σ K α).Ensures s Q E :=
  fun _ => h

theorem ensures_state {Q : S → S → Prop} (h : Q s s) :
    (state : Change S σ K S).Ensures s Q E := fun _ => h

theorem ensures_update {f : S → S} {Q : Unit → S → Prop} (h : Q () (f s)) :
    (update f : Change S σ K Unit).Ensures s Q E := fun _ => h

theorem ensures_lift {r : Except (Fault K) α} (h : Settles r (Q · s) (E · s)) :
    (liftM r : Change S σ K α).Ensures s Q E := by
  cases r with
  | ok a => exact fun _ => h
  | error f => exact fun _ => h

theorem ensures_ofAct {act : Act σ K α} (h : act.Ensures (Q · s) (E · s)) :
    (ofAct act : Change S σ K α).Ensures s Q E := fun ledger => h ledger

theorem run_bind (c : Change S σ K α) (f : α → Change S σ K β) (s : S × Ledger σ K) :
    (c >>= f).run.run s =
      match c.run.run s with
      | (.ok a, s) => (f a).run.run s
      | (.error e, s) => (.error e, s) := by
  show (ExceptT.bindCont f (c.run.run s).1).run (c.run.run s).2 = _
  rcases c.run.run s with ⟨r, s⟩
  cases r <;> rfl

theorem ensures_bind {c : Change S σ K α} {f : α → Change S σ K β} {P : β → S → Prop}
    (h : c.Ensures s (fun a s' => (f a).Ensures s' P E) E) : (c >>= f).Ensures s P E := by
  intro ledger
  have h := h ledger
  rw [run_bind]
  generalize c.run.run (s, ledger) = after at h ⊢
  obtain ⟨r, s', l⟩ := after
  cases r with
  | ok a => exact h l
  | error e => exact h

theorem ensures_lift_bind {r : Except (Fault K) α} {f : α → Change S σ K β} {P : β → S → Prop}
    (hf : ∀ a, r = .ok a → (f a).Ensures s P E) (hrefused : ∀ e, E e s) :
    (liftM r >>= f : Change S σ K β).Ensures s P E :=
  ensures_bind (ensures_lift ((Settles.self r).mono hf fun e _ => hrefused e))

/-- A call that nothing is known of: what follows does with whatever it gives, and a refusal
leaves the state. -/
theorem ensures_ofAct_bind {act : Act σ K α} {f : α → Change S σ K β} {P : β → S → Prop}
    (hf : ∀ a, (f a).Ensures s P E) (hrefused : ∀ e, E e s) : (ofAct act >>= f).Ensures s P E :=
  ensures_bind (ensures_ofAct (act.ensures_anything.mono (fun a _ => hf a) fun e _ => hrefused e))

theorem ensures_anything (c : Change S σ K α) (s : S) :
    c.Ensures s (fun _ _ => True) fun _ _ => True :=
  fun _ => (Settles.self _).mono (fun _ _ => trivial) fun _ _ => trivial

theorem Ensures.and {c : Change S σ K α} (h : c.Ensures s Q E) (h' : c.Ensures s Q' E') :
    c.Ensures s (fun a s' => Q a s' ∧ Q' a s') (fun f s' => E f s' ∧ E' f s') :=
  fun ledger => (h ledger).and (h' ledger)

/-- What a computation gives, it gives on some ledger. -/
theorem ensures_runOn (c : Change S σ K α) (s : S) :
    c.Ensures s (fun a s' => ∃ ledger ledger', (c.runOn s).run ledger = ((.ok a, s'), ledger'))
      fun f s' => ∃ ledger ledger', (c.runOn s).run ledger = ((.error f, s'), ledger') := by
  intro ledger
  have hrun : (c.runOn s).run ledger = (((c.run.run (s, ledger)).1, (c.run.run (s, ledger)).2.1),
      (c.run.run (s, ledger)).2.2) := rfl
  generalize c.run.run (s, ledger) = after at hrun ⊢
  obtain ⟨r, s', ledger'⟩ := after
  cases r with
  | ok a => exact ⟨ledger, ledger', hrun⟩
  | error f => exact ⟨ledger, ledger', hrun⟩

/-- What holds of the state afterwards, whether the change was refused or not. -/
theorem Ensures.after {c : Change S σ K α} {P : S → Prop}
    (h : c.Ensures s (fun _ s' => P s') fun _ s' => P s') (ledger : Ledger σ K) :
    P ((c.runOn s).run ledger).1.2 := by
  have hledger := h ledger
  show P (c.run.run (s, ledger)).2.1
  generalize c.run.run (s, ledger) = after at hledger ⊢
  obtain ⟨r, s', ledger'⟩ := after
  cases r with
  | ok a => exact hledger
  | error f => exact hledger

/-- What a change of a state ensures that nobody else sees. -/
theorem ensures_apply {c : Change S σ K α} {Q : α × S → Prop} {E : Fault K → Prop}
    (h : c.Ensures s (fun a s' => Q (a, s')) fun f _ => E f) : (c.apply s).Ensures Q E := by
  intro ledger
  have h := h ledger
  show Settles ((c.run.run (s, ledger)).1.map (·, (c.run.run (s, ledger)).2.1)) Q E
  generalize c.run.run (s, ledger) = after at h ⊢
  obtain ⟨r, s', ledger'⟩ := after
  cases r with
  | ok a => exact h
  | error f => exact h

theorem Ensures.of_runOn {c : Change S σ K α} (h : c.Ensures s Q E) {ledger ledger' : Ledger σ K}
    {r : Except (Fault K) α} {s' : S} (hr : (c.runOn s).run ledger = ((r, s'), ledger')) :
    Settles r (Q · s') (E · s') := by
  have h := h ledger
  have hr : ((c.run.run (s, ledger)).1, (c.run.run (s, ledger)).2.1,
      (c.run.run (s, ledger)).2.2) = (r, s', ledger') := by
    rw [Prod.ext_iff, Prod.ext_iff] at hr ⊢
    exact ⟨hr.1.1, hr.1.2, hr.2⟩
  rw [Prod.mk.injEq, Prod.mk.injEq] at hr
  rwa [hr.1, hr.2.1] at h

end Change

end Recourse
