/-
  Proofs/Mirror/Alike.lean --- two computations side by side.

  Two computations are alike when, started on the same ledger, they leave the same ledger
  and both give a result, these results being related, or both refuse, for the same reason.
  Computations that change a state start from a state and its mirror image and end in a
  state and its mirror image.  What they ask the environment for on the way is therefore
  the same and comes in the same order, whatever the environment records.
-/
import Recourse.Partition.Transport
import Recourse.Proofs.Effect
import Mathlib.Data.List.Forall2

set_option autoImplicit false

namespace Recourse

variable {S σ K α β γ δ : Type}

/-! ## Refusals and results -/

/-- Two refusals are alike: they are the same, or both are about the objective of the same
scenario, which runs against that of the first stage. -/
def Fault.Alike (f f' : Fault K) : Prop :=
  f' = f ∨ ∃ i goal goal' first first', f = .invalid (.mixedGoals i goal first) ∧
    f' = .invalid (.mixedGoals i goal' first')

theorem Fault.Alike.refl (f : Fault K) : f.Alike f := Or.inl rfl

/-- Two results are related, or two refusals are alike. -/
def Matches (r : Except (Fault K) α) (r' : Except (Fault K) β) (R : α → β → Prop) : Prop :=
  match r, r' with
  | .ok a, .ok b => R a b
  | .error f, .error f' => f.Alike f'
  | _, _ => False

namespace Matches

variable {R R' : α → β → Prop} {Q : γ → δ → Prop} {r : Except (Fault K) α}
  {r' : Except (Fault K) β}

theorem mono (h : Matches r r' R) (hR : ∀ a b, R a b → R' a b) : Matches r r' R' := by
  cases r <;> cases r'
  · exact h
  · exact h
  · exact h
  · exact hR _ _ h

theorem bind {f : α → Except (Fault K) γ} {f' : β → Except (Fault K) δ} (h : Matches r r' R)
    (hf : ∀ a b, R a b → Matches (f a) (f' b) Q) : Matches (r >>= f) (r' >>= f') Q := by
  cases r <;> cases r'
  · exact h
  · exact h.elim
  · exact h.elim
  · exact hf _ _ h

/-- A result is related to what a function makes of it. -/
theorem map (g : α → β) (r : Except (Fault K) α) : Matches r (r.map g) fun a b => b = g a := by
  cases r with
  | ok a => exact rfl
  | error f => exact Fault.Alike.refl f

theorem of_eq {g : α → β} (h : r' = r.map g) : Matches r r' fun a b => b = g a := h ▸ map g r

theorem refl (r : Except (Fault K) α) : Matches r r fun a b => b = a := by
  cases r with
  | ok a => exact rfl
  | error f => exact Fault.Alike.refl f

/-- Where one computation gives a result, the other one gives a related result. -/
theorem toOption {a : α} (h : Matches r r' R) (ha : r.toOption = some a) :
    ∃ b, r'.toOption = some b ∧ R a b := by
  cases r <;> cases r'
  · cases ha
  · cases ha
  · exact h.elim
  · exact ⟨_, rfl, Option.some.inj ha ▸ h⟩

/-- Results one by one match when they are taken together. -/
theorem mapM_id {rs : List (Except (Fault K) α)} {rs' : List (Except (Fault K) β)}
    (h : List.Forall₂ (fun r r' => Matches r r' R) rs rs') :
    Matches (rs.mapM id) (rs'.mapM id) (List.Forall₂ R) := by
  induction h with
  | nil => exact .nil
  | cons hr _ ih =>
    rw [List.mapM_cons, List.mapM_cons]
    refine hr.bind fun a b hab => ih.bind fun as bs habs => ?_
    exact .cons hab habs

end Matches

/-- Results that a function turns into one another, taken together. -/
theorem mapM_map_eq {ε : Type} {f : α → Except ε γ} {f' : β → Except ε δ} {g : α → β} {h : γ → δ}
    (as : List α) (hf : ∀ a ∈ as, f' (g a) = (f a).map h) :
    (as.map g).mapM f' = (as.mapM f).map (List.map h) := by
  induction as with
  | nil => rfl
  | cons a as ih =>
    rw [List.map_cons, List.mapM_cons, List.mapM_cons, hf a List.mem_cons_self,
      ih fun b hb => hf b (List.mem_cons_of_mem _ hb)]
    cases f a with
    | error e => rfl
    | ok c =>
      cases as.mapM f with
      | error e => rfl
      | ok cs => rfl

/-- Steps that a function turns into one another, taken one after the other. -/
theorem foldlM_map_eq {ε : Type} {f : α → γ → Except ε α} {f' : β → γ → Except ε β} {h : α → β}
    (hf : ∀ a c, f' (h a) c = (f a c).map h) (a : α) (cs : List γ) :
    cs.foldlM f' (h a) = (cs.foldlM f a).map h := by
  induction cs generalizing a with
  | nil => rfl
  | cons c cs ih =>
    rw [List.foldlM_cons, List.foldlM_cons, hf]
    cases f a c with
    | error e => rfl
    | ok b => exact ih b

/-! ## Computations on a ledger -/

namespace Act

/-- From the same ledger two computations come to the same ledger with results that match. -/
def Alike (act : Act σ K α) (act' : Act σ K β) (R : α → β → Prop) : Prop :=
  ∀ ledger, Matches (act.run.run ledger).1 (act'.run.run ledger).1 R ∧
    (act'.run.run ledger).2 = (act.run.run ledger).2

variable {R R' : α → β → Prop} {Q : γ → δ → Prop} {act : Act σ K α} {act' : Act σ K β}

theorem Alike.mono (h : act.Alike act' R) (hR : ∀ a b, R a b → R' a b) : act.Alike act' R' :=
  fun ledger => ⟨(h ledger).1.mono hR, (h ledger).2⟩

theorem Alike.refl (act : Act σ K α) : act.Alike act fun a b => b = a :=
  fun _ => ⟨.refl _, rfl⟩

theorem alike_pure {a : α} {b : β} (h : R a b) :
    (pure a : Act σ K α).Alike (pure b) R := fun _ => ⟨h, rfl⟩

theorem alike_fail {f f' : Fault K} (h : f.Alike f') :
    (fail f : Act σ K α).Alike (fail f' : Act σ K β) R := fun _ => ⟨h, rfl⟩

theorem alike_ofExcept {r : Except (Fault K) α} {r' : Except (Fault K) β} (h : Matches r r' R) :
    (ofExcept r : Act σ K α).Alike (ofExcept r') R := fun _ => ⟨h, rfl⟩

theorem alike_lift {r : Except (Fault K) α} {r' : Except (Fault K) β} (h : Matches r r' R) :
    (liftM r : Act σ K α).Alike (liftM r') R := by
  cases r <;> cases r'
  · exact fun _ => ⟨h, rfl⟩
  · exact h.elim
  · exact h.elim
  · exact fun _ => ⟨h, rfl⟩

theorem alike_bind {f : α → Act σ K γ} {f' : β → Act σ K δ} (h : act.Alike act' R)
    (hf : ∀ a b, R a b → (f a).Alike (f' b) Q) : (act >>= f).Alike (act' >>= f') Q := by
  intro ledger
  have h := h ledger
  rw [run_bind, run_bind]
  generalize act.run.run ledger = after at h ⊢
  generalize act'.run.run ledger = after' at h ⊢
  obtain ⟨r, l⟩ := after
  obtain ⟨r', l'⟩ := after'
  obtain ⟨hresult, hledger⟩ := h
  obtain rfl : l' = l := hledger
  cases r <;> cases r'
  · exact ⟨hresult, rfl⟩
  · exact hresult.elim
  · exact hresult.elim
  · exact hf _ _ hresult l'

/-- Where the second result is a function of the first. -/
theorem alike_bind_map {g : α → β} {f : α → Act σ K γ} {f' : β → Act σ K δ}
    (h : act.Alike act' fun a b => b = g a) (hf : ∀ a, (f a).Alike (f' (g a)) Q) :
    (act >>= f).Alike (act' >>= f') Q :=
  alike_bind h fun a _ hab => hab ▸ hf a

theorem alike_attempt (h : act.Alike act' R) :
    (attempt act).Alike (attempt act') fun r r' => Matches r r' R := h

/-- Running computations that are alike for item after item. -/
theorem alike_forEach {f : α → Act σ K γ} {f' : β → Act σ K δ} {as : List α} {bs : List β}
    (h : List.Forall₂ (fun a b => (f a).Alike (f' b) Q) as bs) :
    (forEach f as).Alike (forEach f' bs) (List.Forall₂ Q) := by
  induction h with
  | nil => exact alike_pure .nil
  | cons hab _ ih =>
    refine alike_bind hab fun c d hcd => alike_bind ih fun cs ds hcds => ?_
    exact alike_pure (.cons hcd hcds)

theorem run_map (g : α → β) (act : Act σ K α) (ledger : Ledger σ K) : (g <$> act).run.run ledger =
    ((act.run.run ledger).1.map g, (act.run.run ledger).2) := by
  rw [map_eq_pure_bind, run_bind]
  generalize act.run.run ledger = after
  obtain ⟨r, l⟩ := after
  cases r <;> rfl

/-- A computation with its result changed is alike. -/
theorem alike_map (g : α → β) (act : Act σ K α) : act.Alike (g <$> act) fun a b => b = g a := by
  intro ledger
  rw [run_map]
  exact ⟨.map g _, rfl⟩

theorem alike_of_eq {g : α → β} (h : act' = g <$> act) : act.Alike act' fun a b => b = g a :=
  h ▸ alike_map g act

theorem attempt_map (g : α → β) (act : Act σ K α) :
    attempt (g <$> act) = (·.map g) <$> attempt act := by
  refine funext fun ledger => ?_
  show ((Except.ok ((g <$> act).run.run ledger).1 : Except (Fault K) _),
    ((g <$> act).run.run ledger).2) = ((·.map g) <$> attempt act).run.run ledger
  rw [run_map, run_map]
  rfl

/-- Running changed computations for item after item. -/
theorem forEach_map {f : α → Act σ K γ} {f' : β → Act σ K δ} {g : α → β} {h : γ → δ}
    (as : List α) (hf : ∀ a ∈ as, f' (g a) = h <$> f a) :
    forEach f' (as.map g) = (·.map h) <$> forEach f as := by
  induction as with
  | nil => rfl
  | cons a as ih =>
    rw [List.map_cons, forEach, forEach, hf a List.mem_cons_self,
      ih fun a ha => hf a (List.mem_cons_of_mem _ ha)]
    simp only [map_eq_pure_bind, bind_assoc, pure_bind, List.map_cons]

theorem ofExcept_map (g : α → β) (r : Except (Fault K) α) :
    (ofExcept (r.map g) : Act σ K β) = g <$> ofExcept r := by
  refine funext fun ledger => ?_
  show _ = (g <$> ofExcept r).run.run ledger
  rw [run_map]
  rfl

end Act

/-! ## Jobs -/

namespace Transport

variable {f : α → Act σ K γ} {f' : β → Act σ K δ}

/-- Jobs that are alike, run for item after item. -/
theorem alike_map {Q : γ → δ → Prop} (t : Transport) {as : List α} {bs : List β}
    (h : List.Forall₂ (fun a b => (f a).Alike (f' b) Q) as bs) :
    (t.map f as).Alike (t.map f' bs) (List.Forall₂ Q) := by
  cases t with
  | sequential => exact Act.alike_forEach h
  | threads n =>
    refine Act.alike_bind (Act.alike_forEach (h.imp fun a b hab => Act.alike_attempt hab)) ?_
    intro rs rs' hrs
    exact Act.alike_ofExcept (.mapM_id hrs)

/-- Changed jobs, run for item after item. -/
theorem map_map (t : Transport) {g : α → β} {h : γ → δ} (as : List α)
    (hf : ∀ a, f' (g a) = h <$> f a) : t.map f' (as.map g) = (·.map h) <$> t.map f as := by
  cases t with
  | sequential => exact Act.forEach_map as fun a _ => hf a
  | threads n =>
    have hresults : Act.forEach (fun b => Act.attempt (f' b)) (as.map g) =
        (·.map (·.map h)) <$> Act.forEach (fun a => Act.attempt (f a)) as := by
      refine Act.forEach_map as fun a _ => ?_
      rw [hf, Act.attempt_map]
    have htogether (rs : List (Except (Fault K) γ)) :
        (rs.map (·.map h)).mapM (fun r => r) = (rs.mapM fun r => r).map (List.map h) :=
      mapM_map_eq rs fun r _ => rfl
    show Act.forEach _ (as.map g) >>= _ = _ <$> (Act.forEach _ as >>= _)
    rw [hresults]
    simp only [map_eq_pure_bind, bind_assoc, pure_bind]
    refine congrArg (Act.forEach (fun a => Act.attempt (f a)) as >>= ·) (funext fun rs => ?_)
    rw [← map_eq_pure_bind, ← Act.ofExcept_map]
    exact congrArg Act.ofExcept (htogether rs)

/-- Jobs on what a function gives. -/
theorem map_comp (t : Transport) (f : β → Act σ K γ) (g : α → β) (as : List α) :
    t.map f (as.map g) = t.map (fun a => f (g a)) as := by
  have h : t.map f (as.map g) = (·.map fun c => c) <$> t.map (fun a => f (g a)) as :=
    t.map_map as fun a => (id_map' (f (g a))).symm
  simp only [List.map_id'] at h
  rwa [id_map'] at h

end Transport

/-! ## Computations that change a state -/

namespace Change

/-- From a state and its mirror image two computations come to a state and its mirror image,
on the same ledger and with results that match. -/
def Alike (μ : S → S) (c : Change S σ K α) (c' : Change S σ K β) (R : α → β → Prop) : Prop :=
  ∀ s ledger, Matches (c.run.run (s, ledger)).1 (c'.run.run (μ s, ledger)).1 R ∧
    (c'.run.run (μ s, ledger)).2 = (μ (c.run.run (s, ledger)).2.1, (c.run.run (s, ledger)).2.2)

variable {μ : S → S} {R : α → β → Prop} {Q : γ → δ → Prop} {c : Change S σ K α}
  {c' : Change S σ K β}

theorem alike_pure {a : α} {b : β} (h : R a b) :
    (pure a : Change S σ K α).Alike μ (pure b) R := fun _ _ => ⟨h, rfl⟩

theorem alike_fail {f f' : Fault K} (h : f.Alike f') :
    (fail f : Change S σ K α).Alike μ (fail f' : Change S σ K β) R := fun _ _ => ⟨h, rfl⟩

theorem alike_state : (state : Change S σ K S).Alike μ state fun s s' => s' = μ s :=
  fun _ _ => ⟨rfl, rfl⟩

theorem alike_update {f f' : S → S} (h : ∀ s, f' (μ s) = μ (f s)) :
    (update f : Change S σ K Unit).Alike μ (update f') fun a b => b = a :=
  fun s _ => ⟨rfl, congrArg (·, _) (h s)⟩

theorem alike_lift {r : Except (Fault K) α} {r' : Except (Fault K) β} (h : Matches r r' R) :
    (liftM r : Change S σ K α).Alike μ (liftM r') R := by
  cases r <;> cases r'
  · exact fun _ _ => ⟨h, rfl⟩
  · exact h.elim
  · exact h.elim
  · exact fun _ _ => ⟨h, rfl⟩

theorem alike_ofAct {act : Act σ K α} {act' : Act σ K β} (h : act.Alike act' R) :
    (ofAct act : Change S σ K α).Alike μ (ofAct act') R :=
  fun s ledger => ⟨(h ledger).1, congrArg (μ s, ·) (h ledger).2⟩

theorem alike_bind {f : α → Change S σ K γ} {f' : β → Change S σ K δ} (h : c.Alike μ c' R)
    (hf : ∀ a b, R a b → (f a).Alike μ (f' b) Q) : (c >>= f).Alike μ (c' >>= f') Q := by
  intro s ledger
  have h := h s ledger
  rw [run_bind, run_bind]
  generalize c.run.run (s, ledger) = after at h ⊢
  generalize c'.run.run (μ s, ledger) = after' at h ⊢
  obtain ⟨r, t, l⟩ := after
  obtain ⟨r', t', l'⟩ := after'
  obtain ⟨hresult, hstate⟩ := h
  obtain ⟨rfl, rfl⟩ := Prod.mk.inj hstate
  cases r <;> cases r'
  · exact ⟨hresult, rfl⟩
  · exact hresult.elim
  · exact hresult.elim
  · exact hf _ _ hresult t l'

/-- Where the second result is a function of the first. -/
theorem alike_bind_map {g : α → β} {f : α → Change S σ K γ} {f' : β → Change S σ K δ}
    (h : c.Alike μ c' fun a b => b = g a) (hf : ∀ a, (f a).Alike μ (f' (g a)) Q) :
    (c >>= f).Alike μ (c' >>= f') Q :=
  alike_bind h fun a _ hab => hab ▸ hf a

/-- Changes of a state that nobody else sees. -/
theorem alike_apply (h : c.Alike μ c' R) (s : S) :
    (c.apply s).Alike (c'.apply (μ s)) fun a b => R a.1 b.1 ∧ b.2 = μ a.2 := by
  intro ledger
  have h := h s ledger
  show Matches ((c.run.run (s, ledger)).1.map (·, (c.run.run (s, ledger)).2.1))
    ((c'.run.run (μ s, ledger)).1.map (·, (c'.run.run (μ s, ledger)).2.1)) _ ∧
    (c'.run.run (μ s, ledger)).2.2 = (c.run.run (s, ledger)).2.2
  generalize c.run.run (s, ledger) = after at h ⊢
  generalize c'.run.run (μ s, ledger) = after' at h ⊢
  obtain ⟨r, t, l⟩ := after
  obtain ⟨r', t', l'⟩ := after'
  obtain ⟨hresult, hstate⟩ := h
  obtain ⟨rfl, rfl⟩ := Prod.mk.inj hstate
  cases r <;> cases r'
  · exact ⟨hresult, rfl⟩
  · exact hresult.elim
  · exact hresult.elim
  · exact ⟨⟨hresult, rfl⟩, rfl⟩

/-- Changes of a state that nobody else sees, and what follows. -/
theorem alike_apply_bind {f : α × S → Act σ K γ} {f' : β × S → Act σ K δ} (h : c.Alike μ c' R)
    (s : S) (hf : ∀ a b t, R a b → (f (a, t)).Alike (f' (b, μ t)) Q) :
    (c.apply s >>= f).Alike (c'.apply (μ s) >>= f') Q := by
  refine Act.alike_bind (alike_apply h s) ?_
  rintro ⟨a, t⟩ ⟨b, t'⟩ ⟨hab, ht⟩
  obtain rfl : t' = μ t := ht
  exact hf a b t hab

end Change

end Recourse
