/-
  Proofs/Layout/Agreement.lean --- computations that agree.

  Two computations agree when, started on the same ledger, both give results, these being
  related, or both refuse, for the same reason.  With results the ledgers agree as well: the
  same was asked of the environment, in the same order.  A refusal need not leave the same
  ledger behind unless the agreement is strict, for jobs that run in parallel run on when one
  of them has failed.  The rules follow the way computations are put together.
-/
import Recourse.Partition.Transport
import Recourse.Proofs.Effect
import Mathlib.Data.List.Forall2

set_option autoImplicit false

namespace Recourse

variable {S S' T T' σ K α β γ δ : Type} {strict strict' : Prop}

/-! ## Results and refusals -/

/-- Two results are related, or there are two refusals for the same reason, and then `E`. -/
def Agree (r : Except (Fault K) α) (r' : Except (Fault K) β) (R : α → β → Prop) (E : Prop) : Prop :=
  match r, r' with
  | .ok a, .ok b => R a b
  | .error f, .error f' => f' = f ∧ E
  | _, _ => False

namespace Agree

variable {R R' : α → β → Prop} {E E' : Prop} {r : Except (Fault K) α} {r' : Except (Fault K) β}

theorem mono (h : Agree r r' R E) (hR : ∀ a b, R a b → R' a b) (hE : E → E') : Agree r r' R' E' := by
  cases r <;> cases r'
  · exact ⟨h.1, hE h.2⟩
  · exact h
  · exact h
  · exact hR _ _ h

/-- What holds of the second result as well. -/
theorem and_right {Q : β → Prop} {D : Fault K → Prop} (h : Agree r r' R E) (h' : Settles r' Q D) :
    Agree r r' (fun a b => R a b ∧ Q b) E := by
  cases r <;> cases r'
  · exact h
  · exact h
  · exact h
  · exact ⟨h, h'⟩

theorem symm (h : Agree r r' R E) : Agree r' r (fun b a => R a b) E := by
  cases r <;> cases r'
  · exact ⟨h.1.symm, h.2⟩
  · exact h
  · exact h
  · exact h

theorem trans {r'' : Except (Fault K) γ} {R' : β → γ → Prop} (h : Agree r r' R E)
    (h' : Agree r' r'' R' E) : Agree r r'' (fun a c => ∃ b, R a b ∧ R' b c) E := by
  cases r <;> cases r' <;> cases r''
  · exact ⟨h'.1.trans h.1, h.2⟩
  · exact h'
  · exact h.elim
  · exact h.elim
  · exact h.elim
  · exact h.elim
  · exact h'
  · exact ⟨_, h, h'⟩

theorem refl (r : Except (Fault K) α) : Agree r r (fun a b => b = a) True := by
  cases r with
  | ok a => exact rfl
  | error f => exact ⟨rfl, trivial⟩

theorem isOk_eq (h : Agree r r' R E) : r'.isOk = r.isOk := by
  cases r <;> cases r'
  · rfl
  · exact h.elim
  · exact h.elim
  · rfl

/-- Where results are the same, so is what is refused. -/
theorem eq {r' : Except (Fault K) α} {R : α → α → Prop} (h : Agree r r' R E)
    (hR : ∀ a b, R a b → b = a) : r' = r := by
  cases r <;> cases r'
  · exact congrArg Except.error h.1
  · exact h.elim
  · exact h.elim
  · exact congrArg Except.ok (hR _ _ h)

end Agree

/-! ## Computations on a ledger -/

namespace Act

/-- From the same ledger two computations agree, and with results, or if the agreement is
strict, they come to the same ledger. -/
def Agrees (strict : Prop) (act : Act σ K α) (act' : Act σ K β) (R : α → β → Prop) : Prop :=
  ∀ ledger, Agree (act.run.run ledger).1 (act'.run.run ledger).1 R True ∧
    (strict ∨ (act.run.run ledger).1.isOk = true →
      (act'.run.run ledger).2 = (act.run.run ledger).2)

variable {R R' : α → β → Prop} {Q : γ → δ → Prop} {act : Act σ K α} {act' : Act σ K β}

theorem Agrees.mono (h : act.Agrees strict act' R) (hR : ∀ a b, R a b → R' a b) :
    act.Agrees strict act' R' :=
  fun ledger => ⟨(h ledger).1.mono hR id, (h ledger).2⟩

/-- The stricter an agreement is, the more it says. -/
theorem Agrees.weaken (h : act.Agrees strict act' R) (hstrict : strict' → strict) :
    act.Agrees strict' act' R :=
  fun ledger => ⟨(h ledger).1, fun hsame => (h ledger).2 (hsame.imp_left hstrict)⟩

/-- An agreement with a computation that is never refused is strict. -/
theorem Agrees.strengthen {P : β → Prop} (h : act.Agrees strict act' R)
    (hact : act'.Ensures P fun _ => False) : act.Agrees True act' fun a b => R a b ∧ P b := by
  intro ledger
  obtain ⟨hresult, hledger⟩ := h ledger
  have hact := hact ledger
  refine ⟨hresult.and_right hact, fun _ => hledger (.inr (hresult.isOk_eq.symm.trans ?_))⟩
  generalize (act'.run.run ledger).1 = r at hact ⊢
  cases r with
  | ok a => rfl
  | error f => exact hact.elim

theorem Agrees.refl (act : Act σ K α) : act.Agrees strict act fun a b => b = a :=
  fun _ => ⟨.refl _, fun _ => rfl⟩

theorem Agrees.of_eq {act' : Act σ K α} (h : act' = act) :
    act.Agrees strict act' fun a b => b = a := by
  rw [h]
  exact .refl act

theorem Agrees.symm (h : act.Agrees strict act' R) : act'.Agrees strict act fun b a => R a b :=
  fun ledger => ⟨(h ledger).1.symm, fun hsame =>
    ((h ledger).2 (hsame.imp_right (h ledger).1.isOk_eq.symm.trans)).symm⟩

theorem Agrees.trans {act'' : Act σ K γ} {R' : β → γ → Prop} (h : act.Agrees strict act' R)
    (h' : act'.Agrees strict act'' R') :
    act.Agrees strict act'' fun a c => ∃ b, R a b ∧ R' b c :=
  fun ledger => ⟨(h ledger).1.trans (h' ledger).1, fun hsame =>
    ((h' ledger).2 (hsame.imp_right (h ledger).1.isOk_eq.trans)).trans ((h ledger).2 hsame)⟩

theorem agrees_pure {a : α} {b : β} (h : R a b) :
    (pure a : Act σ K α).Agrees strict (pure b) R := fun _ => ⟨h, fun _ => rfl⟩

theorem agrees_fail (f : Fault K) :
    (fail f : Act σ K α).Agrees strict (fail f : Act σ K β) R :=
  fun _ => ⟨⟨rfl, trivial⟩, fun _ => rfl⟩

theorem agrees_bind {f : α → Act σ K γ} {f' : β → Act σ K δ}
    (h : act.Agrees strict act' fun a b => (f a).Agrees strict (f' b) Q) :
    (act >>= f).Agrees strict (act' >>= f') Q := by
  intro ledger
  have h := h ledger
  rw [run_bind, run_bind]
  generalize act.run.run ledger = after at h ⊢
  generalize act'.run.run ledger = after' at h ⊢
  obtain ⟨r, l⟩ := after
  obtain ⟨r', l'⟩ := after'
  obtain ⟨hresult, hledger⟩ := h
  cases r <;> cases r'
  · exact ⟨hresult, hledger⟩
  · exact hresult.elim
  · exact hresult.elim
  · obtain rfl : l' = l := hledger (.inr rfl)
    exact hresult l'

/-- Two computations that go on differently with what one and the same computation gives. -/
theorem agrees_bind_same {P : α → Prop} {D : Fault K → Prop} {f : α → Act σ K γ}
    {f' : α → Act σ K δ} (hact : act.Ensures P D)
    (hf : ∀ a, P a → (f a).Agrees strict (f' a) Q) :
    (act >>= f).Agrees strict (act >>= f') Q := by
  refine agrees_bind fun ledger => ?_
  have hact := hact ledger
  refine ⟨?_, fun _ => rfl⟩
  generalize (act.run.run ledger).1 = r at hact ⊢
  cases r with
  | ok a => exact hf a hact
  | error f => exact ⟨rfl, trivial⟩

/-- Running a computation for the items of two lists is running it for those of the first and
then for those of the second. -/
theorem forEach_append (f : α → Act σ K β) (as bs : List α) : forEach f (as ++ bs) =
    forEach f as >>= fun cs => forEach f bs >>= fun ds => pure (cs ++ ds) := by
  induction as with
  | nil => simp only [List.nil_append, forEach, pure_bind, bind_pure]
  | cons a as ih =>
    simp only [List.cons_append, forEach, ih, bind_assoc, pure_bind]

theorem forEach_map_items (f : β → Act σ K γ) (g : α → β) (as : List α) :
    forEach f (as.map g) = forEach (fun a => f (g a)) as := by
  induction as with
  | nil => rfl
  | cons a as ih => rw [List.map_cons, forEach, forEach, ih]

/-- There is a result for every item. -/
theorem forEach_length (f : α → Act σ K β) (as : List α) :
    (forEach f as).Ensures (fun bs => bs.length = as.length) fun _ => True := by
  have hall : ∀ a ∈ as, (f a).Ensures (fun _ => True) fun _ => True :=
    fun a _ _ => (Settles.self _).mono (fun _ _ => trivial) fun _ _ => trivial
  exact (ensures_forEach as hall).mono (fun _ hbs => hbs.length_eq.symm) fun _ h => h

/-- A computation whose failure is a result, and then one that refuses for the reason of that
failure. -/
theorem agrees_attempt_bind {f : Except (Fault K) α → Act σ K γ} {f' : α → Act σ K δ}
    (hok : ∀ a, (f (.ok a)).Agrees False (f' a) Q)
    (hfail : ∀ e, (f (.error e)).Ensures (fun _ => False) fun e' => e' = e) :
    (attempt act >>= f).Agrees False (act >>= f') Q := by
  intro ledger
  have hattempt : (attempt act).run.run ledger =
      (.ok (act.run.run ledger).1, (act.run.run ledger).2) := rfl
  rw [run_bind, run_bind, hattempt]
  generalize act.run.run ledger = after
  obtain ⟨r, l⟩ := after
  cases r with
  | ok a => exact hok a l
  | error e =>
    have hfail := hfail e l
    dsimp only
    generalize ((f (.error e)).run.run l) = after at hfail ⊢
    obtain ⟨r, l'⟩ := after
    cases r with
    | ok c => exact hfail.elim
    | error e' =>
      obtain rfl : e' = e := hfail
      exact ⟨⟨rfl, trivial⟩, fun h => h.elim False.elim fun h => absurd h Bool.false_ne_true⟩

end Act

/-! ## Jobs -/

/-- Jobs that are all run, whatever becomes of them, come to what they come to one after the
other. -/
theorem Act.agrees_forEach_attempt (f : α → Act σ K β) (items : List α) :
    (forEach (fun x => attempt (f x)) items >>= fun rs => ofExcept (rs.mapM id)).Agrees False
      (forEach f items) fun a b => b = a := by
  induction items with
  | nil => exact fun _ => ⟨rfl, fun _ => rfl⟩
  | cons x items ih =>
    simp only [forEach, bind_assoc, pure_bind]
    refine agrees_attempt_bind (fun b => ?_) fun e => ?_
    · have hrest : (forEach (fun x => attempt (f x)) items >>= fun rs =>
          (ofExcept ((.ok b :: rs).mapM id) : Act σ K (List β))) =
          (forEach (fun x => attempt (f x)) items >>= fun rs => ofExcept (rs.mapM id)) >>=
            fun bs => pure (b :: bs) := by
        rw [bind_assoc]
        refine congrArg _ (funext fun rs => ?_)
        rw [List.mapM_cons]
        cases rs.mapM id <;> rfl
      rw [hrest]
      refine agrees_bind (ih.mono ?_)
      rintro bs _ rfl
      exact agrees_pure rfl
    · refine ensures_bind ((ensures_forEach (R := fun _ _ => True) items ?_).mono ?_ fun _ h => h)
      · exact fun a _ _ => trivial
      · intro rs _
        rw [List.mapM_cons]
        exact fun _ => rfl

/-- However jobs are run, they come to what they come to one after the other.  Only after a
failure is there more that was asked of the environment. -/
theorem Transport.agrees_forEach (t : Transport) (f : α → Act σ K β) (items : List α) :
    (t.map f items).Agrees (t = .sequential) (Act.forEach f items) fun a b => b = a := by
  cases t with
  | sequential => exact .refl _
  | threads n => exact (Act.agrees_forEach_attempt f items).weaken fun h => by cases h

theorem Act.forEach_pure (g : α → β) (as : List α) :
    Act.forEach (fun a => (pure (g a) : Act σ K β)) as = pure (as.map g) := by
  induction as with
  | nil => rfl
  | cons a as ih => rw [Act.forEach, ih]; rfl

theorem Act.forEach_ofExcept (g : α → Except (Fault K) β) (as : List α) :
    Act.forEach (fun a => (Act.ofExcept (g a) : Act σ K β)) as = .ofExcept (as.mapM g) := by
  induction as with
  | nil => rfl
  | cons a as ih =>
    rw [Act.forEach, ih, List.mapM_cons]
    cases g a with
    | error f => rfl
    | ok b => cases as.mapM g <;> rfl

/-- However jobs without effects are run, what surfaces is the first failure among them. -/
theorem Transport.map_ofExcept (t : Transport) (g : α → Except (Fault K) β) (as : List α) :
    t.map (fun a => (Act.ofExcept (g a) : Act σ K β)) as = .ofExcept (as.mapM g) := by
  cases t with
  | sequential => exact Act.forEach_ofExcept g as
  | threads n =>
    show (Act.forEach (fun a => Act.attempt (Act.ofExcept (g a))) as >>= fun rs =>
      Act.ofExcept (rs.mapM id)) = _
    have hattempt (a : α) : Act.attempt (Act.ofExcept (g a) : Act σ K β) = pure (g a) := rfl
    rw [funext hattempt, Act.forEach_pure, pure_bind, List.mapM_map]
    rfl

/-! ## Computations that change a state -/

namespace Change

/-- From two states and the same ledger two computations agree: they come to states related by
`R` with their results, or by `E` with a refusal.  With results, or if the agreement is
strict, they come to the same ledger. -/
def Agrees (strict : Prop) (c : Change S σ K α) (c' : Change S' σ K β) (s : S) (s' : S')
    (R : α → S → β → S' → Prop) (E : S → S' → Prop) : Prop :=
  ∀ ledger, Agree (c.run.run (s, ledger)).1 (c'.run.run (s', ledger)).1
      (fun a b => R a (c.run.run (s, ledger)).2.1 b (c'.run.run (s', ledger)).2.1)
      (E (c.run.run (s, ledger)).2.1 (c'.run.run (s', ledger)).2.1) ∧
    (strict ∨ (c.run.run (s, ledger)).1.isOk = true →
      (c'.run.run (s', ledger)).2.2 = (c.run.run (s, ledger)).2.2)

variable {s : S} {s' : S'} {R R' : α → S → β → S' → Prop} {Q : γ → S → δ → S' → Prop}
  {E E' : S → S' → Prop} {c : Change S σ K α} {c' : Change S' σ K β}

theorem Agrees.mono (h : c.Agrees strict c' s s' R E) (hR : ∀ a t b t', R a t b t' → R' a t b t')
    (hE : ∀ t t', E t t' → E' t t') : c.Agrees strict c' s s' R' E' :=
  fun ledger => ⟨(h ledger).1.mono (fun _ _ => hR _ _ _ _) (hE _ _), (h ledger).2⟩

theorem Agrees.weaken (h : c.Agrees strict c' s s' R E) (hstrict : strict' → strict) :
    c.Agrees strict' c' s s' R E :=
  fun ledger => ⟨(h ledger).1, fun hsame => (h ledger).2 (hsame.imp_left hstrict)⟩

theorem agrees_pure {a : α} {b : β} (h : R a s b s') :
    (pure a : Change S σ K α).Agrees strict (pure b) s s' R E := fun _ => ⟨h, fun _ => rfl⟩

theorem agrees_fail {f : Fault K} (h : E s s') :
    (fail f : Change S σ K α).Agrees strict (fail f : Change S' σ K β) s s' R E :=
  fun _ => ⟨⟨rfl, h⟩, fun _ => rfl⟩

/-- Changes that ask nothing of the environment. -/
theorem agrees_of_run {a : α} {b : β} {t : S} {t' : S'}
    (h : ∀ ledger, c.run.run (s, ledger) = (.ok a, t, ledger))
    (h' : ∀ ledger, c'.run.run (s', ledger) = (.ok b, t', ledger)) (hR : R a t b t') :
    c.Agrees strict c' s s' R E := by
  intro ledger
  rw [h, h']
  exact ⟨hR, fun _ => rfl⟩

theorem agrees_state {R : S → S → S' → S' → Prop} (h : R s s s' s') :
    (state : Change S σ K S).Agrees strict state s s' R E := fun _ => ⟨h, fun _ => rfl⟩

theorem agrees_update {f : S → S} {f' : S' → S'} {R : Unit → S → Unit → S' → Prop}
    (h : R () (f s) () (f' s')) :
    (update f : Change S σ K Unit).Agrees strict (update f') s s' R E := fun _ => ⟨h, fun _ => rfl⟩

/-- One result without effects. -/
theorem agrees_lift_eq {r r' : Except (Fault K) α} {R : α → S → α → S' → Prop} (hr : r' = r)
    (hE : E s s') (hR : ∀ a, r = .ok a → R a s a s') :
    (liftM r : Change S σ K α).Agrees strict (liftM r') s s' R E := by
  rw [hr]
  cases r with
  | ok a => exact agrees_pure (hR a rfl)
  | error f => exact agrees_fail hE

theorem agrees_ofAct {act : Act σ K α} {act' : Act σ K β} {P : α → β → Prop}
    (h : act.Agrees strict act' P) (hE : E s s') (hP : ∀ a b, P a b → R a s b s') :
    (ofAct act : Change S σ K α).Agrees strict (ofAct act') s s' R E :=
  fun ledger => ⟨(h ledger).1.mono hP fun _ => hE, (h ledger).2⟩

theorem agrees_bind {f : α → Change S σ K γ} {f' : β → Change S' σ K δ}
    (h : c.Agrees strict c' s s'
      (fun a t b t' => (f a).Agrees strict (f' b) t t' Q E) E) :
    (c >>= f).Agrees strict (c' >>= f') s s' Q E := by
  intro ledger
  have h := h ledger
  rw [run_bind, run_bind]
  generalize c.run.run (s, ledger) = after at h ⊢
  generalize c'.run.run (s', ledger) = after' at h ⊢
  obtain ⟨r, t, l⟩ := after
  obtain ⟨r', t', l'⟩ := after'
  obtain ⟨hresult, hledger⟩ := h
  cases r <;> cases r'
  · exact ⟨hresult, hledger⟩
  · exact hresult.elim
  · exact hresult.elim
  · obtain rfl : l' = l := hledger (.inr rfl)
    exact hresult l'

theorem runOn_run (c : Change S σ K α) (s : S) (ledger : Ledger σ K) : (c.runOn s).run ledger =
    (((c.run.run (s, ledger)).1, (c.run.run (s, ledger)).2.1), (c.run.run (s, ledger)).2.2) := rfl

/-- Changes of states that nobody else sees. -/
theorem agrees_apply (h : c.Agrees strict c' s s' R E) :
    (c.apply s).Agrees strict (c'.apply s') fun a b => R a.1 a.2 b.1 b.2 := by
  intro ledger
  have h := h ledger
  show Agree ((c.run.run (s, ledger)).1.map (·, (c.run.run (s, ledger)).2.1))
      ((c'.run.run (s', ledger)).1.map (·, (c'.run.run (s', ledger)).2.1)) _ True ∧
    (strict ∨ ((c.run.run (s, ledger)).1.map (·, (c.run.run (s, ledger)).2.1)).isOk = true →
      (c'.run.run (s', ledger)).2.2 = (c.run.run (s, ledger)).2.2)
  generalize c.run.run (s, ledger) = after at h ⊢
  generalize c'.run.run (s', ledger) = after' at h ⊢
  obtain ⟨r, t, l⟩ := after
  obtain ⟨r', t', l'⟩ := after'
  obtain ⟨hresult, hledger⟩ := h
  cases r <;> cases r'
  · exact ⟨⟨hresult.1, trivial⟩, hledger⟩
  · exact hresult.elim
  · exact hresult.elim
  · exact ⟨hresult, hledger⟩

/-! ### One state -/

/-- From every state two computations come to the same state with the same result or the same
refusal, and to the same ledger where `Agrees` says so. -/
def Coincides (strict : Prop) (c c' : Change S σ K α) : Prop :=
  ∀ s, c.Agrees strict c' s s (fun a t b t' => b = a ∧ t' = t) fun t t' => t' = t

theorem Coincides.of_eq {c c' : Change S σ K α} (h : c' = c) : c.Coincides strict c' := by
  rw [h]
  intro s ledger
  refine ⟨?_, fun _ => rfl⟩
  generalize (c.run.run (s, ledger)).1 = r
  cases r with
  | ok a => exact ⟨rfl, rfl⟩
  | error f => exact ⟨rfl, rfl⟩

theorem Coincides.bind {c c' : Change S σ K α} {f f' : α → Change S σ K γ}
    (h : c.Coincides strict c') (hf : ∀ a, (f a).Coincides strict (f' a)) :
    (c >>= f).Coincides strict (c' >>= f') := by
  refine fun s => agrees_bind ((h s).mono ?_ fun _ _ h => h)
  rintro a t b t' ⟨hb, ht⟩
  rw [hb, ht]
  exact hf a t

theorem Coincides.ofAct {act act' : Act σ K α} (h : act.Agrees strict act' fun a b => b = a) :
    (ofAct act : Change S σ K α).Coincides strict (ofAct act') :=
  fun _ => agrees_ofAct h rfl fun _ _ hab => ⟨hab, rfl⟩

end Change

end Recourse
