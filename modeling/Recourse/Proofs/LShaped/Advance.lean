/-
  Proofs/LShaped/Advance.lean --- what a step can do, and what a run of steps keeps.

  A step leaves a run that is over, ends one that was asked to stop or whose time is up,
  and else runs a phase and moves to the phase that comes out (`ensures_step`).  What
  every step keeps, a run keeps (`ensures_runSteps`, `ensures_run`).
-/
import Recourse.LShaped.Step
import Recourse.Proofs.Effect

set_option autoImplicit false

namespace Recourse

variable {K σ : Type} [Scalar K] [Host σ K]

namespace LShaped

variable {m : LShaped σ K} {p : Program σ K} {s : State K}

/-! ## Steps -/

/-- Looking at the clock changes nothing. -/
theorem outOfTime_leaves {E : Fault K → Prop}
    (hclock : (Host.clock : Act σ K K).Ensures (fun _ => True) E) :
    (outOfTime m).Ensures s (fun _ s' => s' = s) fun f s' => s' = s ∧ E f := by
  unfold outOfTime
  split
  · exact Change.ensures_pure rfl
  · refine Change.ensures_bind (Change.ensures_ofAct (hclock.mono ?_ fun _ hf => ⟨rfl, hf⟩))
    exact fun _ _ => Change.ensures_bind (Change.ensures_state (Change.ensures_pure rfl))

variable {P : Phase → State K → Prop} {E : Fault K → State K → Prop}

/-- What is ensured of a phase, its state moved to the phase that comes out, and of the runs
that end is ensured of a step. -/
theorem ensures_step_of_clock
    (hclock : (Host.clock : Act σ K K).Ensures (fun _ => True) (E · s))
    (hover : s.isDone = true → P s.phase s)
    (hcancelled : s.isDone = false → s.cancelled = true →
      P .terminated { s with round := none, status := .iterationLimit, phase := .terminated })
    (hlate : s.isDone = false → P .terminated { s with status := .timeLimit, phase := .terminated })
    (hphase : s.isDone = false → (runPhase m p s.phase).Ensures s
      (fun next s' => P next { s' with phase := next }) E) :
    (step m p).Ensures s P E := by
  have hmove {c : Run σ K Phase} {s : State K}
      (hc : c.Ensures s (fun next s' => P next { s' with phase := next }) E) :
      (do
        let next ← c
        Change.update fun s => { s with phase := next }
        return next : Run σ K Phase).Ensures s P E :=
    Change.ensures_bind (hc.mono (fun _ _ hnext => Change.ensures_bind (Change.ensures_update
      (Change.ensures_pure hnext))) fun _ _ => id)
  unfold step
  refine Change.ensures_bind (Change.ensures_state ?_)
  split
  · rename_i hdone
    exact Change.ensures_pure (hover hdone)
  rename_i hopen
  have hrunning : s.isDone = false := Bool.eq_false_iff.2 hopen
  dsimp only
  split
  · rename_i hstop
    exact Change.ensures_bind (Change.ensures_update (hmove (Change.ensures_bind
      (Change.ensures_update (Change.ensures_pure (hcancelled hrunning hstop))))))
  · refine Change.ensures_bind ((outOfTime_leaves hclock).mono ?_ ?_)
    · rintro late _ rfl
      split
      · exact hmove (Change.ensures_bind (Change.ensures_update
          (Change.ensures_pure (hlate hrunning))))
      · exact hmove (hphase hrunning)
    · rintro f _ ⟨rfl, hf⟩
      exact hf

/-- The same of a clock that nothing is known of. -/
theorem ensures_step (hrefused : ∀ f, E f s) (hover : s.isDone = true → P s.phase s)
    (hcancelled : s.isDone = false → s.cancelled = true →
      P .terminated { s with round := none, status := .iterationLimit, phase := .terminated })
    (hlate : s.isDone = false → P .terminated { s with status := .timeLimit, phase := .terminated })
    (hphase : s.isDone = false → (runPhase m p s.phase).Ensures s
      (fun next s' => P next { s' with phase := next }) E) :
    (step m p).Ensures s P E :=
  ensures_step_of_clock ((Act.ensures_anything _).mono (fun _ => id) fun f _ => hrefused f)
    hover hcancelled hlate hphase

/-! ## Runs -/

variable {I : State K → Prop}

/-- What every step keeps, also where it is refused, any number of steps keep. -/
theorem ensures_runSteps
    (hstep : ∀ s, I s → (step m p).Ensures s (fun _ s' => I s') fun _ s' => I s') (n : Nat)
    (h : I s) : (runSteps m p n).Ensures s (fun _ s' => I s') fun _ s' => I s' := by
  induction n generalizing s with
  | zero => exact Change.ensures_pure h
  | succ n ih =>
    unfold runSteps
    refine Change.ensures_bind (Change.ensures_state ?_)
    split
    · exact Change.ensures_pure h
    · exact Change.ensures_bind ((hstep s h).mono (fun _ _ hs => ih hs) fun _ _ => id)

/-- And so does a run, which gives the status it ends with. -/
theorem ensures_run
    (hstep : ∀ s, I s → (step m p).Ensures s (fun _ s' => I s') fun _ s' => I s') (h : I s) :
    (run m p).Ensures s (fun status s' => I s' ∧ s'.status = status) fun _ s' => I s' :=
  Change.ensures_bind ((ensures_runSteps hstep _ h).mono
    (fun _ _ hs => Change.ensures_bind (Change.ensures_state (Change.ensures_pure ⟨hs, rfl⟩)))
    fun _ _ => id)

end LShaped

end Recourse
