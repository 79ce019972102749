/-
  Proofs/Transport/Job.lean --- jobs that share a state.

  A job is a sequence of atomic steps on a state that other jobs share: each step changes
  the state, and what comes next may depend on what the step saw.  A pool of jobs is worked
  on in any order, one step of one job at a time, until a schedule is used up; then the
  caller waits until every job is done (`interleave`).  Jobs that keep to a place of their
  own come to the same in every order, which is what each of them comes to alone
  (`interleave_within`): a step of a job leaves what the job will come to, and it leaves the
  places of the others.
-/
import Mathlib.Data.List.Basic
import Mathlib.Data.List.GetD

set_option autoImplicit false

namespace Recourse

/-- A job in progress: it is done, or its next step changes the state, and goes on with what it
saw of the state before. -/
inductive Job (S β : Type) where
  /-- The job is done. -/
  | done (b : β)
  /-- There is another step. -/
  | step (effect : S → S) (next : S → Job S β)

namespace Job

variable {S A β : Type}

/-- Take one step of a job. -/
def advance : Job S β → S → Job S β × S
  | done b, s => (done b, s)
  | step effect next, s => (next s, effect s)

/-- Take a job to its end, with no other job in between. -/
def finish : Job S β → S → β × S
  | done b, s => (b, s)
  | step effect next, s => (next s).finish (effect s)

/-- One step changes nothing about what the job comes to alone. -/
theorem finish_advance (j : Job S β) (s : S) :
    (j.advance s).1.finish (j.advance s).2 = j.finish s := by
  cases j <;> rfl

/-! ## Pools -/

/-- Take one step of the job with a number, if there is one. -/
def advanceAt (k : Nat) (pool : List (Job S β)) (s : S) : List (Job S β) × S :=
  match pool[k]? with
  | some j => (pool.set k (j.advance s).1, (j.advance s).2)
  | none => (pool, s)

/-- Take steps of the jobs that a schedule names, in its order. -/
def follow : List Nat → List (Job S β) → S → List (Job S β) × S
  | [], pool, s => (pool, s)
  | k :: schedule, pool, s =>
      let (pool, s) := advanceAt k pool s
      follow schedule pool s

/-- Take every job to its end. -/
def finishAll : List (Job S β) → S → List β × S
  | [], s => ([], s)
  | j :: pool, s =>
      let (b, s) := j.finish s
      let (bs, s) := finishAll pool s
      (b :: bs, s)

/-- Work on a pool of jobs in the order of a schedule, and wait for all of them. -/
def interleave (schedule : List Nat) (pool : List (Job S β)) (s : S) : List β × S :=
  let (pool, s) := follow schedule pool s
  finishAll pool s

/-! ## Places -/

/-- A state with places in it that jobs can keep to. -/
structure Places (S A : Type) where
  /-- What is in the places. -/
  read : S → List A
  /-- Put something else there. -/
  write : List A → S → S
  /-- What is put there is there. -/
  read_write : ∀ as s, read (write as s) = as
  /-- What was there before is gone. -/
  write_write : ∀ as bs s, write as (write bs s) = write as s
  /-- Putting there what is there changes nothing. -/
  write_read : ∀ s, write (read s) s = s

variable (P : Places S A) (e : A)

/-- What is in a place, if there is such a place. -/
def Places.get (k : Nat) (s : S) : A := (P.read s).getD k e

/-- Change what is in a place. -/
def Places.modify (k : Nat) (f : A → A) (s : S) : S := P.write ((P.read s).modify k f) s

/-- A job on the content of a place, as a job on the state. -/
def within (k : Nat) : Job A β → Job S β
  | done b => done b
  | step effect next => step (P.modify k effect) fun s => (next (P.get e k s)).within k

/-- Jobs on the contents of the places from number `k` on. -/
def withinEach : Nat → List (Job A β) → List (Job S β)
  | _, [] => []
  | k, j :: js => j.within P e k :: withinEach (k + 1) js

variable {P e} {s : S} {k : Nat} {a : A}

theorem Places.get_eq (h : (P.read s)[k]? = some a) : P.get e k s = a := by
  rw [get, List.getD_eq_getElem?_getD, h]
  rfl

theorem Places.modify_eq (f : A → A) (h : (P.read s)[k]? = some a) :
    P.modify k f s = P.write ((P.read s).set k (f a)) s := by
  rw [modify, List.modify_eq_set_getElem?, h]
  rfl

theorem Places.write_self (h : (P.read s)[k]? = some a) :
    P.write ((P.read s).set k a) s = s := by
  have hset : (P.read s).set k a = P.read s := by
    refine List.ext_getElem? fun i => ?_
    rw [List.getElem?_set]
    split
    · rename_i hk
      subst hk
      split
      · exact h.symm
      · rename_i hlength
        exact absurd (List.getElem?_eq_some_iff.1 h).1 hlength
    · rfl
  rw [hset, P.write_read]

/-- One step of a job on the content of a place is taken in that place. -/
theorem advance_within (j : Job A β) (h : (P.read s)[k]? = some a) :
    (j.within P e k).advance s =
      ((j.advance a).1.within P e k, P.write ((P.read s).set k (j.advance a).2) s) := by
  cases j with
  | done b =>
    rw [advance, P.write_self h]
    rfl
  | step effect next =>
    show ((next (P.get e k s)).within P e k, P.modify k effect s) = _
    rw [P.get_eq h, P.modify_eq effect h]
    rfl

/-- A job on the content of a place comes to what it comes to with that content alone. -/
theorem finish_within (j : Job A β) (h : (P.read s)[k]? = some a) :
    (j.within P e k).finish s =
      ((j.finish a).1, P.write ((P.read s).set k (j.finish a).2) s) := by
  induction j generalizing s a with
  | done b =>
    rw [within, finish, finish, P.write_self h]
  | step effect next ih =>
    have hk := (List.getElem?_eq_some_iff.1 h).1
    have hread : (P.read (P.modify k effect s))[k]? = some (effect a) := by
      rw [P.modify_eq effect h, P.read_write, List.getElem?_set_self hk]
    show ((next (P.get e k s)).within P e k).finish (P.modify k effect s) = _
    rw [P.get_eq h, ih a hread, P.modify_eq effect h, P.read_write, P.write_write, List.set_set]
    rfl

/-! ## Every order -/

theorem getElem?_withinEach (k i : Nat) (js : List (Job A β)) :
    (withinEach P e k js)[i]? = js[i]?.map (within P e (k + i)) := by
  induction js generalizing k i with
  | nil => rfl
  | cons j js ih =>
    cases i with
    | zero => rfl
    | succ i => rw [withinEach, List.getElem?_cons_succ, List.getElem?_cons_succ, ih,
        Nat.add_right_comm, Nat.add_assoc]

theorem set_withinEach (k i : Nat) (js : List (Job A β)) (j : Job A β) :
    (withinEach P e k js).set i (j.within P e (k + i)) =
      withinEach P e k (js.set i j) := by
  induction js generalizing k i with
  | nil => rfl
  | cons j' js ih =>
    cases i with
    | zero => rfl
    | succ i =>
      rw [withinEach, List.set_cons_succ, List.set_cons_succ, withinEach, ← ih, Nat.add_assoc,
        Nat.add_comm 1 i]

/-- Jobs that are taken to their ends one after the other come to what each comes to alone. -/
theorem finishAll_withinEach (js : List (Job A β)) (before as : List A)
    (hread : P.read s = before ++ as) (hlength : js.length = as.length) :
    finishAll (withinEach P e before.length js) s =
      ((List.zipWith finish js as).map (·.1),
        P.write (before ++ (List.zipWith finish js as).map (·.2)) s) := by
  induction js generalizing before as s with
  | nil =>
    obtain rfl := List.eq_nil_of_length_eq_zero hlength.symm
    show ([], s) = ([], P.write (before ++ []) s)
    rw [← hread, P.write_read]
  | cons j js ih =>
    obtain ⟨a, as, rfl⟩ := List.exists_cons_of_length_eq_add_one hlength.symm
    have hget : (P.read s)[before.length]? = some a := by simp [hread]
    have hset : (P.read s).set before.length (j.finish a).2 =
        (before ++ [(j.finish a).2]) ++ as := by simp [hread]
    have hrest := ih (before ++ [(j.finish a).2]) as
      (s := P.write ((P.read s).set before.length (j.finish a).2) s)
      (by rw [P.read_write, hset]) (Nat.succ.inj hlength)
    rw [List.length_append] at hrest
    rw [withinEach, finishAll, finish_within j hget]
    dsimp only
    rw [show before.length + 1 = before.length + [(j.finish a).2].length from rfl, hrest]
    simp [P.write_write]

/-- Whatever step is taken, what the jobs will come to stays. -/
theorem advanceAt_withinEach (k : Nat) (js : List (Job A β))
    (hlength : js.length = (P.read s).length) : ∃ js' as',
      advanceAt k (withinEach P e 0 js) s = (withinEach P e 0 js', P.write as' s) ∧
        js'.length = as'.length ∧
          List.zipWith finish js' as' = List.zipWith finish js (P.read s) := by
  unfold advanceAt
  rw [getElem?_withinEach, Nat.zero_add]
  by_cases hk : k < js.length
  · have hj := List.getElem?_eq_getElem hk
    have ha := List.getElem?_eq_getElem (hlength ▸ hk)
    rw [hj]
    generalize js[k] = j at hj
    generalize (P.read s)[k] = a at ha
    refine ⟨js.set k (j.advance a).1, (P.read s).set k (j.advance a).2, ?_, ?_, ?_⟩
    · have hset := set_withinEach (P := P) (e := e) 0 k js (j.advance a).1
      rw [Nat.zero_add] at hset
      rw [← hset]
      show ((withinEach P e 0 js).set k ((j.within P e k).advance s).1, _) = _
      rw [advance_within j ha]
    · rw [List.length_set, List.length_set, hlength]
    · refine List.ext_getElem? fun i => ?_
      rw [List.getElem?_zipWith, List.getElem?_zipWith, List.getElem?_set, List.getElem?_set]
      by_cases hi : k = i
      · subst hi
        rw [if_pos rfl, if_pos hk, if_pos rfl, if_pos (hlength ▸ hk), hj, ha]
        exact congrArg some (finish_advance j a)
      · rw [if_neg hi, if_neg hi]
  · rw [List.getElem?_eq_none (Nat.le_of_not_lt hk)]
    exact ⟨js, P.read s, by rw [P.write_read]; rfl, hlength, rfl⟩

theorem follow_withinEach (schedule : List Nat) (js : List (Job A β))
    (hlength : js.length = (P.read s).length) : ∃ js' as',
      follow schedule (withinEach P e 0 js) s = (withinEach P e 0 js', P.write as' s) ∧
        js'.length = as'.length ∧
          List.zipWith finish js' as' = List.zipWith finish js (P.read s) := by
  induction schedule generalizing js s with
  | nil => exact ⟨js, P.read s, by rw [P.write_read]; rfl, hlength, rfl⟩
  | cons k schedule ih =>
    obtain ⟨js₁, as₁, hstep, hlength₁, hsame₁⟩ := advanceAt_withinEach (e := e) k js hlength
    obtain ⟨js₂, as₂, hrest, hlength₂, hsame₂⟩ := ih (s := P.write as₁ s) js₁
      (by rw [P.read_write, hlength₁])
    refine ⟨js₂, as₂, ?_, hlength₂, ?_⟩
    · rw [follow, hstep]
      dsimp only
      rw [hrest, P.write_write]
    · rw [hsame₂, P.read_write, hsame₁]

/-- In whatever order jobs on places of their own are worked on, each comes to what it comes to
alone, and leaves that in its place. -/
theorem interleave_within (schedule : List Nat) (js : List (Job A β)) (s : S)
    (hlength : js.length = (P.read s).length) :
    interleave schedule (withinEach P e 0 js) s =
      ((List.zipWith finish js (P.read s)).map (·.1),
        P.write ((List.zipWith finish js (P.read s)).map (·.2)) s) := by
  obtain ⟨js', as', hfollow, hlength', hsame⟩ := follow_withinEach (e := e) schedule js
    hlength
  rw [interleave, hfollow]
  have hfinish := finishAll_withinEach (e := e) (s := P.write as' s) js' [] as'
    (P.read_write _ _) hlength'
  dsimp only
  rw [List.length_nil] at hfinish
  rw [hfinish, hsame, P.write_write]
  rfl

end Job

end Recourse
