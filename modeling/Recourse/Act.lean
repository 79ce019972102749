/-
  Act.lean --- computations that call what lies outside the library.

  Recipes, linear solvers and clocks belong to an environment of any type.  A
  computation runs over a ledger that holds the environment and what the library
  itself records on the way: the notices it gave, and how many identities it
  handed out.  A computation that fails keeps what it recorded before.  A change
  is a computation that also changes a state of its own.
-/
import Recourse.Fault.Message

set_option autoImplicit false

namespace Recourse

/-- Probabilities were rescaled; `total` was their sum. -/
structure Notice (K : Type) where
  /-- The sum before rescaling. -/
  total : K

/-- The wording of a notice. -/
def Notice.message (n : Notice Float) : String :=
  "Normalizing scenario probabilities (sum was " ++ Decimal.general 12 n.total ++ ")"

/-- What a computation runs over. -/
structure Ledger (σ K : Type) where
  /-- The environment. -/
  env : σ
  /-- Notices given so far, latest last. -/
  notices : List (Notice K)
  /-- How many identities were handed out. -/
  issued : Nat

/-- A computation with effects on a ledger that may be refused. -/
abbrev Act (σ K α : Type) : Type := ExceptT (Fault K) (StateM (Ledger σ K)) α

namespace Act

variable {σ K α β : Type}

/-- Refuse. -/
def fail (f : Fault K) : Act σ K α := throw f

/-- A computation whose failure is a result. -/
def attempt (act : Act σ K α) : Act σ K (Except (Fault K) α) :=
  ExceptT.mk (do return .ok (← act.run))

/-- A result without effects. -/
def ofExcept (r : Except (Fault K) α) : Act σ K α := ExceptT.mk (pure r)

/-- The environment. -/
def environment : Act σ K σ := do return (← get).env

/-- A change of the environment. -/
def modifyEnvironment (f : σ → σ) : Act σ K Unit :=
  modify fun s => { s with env := f s.env }

/-- Give a notice. -/
def notify (n : Notice K) : Act σ K Unit :=
  modify fun s => { s with notices := s.notices ++ [n] }

/-- A new identity. -/
def freshIdentity : Act σ K Nat := do
  let s ← get
  set { s with issued := s.issued + 1 }
  return s.issued

/-- Run a computation for every item in order, up to the first failure. -/
def forEach (f : α → Act σ K β) : List α → Act σ K (List β)
  | [] => pure []
  | a :: as => do
      let b ← f a
      let bs ← forEach f as
      return b :: bs

end Act

/-! ## Computations that change a state -/

/-- A computation that also changes a state.  What was changed before a refusal
stays changed. -/
abbrev Change (S σ K α : Type) : Type := ExceptT (Fault K) (StateM (S × Ledger σ K)) α

namespace Change

variable {S σ K α : Type}

/-- A computation that leaves the state alone. -/
def ofAct (act : Act σ K α) : Change S σ K α :=
  ExceptT.mk fun s =>
    let (r, ledger) := act.run.run s.2
    (r, s.1, ledger)

instance : MonadLift (Act σ K) (Change S σ K) := ⟨ofAct⟩

/-- The state. -/
def state : Change S σ K S := ExceptT.mk fun s => (.ok s.1, s)

/-- Change the state. -/
def update (f : S → S) : Change S σ K Unit := ExceptT.mk fun s => (.ok (), f s.1, s.2)

/-- Refuse. -/
def fail (f : Fault K) : Change S σ K α := throw f

/-- The result of a computation together with the state after it. -/
def runOn (change : Change S σ K α) (s : S) : StateM (Ledger σ K) (Except (Fault K) α × S) :=
  fun ledger =>
    let (r, s, ledger) := change.run.run (s, ledger)
    ((r, s), ledger)

/-- A change of a state that nobody else sees: a refusal loses it. -/
def apply (change : Change S σ K α) (s : S) : Act σ K (α × S) :=
  ExceptT.mk do
    let (r, s) ← change.runOn s
    return r.map (·, s)

end Change

end Recourse
