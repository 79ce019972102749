/-
  Script/Bench.lean --- a workbench on which everything can be repeated.

  A bench holds what a script can see of the world: a stream of numbers that
  stands for the random generator, tallies of the calls made, and a clock that
  moves on by a fixed step whenever it is read.  Linear programs are solved on
  it by the simplex method.
-/
import Recourse.Linear.Simplex
import Recourse.Sampler.Basic
import Recourse.Solver.Backend

set_option autoImplicit false

namespace Recourse

/-- A workbench. -/
structure Bench (K : Type) where
  /-- The numbers of the random stream, read in a circle. -/
  stream : List K
  /-- Where in the stream the next number is. -/
  position : Int
  /-- How often each recipe was called. -/
  calls : Table Nat Nat
  /-- How often each recipe failed on purpose. -/
  failures : Table Nat Nat
  /-- How many results each scripted backend reported. -/
  reports : Table Nat Nat
  /-- How often the clock was read. -/
  ticks : Nat
  deriving Inhabited

namespace Bench

variable {K : Type}

/-- A workbench on which nothing happened yet. -/
def fresh [Scalar K] : Bench K :=
  { stream := [Scalar.decimal 5 1], position := 0, calls := [], failures := [], reports := []
    ticks := 0 }

/-! ## Tallies -/

/-- How often something happened. -/
def tally (t : Table Nat Nat) (id : Nat) : Nat := (t.find? id).getD 0

/-- One more. -/
def bump (t : Table Nat Nat) (id : Nat) : Table Nat Nat :=
  t.alter id fun n => n.getD 0 + 1

/-- Count a call of a recipe. -/
def countCall (id : Nat) : Act (Bench K) K Unit :=
  Act.modifyEnvironment fun b => { b with calls := bump b.calls id }

/-- Count a failure of a recipe. -/
def countFailure (id : Nat) : Act (Bench K) K Unit :=
  Act.modifyEnvironment fun b => { b with failures := bump b.failures id }

/-! ## The random stream -/

/-- Start another stream. -/
def startStream (stream : List K) : Act (Bench K) K Unit :=
  Act.modifyEnvironment fun b => { b with stream, position := 0 }

/-- Put the stream at a position. -/
def reseed (seed : Option Int) : Act (Bench K) K Unit :=
  Act.modifyEnvironment fun b => { b with position := seed.getD 0 }

/-- The entry of a list that a position selects when the list is read in a
circle. -/
def circular {α : Type} (xs : List α) (position : Int) : Except (Fault K) α :=
  match xs[(position.emod xs.length).toNat]? with
  | some x => .ok x
  | none => .error (.misuse .division)

/-- The entry of a list at the position of the stream, which moves on. -/
def nextOf {α : Type} (xs : List α) : Act (Bench K) K α := do
  let b ← Act.environment
  let x ← circular (K := K) xs b.position
  Act.modifyEnvironment fun b => { b with position := b.position + 1 }
  return x

/-- The next number of the stream. -/
def next : Act (Bench K) K K := do
  let b ← Act.environment
  nextOf b.stream

/-- A sampler over a distribution. -/
def sampler [Analytic K] (d : Distribution K) : Sampler (Bench K) K :=
  Sampler.ofDistribution d next reseed

/-- A sampler that draws values from a list in turn. -/
def listSampler (values : List (Value K)) : Sampler (Bench K) K :=
  { draw := nextOf values, reseed }

/-! ## Solving and time -/

variable [Scalar K]

/-- The tolerances linear programs are solved with. -/
def tolerances : Tolerances K :=
  { aim := Scalar.decimal 1 9
    feasibility := Scalar.decimal 1 7
    slope := Scalar.decimal 1 9
    gain := Scalar.decimal 1 9 }

instance : Host (Bench K) K where
  optimize h effort := return Simplex.solve tolerances h effort
  clock := do
    Act.modifyEnvironment fun b => { b with ticks := b.ticks + 1 }
    return Scalar.ofNat (← Act.environment).ticks * Scalar.decimal 1 5

/-- A backend that reports other statuses than it finds at some of its calls,
which are counted from zero. -/
def scripted (id : Nat) (script : List (Nat × Status)) (b : Backend (Bench K) K) :
    Backend (Bench K) K :=
  { b with
    report := fun r => do
      let count := tally (← Act.environment).reports id
      Act.modifyEnvironment fun b => { b with reports := bump b.reports id }
      match script.lookup count with
      | some status => return { r with status }
      | none => return r }

end Bench

end Recourse
