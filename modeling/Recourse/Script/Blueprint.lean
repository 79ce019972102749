/-
  Script/Blueprint.lean --- recipes written down as data.

  A blueprint says which columns, rows and objective a model gets, with formulas
  over the data of the stage and the payload.  It can also fail on purpose, or
  give back something that is no model.
-/
import Recourse.Program.Recipe
import Recourse.Script.Formula

set_option autoImplicit false

namespace Recourse

/-- When the placeholders are added. -/
inductive Placing where
  /-- Before the other columns. -/
  | first
  /-- After them. -/
  | last
  /-- Not at all. -/
  | never
  /-- Before the other columns, this many. -/
  | count (n : Int)
  deriving DecidableEq, Repr, Inhabited

/-- When a blueprint fails on purpose. -/
structure Failure (K : Type) where
  /-- It fails where this holds. -/
  condition : Formula K
  /-- With this fault. -/
  fault : Fault K
  /-- At most this often. -/
  times : Option Int
  deriving Inhabited

/-- One column, or one for each of several names. -/
structure ColumnPlan (K : Type) where
  /-- Lower bound. -/
  lower : Formula K
  /-- Upper bound. -/
  upper : Formula K
  /-- Name. -/
  name : Option String
  /-- Where the names come from, if there are several. -/
  each : Option (Formula K)
  deriving Inhabited

/-- A recipe written down. -/
structure Blueprint (K : Type) where
  /-- Name of the recipe. -/
  title : String
  /-- Name of the model. -/
  name : String
  /-- When it fails on purpose. -/
  failure : Option (Failure K)
  /-- What it gives instead of a model. -/
  instead : Option (Value K)
  /-- When placeholders are added; without a word, first in the second stage and
  never in the first. -/
  placing : Option Placing
  /-- The columns. -/
  columns : List (ColumnPlan K)
  /-- The rows with their names. -/
  rows : List (Formula K × Option String)
  /-- The objective with its sense. -/
  objective : Option (Goal × Formula K)
  deriving Inhabited

/-- Apply a change to a model. -/
def Model.edited {K α : Type} (m : Model K) (edit : ModelEdit K α) :
    Except (Fault K) (α × Model K) :=
  let (r, m) := edit.run m
  r.map (·, m)

namespace Blueprint

variable {K : Type} [Scalar K]

/-- A bound from what its formula gave; only plain numbers compare, and of several
numbers at once the order is not defined. -/
def boundOf : Quantity K → Except (Fault K) (Numeral K)
  | .value (.whole n) => .ok (.whole n)
  | .value (.real x) => .ok (.real x)
  | .value (.flag b) => .ok (.whole (if b then 1 else 0))
  | .value (.array _ [x]) => .ok (.real x)
  | .value (.wholeArray _ [n]) => .ok (.whole n)
  | .value (.array _ _) | .value (.wholeArray _ _) => .error (.misuse .value)
  | _ => .error (.misuse .kind)

/-- The names a value lists. -/
def namesOf : Value K → Except (Fault K) (List String)
  | .text s => .ok (s.toList.map fun c => String.ofList [c])
  | .textArray ss => .ok ss
  | .mapping entries => .ok (entries.map (·.1))
  | .list items | .tuple items => items.mapM name
  | .named _ fields => fields.mapM fun f => name f.2
  | _ => .error (.misuse .kind)
where
  /-- A name. -/
  name : Value K → Except (Fault K) String
    | .text s => .ok s
    | _ => .error (.misuse .kind)

/-- Add a column. -/
def addColumn (s : Scope K) (m : Model K) (plan : ColumnPlan K) (name : Option String) :
    Act (Bench K) K (Scope K × Model K) := do
  let lower ← boundOf (← plan.lower.eval s)
  let upper ← boundOf (← plan.upper.eval s)
  let (v, m) ← m.edited (Model.addVariable lower upper name)
  return ({ s with columns := s.columns ++ [v] }, m)

/-- Add the columns with the given names. -/
def addNamed (s : Scope K) (m : Model K) (plan : ColumnPlan K) :
    List String → Act (Bench K) K (Scope K × Model K)
  | [] => return (s, m)
  | name :: rest => do
      let (s, m) ← addColumn s m plan (some name)
      addNamed s m plan rest

/-- Add the columns of the plans. -/
def addColumns (s : Scope K) (m : Model K) :
    List (ColumnPlan K) → Act (Bench K) K (Scope K × Model K)
  | [] => return (s, m)
  | plan :: rest => do
      let (s, m) ← match plan.each with
        | none => addColumn s m plan plan.name
        | some f => do
            match ← f.eval s with
            | .value v => addNamed s m plan (← namesOf v)
            | _ => Act.fail (.misuse .kind)
      addColumns s m rest

/-- Add placeholders for the decisions a recipe was told of. -/
def addPlaceholders (s : Scope K) (m : Model K) (handle : Option Decisions) :
    Act (Bench K) K (Scope K × Model K) := do
  match handle with
  | none => Act.fail (.misuse .attribute)
  | some handle =>
      let (vs, m) ← m.edited (Model.addDecisions handle)
      return ({ s with placeholders := s.placeholders ++ vs }, m)

/-- A row from what its formula gave. -/
def rowOf : Quantity K → Except (Fault K) (Row K)
  | .row r => .ok r
  | q => .error (.invalid (.notARow q.typeName))

/-- Add rows. -/
def addRows (s : Scope K) (m : Model K) :
    List (Formula K × Option String) → Act (Bench K) K (Model K)
  | [] => return m
  | (f, name) :: rest => do
      let r ← rowOf (← f.eval s)
      let (_, m) ← m.edited (Model.addRow r name)
      addRows s m rest

/-- The model of a blueprint. -/
def model (b : Blueprint K) (placing : Placing) (s : Scope K) (handle : Option Decisions) :
    Act (Bench K) K (Model K) := do
  let m := Model.empty b.name
  let (s, m) ← match placing with
    | .first => addPlaceholders s m handle
    | .count n => addPlaceholders s m (some (Decisions.unnamed n.toNat))
    | .last | .never => pure (s, m)
  let (s, m) ← addColumns s m b.columns
  let (s, m) ← match placing with
    | .last => addPlaceholders s m handle
    | _ => pure (s, m)
  let m ← addRows s m b.rows
  match b.objective with
  | none => return m
  | some (goal, f) =>
      let e ← (← f.eval s).toLinear
      return m.setObjective e goal

/-- Fail on purpose where that is due. -/
def failOnPurpose (b : Blueprint K) (id : Nat) (s : Scope K) : Act (Bench K) K Unit := do
  match b.failure with
  | none => return
  | some f =>
      let due ← (← f.condition.eval s).holds
      let count := Bench.tally (← Act.environment).failures id
      let left := match f.times with
        | some n => decide ((count : Int) < n)
        | none => true
      if due && left then
        Bench.countFailure id
        Act.fail f.fault

/-- Call a blueprint as a recipe of a stage. -/
def call (b : Blueprint K) (id : Nat) (stage : Stage) (data : Value K)
    (handle : Option Decisions) (payload : Value K) : Act (Bench K) K (Product K) := do
  Bench.countCall id
  let s : Scope K := { (Scope.empty : Scope K) with data, payload }
  b.failOnPurpose id s
  match b.instead with
  | some v => return .value v
  | none =>
      let placing := b.placing.getD (match stage with
        | .first => .never
        | .second => .first)
      return .model (← b.model placing s handle)

/-- A name for the recipe of a blueprint; an empty one gives way to the title. -/
def named (b : Blueprint K) (name : String) : String := if name.isEmpty then b.title else name

/-- A blueprint as a recipe of the first stage. -/
def first (b : Blueprint K) (id : Nat) (name : String) : FirstRecipe (Bench K) K :=
  { name := b.named name, build := fun data => b.call id .first data none .null }

/-- A blueprint as a recipe of the second stage. -/
def second (b : Blueprint K) (id : Nat) (name : String) : SecondRecipe (Bench K) K :=
  { name := b.named name
    build := fun data handle payload => b.call id .second data (some handle) payload }

/-- A blueprint as something that either stage can call. -/
def candidate (b : Blueprint K) (id : Nat) : Candidate (Bench K) K :=
  .procedure (b.first id b.title) (b.second id b.title)

end Blueprint

end Recourse
