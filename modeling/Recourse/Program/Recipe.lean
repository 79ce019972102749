/-
  Program/Recipe.lean --- recipes: how the models of the stages are built.

  A first-stage recipe turns the data of its stage into a model.  A second-stage
  recipe is also told the first-stage decisions and the payload of a scenario.
  `generate` refuses what is no model of the stage.
-/
import Recourse.Payload.Value
import Recourse.Model.Basic

set_option autoImplicit false

namespace Recourse

/-- What calling a recipe gives. -/
inductive Product (K : Type) where
  /-- A model. -/
  | model (m : Model K)
  /-- Anything else. -/
  | value (v : Value K)

/-- A recipe of the first stage. -/
structure FirstRecipe (σ K : Type) where
  /-- Its name. -/
  name : String
  /-- What it builds from the data of the stage. -/
  build : Value K → Act σ K (Product K)

/-- A recipe of the second stage. -/
structure SecondRecipe (σ K : Type) where
  /-- Its name. -/
  name : String
  /-- What it builds from the data of the stage, the first-stage decisions and a
  payload. -/
  build : Value K → Decisions → Value K → Act σ K (Product K)

/-- A recipe of either stage. -/
inductive Recipe (σ K : Type) where
  /-- Of the first stage. -/
  | first (r : FirstRecipe σ K)
  /-- Of the second stage. -/
  | second (r : SecondRecipe σ K)

/-- What can be offered as a recipe. -/
inductive Candidate (σ K : Type) where
  /-- A recipe. -/
  | recipe (r : Recipe σ K)
  /-- A procedure, which either stage can call. -/
  | procedure (first : FirstRecipe σ K) (second : SecondRecipe σ K)
  /-- Something that cannot be called. -/
  | other (typeName : String)

variable {σ K : Type}

/-- The model a recipe gave. -/
def Product.expectModel (stage : Stage) (name : String) : Product K → Except (Fault K) (Model K)
  | .model m => .ok m
  | .value v => .error (.invalid (.notAModel stage name v.typeName))

namespace FirstRecipe

/-- A recipe written out. -/
def shown (r : FirstRecipe σ K) : String := "FirstStageRecipe(" ++ r.name ++ ")"

/-- Build the first-stage model, which has no placeholders. -/
def generate (r : FirstRecipe σ K) (data : Value K) : Act σ K (Model K) := do
  let m ← (← r.build data).expectModel .first r.name
  if m.decisionCount ≠ 0 then Act.fail (.invalid .firstStagePlaceholders)
  return m

end FirstRecipe

namespace SecondRecipe

/-- A recipe written out. -/
def shown (r : SecondRecipe σ K) : String := "SecondStageRecipe(" ++ r.name ++ ")"

/-- Build the model of a scenario, which refers to all decisions or to none. -/
def generate (r : SecondRecipe σ K) (data : Value K) (decisions : Decisions)
    (payload : Value K) : Act σ K (Model K) := do
  let m ← (← r.build data decisions payload).expectModel .second r.name
  let n := decisions.names.length
  if m.decisionCount ≠ 0 ∧ m.decisionCount ≠ n then
    Act.fail (.dimension (.placeholders m.decisionCount n))
  return m

/-- Build the model of something that stands for a scenario: what has a field `data`
carries its payload there, and anything else is the payload itself. -/
def generateFor (r : SecondRecipe σ K) [Scalar K] (data : Value K) (decisions : Decisions)
    (carrier : Value K) : Act σ K (Model K) :=
  r.generate data decisions ((Table.find? carrier.visibleFields "data").getD carrier)

end SecondRecipe

namespace Recipe

/-- The stage of a recipe. -/
def stage : Recipe σ K → Stage
  | .first _ => .first
  | .second _ => .second

/-- A recipe written out. -/
def shown : Recipe σ K → String
  | .first r => r.shown
  | .second r => r.shown

end Recipe

/-- The recipe a candidate is for a stage. -/
def Candidate.toRecipe (stage : Stage) : Candidate σ K → Except (Fault K) (Recipe σ K)
  | .recipe r =>
      if r.stage = stage then .ok r
      else .error (.invalid (.wrongStage r.shown r.stage stage))
  | .procedure first second =>
      match stage with
      | .first => .ok (.first first)
      | .second => .ok (.second second)
  | .other t => .error (.invalid (.notCallable t))

/-- The stage a key stands for, refused where it names none. -/
def Stage.require [Scalar K] (key : Setting K) : Except (Fault K) Stage :=
  match Stage.ofSetting? key with
  | some s => .ok s
  | none => .error (.invalid (.unknownStage key))

end Recourse
