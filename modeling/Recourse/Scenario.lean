/-
  Scenario.lean --- one realization of the uncertain data, with its probability.
-/
import Recourse.Payload.Expectation
import Recourse.Payload.Schema
import Recourse.Model.Expr

set_option autoImplicit false

namespace Recourse

/-- A scenario.  `Scenario.make` keeps its probability between zero and one. -/
structure Scenario (K : Type) where
  /-- Its probability. -/
  probability : K
  /-- The payload handed to the second-stage recipe. -/
  data : Value K
  /-- Its name, if it has one. -/
  name : Option String
  deriving Inhabited

namespace Scenario

variable {K : Type} [Scalar K]

/-- A scenario, refused unless its probability lies between zero and one. -/
def make (p : Numeral K) (data : Value K) (name : Option String) :
    Except (Fault K) (Scenario K) :=
  let x := p.value
  if !Scalar.isFinite x || Scalar.less x 0 || Scalar.less 1 x then
    .error (.probability (.range p))
  else .ok { probability := x, data, name }

/-- The same scenario with another probability. -/
def withProbability (s : Scenario K) (p : Numeral K) : Except (Fault K) (Scenario K) :=
  make p s.data s.name

/-- The same scenario with its probability multiplied by a factor. -/
def scaleProbability (s : Scenario K) (factor : K) : Except (Fault K) (Scenario K) :=
  s.withProbability (.real (s.probability * factor))

/-- The probabilities of scenarios, summed. -/
def mass (scenarios : List (Scenario K)) : K := Scalar.sum (scenarios.map (·.probability))

/-- Fold scenarios into one that carries their expected payload.  The weights are
divided by their sum, so that part of a set gives its conditional expectation. -/
def expected (scenarios : List (Scenario K)) (name : Option String) :
    Except (Fault K) (Scenario K) := do
  if scenarios.isEmpty then throw (.probability .emptyExpectation)
  let total := mass scenarios
  if Scalar.atMost total 0 then throw (.probability .noMass)
  let data ← Value.expectation (scenarios.map (·.data))
    (scenarios.map (·.probability / total))
  make (.real 1) data name

/-- A scenario written out. -/
def shown (s : Scenario Float) : String :=
  let label := match givenName? s.name with
    | some n => n ++ ", "
    | none => ""
  "Scenario(" ++ label ++ "p=" ++ Decimal.general 4 s.probability ++ ")"

end Scenario

end Recourse
