/-
  Stage.lean --- the two stages, and the keys they are addressed by.
-/
import Recourse.Setting

set_option autoImplicit false

namespace Recourse

/-- A stage of a two-stage program. -/
inductive Stage where
  /-- Decided before the uncertain data are known. -/
  | first
  /-- Decided afterwards, once per scenario. -/
  | second
  deriving DecidableEq, Repr, Inhabited

namespace Stage

/-- The number of a stage. -/
def number : Stage → Nat
  | .first => 1
  | .second => 2

/-- The texts that name a stage. -/
def names : List (String × Stage) :=
  [("1", .first), ("2", .second), ("stage_1", .first), ("stage_2", .second),
    (":stage_1", .first), (":stage_2", .second), ("first", .first), ("second", .second)]

/-- The stage a key stands for: a name, or anything that counts as the number
one or two. -/
def ofSetting? {K : Type} [Scalar K] : Setting K → Option Stage
  | .text s => names.lookup s
  | s => match s.number? with
      | some x =>
          if Scalar.same x 1 then some .first
          else if Scalar.same x (Scalar.ofNat 2) then some .second
          else none
      | none => none

end Stage

end Recourse
