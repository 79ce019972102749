/-
  About.lean --- what an installation reports about itself.
-/

set_option autoImplicit false

namespace Recourse.About

/-- The version of the interface. -/
def version : String := "0.1.0"

/-- The labels of the report on an installation, in order. -/
def labels : List String :=
  ["stochprog version", "Python version", "Platform", "NumPy version", "SciPy version",
    "LP backend"]

end Recourse.About
