/-
  Verbosity.lean --- the levels a log can be set to.
-/
import Recourse.Setting

set_option autoImplicit false

namespace Recourse.Verbosity

/-- The named levels; a log shows what is at its level or above. -/
def named : List (String × Nat) :=
  [("NOTSET", 0), ("DEBUG", 10), ("INFO", 20), ("WARN", 30), ("WARNING", 30), ("ERROR", 40),
    ("FATAL", 50), ("CRITICAL", 50)]

/-- The level of a log when nothing usable is said. -/
def standard : Nat := 20

/-- The level a word asks for, in capitals or not. -/
def level (s : Setting Float) : Nat := (named.lookup s.plain.toUpper).getD standard

end Recourse.Verbosity
