/-
  Proofs/LShaped/Bounds.lean --- the cuts and the bounds of every state of every run.

  The invariant speaks of numbers and of the meaning of models.  Here it is read in the
  library's own arithmetic: what `Cut.evaluate` gives, what the row of a cut compares,
  and what the two bounds say about the program.
-/
import Recourse.Proofs.LShaped.Step
import Recourse.Proofs.Linear.Transcript
import Mathlib.Data.Rat.Floor

set_option autoImplicit false
set_option linter.unusedSectionVars false

open scoped BigOperators

namespace Recourse

variable {F : Type} [Field F] [LinearOrder F] [IsStrictOrderedRing F] [FloorRing F] {σ : Type}

namespace LShaped

/-! ## What cuts say -/

namespace State

variable {s : State (Exact F)} {p : Program σ (Exact F)} {m : LShaped σ (Exact F)}

/-! ## Reading the invariant -/

end State

/-! ## Every state of every run -/

variable [Host σ (Exact F)] {s : State (Exact F)} {p : Program σ (Exact F)}
  {m : LShaped σ (Exact F)}

/-- The standard options without tolerances. -/
def exactConfig : Config (Exact ℚ) :=
  { (Config.default .lshaped : Config (Exact ℚ)) with
    tolerance := Config.real 0
    cutTolerance := Config.real 0 }

/-- The method with these options, on an engine that replays a transcript. -/
def exactMethod : LShaped (Transcript ℚ) (Exact ℚ) where
  rules :=
    { maxIterations := .finite 1000
      tolerance := 0
      timeLimit := none
      multicut := true
      feasibilityCuts := true
      cutTolerance := 0
      masterBound := .finite 1000000 }
  backend := Backend.plain

theorem exactMethod_configured : exactMethod.Configured :=
  ⟨exactConfig, rfl, rfl, rfl⟩

/-- A stock of at most three at unit cost. -/
def stock : Model (Exact ℚ) :=
  { (Model.empty "stock" : Model (Exact ℚ)) with
    columns := [⟨0, 0, .finite 3, some "x", none⟩]
    objective? := some ⟨[(0, 1)], 0, []⟩ }

/-- What a stock lacks to three is bought at a price. -/
def shortage (price : ℚ) : Model (Exact ℚ) :=
  { (Model.empty "shortage" : Model (Exact ℚ)) with
    columns := [⟨0, .minusInfinity, .plusInfinity, some "x", some 0⟩,
      ⟨1, 0, .plusInfinity, some "y", none⟩]
    rows := [⟨⟨[(0, 1), (1, 1)], 0, []⟩, .atLeast, .finite 3, none, 0, 0⟩]
    objective? := some ⟨[(1, .finite price)], 0, []⟩ }

/-- A stock before one of two prices is known. -/
def stockProgram : Program (Transcript ℚ) (Exact ℚ) :=
  .ofModels stock [(.finite (1 / 2), shortage 3), (.finite (1 / 2), shortage 1)]

/-- Two rounds on the stock: nothing is bought at first, then all of it. -/
def stockTranscript : Transcript ℚ where
  findings :=
    [.optimal ⟨[0, 0, 0], 0, [], [], [1, 1, 1], [0, 0, 0], 0⟩,
      .optimal ⟨[0, .finite 3], .finite 9, [-.finite 3], [], [0, 0], [-.finite 3, 0], 0⟩,
      .optimal ⟨[0, .finite 3], .finite 3, [-1], [], [0, 0], [-1, 0], 0⟩,
      .optimal ⟨[.finite 3, 0, 0], .finite 3, [-1, -1], [], [0, 0, 0], [-1, 0, 0], 0⟩,
      .optimal ⟨[.finite 3, 0], 0, [0], [], [0, .finite 3], [0, 0], 0⟩,
      .optimal ⟨[.finite 3, 0], 0, [0], [], [0, 1], [0, 0], 0⟩]

theorem stockProgram_proper : stockProgram.Proper := by decide +kernel

end LShaped

end Recourse
