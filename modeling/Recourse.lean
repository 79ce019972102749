import Recourse.About
import Recourse.Datum.Reader
import Recourse.Evaluation.Values
import Recourse.Model.Text
import Recourse.Proofs.Effect
import Recourse.Proofs.Linear.Meaning
import Recourse.Report.Program
import Recourse.Sampled.Study
import Recourse.Script.Draft
import Recourse.Script.Workspace
import Recourse.Source.Program
import Recourse.Verbosity
import Recourse.Proofs.Linear.Engine
import Recourse.Proofs.Linear.Split
import Recourse.Proofs.Linear.Answer
import Recourse.Proofs.Model.Meaning
import Recourse.Proofs.Model.Form
import Recourse.Proofs.Model.Posed
import Recourse.Proofs.Model.Gradient
import Recourse.Proofs.Solver.PhaseOne
import Recourse.Proofs.Program.Meaning
import Recourse.Proofs.Solver.Round
import Recourse.Proofs.Solver.Cut
import Recourse.Proofs.LShaped.Invariant
import Recourse.Proofs.LShaped.Phase
import Recourse.Proofs.LShaped.Aggregate
import Recourse.Proofs.LShaped.Step
import Recourse.Proofs.Linear.Transcript
import Recourse.Proofs.LShaped.Bounds
import Recourse.Proofs.Solver.ExtensiveForm
import Recourse.Proofs.LShaped.Verdict
import Recourse.Proofs.Linear.Descent
import Recourse.Proofs.Model.Descent
import Recourse.Proofs.Solver.Extensive
import Recourse.Proofs.Solver.Equivalent
import Recourse.Proofs.Program.Purity
import Recourse.Proofs.Program.Weighing
import Recourse.Proofs.Program.Operation
import Recourse.Proofs.Program.Freshness
import Recourse.Proofs.Solver.Results
import Recourse.Proofs.Program.Commitment
import Recourse.Proofs.Solver.Multipliers
import Recourse.Proofs.LShaped.Multipliers
import Recourse.Proofs.Solver.Separation
import Recourse.Proofs.Solver.Delivery
import Recourse.Proofs.Program.Committed
import Recourse.Proofs.Program.Building
import Recourse.Proofs.Evaluation.Solved
import Recourse.Proofs.Evaluation.Values
import Recourse.Proofs.Evaluation.Reproduction
import Recourse.Proofs.Mirror.Alike
import Recourse.Proofs.Mirror.Arithmetic
import Recourse.Proofs.Mirror.Model
import Recourse.Proofs.Mirror.Program
import Recourse.Proofs.Mirror.Extensive
import Recourse.Proofs.Mirror.LShaped
import Recourse.Proofs.Mirror.Run
import Recourse.Proofs.Mirror.Creation
import Recourse.Proofs.Mirror.Values
import Recourse.Proofs.Mirror.Study
import Recourse.Proofs.Mirror.Symmetry
import Recourse.Proofs.Model.Compilation
import Recourse.Proofs.LShaped.Termination
import Recourse.Proofs.Layout.Agreement
import Recourse.Proofs.Layout.Relaid
import Recourse.Proofs.Layout.Work
import Recourse.Proofs.Layout.Solvers
import Recourse.Proofs.Layout.Independence
import Recourse.Proofs.Evaluation.Frame
import Recourse.Proofs.Program.Atomicity
import Recourse.Proofs.Transport.Job
import Recourse.Proofs.Transport.Interleaving
import Recourse.Proofs.Payload.Part
import Recourse.Proofs.Payload.Expectation
import Recourse.Proofs.Payload.Folding
import Recourse.Proofs.Layout.Expected
import Recourse.Proofs.Linear.Handover
import Recourse.Proofs.Model.Subgradient
import Recourse.Proofs.Model.Sharing
import Recourse.Proofs.LShaped.Progress
import Recourse.Proofs.Program.Resumption
import Recourse.Proofs.Partition.Heap
import Recourse.Proofs.Partition.Balance
import Recourse.Proofs.Program.Standing
import Recourse.Proofs.Program.Insertion
import Recourse.Proofs.Program.Reweighting
import Recourse.Proofs.Solver.Violation
import Recourse.Proofs.Evaluation.Outcomes
import Recourse.Proofs.Payload.Reading
import Recourse.Proofs.Payload.Returned
import Recourse.Proofs.Payload.Tower
import Recourse.Proofs.Payload.Outline
import Recourse.Proofs.Payload.Refusal
import Recourse.Proofs.Program.Lasting
import Recourse.Proofs.Program.Fitting
import Recourse.Proofs.Ledger
import Recourse.Proofs.Solver.Untouched
import Recourse.Proofs.Program.Untouched
import Recourse.Proofs.Program.Rejection
import Recourse.Proofs.Evaluation.ExpectedProgram
import Recourse.Proofs.Evaluation.Placeholders
import Recourse.Proofs.Evaluation.FirstStage
import Recourse.Proofs.Sampled.Tape
import Recourse.Proofs.Sampled.Trial
import Recourse.Proofs.Sampled.Selection
import Recourse.Proofs.Sampled.Worth
import Recourse.Proofs.Sampled.Report
