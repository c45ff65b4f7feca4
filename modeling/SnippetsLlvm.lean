import SnippetsLlvm.Ir.WellFormed
import SnippetsLlvm.Ir.Edits
import SnippetsLlvm.Ir.Growth
import SnippetsLlvm.Ir.Machine
import SnippetsLlvm.Library.LabelledRuns
import SnippetsLlvm.Library.Stuttering
import SnippetsLlvm.Library.Separated
import SnippetsLlvm.CountBB.Pass
import SnippetsLlvm.CountBB.Result
import SnippetsLlvm.CountBB.Edits
import SnippetsLlvm.CountBB.Layout
import SnippetsLlvm.CountBB.Stages
import SnippetsLlvm.CountBB.WellFormed
import SnippetsLlvm.CountBB.Outcomes
import SnippetsLlvm.CountBB.OneCounter
import SnippetsLlvm.CountBB.Counter
import SnippetsLlvm.CountBB.AnotherRun
import SnippetsLlvm.CountBB.Repeated
import SnippetsLlvm.CountBB.Added
import SnippetsLlvm.CountBB.Inserted
import SnippetsLlvm.CountBB.Moves
import SnippetsLlvm.CountBB.Tracked
import SnippetsLlvm.CountBB.Simulation
import SnippetsLlvm.CountBB.Entered
import SnippetsLlvm.CountBB.Report
import SnippetsLlvm.CountBB.Abandoned
import SnippetsLlvm.CountBB.Orderly
import SnippetsLlvm.CountBB.Overhead
import SnippetsLlvm.CountBB.SourceBlocks
import SnippetsLlvm.CountBB.Preserves
import SnippetsLlvm.Ir.Steps
import SnippetsLlvm.Ir.Arrivals
import SnippetsLlvm.CountBB.RepeatedCounter
import SnippetsLlvm.Ir.Flow
import SnippetsLlvm.Ir.Provenance
import SnippetsLlvm.Ir.Erasure
import SnippetsLlvm.Dump.DumpConsts
import SnippetsLlvm.Dump.DumpModule
import SnippetsLlvm.Pipeline.PosixCount
import SnippetsLlvm.Pipeline.Analyses
import SnippetsLlvm.Pipeline.Callees
import SnippetsLlvm.Pipeline.EitherOrder
import SnippetsLlvm.PosixMain.Pass
import SnippetsLlvm.PosixMain.Result
import SnippetsLlvm.PosixMain.WellFormed
import SnippetsLlvm.PosixMain.Runs
import SnippetsLlvm.PosixMain.Outcomes
import SnippetsLlvm.CFGPath.DumpCFGPath
import SnippetsLlvm.Library.GraphIso
import SnippetsLlvm.CFGPath.SameGraph
import SnippetsLlvm.CFGPath.Text
import SnippetsLlvm.CFGPath.Cost
import SnippetsLlvm.CFGPath.Execution
import SnippetsLlvm.Ir.WordData
import SnippetsLlvm.Ir.Verifier
import SnippetsLlvm.Library.NaturalLoops
import SnippetsLlvm.Library.Reducible
import SnippetsLlvm.MyBase.IntegerRelated
import SnippetsLlvm.MyBase.Pointers
import SnippetsLlvm.CountLI.CountLD
import SnippetsLlvm.CountLI.Agreement
import SnippetsLlvm.CountLI.SameGraph
import SnippetsLlvm.CountLI.Execution
import SnippetsLlvm.MyBase.InstKind
import SnippetsLlvm.Misc.ToInt
import SnippetsLlvm.Misc.TestErr
import SnippetsLlvm.MyBase.ElimConstExpr
