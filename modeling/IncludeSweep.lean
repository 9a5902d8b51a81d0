import IncludeSweep.Candidate
import IncludeSweep.CommandLine.Options
import IncludeSweep.CommandLine.Run
import IncludeSweep.Diagnostic
import IncludeSweep.Digest
import IncludeSweep.Disk.Basic
import IncludeSweep.Disk.Edit
import IncludeSweep.Disk.Resolve
import IncludeSweep.Draft
import IncludeSweep.Failure
import IncludeSweep.Json
import IncludeSweep.Main
import IncludeSweep.Path
import IncludeSweep.Proofs.Accounting
import IncludeSweep.Proofs.BuildBudget
import IncludeSweep.Proofs.Course
import IncludeSweep.Proofs.DirectiveForm
import IncludeSweep.Proofs.DisturbedFile
import IncludeSweep.Proofs.DraftHistory
import IncludeSweep.Proofs.Evidence
import IncludeSweep.Proofs.ExitStatus
import IncludeSweep.Proofs.Extensions
import IncludeSweep.Proofs.FileTiers
import IncludeSweep.Proofs.FileTrace
import IncludeSweep.Proofs.FinalContent
import IncludeSweep.Proofs.FlaggedLines
import IncludeSweep.Proofs.Greedy
import IncludeSweep.Proofs.InPlace
import IncludeSweep.Proofs.Journal
import IncludeSweep.Proofs.Justified
import IncludeSweep.Proofs.Layout
import IncludeSweep.Proofs.LetterCase
import IncludeSweep.Proofs.LineSets
import IncludeSweep.Proofs.LineTrace
import IncludeSweep.Proofs.Links
import IncludeSweep.Proofs.LiveLines
import IncludeSweep.Proofs.NothingCommitted
import IncludeSweep.Proofs.OneBatch
import IncludeSweep.Proofs.Opening
import IncludeSweep.Proofs.OutsideEdits
import IncludeSweep.Proofs.Overwriting
import IncludeSweep.Proofs.PlanCourse
import IncludeSweep.Proofs.PlanTrace
import IncludeSweep.Proofs.Preview
import IncludeSweep.Proofs.PutBack
import IncludeSweep.Proofs.RefusedFile
import IncludeSweep.Proofs.RejectedRun
import IncludeSweep.Proofs.Rendering
import IncludeSweep.Proofs.Replacement
import IncludeSweep.Proofs.Replay
import IncludeSweep.Proofs.ReportOrder
import IncludeSweep.Proofs.RequiredLines
import IncludeSweep.Proofs.Safety
import IncludeSweep.Proofs.SamePaths
import IncludeSweep.Proofs.ScansAtOnce
import IncludeSweep.Proofs.SecondRun
import IncludeSweep.Proofs.SelectedPlan
import IncludeSweep.Proofs.Showing
import IncludeSweep.Proofs.SourceFiles
import IncludeSweep.Proofs.SourceOrder
import IncludeSweep.Proofs.StaleLines
import IncludeSweep.Proofs.SweepStages
import IncludeSweep.Proofs.Taint
import IncludeSweep.Proofs.Targets
import IncludeSweep.Proofs.ToolScans
import IncludeSweep.Proofs.UndisturbedRun
import IncludeSweep.Proofs.Unrestored
import IncludeSweep.Proofs.WarningLines
import IncludeSweep.Proofs.Writes
import IncludeSweep.Rehearsal.Analysis
import IncludeSweep.Rehearsal.Programs
import IncludeSweep.Report
import IncludeSweep.Scan
import IncludeSweep.Settings
import IncludeSweep.Sorting
import IncludeSweep.Sources
import IncludeSweep.Summary
import IncludeSweep.Sweep
import IncludeSweep.Text.Basic
import IncludeSweep.Text.Case
import IncludeSweep.Text.Classes
import IncludeSweep.Text.Word
import IncludeSweep.Timestamp
import IncludeSweep.Tool.Command
import IncludeSweep.Tool.Toolchain
import IncludeSweep.Verification.Run
import IncludeSweep.Verification.Session
import IncludeSweep.Verification.Tiers
