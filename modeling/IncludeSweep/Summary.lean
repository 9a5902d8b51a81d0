import IncludeSweep.Json
import IncludeSweep.Sweep
import IncludeSweep.Timestamp

set_option autoImplicit false

/-! # Summaries in words and as JSON

`prose` is the summary for a reader. `toJson` writes a summary with its fields in a fixed order;
`ofJson?` reads one back. The times at which a run started and finished are not part of a summary:
they are given to the writer, and the reader sees that they are time stamps and passes over them. -/

namespace IncludeSweep

namespace Summary

def dryLine (c : Candidate) : String :=
  "[Dry Run] Would check removal of: " ++ Text.trim c.content ++ " in " ++ c.path.text ++ " (Line "
    ++ toString c.line ++ ")"

def dryLines (s : Summary) : List String :=
  s.candidates.flatMap (fun f => f.candidates.map dryLine) ++
    ["Dry run: " ++ toString s.candidateCount ++ " candidate(s) in " ++ toString s.candidates.length
      ++ " file(s) out of " ++ toString s.scanned ++ " scanned. No files changed."]

def unrestoredLines : List Path → List String
  | [] => []
  | paths =>
    "Warning: these files could not be restored to a verified state:" ::
      paths.map fun path => "  - " ++ path.text

def reportLines (r : Report) : List String :=
  r.committed.map (fun c => "Removed " ++ c.describe) ++
    ["Cleanup complete. Removed " ++ toString r.removed ++ " includes.",
      "  global: " ++ toString (r.removedAt .global) ++ ", per-file: "
        ++ toString (r.removedAt .perFile) ++ ", sequential: " ++ toString (r.removedAt .sequential)
        ++ ", kept: " ++ toString r.kept ++ ", builds: " ++ toString r.verifications] ++
    unrestoredLines r.unrestored

def prose (s : Summary) : String :=
  "\n".intercalate
    (match s.report with
    | none => s.dryLines
    | some report => reportLines report)

end Summary

structure RunTimes where
  started : String
  finished : String
deriving DecidableEq, Repr

def Tier.name : Tier → String
  | global => "global"
  | perFile => "per_file"
  | sequential => "sequential"

def Tier.ofName? : String → Option Tier
  | "global" => some global
  | "per_file" => some perFile
  | "sequential" => some sequential
  | _ => none

def Resolution.name : Resolution → String
  | committed => "committed"
  | keptBuildFailed => "kept_build_failed"
  | keptSkipped => "kept_skipped"
  | keptIoFailure => "kept_io_failure"

def Resolution.ofName? : String → Option Resolution
  | "committed" => some committed
  | "kept_build_failed" => some keptBuildFailed
  | "kept_skipped" => some keptSkipped
  | "kept_io_failure" => some keptIoFailure
  | _ => none

def Path.toJson (p : Path) : Json :=
  .string p.text

def Path.ofJson? (v : Json) : Option Path :=
  v.string?.map Path.mk

def Candidate.toJson (c : Candidate) : Json :=
  .object [("path", c.path.toJson), ("line", .ofNat c.line), ("content", .string c.content)]

def Candidate.ofJson? (v : Json) : Option Candidate :=
  match v.record? ["path", "line", "content"] with
  | some [some path, some line, some content] =>
    match Path.ofJson? path, line.nat?, content.string? with
    | some path, some line, some content => some ⟨path, line, content⟩
    | _, _, _ => none
  | _ => none

def Json.listOf? {α : Type} (read : Json → Option α) (v : Json) : Option (List α) :=
  v.list?.bind fun values => values.mapM read

def FileCandidates.toJson (f : FileCandidates) : Json :=
  .object [("path", f.path.toJson), ("candidates", .list (f.candidates.map Candidate.toJson))]

def FileCandidates.ofJson? (v : Json) : Option FileCandidates :=
  match v.record? ["path", "candidates"] with
  | some [some path, some candidates] =>
    match Path.ofJson? path, candidates.listOf? Candidate.ofJson? with
    | some path, some candidates => some ⟨path, candidates⟩
    | _, _ => none
  | _ => none

def Outcome.toJson (o : Outcome) : Json :=
  .object
    [("candidate", o.candidate.toJson), ("resolution", .string o.resolution.name),
      ("tier", match o.tier with
        | some tier => .string tier.name
        | none => .null)]

def Outcome.ofJson? (v : Json) : Option Outcome :=
  match v.record? ["candidate", "resolution", "tier"] with
  | some [some candidate, some resolution, tier] =>
    match Candidate.ofJson? candidate, resolution.variant?.bind Resolution.ofName?,
      Json.optional? (fun t => t.variant?.bind Tier.ofName?) tier with
    | some candidate, some resolution, some tier => some ⟨candidate, resolution, tier⟩
    | _, _, _ => none
  | _ => none

def Report.toJson (times : RunTimes) (r : Report) : Json :=
  .object
    [("outcomes", .list (r.outcomes.map Outcome.toJson)), ("verifications", .ofNat r.verifications),
      ("unrestored", .list (r.unrestored.map Path.toJson)), ("started_at", .string times.started),
      ("finished_at", .string times.finished)]

def Timestamp.ofJson? (v : Json) : Option Timestamp :=
  v.string?.bind Timestamp.read?

def Report.ofJson? (v : Json) : Option Report :=
  match v.record? ["outcomes", "verifications", "unrestored", "started_at", "finished_at"] with
  | some [some outcomes, some verifications, some unrestored, some started, some finished] =>
    match outcomes.listOf? Outcome.ofJson?, verifications.nat?, unrestored.listOf? Path.ofJson?,
      Timestamp.ofJson? started, Timestamp.ofJson? finished with
    | some outcomes, some verifications, some unrestored, some _, some _ =>
      some ⟨outcomes, verifications, unrestored⟩
    | _, _, _, _, _ => none
  | _ => none

namespace Summary

def toJson (times : RunTimes) (s : Summary) : Json :=
  .object
    [("target", s.target.toJson), ("scanned", .ofNat s.scanned),
      ("candidates", .list (s.candidates.map FileCandidates.toJson)),
      ("report", match s.report with
        | some report => report.toJson times
        | none => .null)]

def ofJson? (v : Json) : Option Summary :=
  match v.record? ["target", "scanned", "candidates", "report"] with
  | some [some target, some scanned, some candidates, report] =>
    match Path.ofJson? target, scanned.nat?, candidates.listOf? FileCandidates.ofJson?,
      Json.optional? Report.ofJson? report with
    | some target, some scanned, some candidates, some report =>
      some ⟨target, scanned, candidates, report⟩
    | _, _, _, _ => none
  | _ => none

end Summary

end IncludeSweep
