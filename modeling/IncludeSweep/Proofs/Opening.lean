import IncludeSweep.Proofs.Rendering
import IncludeSweep.Verification.Run

set_option autoImplicit false

/-! # How a run begins

The untouched project is built once, and then the files of the plan are opened: those of entries
that have candidates and whose file can be read as text. -/

namespace IncludeSweep

open Text

variable {σ : Type}

def Session.preflight (build : Build σ) (s : Session σ) : List Trial :=
  if s.ready then [] else [⟨none, s.world.disk, (build s.world).1⟩]

def Session.openingDisk (build : Build σ) (s : Session σ) : Disk :=
  if s.ready then s.world.disk else (build s.world).2.disk

/-- A run takes its plan through the tiers, unless the build before the first edit fails. -/
theorem run_checked (build : Build σ) (plan : Plan) (s : Session σ) :
    (∃ u : Session σ, run build plan s =
        (some (runPlan build plan u).2.report, (runPlan build plan u).2.toSession) ∧
      u.world.disk = s.openingDisk build ∧ u.tainted = s.tainted ∧
      u.trials = s.trials ++ s.preflight build ∧ ∀ t ∈ s.preflight build, t.passed = true) ∨
    (run build plan s).1 = none ∧ (run build plan s).2.trials = s.trials ++ s.preflight build := by
  unfold run Session.preflight Session.openingDisk
  cases s.ready with
  | true => exact .inl ⟨s, by simp, by simp, rfl, by simp, by simp⟩
  | false =>
    cases hpass : (build s.world).1 with
    | true =>
      left
      exact ⟨(s.checkProject build).2, by simp [Session.checkProject, Session.runBuild, hpass],
        rfl, rfl, by simp [Session.checkProject, Session.runBuild, hpass], by simp⟩
    | false =>
      right
      constructor
      · simp [Session.checkProject, Session.runBuild, hpass]
      · simp [Session.checkProject, Session.runBuild, hpass]

theorem reports_of_pass {build : Build σ} {s : Session σ} (h : (build s.world).1 = true)
    (plan : Plan) : ∃ report s', run build plan s = (some report, s') := by
  unfold run
  cases s.ready with
  | true => exact ⟨_, _, rfl⟩
  | false =>
    simp only [Session.checkProject, Session.runBuild, h, Bool.false_eq_true, if_false, if_true]
    exact ⟨_, _, rfl⟩

theorem reports_of_preflight {build : Build σ} {s : Session σ}
    (h : ∀ t ∈ s.preflight build, t.passed = true) (plan : Plan) :
    ∃ report s', run build plan s = (some report, s') := by
  cases hr : s.ready with
  | true =>
    unfold run
    rw [hr]
    exact ⟨_, _, rfl⟩
  | false =>
    refine reports_of_pass (h ⟨none, s.world.disk, (build s.world).1⟩ ?_) plan
    simp [Session.preflight, hr]

/-- The path leads to a text file at a location, which its owner may read. -/
structure Disk.Holds (disk : Disk) (path : Path) (loc : Location) (mode : Mode) (text : String) :
    Prop where
  leads : disk.locate path = .ok loc
  reads : ownerReads mode = true
  content : disk.get? loc = some (.file mode (encode text))

theorem Disk.readText_ok {disk : Disk} {path : Path} {text : String}
    (h : disk.readText path = .ok text) : ∃ loc mode, disk.Holds path loc mode text := by
  unfold Disk.readText Disk.readBytes Disk.fileAt at h
  cases hl : disk.locate path with
  | error e => simp [hl] at h
  | ok loc =>
    rw [hl] at h
    cases hg : disk.get? loc with
    | none => simp [hg] at h
    | some entry =>
      cases entry with
      | dir => simp [hg] at h
      | link target => simp [hg] at h
      | file mode bytes =>
        by_cases hr : ownerReads mode = true
        · cases hd : decode bytes with
          | none => simp [hg, hr, hd] at h
          | some read =>
            have ht : read = text := by simpa [hg, hr, hd] using h
            refine ⟨loc, mode, hl, hr, ?_⟩
            rw [hg, ← encode_of_decode hd, ht]
        · simp [hg, hr] at h

theorem Disk.Holds.readText {disk : Disk} {path : Path} {loc : Location} {mode : Mode}
    {text : String} (h : disk.Holds path loc mode text) : disk.readText path = .ok text := by
  simp [Disk.readText, Disk.readBytes, Disk.fileAt, h.leads, h.content, h.reads, decode_encode]

theorem Disk.readBytes_of_readText {disk : Disk} {path : Path} {text : String}
    (h : disk.readText path = .ok text) : disk.readBytes path = .ok (encode text) := by
  obtain ⟨loc, mode, hh⟩ := Disk.readText_ok h
  simp [Disk.readBytes, Disk.fileAt, hh.leads, hh.content, hh.reads]

/-- An entry of a plan with the text that its file had when it was opened. -/
structure Origin where
  entry : FileCandidates
  text : String

namespace Origin

def lines (g : Origin) : List String :=
  rawLines g.text

def opened (g : Origin) : OpenFile where
  draft := ⟨g.entry.path, g.lines, allIntact g.lines, allIntact g.lines, digest (encode g.text)⟩
  candidates := g.entry.candidates
  remaining := g.entry.lines

end Origin

def originOf (disk : Disk) (e : FileCandidates) : Option Origin :=
  if e.candidates = [] then none
  else
    match disk.readText e.path with
    | .ok text => some ⟨e, text⟩
    | .error _ => none

def unopened (disk : Disk) (e : FileCandidates) : List Outcome :=
  match disk.readText e.path with
  | .ok _ => []
  | .error _ => e.candidates.map (⟨·, .keptIoFailure, none⟩)

theorem resolution_of_unopened {disk : Disk} {e : FileCandidates} {o : Outcome}
    (h : o ∈ unopened disk e) : o.resolution = .keptIoFailure ∧ o.tier = none := by
  unfold unopened at h
  split at h
  · simp at h
  · obtain ⟨c, _, rfl⟩ := List.mem_map.1 h
    exact ⟨rfl, rfl⟩

theorem originOf_some {disk : Disk} {e : FileCandidates} {g : Origin}
    (h : originOf disk e = some g) :
    g.entry = e ∧ e.candidates ≠ [] ∧ disk.readText e.path = .ok g.text := by
  unfold originOf at h
  by_cases hne : e.candidates = []
  · simp [hne] at h
  cases ht : disk.readText e.path with
  | error cause => simp [hne, ht] at h
  | ok text =>
    obtain rfl : ⟨e, text⟩ = g := by simpa [hne, ht] using h
    exact ⟨rfl, hne, rfl⟩

theorem openAll_origins (disk : Disk) (plan : Plan) :
    openAll disk plan =
      ((plan.filterMap (originOf disk)).map Origin.opened, plan.flatMap (unopened disk)) := by
  induction plan with
  | nil => rfl
  | cons e plan ih =>
    unfold openAll
    rw [ih]
    by_cases hne : e.candidates = []
    · have ho : originOf disk e = none := by simp [originOf, hne]
      have hu : unopened disk e = [] := by
        unfold unopened
        cases disk.readText e.path <;> simp [hne]
      simp [hne, ho, hu]
    · simp only [hne, if_false, Draft.read]
      cases ht : disk.readText e.path with
      | error cause =>
        have ho : originOf disk e = none := by simp [originOf, ht]
        simp [ho, unopened, ht]
      | ok text =>
        have ho : originOf disk e = some ⟨e, text⟩ := by simp [originOf, hne, ht]
        simp only [List.filterMap_cons, ho, unopened, ht, List.flatMap_cons, List.nil_append,
          List.map_cons]
        rfl

def twoFiles : Disk :=
  ⟨["src"],
    [(["src"], .dir),
     (["src", "a.cc"], .file 0o644 (encode "#include <x.h>\n#include <y.h>\nint a;\n")),
     (["src", "b.cc"], .file 0o600 (encode "#include <z.h>\r\nint b;"))], []⟩

end IncludeSweep
