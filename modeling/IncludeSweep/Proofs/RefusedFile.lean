import IncludeSweep.Proofs.Links
import IncludeSweep.Proofs.UndisturbedRun

set_option autoImplicit false

/-! # A file that cannot be replaced

A file is replaced by a new one that is made beside it, and that has a longer path. So a path may be
short enough to read its file by, and too long to replace it. The candidates of a file that the disk
does not let be replaced are kept for that, and no build tries them. -/

namespace IncludeSweep

open Text Draft

namespace Path

def detourDirectory : Nat → String
  | 0 => "d/.."
  | n + 1 => "d/../" ++ detourDirectory n

/-- A file of the working directory, with detours on the way. -/
def detour (n : Nat) : Path :=
  ⟨detourDirectory n ++ "/a.cc"⟩

def detourSegments : Nat → List String
  | 0 => ["d", ".."]
  | n + 1 => "d" :: ".." :: detourSegments n

theorem detourDirectory_size (n : Nat) : (detourDirectory n).utf8ByteSize = 5 * n + 4 := by
  induction n with
  | zero => rfl
  | succ n ih =>
    have hstep : "d/../".utf8ByteSize = 5 := rfl
    rw [detourDirectory, String.utf8ByteSize_append, ih, hstep]
    omega

theorem splitOn_detour (n : Nat) :
    (detourDirectory n).toList.splitOn '/' = (detourSegments n).map String.toList := by
  induction n with
  | zero => decide
  | succ n ih =>
    have hsplit := List.splitOn_append_cons_self (a := '/') ['d']
      ('.' :: '.' :: '/' :: (detourDirectory n).toList)
    have hsplit' := List.splitOn_append_cons_self (a := '/') ['.', '.'] (detourDirectory n).toList
    simp only [List.cons_append, List.nil_append] at hsplit hsplit'
    have htext : (detourDirectory (n + 1)).toList =
        'd' :: '/' :: '.' :: '.' :: '/' :: (detourDirectory n).toList := by
      rw [detourDirectory, String.toList_append]
      rfl
    rw [htext, hsplit, hsplit', ih, detourSegments, List.map_cons, List.map_cons]
    rfl

theorem detour_segments (n : Nat) : (detour n).segments = detourSegments n ++ ["a.cc"] := by
  have hsplit := List.splitOn_append_cons_self (a := '/') (detourDirectory n).toList "a.cc".toList
  have htext : (detour n).text.toList = (detourDirectory n).toList ++ '/' :: "a.cc".toList := by
    rw [detour, String.toList_append]
    rfl
  have hlast : "a.cc".toList.splitOn '/' = ["a.cc".toList] := by decide
  rw [segments, htext, hsplit, splitOn_detour, hlast, List.map_append, List.map_map]
  simp

theorem detourSegments_ne_nil (n : Nat) : detourSegments n ≠ [] := by
  cases n <;> simp [detourSegments]

theorem intercalate_detour (n : Nat) : "/".intercalate (detourSegments n) = detourDirectory n := by
  induction n with
  | zero => rfl
  | succ n ih =>
    rw [detourSegments, String.intercalate_cons_cons,
      String.intercalate_cons_of_ne_nil (detourSegments_ne_nil n), ih, detourDirectory,
      ← String.append_assoc]
    rfl

theorem detourSegments_reverse (n : Nat) : ∃ rest, (detourSegments n).reverse = ".." :: rest := by
  induction n with
  | zero => exact ⟨_, rfl⟩
  | succ n ih =>
    obtain ⟨rest, hrest⟩ := ih
    exact ⟨rest ++ ["..", "d"], by simp [detourSegments, hrest]⟩

theorem detour_directory (n : Nat) : (detour n).directory = ⟨detourDirectory n⟩ := by
  obtain ⟨rest, hrest⟩ := detourSegments_reverse n
  have hkept : ((detour n).segments.dropLast.reverse.dropWhile fun s => s = "" ∨ s = ".").reverse =
      detourSegments n := by
    rw [detour_segments, List.dropLast_concat, hrest, List.dropWhile_cons_of_neg (by decide), ← hrest,
      List.reverse_reverse]
  unfold directory
  simp only [hkept, ne_eq, detourSegments_ne_nil, not_false_eq_true, if_true, intercalate_detour]

theorem detour_isAbsolute (n : Nat) : (detour n).isAbsolute = false := by
  have hhead : (detourDirectory n).toList.head? = some 'd' := by
    cases n with
    | zero => rfl
    | succ n => simp [detourDirectory]
  simp [isAbsolute, detour, hhead]

theorem child_size (p : Path) (name : String) :
    p.text.utf8ByteSize + name.utf8ByteSize ≤ (p.child name).text.utf8ByteSize := by
  unfold child
  split
  · rename_i hempty
    simp [hempty]
  · split <;> simp only [String.utf8ByteSize_append] <;> omega

end Path

namespace Disk

variable {d : Disk} {last : LastStep} {n : Nat} {mode : Mode} {bytes : ByteArray}

theorem leads_detour {links : Nat} {x : Location} {rest : List String}
    (hcwd : d.get? d.cwd = some .dir) (hdir : d.get? (d.cwd ++ ["d"]) = some .dir)
    (h : Leads d last links d.cwd rest x) (n : Nat) :
    Leads d last links d.cwd (Path.detourSegments n ++ rest) x := by
  have hname : IsName "d" := ⟨by decide, by decide, by decide⟩
  have hround : ∀ {segments}, Leads d last links d.cwd segments x →
      Leads d last links d.cwd ("d" :: ".." :: segments) x := by
    intro segments h
    refine .name hcwd hname hdir (by simp) (.parent hdir ?_)
    rwa [List.dropLast_concat]
  induction n with
  | zero => exact hround h
  | succ n ih => exact hround ih

theorem usable_detour (hn : 5 * n + 9 < maxPath) : Usable (Path.detour n) where
  noNul := by
    have hnul : ∀ n, '\x00' ∉ (Path.detourDirectory n).toList := by
      intro n
      induction n with
      | zero => decide
      | succ n ih =>
        rw [Path.detourDirectory, String.toList_append, List.mem_append, not_or]
        exact ⟨by decide, ih⟩
    rw [← Bool.not_eq_true, List.contains_iff_mem, Path.detour, String.toList_append,
      List.mem_append, not_or]
    exact ⟨hnul n, by decide⟩
  nonempty := by
    intro hempty
    have hsize := congrArg String.utf8ByteSize hempty
    rw [Path.detour, String.utf8ByteSize_append, Path.detourDirectory_size] at hsize
    simp at hsize
  fits := by
    have hfile : "/a.cc".utf8ByteSize = 5 := rfl
    rw [Path.detour, String.utf8ByteSize_append, Path.detourDirectory_size, hfile]
    omega

theorem resolve_detour (hn : 5 * n + 9 < maxPath) (hcwd : d.get? d.cwd = some .dir)
    (hdir : d.get? (d.cwd ++ ["d"]) = some .dir)
    (hfile : d.get? (d.cwd ++ ["a.cc"]) = some (.file mode bytes)) :
    d.resolve last (Path.detour n) = .ok (d.cwd ++ ["a.cc"]) := by
  have hname : IsName "a.cc" := ⟨by decide, by decide, by decide⟩
  refine resolve_eq_ok.2 ⟨usable_detour hn, ?_⟩
  rw [Path.detour_isAbsolute, Path.detour_segments]
  exact leads_detour hcwd hdir (.name hcwd hname hfile (by simp) (.done _ _)) n

/-- The file that would take its place has a path that is longer by more than ten bytes. -/
theorem takes_detour (hn : maxPath ≤ 5 * n + 14) : d.takes (Path.detour n) = false := by
  have hsize : maxPath ≤ (d.scratchPath (Path.detour n)).text.utf8ByteSize := by
    have hname : ".tmpXXXXXX".utf8ByteSize = 10 := rfl
    have hdirectory := Path.detourDirectory_size n
    have hbelow := Path.child_size ⟨"/" ++ "/".intercalate d.cwd⟩ (Path.detourDirectory n)
    unfold scratchPath
    rw [Path.detour_directory]
    refine Nat.le_trans ?_ (Path.child_size _ ".tmpXXXXXX")
    split <;> dsimp only <;> omega
  unfold takes
  cases d.locateName (Path.detour n) with
  | error e => rfl
  | ok name => simp [refusal?, hsize]

end Disk

section
variable {σ : Type} {build : Build σ} {e : FileCandidates} {text : String}

/-- A file in which there is something to comment out, but which the disk does not let be replaced. -/
structure Disk.Refuses (disk : Disk) (e : FileCandidates) (text : String) : Prop where
  reads : disk.readText e.path = .ok text
  refused : disk.takes e.path = false
  removable : (mark (rawLines text) e.lines (allIntact (rawLines text))).2 ≠ []

theorem Disk.Refuses.comment {disk : Disk} (h : disk.Refuses e text) :
    ∃ err, (ofText e.path text).comment disk e.lines = .error err :=
  comment_of_not_takes (d := ofText e.path text) h.refused h.removable

theorem runPlan_refused (build : Build σ) {s : Session σ} (h : s.world.disk.Refuses e text) :
    (runPlan build [e] s).2 = { s with
      outcomes := outcomesOf e.candidates e.lines .keptIoFailure .global
      unrestored := [] } := by
  have hne : e.candidates ≠ [] := by
    intro hnil
    have hremovable := h.removable
    simp [FileCandidates.lines, hnil, mark] at hremovable
  obtain ⟨err, hcomment⟩ := h.comment
  have hopen : openAll s.world.disk [e] = ([⟨ofText e.path text, e.candidates, e.lines⟩], []) := by
    simp [openAll, hne, read_of_readText h.reads]
  let f : OpenFile := ⟨ofText e.path text, e.candidates, e.lines⟩
  let p : Progress σ := { s with outcomes := [], unrestored := [] }
  have hbatch : judgeAll build [f] p = ([(f.giveUp .global p).1], (f.giveUp .global p).2) := by
    have hfails : f.draft.comment p.disk f.remaining = .error err := hcomment
    simp [judgeAll, stageAll, restoreAll, hfails]
  unfold runPlan
  rw [hopen]
  change (refineAll build (judgeAll build [f] p).1 (judgeAll build [f] p).2).2 = _
  rw [hbatch, f.giveUp_eq, refineAll_resolved (by simp)]
  rfl

/-- The candidates are kept for the failure, nothing is built but the untouched project, and nothing
is written. -/
theorem run_refused (hq : Quiet build) {world : World σ} (hpass : (build world).1 = true)
    (h : world.disk.Refuses e text) :
    ∃ report s, run build [e] (Session.start world) = (some report, s) ∧
      report.outcomes =
        stableSort Outcome.le (outcomesOf e.candidates e.lines .keptIoFailure .global) ∧
      s.world.disk = world.disk ∧ s.trials = [⟨none, world.disk, true⟩] := by
  rcases run_checked build [e] (Session.start world) with ⟨u, hrun, hdisk, _, htrials, _⟩ | hnone
  · rw [openingDisk_of_quiet hq] at hdisk
    have hplan := runPlan_refused build (hdisk.symm ▸ h : u.world.disk.Refuses e text)
    rw [hplan] at hrun
    refine ⟨_, _, hrun, rfl, hdisk, htrials.trans ?_⟩
    simp [Session.preflight, Session.start, hpass]
  · obtain ⟨report, s', hrun⟩ := reports_of_pass (s := Session.start world) hpass [e]
    simp [hrun] at hnone

end

def passing : Rehearsal.BuildScript :=
  ⟨false, [], [], []⟩

/-- The longest way to the file that can be read. -/
def longDetour : Path :=
  .detour 817

def detourText : String :=
  "#include <x.h>\n"

def detourDisk : Disk :=
  ⟨["src"], [(["src"], .dir), (["src", "a.cc"], .file 0o644 (encode detourText)),
    (["src", "d"], .dir)], []⟩

def detourEntry : FileCandidates :=
  .select longDetour [1] detourText

theorem detourDisk_holds : detourDisk.Holds longDetour ["src", "a.cc"] 0o644 detourText :=
  ⟨Disk.resolve_detour (by decide) rfl rfl rfl, by decide, rfl⟩

theorem detourDisk_separate : Separate detourDisk [detourEntry] where
  regular := by
    intro e he _ _
    rw [List.mem_singleton.1 he]
    exact (Disk.resolve_detour (by decide) rfl rfl rfl).trans detourDisk_holds.leads.symm
  distinct := List.pairwise_singleton _ _

theorem select_detourText (path : Path) :
    (FileCandidates.select path [1] detourText).candidates = [⟨path, 1, "#include <x.h>"⟩] := by
  have hline : nth? (rawLines detourText) 1 = some detourText := by decide +kernel
  have hstrip : stripTerminator detourText = "#include <x.h>" := by decide +kernel
  have hlive : Directive.live "#include <x.h>" = true := by decide +kernel
  have hnumbers : numberSet [1] = [1] := by decide
  simp [FileCandidates.select, hnumbers, FileCandidates.candidate?, hline, hstrip, hlive]

theorem detourEntry_lines : detourEntry.lines = [1] := by
  rw [FileCandidates.lines, detourEntry, select_detourText]
  rfl

theorem mark_detourText :
    (mark (rawLines detourText) [1] (allIntact (rawLines detourText))).2 = [1] := by
  decide +kernel

theorem detourDisk_refuses : detourDisk.Refuses detourEntry detourText where
  reads := detourDisk_holds.readText
  refused := Disk.takes_detour (by decide)
  removable := by
    rw [detourEntry_lines, mark_detourText]
    simp

theorem run_detourEntry : ∃ report s,
    run passing.toBuild [detourEntry] (Session.start ⟨detourDisk, 0⟩) = (some report, s) ∧
    report.outcomes =
      [⟨⟨longDetour, 1, "#include <x.h>"⟩, .keptIoFailure, some .global⟩] ∧
    s.world.disk = detourDisk ∧ s.trials = [⟨none, detourDisk, true⟩] := by
  have hpass : (passing.toBuild ⟨detourDisk, 0⟩).1 = true := by decide
  obtain ⟨report, s, hrun, houtcomes, hdisk, htrials⟩ :=
    run_refused (passing.toBuild_quiet rfl) hpass detourDisk_refuses
  refine ⟨report, s, hrun, houtcomes.trans ?_, hdisk, htrials⟩
  rw [detourEntry_lines, detourEntry, select_detourText]
  rfl

end IncludeSweep
