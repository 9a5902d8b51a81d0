import IncludeSweep.Proofs.Accounting
import IncludeSweep.Proofs.RequiredLines
import IncludeSweep.Proofs.ScansAtOnce
import IncludeSweep.Proofs.SourceOrder
import IncludeSweep.Proofs.SweepStages

set_option autoImplicit false

/-! # Dry sweeps

A dry sweep shows what a real one will try: both find the same files and the same candidates, and the
report of the real one goes through these candidates in the same order, one outcome each. -/

namespace IncludeSweep

open Text

variable {σ : Type}

/-- The analysis changes nothing on the disk, and what it says of a file depends on the disk only. -/
structure Analysis.ReadsOnly (analysis : Analysis σ) : Prop where
  keeps : ∀ file w, (analysis file w).2.disk = w.disk
  same : ∀ file w w', w.disk = w'.disk → (analysis file w).1 = (analysis file w').1

section
variable {analysis : Analysis σ}

theorem FileScan.each_keeps (h : analysis.ReadsOnly) (files : List Path) (w : World σ) :
    (each analysis files w).2.disk = w.disk := by
  induction files generalizing w with
  | nil => rfl
  | cons file files ih => exact (ih (analysis file w).2).trans (h.keeps file w)

theorem FileScan.each_same (h : analysis.ReadsOnly) (files : List Path) {w w' : World σ}
    (hd : w.disk = w'.disk) : (each analysis files w).1 = (each analysis files w').1 := by
  induction files generalizing w w' with
  | nil => rfl
  | cons file files ih =>
    have hrest : (analysis file w).2.disk = (analysis file w').2.disk := by
      rw [h.keeps, h.keeps, hd]
    simp only [each, h.same file w w' hd, ih hrest]

theorem FileScan.each_paths (analysis : Analysis σ) (files : List Path) (w : World σ) :
    (each analysis files w).1.map path = files := by
  induction files generalizing w with
  | nil => rfl
  | cons file files ih =>
    simp only [each, List.map_cons, ofResult_path, ih]

theorem findCandidates_keeps (h : analysis.ReadsOnly) (atOnce : Nat) (files : List Path)
    (w : World σ) : (findCandidates atOnce analysis files w).2.disk = w.disk := by
  by_cases hcount : atOnce ≤ FileScan.maxAtOnce
  · rw [findCandidates_counted analysis files w hcount]
    exact FileScan.each_keeps h files w
  · rw [findCandidates_uncounted analysis files w (Nat.lt_of_not_le hcount)]

theorem findCandidates_same (h : analysis.ReadsOnly) (atOnce : Nat) (files : List Path)
    {w w' : World σ} (hd : w.disk = w'.disk) :
    (findCandidates atOnce analysis files w).1 = (findCandidates atOnce analysis files w').1 := by
  by_cases hcount : atOnce ≤ FileScan.maxAtOnce
  · rw [findCandidates_counted analysis files w hcount, findCandidates_counted analysis files w' hcount]
    simp only [FileScan.each_keeps h, FileScan.each_same h files hd, hd]
  · have hmany := Nat.lt_of_not_le hcount
    rw [findCandidates_uncounted analysis files w hmany, findCandidates_uncounted analysis files w' hmany]

theorem FileScan.candidates?_some {disk : Disk} {scan : FileScan} {e : FileCandidates}
    (h : scan.candidates? disk = some e) : e.path = scan.path ∧ Selected disk e := by
  unfold candidates? at h
  split at h
  · simp at h
  · cases ht : disk.readText scan.path with
    | error cause => simp [ht] at h
    | ok text =>
      rw [ht] at h
      simp only at h
      split at h
      · simp at h
      · obtain rfl := Option.some.inj h
        exact ⟨rfl, scan.lines, text, ht, rfl⟩

end

def Candidate.Before (c d : Candidate) : Prop :=
  c.path.order d.path = .lt ∨ c.path.order d.path = .eq ∧ c.line < d.line

theorem Candidate.not_before {c d : Candidate}
    (h : c.path.order d.path = .lt ∨ c.path.order d.path = .eq ∧ c.line ≤ d.line) :
    ¬ d.Before c := by
  have hswap : d.path.order c.path = (c.path.order d.path).swap := Std.OrientedCmp.eq_swap
  unfold Before
  rw [hswap]
  rintro (hlt | ⟨heq, hlt⟩)
  · rcases h with h | ⟨h, _⟩
    · simp [h] at hlt
    · simp [h] at hlt
  · rcases h with h | ⟨_, hle⟩
    · simp [h] at heq
    · omega

structure Plan.Ascending (plan : Plan) (disk : Disk) : Prop where
  files : plan.Pairwise fun e e' => e.path.order e'.path = .lt
  selected : ∀ e ∈ plan, Selected disk e

theorem Selected.candidate_path {disk : Disk} {e : FileCandidates} (h : Selected disk e)
    {c : Candidate} (hc : c ∈ e.candidates) : c.path = e.path := by
  obtain ⟨reported, text, _, he⟩ := h
  rw [he, FileCandidates.select] at hc
  obtain ⟨n, _, hn⟩ := List.mem_filterMap.1 hc
  obtain ⟨_, _, _, rfl⟩ := candidate?_eq_some.1 hn
  rfl

section
variable {plan : Plan} {disk : Disk}

theorem findCandidates_ascending {analysis : Analysis σ} (hr : analysis.ReadsOnly)
    {files : List Path} (hf : files.Pairwise fun p q => p.order q = .lt) {atOnce : Nat}
    {w : World σ} (h : (findCandidates atOnce analysis files w).1 = .ok plan) :
    plan.Ascending w.disk := by
  by_cases hcount : atOnce ≤ FileScan.maxAtOnce
  · rw [findCandidates_counted analysis files w hcount] at h
    obtain rfl := Except.ok.inj h
    rw [FileScan.each_keeps hr]
    refine ⟨?_, fun e he => ?_⟩
    · rw [List.pairwise_filterMap]
      have hscans : ((FileScan.each analysis files w).1.map FileScan.path).Pairwise
          fun p q => p.order q = .lt := by rwa [FileScan.each_paths]
      rw [FileScan.inOrder_eq_self hscans]
      refine (List.pairwise_map.1 hscans).imp ?_
      intro a b hab e he e' he'
      rw [(FileScan.candidates?_some he).1, (FileScan.candidates?_some he').1]
      exact hab
    · obtain ⟨scan, _, hscan⟩ := List.mem_filterMap.1 he
      exact (FileScan.candidates?_some hscan).2
  · rw [findCandidates_uncounted analysis files w (Nat.lt_of_not_le hcount)] at h
    simp at h

theorem Plan.Ascending.candidates (h : plan.Ascending disk) :
    (plan.flatMap FileCandidates.candidates).Pairwise Candidate.Before := by
  rw [List.pairwise_flatMap]
  constructor
  · intro e he
    have hlines := List.pairwise_map.1 (h.selected e he).ascending
    refine hlines.imp_of_mem fun hc hd hlt => .inr ⟨?_, hlt⟩
    rw [(h.selected e he).candidate_path hc, (h.selected e he).candidate_path hd]
    exact Std.ReflCmp.compare_self
  · refine h.files.imp_of_mem fun he he' hlt c hc d hd => .inl ?_
    rw [(h.selected _ he).candidate_path hc, (h.selected _ he').candidate_path hd]
    exact hlt

/-- Outcomes that are sorted and account for the candidates of a plan in ascending order go through
these candidates in their order. -/
theorem Plan.Ascending.outcomes (h : plan.Ascending disk) {os : List Outcome}
    (hsorted : os.Pairwise fun o o' => o.le o' = true)
    (hperm : (os.map Outcome.candidate).Perm (plan.flatMap FileCandidates.candidates)) :
    os.map Outcome.candidate = plan.flatMap FileCandidates.candidates := by
  have hstrict := h.candidates
  have hle : (os.map Outcome.candidate).Pairwise fun c d => ¬ d.Before c :=
    List.pairwise_map.2 (hsorted.imp fun ho => Candidate.not_before (Outcome.le_iff.1 ho))
  have hle' : (plan.flatMap FileCandidates.candidates).Pairwise fun c d => ¬ d.Before c :=
    hstrict.imp fun hb => Candidate.not_before (hb.imp id fun hb => ⟨hb.1, Nat.le_of_lt hb.2⟩)
  refine List.Perm.eq_of_pairwise (fun c d hc hd hcd hdc => ?_) hle hle' hperm
  -- two different candidates of the plan would stand one before the other
  have : Std.Symm fun c d : Candidate => c.Before d ∨ d.Before c := ⟨fun _ _ hb => hb.symm⟩
  have heither : (plan.flatMap FileCandidates.candidates).Pairwise
      fun c d => c.Before d ∨ d.Before c := hstrict.imp .inl
  by_contra hne
  exact (heither.forall (hperm.mem_iff.1 hc) hd hne).elim hdc hcd

theorem Plan.Ascending.reported (h : plan.Ascending disk) {build : Build σ} {s s' : Session σ}
    {report : Report} (hrun : run build plan s = (some report, s')) :
    report.outcomes.map Outcome.candidate = plan.flatMap FileCandidates.candidates := by
  have hlines : ∀ e ∈ plan, e.lines.Nodup :=
    fun e he => ((h.selected e he).ascending).imp Nat.ne_of_lt
  exact h.outcomes (run_sorted hrun) (run_accounted hlines hrun).complete

end

theorem Sources.below_congr {s t : Settings} (h : s.extensions = t.extensions) (disk : Disk)
    (excluded : Option Location) (depth : Nat) (dir : Location) (path : Path) :
    below disk s excluded depth dir path = below disk t excluded depth dir path := by
  have hext : ∀ name, hasExtension s name = hasExtension t name := by
    intro name
    simp only [hasExtension, Settings.accepts, h]
  induction depth generalizing dir path with
  | zero => rfl
  | succ depth ih => simp only [below, hext, ih]

theorem Sources.collect_dryRun (disk : Disk) (settings : Settings) (dryRun : Bool) (target : Path) :
    collect disk { settings with dryRun := dryRun } target = collect disk settings target := by
  unfold collect
  split
  · rfl
  · split
    · rfl
    · have hext : ({ settings with dryRun := dryRun } : Settings).extensions = settings.extensions :=
        rfl
      cases disk.locate target with
      | error cause => rfl
      | ok dir => exact congrArg Except.ok (below_congr hext disk _ _ dir target)

structure Previews (disk : Disk) (dry real : Except SweepError Summary × Session σ) : Prop where
  unbuilt : dry.2.trials = []
  unchanged : dry.2.world.disk = disk
  failed : ∀ e, dry.1 = .error e → real.1 = .error e
  listed : ∀ summary, dry.1 = .ok summary → summary.report = none ∧
    ∃ report, real.1 = .ok { summary with report := some report } ∧
      report.outcomes.map Outcome.candidate = summary.candidates.flatMap FileCandidates.candidates

/-- A dry sweep builds nothing, changes nothing and has no report. A real sweep of the same tree, if the
untouched project builds, tries exactly the candidates that the dry one has listed, and reports on them
in the same order, whatever its later builds say and do. -/
theorem dry_sweep_previews {build : Build σ} {analysis : Analysis σ} (hr : analysis.ReadsOnly)
    (settings : Settings) (target : Path) (tree : Tree) {w : World σ} (hw : w.disk = tree.toDisk)
    (hpass : (build w).1 = true) (hstill : (build w).2.disk = w.disk) :
    (w.disk.contains target = true → settings.scanJobs ≤ FileScan.maxAtOnce → ∃ summary,
      (sweep build analysis { settings with dryRun := true } target w).1 = .ok summary) ∧
    (∀ build', sweep build' analysis { settings with dryRun := true } target w =
      sweep build analysis { settings with dryRun := true } target w) ∧
    Previews w.disk (sweep build analysis { settings with dryRun := true } target w)
      (sweep build analysis { settings with dryRun := false } target w) := by
  have hdryFiles := Sources.collect_dryRun w.disk settings true target
  have hrealFiles := Sources.collect_dryRun w.disk settings false target
  cases hfiles : Sources.collect w.disk settings target with
  | error e =>
    have hmissing : ¬ w.disk.contains target = true := by
      rw [← Sources.collect_ok w.disk settings target, hfiles]
      simp
    have hdry : ∀ build' : Build σ, sweep build' analysis { settings with dryRun := true } target w =
        (.error e, .start w) := fun _ => sweep_missing (hdryFiles.trans hfiles)
    rw [hdry build, sweep_missing (hrealFiles.trans hfiles)]
    refine ⟨fun h => absurd h hmissing, hdry, rfl, rfl, fun _ h => h, ?_⟩
    intro summary h
    simp at h
  | ok files =>
    have hkept := findCandidates_keeps hr settings.scanJobs files w
    have hsame := findCandidates_same hr settings.scanJobs files hstill
    cases hfound : findCandidates settings.scanJobs analysis files w with
    | mk found w₁ =>
    cases hfound' : findCandidates settings.scanJobs analysis files (build w).2 with
    | mk found' w₂ =>
    simp only [hfound, hfound'] at hkept hsame
    subst hsame
    have hdry : ∀ build' : Build σ, sweep build' analysis { settings with dryRun := true } target w =
        (found'.map fun candidates => ⟨target, files.length, candidates, none⟩, .start w₁) :=
      fun _ => sweep_dry (hdryFiles.trans hfiles) rfl hfound
    rw [hdry build]
    refine ⟨fun _ hcount => ?_, hdry, rfl, hkept, ?_, ?_⟩
    · rw [findCandidates_counted analysis files w hcount, Prod.mk.injEq] at hfound
      rw [← hfound.1]
      exact ⟨_, rfl⟩
    · intro e he
      cases found' with
      | error e' =>
        obtain rfl : e' = e := by simpa [Except.map] using he
        rw [sweep_unscanned (hrealFiles.trans hfiles) rfl hpass hfound']
      | ok plan => simp [Except.map] at he
    · intro summary hs
      cases found' with
      | error e => simp [Except.map] at hs
      | ok plan =>
        obtain rfl : _ = summary := by simpa [Except.map] using hs
        obtain ⟨report, s', hrun, hsweep⟩ := sweep_run (hrealFiles.trans hfiles) rfl hpass hfound'
        have hplan : Plan.Ascending plan w.disk := findCandidates_ascending hr
          (Sources.collect_ascending tree (hw ▸ hfiles)) (congrArg Prod.fst hfound)
        exact ⟨rfl, report, by rw [hsweep], hplan.reported hrun⟩

/-- The order of the texts is not that of the paths here: `a` comes before `a.cc`. -/
def nestedSources : Tree where
  cwd := ["src"]
  entries :=
    [(["src"], .dir),
     (["src", "a.cc"], .file 0o644 (encode "#include <x.h>\n#include <y.h>\nint a;\n")),
     (["src", "a"], .dir),
     (["src", "a", "b.cc"], .file 0o600 (encode "#include <z.h>\r\nint b;"))]
  refusals := []
  distinct := by decide
  named := by decide

def nestedFlags : Rehearsal.Flagging :=
  ⟨[(⟨"./a.cc"⟩, [2, 1, 3]), (⟨"./a/b.cc"⟩, [1])], []⟩

theorem Rehearsal.Flagging.readsOnly (f : Rehearsal.Flagging) :
    (f.toAnalysis : Analysis σ).ReadsOnly :=
  ⟨fun _ _ => rfl, fun _ _ _ _ => rfl⟩

/-- A file is edited while a later build runs. -/
theorem dry_sweep_previews_nested :
    (disturbing.toBuild ⟨nestedSources.toDisk, 0⟩).1 = true ∧
    (disturbing.toBuild ⟨nestedSources.toDisk, 0⟩).2.disk = nestedSources.toDisk ∧
    Sources.collect nestedSources.toDisk (Settings.initial 4) ⟨"."⟩ = .ok [⟨"./a/b.cc"⟩, ⟨"./a.cc"⟩] ∧
    (∃ summary, (sweep disturbing.toBuild nestedFlags.toAnalysis
      { Settings.initial 4 with dryRun := true } ⟨"."⟩ ⟨nestedSources.toDisk, 0⟩).1 = .ok summary) ∧
    Previews nestedSources.toDisk
      (sweep disturbing.toBuild nestedFlags.toAnalysis { Settings.initial 4 with dryRun := true } ⟨"."⟩
        ⟨nestedSources.toDisk, 0⟩)
      (sweep disturbing.toBuild nestedFlags.toAnalysis { Settings.initial 4 with dryRun := false } ⟨"."⟩
        ⟨nestedSources.toDisk, 0⟩) := by
  have hpass : (disturbing.toBuild ⟨nestedSources.toDisk, 0⟩).1 = true := by decide +kernel
  have hstill : (disturbing.toBuild ⟨nestedSources.toDisk, 0⟩).2.disk = nestedSources.toDisk := by
    decide +kernel
  obtain ⟨hreturns, _, hpreviews⟩ :=
    dry_sweep_previews nestedFlags.readsOnly (Settings.initial 4) ⟨"."⟩ nestedSources rfl hpass
      hstill
  exact ⟨hpass, hstill, by decide +kernel,
    hreturns (by decide +kernel) (by decide +kernel), hpreviews⟩

end IncludeSweep
