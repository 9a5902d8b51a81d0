import IncludeSweep.Proofs.Opening
import IncludeSweep.Proofs.PlanCourse
import IncludeSweep.Rehearsal.Programs

set_option autoImplicit false

/-! # Undisturbed runs

Opening the files of a plan places them on the disk, and the run then follows the course of the
plan. -/

namespace IncludeSweep

open Text Draft

variable {σ : Type}

def LeadApart (disk : Disk) (plan : Plan) : Prop :=
  plan.Pairwise fun e e' => ∀ text text', disk.readText e.path = .ok text →
    disk.readText e'.path = .ok text' → disk.locate e.path ≠ disk.locate e'.path

/-- The entries of a plan that can be opened name regular files, not links to them, and no two of
them the same one. -/
structure Separate (disk : Disk) (plan : Plan) : Prop where
  regular : ∀ e ∈ plan, ∀ text, disk.readText e.path = .ok text →
    disk.locateName e.path = disk.locate e.path
  distinct : LeadApart disk plan

def TakesWrites (disk : Disk) (plan : Plan) : Prop :=
  ∀ e ∈ plan, ∀ text, disk.readText e.path = .ok text → disk.takes e.path = true

def place (disk : Disk) (e : FileCandidates) : Option Placed :=
  match originOf disk e, disk.locate e.path with
  | some g, .ok loc =>
    match disk.get? loc with
    | some (.file mode _) => some (g.opened, ⟨loc, mode, g.lines⟩)
    | _ => none
  | _, _ => none

theorem place_of_holds {disk : Disk} {e : FileCandidates} {text : String} {loc : Location}
    {mode : Mode} (hne : e.candidates ≠ []) (h : disk.Holds e.path loc mode text) :
    place disk e = some ((⟨e, text⟩ : Origin).opened, ⟨loc, mode, rawLines text⟩) := by
  simp [place, originOf, hne, h.readText, h.leads, h.content, Origin.lines]

theorem place_some {disk : Disk} {e : FileCandidates} {x : Placed} (h : place disk e = some x) :
    ∃ text loc mode, e.candidates ≠ [] ∧ disk.Holds e.path loc mode text ∧
      x = ((⟨e, text⟩ : Origin).opened, ⟨loc, mode, rawLines text⟩) := by
  cases ho : originOf disk e with
  | none => simp [place, ho] at h
  | some g =>
    obtain ⟨rfl, hne, ht⟩ := originOf_some ho
    obtain ⟨loc, mode, hh⟩ := Disk.readText_ok ht
    rw [place_of_holds hne hh] at h
    exact ⟨g.text, loc, mode, hne, hh, (Option.some.inj h).symm⟩

theorem openAll_eq (disk : Disk) (plan : Plan) :
    openAll disk plan =
      ((plan.filterMap (place disk)).map Prod.fst, plan.flatMap (unopened disk)) := by
  rw [openAll_origins, List.map_filterMap, List.map_filterMap]
  congr 2
  funext e
  cases ho : originOf disk e with
  | none => simp [place, ho]
  | some g =>
    obtain ⟨rfl, hne, ht⟩ := originOf_some ho
    obtain ⟨loc, mode, hh⟩ := Disk.readText_ok ht
    rw [place_of_holds hne hh]
    rfl

def Disk.asFound (disk : Disk) : Layout := fun loc =>
  match disk.get? loc with
  | some (.file _ bytes) =>
    match decode bytes with
    | some text => allIntact (rawLines text)
    | none => []
  | _ => []

theorem Site.On.asFound {s : Site} {disk : Disk} (h : s.On disk) :
    disk.asFound s.loc = allIntact s.lines := by
  unfold Disk.asFound
  rw [h.content]
  simp only [Site.entry, decode_encode]
  rw [rawLines_renderLines h.lined, pieces_allIntact]

theorem commentedOut_not_mem_allIntact (lines : List String) : .commentedOut ∉ allIntact lines := by
  simp [allIntact]

theorem place_calm {disk : Disk} {plan : Plan}
    (hreg : ∀ e ∈ plan, ∀ text, disk.readText e.path = .ok text →
      disk.locateName e.path = disk.locate e.path)
    {x : Placed} (hx : x ∈ plan.filterMap (place disk)) :
    x.2.On disk ∧ x.1.Calm disk x.2 (disk.asFound x.2.loc) := by
  obtain ⟨e, he, hp⟩ := List.mem_filterMap.1 hx
  obtain ⟨text, loc, mode, hne, hh, rfl⟩ := place_some hp
  have hon : Site.On ⟨loc, mode, rawLines text⟩ disk := by
    refine ⟨lined_rawLines text, hh.reads, ?_⟩
    rw [hh.content, Site.entry]
    simp only
    rw [renderLines_allIntact]
  refine ⟨hon, ?_⟩
  rw [hon.asFound]
  have hnamed : disk.locateName e.path = .ok loc :=
    (hreg e he text hh.readText).trans hh.leads
  refine ⟨⟨hh.leads, hnamed, rfl, ?_⟩, rfl, rfl, commentedOut_not_mem_allIntact _⟩
  change IncludeSweep.digest (encode text) =
    IncludeSweep.digest (encode (renderLines (rawLines text) (allIntact (rawLines text))))
  rw [renderLines_allIntact]

theorem place_distinct {disk : Disk} {plan : Plan} (hsep : Separate disk plan) :
    ((plan.filterMap (place disk)).map fun x => x.2.loc).Nodup := by
  have hpair := hsep.distinct
  rw [List.Nodup, List.pairwise_map, List.pairwise_filterMap]
  refine hpair.imp ?_
  intro e e' hne x hx y hy
  obtain ⟨text, loc, mode, _, hh, rfl⟩ := place_some hx
  obtain ⟨text', loc', mode', _, hh', rfl⟩ := place_some hy
  intro heq
  exact hne text text' hh.readText hh'.readText
    (by rw [hh.leads, hh'.leads]; exact congrArg Except.ok heq)

theorem place_sited {disk : Disk} {plan : Plan} (hsep : Separate disk plan) :
    Sited disk ((plan.filterMap (place disk)).map Prod.snd) where
  distinct := by
    rw [List.map_map]
    exact place_distinct hsep
  on := by
    intro s hs
    obtain ⟨x, hx, rfl⟩ := List.mem_map.1 hs
    exact (place_calm hsep.regular hx).1

theorem place_ready {disk : Disk} {plan : Plan} (hsep : Separate disk plan) :
    Ready disk ((plan.filterMap (place disk)).map Prod.snd) disk.asFound
      (plan.filterMap (place disk)) where
  distinct := place_distinct hsep
  sited := fun _ hx => List.mem_map_of_mem hx
  calm := fun _ hx => (place_calm hsep.regular hx).2

theorem place_writable (disk : Disk) (plan : Plan) :
    Writable (¬ TakesWrites disk plan) disk (plan.filterMap (place disk)) := by
  intro x hx htakes hall
  obtain ⟨e, he, hp⟩ := List.mem_filterMap.1 hx
  obtain ⟨text, _, _, _, hh, rfl⟩ := place_some hp
  have htrue : disk.takes e.path = true := hall e he text hh.readText
  exact absurd (htrue.symm.trans htakes) (by simp)

theorem place_remaining {disk : Disk} {plan : Plan} {x : Placed}
    (hx : x ∈ plan.filterMap (place disk)) : x.1.remaining ≠ [] := by
  obtain ⟨e, _, hp⟩ := List.mem_filterMap.1 hx
  obtain ⟨_, _, _, hne, _, rfl⟩ := place_some hp
  simpa [Origin.opened, FileCandidates.lines] using hne

def Session.opened (s : Session σ) (plan : Plan) : Progress σ :=
  { s with outcomes := plan.flatMap (unopened s.world.disk), unrestored := [] }

theorem runPlan_course {build : Build σ} (hq : Quiet build) {plan : Plan} {s : Session σ}
    (hsep : Separate s.world.disk plan) (ht : s.tainted = false) :
    ∃ (ts : List Trial) (os : List Outcome) (w : Layout),
      PlanCourse (¬ TakesWrites s.world.disk plan) s.world.disk
        (plan.filterMap (place s.world.disk)) s.world.disk.asFound ts os w ∧
      (runPlan build plan s).2.disk =
        s.world.disk.laid w ((plan.filterMap (place s.world.disk)).map Prod.snd) ∧
      (s.opened plan).Grows build (runPlan build plan s).2 ts os ∧
      (TakesWrites s.world.disk plan → (runPlan build plan s).2.unrestored = []) := by
  have h := place_sited hsep
  have hr := place_ready hsep
  have hwrite := place_writable s.world.disk plan
  have hremaining := fun x (hx : x ∈ plan.filterMap (place s.world.disk)) => place_remaining hx
  unfold runPlan
  rw [openAll_eq]
  generalize hxs : plan.filterMap (place s.world.disk) = xs at h hr hwrite hremaining
  have hfound : (s.opened plan).disk = s.world.disk.laid s.world.disk.asFound (xs.map Prod.snd) :=
    (Disk.laid_intact h fun t ht => (h.on t ht).asFound).symm
  by_cases hnil : xs = []
  · subst hnil
    exact ⟨[], [], _, .idle rfl, rfl, (Progress.adds_refl build _).toGrows, fun _ => rfl⟩
  have hne : xs.map Prod.fst ≠ [] := by simpa using hnil
  simp only [hne, if_false]
  change ∃ ts os w, PlanCourse _ s.world.disk xs s.world.disk.asFound ts os w ∧
    (refineAll build (judgeAll build (xs.map Prod.fst) (s.opened plan)).1
      (judgeAll build (xs.map Prod.fst) (s.opened plan)).2).2.disk =
        s.world.disk.laid w (xs.map Prod.snd) ∧
    (s.opened plan).Grows build (refineAll build (judgeAll build (xs.map Prod.fst) (s.opened plan)).1
      (judgeAll build (xs.map Prod.fst) (s.opened plan)).2).2 ts os ∧
    (_ → (refineAll build (judgeAll build (xs.map Prod.fst) (s.opened plan)).1
      (judgeAll build (xs.map Prod.fst) (s.opened plan)).2).2.unrestored = [])
  rcases judgeAll_course hq h hr hwrite hremaining hfound with
    ⟨fs, p, he, hm, hfs, hd, hadds⟩ | ⟨us, os₀, fs, p, he, hleft, hd, hgrows, hunharmed, hcase⟩
  · rw [he, refineAll_resolved hfs]
    exact ⟨_, _, _, .passed hnil hm, hd, hadds.toGrows, fun _ => hadds.unrestored⟩
  · rw [he]
    have htaint : p.tainted = true → ¬ TakesWrites s.world.disk plan := by
      intro htrue hall
      rw [(hunharmed (not_not.2 hall)).2] at htrue
      exact absurd (ht.symm.trans htrue) (by simp)
    obtain ⟨w, ts, os, os', hd', hadds', hperm, hcourse⟩ :=
      refineAll_course hq h hleft s.world.disk.asFound p hr hwrite hd htaint
    refine ⟨us ++ ts, os', w, ?_, hd', (hgrows.trans hadds'.toGrows).perm hperm.symm, fun hall => ?_⟩
    · rcases hcase with ⟨hm, rfl⟩ | ⟨hm, rfl⟩
      · exact .failed hnil hm hcourse
      · exact .abandoned hnil hm hcourse
    · exact hadds'.unrestored.trans (hunharmed (not_not.2 hall)).1

theorem openingDisk_of_quiet {build : Build σ} (hq : Quiet build) (s : Session σ) :
    s.openingDisk build = s.world.disk := by
  unfold Session.openingDisk
  split
  · rfl
  · exact hq s.world

structure Undisturbed (build : Build σ) (plan : Plan) (s : Session σ) (report : Report)
    (s' : Session σ) (ts : List Trial) (os : List Outcome) (w : Layout) : Prop where
  course : PlanCourse (¬ TakesWrites s.world.disk plan) s.world.disk
    (plan.filterMap (place s.world.disk)) s.world.disk.asFound ts os w
  disk : s'.world.disk = s.world.disk.laid w ((plan.filterMap (place s.world.disk)).map Prod.snd)
  ready : ∀ t ∈ s.preflight build, t.passed = true
  trials : s'.trials = s.trials ++ s.preflight build ++ ts
  given : ∀ t ∈ ts, t.Given build
  outcomes : report.outcomes.Perm (plan.flatMap (unopened s.world.disk) ++ os)
  unrestored : TakesWrites s.world.disk plan → report.unrestored = []

theorem run_undisturbed {build : Build σ} (hq : Quiet build) {plan : Plan} {s s' : Session σ}
    {report : Report} (hsep : Separate s.world.disk plan) (ht : s.tainted = false)
    (hrun : run build plan s = (some report, s')) :
    ∃ ts os w, Undisturbed build plan s report s' ts os w := by
  rcases run_checked build plan s with ⟨u, he, hdisk, htaint, htrials, hready⟩ | ⟨hnone, _⟩
  · rw [he, Prod.mk.injEq, Option.some.injEq] at hrun
    obtain ⟨rfl, rfl⟩ := hrun
    rw [openingDisk_of_quiet hq] at hdisk
    rw [← hdisk] at hsep
    obtain ⟨ts, os, w, hcourse, hd, hadds, hunrestored⟩ := runPlan_course hq hsep (htaint.trans ht)
    rw [hdisk] at hcourse hd hunrestored
    refine ⟨ts, os, w, hcourse, hd, hready, ?_, hadds.given, ?_, hunrestored⟩
    · rw [hadds.trials, ← htrials]
      rfl
    · have hp := hadds.outcomes
      change List.Perm _ (plan.flatMap (unopened u.world.disk) ++ os) at hp
      rw [hdisk] at hp
      exact (stableSort_perm Outcome.le _).trans hp
  · rw [hrun] at hnone
    exact absurd hnone (by simp)

def twoEntries : Plan :=
  [⟨⟨"a.cc"⟩, [⟨⟨"a.cc"⟩, 1, "#include <x.h>"⟩, ⟨⟨"a.cc"⟩, 2, "#include <y.h>"⟩]⟩,
   ⟨⟨"b.cc"⟩, [⟨⟨"b.cc"⟩, 1, "#include <z.h>"⟩]⟩]

theorem twoEntries_separate : Separate twoFiles twoEntries where
  regular := by
    intro e he _ _
    have hnames : ∀ e ∈ twoEntries, twoFiles.locateName e.path = twoFiles.locate e.path := by decide
    exact hnames e he
  distinct := by
    have hne : twoEntries.Pairwise fun e e' =>
        twoFiles.locate e.path ≠ twoFiles.locate e'.path := by
      decide
    exact hne.imp fun h _ _ _ _ => h

theorem twoEntries_takesWrites : TakesWrites twoFiles twoEntries := by
  intro e he _ _
  have htakes : ∀ e ∈ twoEntries, twoFiles.takes e.path = true := by decide
  exact htakes e he

theorem Rehearsal.BuildScript.toBuild_quiet (script : BuildScript) (h : script.edits = []) :
    Quiet script.toBuild := by
  intro w
  simp [toBuild, buildAt, editsAt, h]

/-- One line of the first file is required; a later build fails in addition. -/
def requiresFirst : Rehearsal.BuildScript :=
  ⟨false, [(⟨"a.cc"⟩, "#include <x.h>")], [true, true, true, true, false], []⟩

theorem requiresFirst_reports : ∃ report s,
    run requiresFirst.toBuild twoEntries (Session.start ⟨twoFiles, 0⟩) = (some report, s) :=
  reports_of_pass (by decide) twoEntries

end IncludeSweep
