import Mathlib.Order.Monotone.Basic
import IncludeSweep.Proofs.RejectedRun
import IncludeSweep.Proofs.RequiredLines

set_option autoImplicit false

/-! # A second run

What a run has left is numbered anew. A second run over surviving candidates, with the numbers they
have now, tries lines that the first run has tried when more of the others were still there, so none
of its builds passes. -/

namespace IncludeSweep

open Text Draft Rehearsal

variable {σ : Type}

/-- The number of a line once others are gone: how many of the lines up to it are left. -/
def numberLeft (gone : List Spot) (loc : Location) (n : Nat) : Nat :=
  ((List.range' 1 n).filter fun k => !gone.contains (loc, k)).length

section
variable {gone : List Spot} {loc : Location} {n m : Nat}

theorem numberLeft_succ_gone (h : (loc, n + 1) ∈ gone) :
    numberLeft gone loc (n + 1) = numberLeft gone loc n := by
  rw [numberLeft, List.range'_1_concat, List.filter_append, Nat.add_comm 1 n]
  simp [numberLeft, h]

theorem numberLeft_succ (h : (loc, n + 1) ∉ gone) :
    numberLeft gone loc (n + 1) = numberLeft gone loc n + 1 := by
  rw [numberLeft, List.range'_1_concat, List.filter_append, Nat.add_comm 1 n]
  simp [numberLeft, h]

theorem numberLeft_mono (gone : List Spot) (loc : Location) : Monotone (numberLeft gone loc) := by
  refine monotone_nat_of_le_succ fun n => ?_
  by_cases h : (loc, n + 1) ∈ gone
  · rw [numberLeft_succ_gone h]
  · rw [numberLeft_succ h]
    omega

theorem numberLeft_lt (hlt : n < m) (h : (loc, m) ∉ gone) :
    numberLeft gone loc n < numberLeft gone loc m := by
  obtain ⟨k, rfl⟩ := Nat.exists_eq_add_of_lt hlt
  have hle : numberLeft gone loc n ≤ numberLeft gone loc (n + k) :=
    numberLeft_mono gone loc (by omega)
  rw [numberLeft_succ h]
  omega

theorem numberLeft_inj (hn : (loc, n) ∉ gone) (hm : (loc, m) ∉ gone)
    (h : numberLeft gone loc n = numberLeft gone loc m) : n = m := by
  rcases Nat.lt_trichotomy n m with hlt | rfl | hlt
  · have := numberLeft_lt hlt hm
    omega
  · rfl
  · have := numberLeft_lt hlt hn
    omega

theorem zipIdx_pieces (gone : List Spot) (loc : Location) (lines : List String) (k : Nat) :
    (pieces lines ((lines.zipIdx (k + 1)).map fun x => stateUnder gone [] loc x.2)).zipIdx
        (numberLeft gone loc k + 1) =
      ((lines.zipIdx (k + 1)).filter fun x => (loc, x.2) ∉ gone).map
        fun x => (x.1, numberLeft gone loc x.2) := by
  induction lines generalizing k with
  | nil => rfl
  | cons line lines ih =>
    rw [List.zipIdx_cons, List.map_cons]
    by_cases h : (loc, k + 1) ∈ gone
    · have hrest := ih (k + 1)
      rw [numberLeft_succ_gone h] at hrest
      simpa [stateUnder, h, pieces] using hrest
    · have hrest := ih (k + 1)
      rw [numberLeft_succ h] at hrest
      simpa [stateUnder, h, pieces, numberLeft_succ h] using hrest

theorem zipIdx_left (gone : List Spot) (loc : Location) (lines : List String) :
    (pieces lines (numbered (stateUnder gone [] loc) lines)).zipIdx 1 =
      ((lines.zipIdx 1).filter fun x => (loc, x.2) ∉ gone).map
        fun x => (x.1, numberLeft gone loc x.2) :=
  zipIdx_pieces gone loc lines 0

theorem nth?_left {lines : List String} {line : String}
    (h : nth? (pieces lines (numbered (stateUnder gone [] loc) lines)) m = some line) :
    ∃ n, (loc, n) ∉ gone ∧ numberLeft gone loc n = m ∧ nth? lines n = some line := by
  have hmem := mem_zipIdx_one.2 h
  rw [zipIdx_left] at hmem
  obtain ⟨⟨line', n⟩, hx, heq⟩ := List.mem_map.1 hmem
  obtain ⟨rfl, rfl⟩ := Prod.mk.inj heq
  obtain ⟨hx, hleft⟩ := List.mem_filter.1 hx
  exact ⟨n, by simpa using hleft, rfl, mem_zipIdx_one.1 hx⟩

/-- States given by new numbers, on what is left, are states given by old numbers. -/
theorem pieces_left (gone : List Spot) (loc : Location) (state : Nat → LineState)
    (lines : List String) :
    pieces (pieces lines (numbered (stateUnder gone [] loc) lines))
        (numbered state (pieces lines (numbered (stateUnder gone [] loc) lines))) =
      pieces lines (numbered (fun n => if (loc, n) ∈ gone then .deleted
        else state (numberLeft gone loc n)) lines) := by
  rw [pieces_numbered, zipIdx_left, List.filterMap_map, List.filterMap_filter, pieces_numbered]
  congr 1
  funext x
  by_cases h : (loc, x.2) ∈ gone
  · simp [h, LineState.piece?]
  · simp [h]

end

theorem Disk.showing_without {disk : Disk} {sites : List Site} {gone old batch : List Spot}
    (h : Sited disk sites) (hold : ∀ p ∈ gone ++ old, ∃ s ∈ sites, s.loc = p.1)
    (hbatch : ∀ p ∈ batch, ∃ s ∈ sites, s.loc = p.1) (hfree : ∀ p ∈ old, p ∉ gone)
    (hnew : ∀ loc n, (loc, n) ∉ gone →
      ((loc, numberLeft gone loc n) ∈ batch ↔ (loc, n) ∈ old)) :
    (disk.without gone).showing [] batch = disk.showing gone old := by
  have hgone : ∀ p ∈ gone ++ [], ∃ s ∈ sites, s.loc = p.1 :=
    fun p hp => hold p (List.mem_append_left _ (by simpa using hp))
  have hf := follows_laying h hgone
  have hf' := follows_laying h hold
  rw [Disk.without, ← hf.laid h, ← hf'.laid h]
  refine Disk.showing_laid h (by simpa using hbatch) fun s hs => ?_
  rw [hf.states s hs, hf'.states s hs, renderLines_eq_join, renderLines_eq_join, pieces_left]
  congr 2
  refine congrArg (numbered · s.lines) (funext fun n => ?_)
  by_cases hn : (s.loc, n) ∈ gone
  · have hnot : (s.loc, n) ∉ old := fun hmem => hfree _ hmem hn
    simp [stateUnder, hn, hnot]
  · simp [stateUnder, hn, hnew s.loc n hn]

/-- An entry for a second run: what is selected from a regular file as it is now, with no lines but
those of candidates of the first plan that are left. -/
structure Refreshed (before now : Disk) (plan : Plan) (gone : List Spot) (e : FileCandidates) :
    Prop where
  selected : Selected now e
  regular : now.locateName e.path = now.locate e.path
  surviving : ∀ n ∈ e.lines, ∃ first ∈ plan, ∃ m ∈ first.lines, ∃ loc,
    before.locate first.path = .ok loc ∧ now.locate e.path = .ok loc ∧ (loc, m) ∉ gone ∧
      n = numberLeft gone loc m

section
variable {V : Disk → Bool} {disk : Disk} {plan plan' : Plan} {gone : List Spot}
  {e : FileCandidates} {t : Target}

theorem Refreshed.target (he : Refreshed disk (disk.without gone) plan gone e)
    (ht : t ∈ (disk.without gone).targetsOf e) :
    ∃ m, (t.loc, m) ∈ spots (disk.targets plan) ∧ (t.loc, m) ∉ gone ∧
      t.candidate.line = numberLeft gone t.loc m := by
  obtain ⟨mode, text, hh, hc⟩ := Disk.mem_targetsOf ht
  obtain ⟨first, hfirst, m, hm, loc, hleads, hnow, hleft, hline⟩ :=
    he.surviving t.candidate.line (List.mem_map_of_mem hc)
  obtain rfl : t.loc = loc := Except.ok.inj (hh.leads.symm.trans hnow)
  obtain ⟨before, hbefore, rfl⟩ := Disk.holds_showing.1 hh
  obtain ⟨line, hnth, hlive, _⟩ := he.selected.candidate hh hc
  rw [rawLines_renderLines (lined_rawLines before)] at hnth
  obtain ⟨k, hk, hnumber, hold⟩ := nth?_left hnth
  obtain rfl : k = m := numberLeft_inj hk hleft (hnumber.trans hline)
  refine ⟨k, ?_, hleft, hline⟩
  have hholds : disk.Holds first.path t.loc mode before :=
    ⟨hleads, hbefore.reads, hbefore.content⟩
  obtain ⟨c, hc, rfl⟩ := List.mem_map.1 hm
  refine List.mem_map.2 ⟨⟨c, t.loc⟩, List.mem_flatMap.2 ⟨first, hfirst, ?_⟩, rfl⟩
  rw [hholds.targetsOf]
  refine List.mem_map_of_mem (List.mem_filter.2 ⟨hc, ?_⟩)
  exact decide_eq_true ⟨line, hold, hlive⟩

theorem spots_sited {p : Spot} (h : p ∈ spots (disk.targets plan)) :
    ∃ s ∈ (plan.filterMap (place disk)).map Prod.snd, s.loc = p.1 := by
  rw [targets_eq] at h
  obtain ⟨t, ht, rfl⟩ := List.mem_map.1 h
  obtain ⟨x, hx, ht⟩ := List.mem_flatMap.1 ht
  exact ⟨x.2, List.mem_map_of_mem hx, (Placed.loc_of_target ht).symm⟩

/-- The spots of a first plan that a batch of a second run takes, under their first numbers. -/
def firstSpots (tried gone batch : List Spot) : List Spot :=
  tried.filter fun q => !gone.contains q && batch.contains (q.1, numberLeft gone q.1 q.2)

theorem mem_firstSpots {tried batch : List Spot} {q : Spot} :
    q ∈ firstSpots tried gone batch ↔
      q ∈ tried ∧ q ∉ gone ∧ (q.1, numberLeft gone q.1 q.2) ∈ batch := by
  simp [firstSpots]

theorem Disk.showing_renumbered (hsep : Separate disk plan) {batch : List Spot}
    (hgone : gone ⊆ spots (disk.targets plan))
    (hnew : ∀ p ∈ batch, ∃ m, (p.1, m) ∈ spots (disk.targets plan) ∧ (p.1, m) ∉ gone ∧
      p.2 = numberLeft gone p.1 m) :
    (disk.without gone).showing [] batch =
      disk.showing gone (firstSpots (spots (disk.targets plan)) gone batch) := by
  refine Disk.showing_without (place_sited hsep) (fun p hp => spots_sited ?_) ?_
    (fun q hq => (mem_firstSpots.1 hq).2.1) ?_
  · exact List.append_subset.2 ⟨hgone, List.filter_sublist.subset⟩ hp
  · intro p hp
    obtain ⟨m, hm, _⟩ := hnew p hp
    obtain ⟨s, hs, hloc⟩ := spots_sited hm
    exact ⟨s, hs, hloc⟩
  · intro loc n hn
    rw [mem_firstSpots]
    constructor
    · intro hmem
      obtain ⟨m, hm, hleft, hline⟩ := hnew _ hmem
      obtain rfl : n = m := numberLeft_inj hn hleft hline
      exact ⟨hm, hn, hmem⟩
    · exact fun h => h.2.2

/-- The verdict refuses everything that is left of what the greedy procedure has tried. -/
theorem refuses_left (hsep : Separate disk plan) (hV : Consistent V disk plan)
    {removed : List Target} (hremoved : removed = greedy V disk [] (disk.targets plan))
    (href : ∀ e ∈ plan', Refreshed disk (disk.without (spots removed)) plan (spots removed) e) :
    Rejects V (disk.without (spots removed)) plan' := by
  intro batch hne hsub
  have hgone : spots removed ⊆ spots (disk.targets plan) := by
    rw [hremoved]
    exact spots_subset (greedy_subset _ _)
  have hnew : ∀ p ∈ batch, ∃ m, (p.1, m) ∈ spots (disk.targets plan) ∧
      (p.1, m) ∉ spots removed ∧ p.2 = numberLeft (spots removed) p.1 m := by
    intro p hp
    obtain ⟨t, ht, rfl⟩ := List.mem_map.1 (hsub hp)
    obtain ⟨e, he, ht⟩ := List.mem_flatMap.1 ht
    exact (href e he).target ht
  let old := firstSpots (spots (disk.targets plan)) (spots removed) batch
  have hall : spots removed ++ old ⊆ spots (disk.targets plan) :=
    List.append_subset.2 ⟨hgone, List.filter_sublist.subset⟩
  rw [Disk.showing_renumbered hsep hgone hnew, hV.commented _ _ hall]
  -- one line of the batch would do for the verdict to fail
  obtain ⟨p, hp⟩ := List.exists_mem_of_ne_nil batch hne
  obtain ⟨m, hm, hleft, hline⟩ := hnew p hp
  obtain ⟨t, ht, hspot⟩ := List.mem_map.1 hm
  have hmem : t.spot ∈ old := by
    rw [hspot]
    exact mem_firstSpots.2 ⟨hm, hleft, hline ▸ hp⟩
  have hkept : t ∉ removed := fun hin => hleft (hspot ▸ List.mem_map_of_mem hin)
  have hfail := greedy_maximal hV (List.Subset.refl _) ht (hremoved ▸ hkept)
  rw [← hremoved, Bool.eq_false_iff] at hfail
  rw [Bool.eq_false_iff]
  refine mt (hV.fewer _ _ hall ?_) hfail
  rw [spots_append]
  refine List.append_subset.2 ⟨List.subset_append_left _ _, ?_⟩
  simpa [spots] using List.mem_append_right (spots removed) hmem

theorem Selected.markable (h : Selected disk e) {x : Placed} (hx : place disk e = some x) :
    (mark x.1.draft.lines x.1.remaining (disk.asFound x.2.loc)).2 = x.1.remaining := by
  obtain ⟨text, loc, mode, _, hh, rfl⟩ := place_some hx
  have hfound : disk.asFound loc = allIntact (rawLines text) := by
    simp [Disk.asFound, hh.content, decode_encode]
  change (mark (rawLines text) e.lines (disk.asFound loc)).2 = e.lines
  rw [hfound, mark_eq_filter h.nodup, List.filter_eq_self]
  intro n hn
  obtain ⟨c, hc, rfl⟩ := List.mem_map.1 hn
  obtain ⟨line, hline, hlive, _⟩ := h.candidate hh hc
  exact removable_allIntact.2 ⟨line, hline, hlive⟩

end

/-- After a run that reports, the lines it has removed being gone, a second run of a new session over
surviving candidates passes its first build, commits nothing and leaves the disk as it is. The build
that requires lines gives such verdicts. -/
theorem second_run_changes_nothing :
    (∀ {σ : Type} (V : Disk → Bool) (build : Build σ) (plan : Plan) (world : World σ)
      (report : Report) (s : Session σ), Quiet build → Judges build V →
      Consistent V world.disk plan → Separate world.disk plan → TakesWrites world.disk plan →
      (∀ e ∈ plan, e.lines.Nodup) →
      run build plan (Session.start world) = (some report, s) →
      ∃ removed : List Target, removed ⊆ world.disk.targets plan ∧
        report.committed.Perm (removed.map Target.candidate) ∧
        s.world.disk = world.disk.without (spots removed) ∧ (build s.world).1 = true ∧
        ∀ plan' : Plan,
          (∀ e ∈ plan', Refreshed world.disk s.world.disk plan (spots removed) e) →
          ∃ report' s', run build plan' (Session.start s.world) = (some report', s') ∧
            report'.committed = [] ∧ s'.world.disk = s.world.disk) ∧
    ∀ script : BuildScript, script.edits = [] → (∀ v ∈ script.verdicts, v = true) →
      Quiet script.toBuild ∧ Judges script.toBuild script.check ∧
      ∀ disk plan, Consistent script.check disk plan := by
  refine ⟨?_, fun script hedits hverdicts => ⟨script.toBuild_quiet hedits,
    script.toBuild_judges hverdicts, script.check_consistent⟩⟩
  intro σ V build plan world report s hq hj hV hsep htakes hlines hrun
  obtain ⟨ts, os, w, hu⟩ := run_undisturbed hq hsep rfl hrun
  obtain ⟨hcommit, hdisk⟩ := hu.greedy hj hV hsep htakes hlines
  -- the build before the first edit has passed
  have hfirst : V (world.disk.without (spots [])) = true :=
    (hj world).symm.trans (hu.ready _ List.mem_cons_self)
  have hpass := greedy_passes hfirst (world.disk.targets plan)
  change s.world.disk =
    world.disk.without (spots (greedy V world.disk [] (world.disk.targets plan))) at hdisk
  rw [← hdisk] at hpass
  refine ⟨_, greedy_subset [] _, hcommit, hdisk, (hj s.world).trans hpass, fun plan' href => ?_⟩
  refine run_rejected hq hj hpass ?_ (fun e he _ _ => (href e he).regular) ?_
  · change Rejects V s.world.disk plan'
    rw [hdisk] at href ⊢
    exact refuses_left hsep hV rfl href
  · intro x hx
    obtain ⟨e, he, hp⟩ := List.mem_filterMap.1 hx
    exact (href e he).selected.markable hp

def unusedText : String :=
  "#include <y.h>\n#include <x.h>\n"

def unusedFirst : Disk :=
  ⟨["src"], [(["src"], .dir), (["src", "a.cc"], .file 0o644 (encode unusedText))], []⟩

/-- The second plan names what is left of the file twice. -/
theorem second_run_changes_nothing_unusedFirst :
    ∃ report s,
      run requiresOne.toBuild [.select ⟨"a.cc"⟩ [1, 2] unusedText]
        (Session.start ⟨unusedFirst, 0⟩) = (some report, s) ∧
      report.committed = [⟨⟨"a.cc"⟩, 1, "#include <y.h>"⟩] ∧
      ∃ report' s',
        run requiresOne.toBuild (List.replicate 2 (.select ⟨"a.cc"⟩ [1] "#include <x.h>\n"))
          (Session.start s.world) = (some report', s') ∧
        report'.committed = [] ∧ s'.world.disk = s.world.disk := by
  have hread : unusedFirst.readText ⟨"a.cc"⟩ = .ok unusedText := by decide +kernel
  have hcheck : requiresOne.check unusedFirst = true := by decide +kernel
  have hsel : ∀ e ∈ [FileCandidates.select ⟨"a.cc"⟩ [1, 2] unusedText],
      Selected unusedFirst e := by
    intro e he
    rw [List.mem_singleton.1 he]
    exact ⟨_, _, hread, rfl⟩
  have hsep : Separate unusedFirst [.select ⟨"a.cc"⟩ [1, 2] unusedText] :=
    separate_singleton (by decide)
  have hlines : ∀ e ∈ [FileCandidates.select ⟨"a.cc"⟩ [1, 2] unusedText], e.lines.Nodup :=
    fun e he => (hsel e he).ascending.imp Nat.ne_of_lt
  have htakes : TakesWrites unusedFirst [.select ⟨"a.cc"⟩ [1, 2] unusedText] := by
    intro e he _ _
    rw [List.mem_singleton.1 he]
    decide +kernel
  obtain ⟨report, s, hrun, hres⟩ := run_resolves rfl (by decide) hcheck hsel hsep htakes
    (s := Session.start ⟨unusedFirst, 0⟩) rfl
  have hcommit : report.committed = [⟨⟨"a.cc"⟩, 1, "#include <y.h>"⟩] := by
    refine List.perm_singleton.1 (hres.committed.trans (.of_eq ?_))
    decide +kernel
  obtain ⟨hquiet, hjudges, hconsistent⟩ :=
    second_run_changes_nothing.2 requiresOne rfl (by decide)
  obtain ⟨removed, hsub, hperm, hdisk, _, hsecond⟩ := second_run_changes_nothing.1 _ _ _ _ _ _
    hquiet hjudges (hconsistent _ _) hsep htakes hlines hrun
  refine ⟨report, s, hrun, hcommit, hsecond _ ?_⟩
  have hremoved : removed = [⟨⟨⟨"a.cc"⟩, 1, "#include <y.h>"⟩, ["src", "a.cc"]⟩] := by
    rw [hcommit] at hperm
    obtain ⟨t, rfl, ht⟩ := List.map_eq_singleton_iff.1 (List.perm_singleton.1 hperm.symm)
    have htargets : ∀ t ∈ unusedFirst.targets [.select ⟨"a.cc"⟩ [1, 2] unusedText],
        t.loc = ["src", "a.cc"] := by
      decide +kernel
    have hloc := htargets t (hsub (by simp))
    cases t
    simp_all
  rw [hremoved] at hdisk ⊢
  rw [hdisk]
  intro e he
  rw [List.eq_of_mem_replicate he]
  refine ⟨⟨_, "#include <x.h>\n", ?_, rfl⟩, ?_, ?_⟩
  · decide +kernel
  · decide +kernel
  · have hlines : (FileCandidates.select ⟨"a.cc"⟩ [1] "#include <x.h>\n").lines = [1] := by
      decide +kernel
    intro n hn
    rw [hlines] at hn
    rw [List.mem_singleton.1 hn]
    refine ⟨_, List.mem_singleton.2 rfl, 2, ?_, ["src", "a.cc"], ?_, ?_, ?_, ?_⟩
    · decide +kernel
    · decide
    · decide +kernel
    · decide
    · decide

/-- By a shorter path the second run removes a line that the first one could not remove. -/
theorem second_run_by_shorter_path :
    Quiet passing.toBuild ∧ Judges passing.toBuild passing.check ∧
    Consistent passing.check detourDisk [detourEntry] ∧ Separate detourDisk [detourEntry] ∧
    detourEntry.lines.Nodup ∧
    ∃ report s, run passing.toBuild [detourEntry] (Session.start ⟨detourDisk, 0⟩) =
        (some report, s) ∧ report.committed = [] ∧ s.world.disk = detourDisk ∧
      Refreshed detourDisk detourDisk [detourEntry] [] (.select ⟨"a.cc"⟩ [1] detourText) ∧
      ∃ report' s', run passing.toBuild [.select ⟨"a.cc"⟩ [1] detourText] (Session.start s.world) =
          (some report', s') ∧
        report'.committed = [⟨⟨"a.cc"⟩, 1, "#include <x.h>"⟩] := by
  obtain ⟨report, s, hrun, houtcomes, hdisk, _⟩ := run_detourEntry
  refine ⟨passing.toBuild_quiet rfl, passing.toBuild_judges (by decide),
    passing.check_consistent _ _, detourDisk_separate, ?_, report, s, hrun, ?_, hdisk, ?_, ?_⟩
  · rw [detourEntry_lines]
    exact List.nodup_singleton 1
  · rw [Report.committed, Report.committedOutcomes, houtcomes]
    rfl
  · refine ⟨⟨[1], detourText, by decide +kernel, rfl⟩, by decide, fun n hn => ?_⟩
    rw [FileCandidates.lines, select_detourText] at hn
    obtain rfl := List.mem_singleton.1 hn
    refine ⟨detourEntry, List.mem_singleton_self _, 1, ?_, ["src", "a.cc"], detourDisk_holds.leads,
      by decide, by simp, by decide⟩
    rw [detourEntry_lines]
    exact List.mem_singleton_self 1
  · have hsel : ∀ e ∈ [FileCandidates.select ⟨"a.cc"⟩ [1] detourText], Selected s.world.disk e := by
      intro e he
      rw [List.mem_singleton.1 he, hdisk]
      exact ⟨[1], detourText, by decide +kernel, rfl⟩
    have hsep : Separate s.world.disk [.select ⟨"a.cc"⟩ [1] detourText] := by
      rw [hdisk]
      exact separate_singleton (by decide)
    have htakes : TakesWrites s.world.disk [.select ⟨"a.cc"⟩ [1] detourText] := by
      intro e he _ _
      rw [List.mem_singleton.1 he, hdisk]
      decide +kernel
    have hcheck : passing.check s.world.disk = true := rfl
    obtain ⟨report', s', hrun', hres⟩ := run_resolves rfl (by decide) hcheck hsel hsep htakes
      (s := Session.start s.world) rfl
    refine ⟨report', s', hrun', List.perm_singleton.1 (hres.committed.trans (.of_eq ?_))⟩
    rw [List.flatMap_singleton, select_detourText]
    simp [Needed, passing]

end IncludeSweep
