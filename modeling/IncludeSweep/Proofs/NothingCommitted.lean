import IncludeSweep.Proofs.PutBack

set_option autoImplicit false

/-! # Runs that commit nothing

Without outside edits the files of a plan keep what is written to them, whatever else the run does.
If nothing is committed each of them so ends with the text with which it was opened. The names at
which they were written are regular files then: a link that stood there is gone. -/

namespace IncludeSweep

open Text Draft

variable {σ : Type} {g : Origin} {j j' : Journal}

/-- However the run goes on, each file that the disk lets be replaced keeps what is written to it. -/
def AllSteady (build : Build σ) (disk : Disk) (gs : List Origin) (p₀ : Progress σ) : Prop :=
  ∀ g ∈ gs, disk.takes g.entry.path = true → ∀ j (p : Progress σ), p₀.Follows build j p →
    Within (pathsOf gs) j → p.disk.Keeps g j

theorem AllSteady.steady {build : Build σ} {disk : Disk} {gs : List Origin} {p₀ p : Progress σ}
    (h : AllSteady build disk gs p₀) (hg : g ∈ gs) (ht : disk.takes g.entry.path = true)
    (hf : p₀.Follows build j p) (hj : Within (pathsOf gs) j) : Steady build g j p := by
  intro j' p' hf' hj'
  refine h g hg ht _ p' (hf.trans hf') (hj.append (hj'.mono ?_))
  simpa using mem_pathsOf hg

/-- A file of the plan. If the disk lets it be replaced it has the text with which it was opened;
else nothing can be written to it. -/
structure Unspoilt (disk : Disk) (gs : List Origin) (g : Origin) (j : Journal) (f : OpenFile) :
    Prop where
  planned : g ∈ gs
  path : f.draft.path = g.entry.path
  opened : disk.takes g.entry.path = true → AsOpened g j f

inductive StagedAsOpened (g : Origin) (j : Journal) : Staged → Prop
  | idle {f : OpenFile} (h : AsOpened g j f) : StagedAsOpened g j (f, none)
  | trial {f : OpenFile} (h : Abreast g j f) : StagedAsOpened g j (f, some g.opened.draft.snapshot)

structure StagedUnspoilt (disk : Disk) (gs : List Origin) (g : Origin) (j : Journal) (st : Staged) :
    Prop where
  planned : g ∈ gs
  path : st.1.draft.path = g.entry.path
  opened : disk.takes g.entry.path = true → StagedAsOpened g j st

def Staged.Tries (disk : Disk) : Staged → Prop
  | (f, some _) => disk.takes f.draft.path = true ∧ ∃ n ∈ f.draft.pending, n ∈ f.remaining
  | (_, none) => False

theorem AsOpened.foreign {f : OpenFile} (h : AsOpened g j f) (hj : Foreign g.entry.path j') :
    AsOpened g (j ++ j') f :=
  h.after hj.idle.unwritten

theorem StagedAsOpened.foreign {st : Staged} (h : StagedAsOpened g j st)
    (hj : Foreign g.entry.path j') : StagedAsOpened g (j ++ j') st := by
  cases h with
  | idle h => exact .idle (h.foreign hj)
  | trial h => exact .trial (h.after hj.idle.unwritten)

theorem AsOpened.staged {f : OpenFile} (h : AsOpened g j f) {disk disk' : Disk} {applied : List Nat}
    {d : Draft} (hc : f.draft.comment disk f.remaining = .ok (applied, d, disk')) :
    StagedAsOpened g (j ++ d.changeDeeds applied) ({ f with draft := d }, some f.draft.snapshot) :=
  h.snapshot ▸ .trial (h.toAbreast.comment hc)

theorem Staged.restore_asOpened {st : Staged} {p : Progress σ} (h : StagedAsOpened g j st)
    (hk : p.disk.Keeps g j) : AsOpened g (j ++ st.restoreDeeds p) (st.restore p).1 := by
  cases h with
  | idle h => simpa [restoreDeeds, restore] using h
  | trial h => exact h.restore hk .global

theorem Staged.commits {disk : Disk} {st : Staged} {p : Progress σ} (h : StagedAsOpened g j st)
    (hk : p.disk.Keeps g j) (ht : st.Tries disk) : ¬ NoneCommitted (st.commitDeeds p) := by
  cases h with
  | idle h => exact ht.elim
  | trial h =>
    obtain ⟨_, n, hpending, hremaining⟩ := ht
    exact h.commits hk hpending hremaining _ .global

section
variable {build : Build σ} {disk : Disk} {gs : List Origin} {p₀ p : Progress σ}

theorem Unspoilt.foreign {f : OpenFile} (h : Unspoilt disk gs g j f)
    (hj : Foreign g.entry.path j') : Unspoilt disk gs g (j ++ j') f :=
  ⟨h.planned, h.path, fun ht => (h.opened ht).foreign hj⟩

theorem StagedUnspoilt.foreign {st : Staged} (h : StagedUnspoilt disk gs g j st)
    (hj : Foreign g.entry.path j') : StagedUnspoilt disk gs g (j ++ j') st :=
  ⟨h.planned, h.path, fun ht => (h.opened ht).foreign hj⟩

theorem StagedUnspoilt.restore (hs : AllSteady build disk gs p₀) {st : Staged}
    (h : StagedUnspoilt disk gs g j st) (hp : p₀.Follows build j p) (hj : Within (pathsOf gs) j) :
    Unspoilt disk gs g (j ++ st.restoreDeeds p) (st.restore p).1 ∧
      Within [g.entry.path] (st.restoreDeeds p) := by
  refine ⟨⟨h.planned, ?_, fun ht => ?_⟩, ?_⟩
  · rw [← h.path]
    obtain ⟨f, _ | s⟩ := st
    · rfl
    · exact f.restore_path s .global p
  · exact Staged.restore_asOpened (h.opened ht) (hs.steady h.planned ht hp hj).keeps
  · rw [← h.path]
    obtain ⟨f, _ | s⟩ := st
    · exact within_nil _
    · exact f.restoreDeeds_within s .global p

theorem restoreAll_asOpened (hs : AllSteady build disk gs p₀) (hnodup : (pathsOf gs).Nodup)
    {staged : List Staged}
    (h : List.Forall₂ (fun g st => StagedUnspoilt disk gs g j st) gs staged)
    (hp : p₀.Follows build j p) (hj : Within (pathsOf gs) j) :
    List.Forall₂ (fun g f => Unspoilt disk gs g (j ++ restoreAllDeeds staged p) f) gs
        (restoreAll staged p).1 ∧
      Within (pathsOf gs) (restoreAllDeeds staged p) := by
  obtain ⟨hrestore, hdeeds⟩ := restoreAll_inTurn staged p
  rw [hrestore, hdeeds]
  exact inTurn_trace (fun _ => True) (Staged.restore_follows build)
    (fun _ _ _ _ _ hst hq hj _ => hst.restore hs hq hj) (fun _ _ _ _ hst hj => hst.foreign hj)
    (fun _ _ _ _ hf hj => hf.foreign hj) hnodup (fun _ => mem_pathsOf) h hp hj fun _ _ => trivial

theorem commitAll_commits (hs : AllSteady build disk gs p₀) {gs' : List Origin}
    {staged : List Staged}
    (h : List.Forall₂ (fun g st => StagedUnspoilt disk gs g j st ∧ st.Tries disk) gs' staged)
    (hne : gs' ≠ []) (hp : p₀.Follows build j p) (hj : Within (pathsOf gs) j) :
    ¬ NoneCommitted (commitAllDeeds staged p) := by
  cases h with
  | nil => exact absurd rfl hne
  | @cons g st _ staged hst _ =>
    obtain ⟨hst, htries⟩ := hst
    have ht : disk.takes g.entry.path = true := by
      rw [← hst.path]
      obtain ⟨f, _ | s⟩ := st
      · exact htries.elim
      · exact htries.1
    obtain ⟨_, hdeeds⟩ := commitAll_inTurn (st :: staged) p
    rw [hdeeds]
    intro hnone
    refine Staged.commits (hst.opened ht) (hs.steady hst.planned ht hp hj).keeps htries ?_
    exact (noneCommitted_append.1 hnone).1

theorem Unspoilt.tries {f : OpenFile} (h : Unspoilt disk gs g j f) (hne : f.remaining ≠ [])
    {applied : List Nat} {d : Draft} {disk' : Disk}
    (hsame : p.disk.takes g.entry.path = disk.takes g.entry.path)
    (hc : f.draft.comment p.disk f.remaining = .ok (applied, d, disk'))
    (hlen : applied.length = f.remaining.length) :
    Staged.Tries disk ({ f with draft := d }, some f.draft.snapshot) := by
  have ha : applied ≠ [] := by
    rintro rfl
    exact hne (List.length_eq_zero_iff.1 hlen.symm)
  obtain ⟨happlied, hd, hw⟩ := comment_wrote hc ha
  obtain ⟨_, _, _, _, _, ht, _⟩ := Disk.replaceFile_eq_ok.1 hw.replaced
  rw [h.path, hsame] at ht
  obtain ⟨n, hn⟩ := List.exists_mem_of_ne_nil _ ha
  refine ⟨?_, n, ((h.opened ht).mem_pending hc).2 hn, (mem_mark.1 (happlied ▸ hn)).1⟩
  rwa [(comment_ok hc).2.1, h.path]

def SameRefusals (build : Build σ) (disk : Disk) (gs : List Origin) (p₀ : Progress σ) : Prop :=
  ∀ g ∈ gs, ∀ j (p : Progress σ), p₀.Follows build j p → Within (pathsOf gs) j →
    p.disk.takes g.entry.path = disk.takes g.entry.path

theorem stageAll_asOpened (hsame : SameRefusals build disk gs p) (hnodup : (pathsOf gs).Nodup)
    {fs : List OpenFile}
    (h : List.Forall₂ (fun g f => Unspoilt disk gs g [] f ∧ f.remaining ≠ []) gs fs) :
    List.Forall₂ (fun g st => StagedUnspoilt disk gs g (stageDeeds fs p) st ∧
        ((stageAll fs p).1 = true → st.Tries disk)) gs (stageAll fs p).2.1 ∧
      Within (pathsOf gs) (stageDeeds fs p) := by
  have hstages : Stages build p (pathsOf gs)
      (fun g j f => Unspoilt disk gs g j f ∧ f.remaining ≠ []) (StagedUnspoilt disk gs)
      (Staged.Tries disk) := {
    path := fun _ _ _ hf => hf.1.path
    idle := fun _ _ _ hf => ⟨hf.1.planned, hf.1.path, fun ht => .idle (hf.1.opened ht)⟩
    failed := fun _ _ f p _ _ hf _ _ _ => ⟨hf.1.planned, hf.1.path,
      fun ht => .idle ((hf.1.opened ht).conclude f.remaining _ .global p)⟩
    staged := fun g j f p _ _ _ _ hf hp hj hc =>
      ⟨⟨hf.1.planned, (comment_ok hc).2.1.trans hf.1.path, fun ht => (hf.1.opened ht).staged hc⟩,
        hf.1.tries hf.2 (hsame g hf.1.planned j p hp hj) hc⟩
    before_foreign := fun _ _ _ _ hf hj => ⟨hf.1.foreign hj, hf.2⟩
    after_foreign := fun _ _ _ _ hst hj => hst.foreign hj }
  exact stageAll_inTurn hstages hnodup (fun _ => mem_pathsOf) h (.done p) (within_nil _)

/-- A batch that commits nothing was not kept, so that all its files are put back. -/
theorem judgeAll_asOpened (hs : AllSteady build disk gs p) (hsame : SameRefusals build disk gs p)
    (hnodup : (pathsOf gs).Nodup) (hne : gs ≠ []) {fs : List OpenFile}
    (h : List.Forall₂ (fun g f => Unspoilt disk gs g [] f ∧ f.remaining ≠ []) gs fs)
    (hnone : NoneCommitted (judgeAllDeeds build fs p)) :
    List.Forall₂ (fun g f => Unspoilt disk gs g (judgeAllDeeds build fs p) f) gs
        (judgeAll build fs p).1 ∧
      Within (pathsOf gs) (judgeAllDeeds build fs p) := by
  obtain ⟨hstaged, hwithin⟩ := stageAll_asOpened hsame hnodup h
  have hfollows := stageAll_follows build fs p
  unfold judgeAllDeeds judgeAll at *
  generalize stageAll fs p = staged at *
  cases hall : staged.1 with
  | false =>
    simp only [hall, Bool.false_eq_true, if_false] at hnone ⊢
    exact (restoreAll_asOpened hs hnodup (hstaged.imp fun _ _ hst => hst.1) hfollows hwithin).imp id
      hwithin.append
  | true =>
    have hbuilt := hfollows.trans (.built .global (.done _))
    have hwithin' : Within (pathsOf gs) (stageDeeds fs p ++ [.built .global]) :=
      hwithin.append (.cons (by simp [Deed.path?]) (within_nil _))
    have htried : List.Forall₂ (fun g st =>
        StagedUnspoilt disk gs g (stageDeeds fs p ++ [.built .global]) st ∧ st.Tries disk) gs
        staged.2.1 := by
      refine hstaged.imp fun g st hst => ⟨hst.1.foreign ?_, hst.2 hall⟩
      simp [Foreign, Deed.path?]
    simp only [hall, if_true] at hnone ⊢
    rw [List.append_cons] at hnone ⊢
    cases hv : (staged.2.2.verify build .global).1 with
    | false =>
      simp only [Bool.false_eq_true, if_false]
      exact (restoreAll_asOpened hs hnodup (htried.imp fun _ _ hst => hst.1) hbuilt hwithin').imp id
        hwithin'.append
    | true =>
      simp only [hv, if_true] at hnone
      exact absurd (noneCommitted_append.1 hnone).2 (commitAll_commits hs htried hne hbuilt hwithin')

theorem refineAll_asOpened (hs : AllSteady build disk gs p₀) (hnodup : (pathsOf gs).Nodup)
    {fs : List OpenFile} (h : List.Forall₂ (fun g f => Unspoilt disk gs g j f) gs fs)
    (hp : p₀.Follows build j p) (hj : Within (pathsOf gs) j)
    (hnone : NoneCommitted (refineAllDeeds build fs p)) :
    List.Forall₂ (fun g f => disk.takes g.entry.path = true →
        AsOpened g (j ++ refineAllDeeds build fs p) f) gs (refineAll build fs p).1 ∧
      Within (pathsOf gs) (refineAllDeeds build fs p) := by
  obtain ⟨hrefine, hdeeds⟩ := refineAll_inTurn build fs p
  rw [hdeeds, noneCommitted_iff] at hnone
  rw [hrefine, hdeeds]
  have hkeeps : ∀ (g : Origin) (j j' : Journal) (f : OpenFile),
      (disk.takes g.entry.path = true → AsOpened g j f) → Foreign g.entry.path j' →
      disk.takes g.entry.path = true → AsOpened g (j ++ j') f :=
    fun _ _ _ _ hf hj ht => (hf ht).foreign hj
  refine inTurn_trace (fun d => NoneCommitted [d]) (refineFile_follows build) ?_
    (fun _ _ _ _ hf hj => hf.foreign hj) hkeeps hnodup (fun _ => mem_pathsOf) h hp hj hnone
  intro g j f q _ hf hq hj hnone
  refine ⟨fun ht => ?_, hf.path ▸ refineFileDeeds_within build f q⟩
  exact refineFile_asOpened (hf.opened ht) (hs.steady hf.planned ht hq hj) (noneCommitted_iff.2 hnone)

end

theorem opened_asOpened (g : Origin) : AsOpened g [] g.opened :=
  ⟨⟨⟨rfl, rfl, rfl⟩, rfl, fun _ hn => hn⟩, rfl, rfl⟩

theorem LeadApart.allSteady {build : Build σ} {plan : Plan} {s : Session σ}
    (h : LeadApart s.world.disk plan) (hq : Quiet build) :
    AllSteady build s.world.disk (plan.filterMap (originOf s.world.disk)) (s.opened plan) := by
  intro g hg ht j p hf hj
  obtain ⟨x, name, mode, hl⟩ := lies_of_mem hg
  exact (h.follows hq hf hj).keeps hg hl ht

theorem LeadApart.sameRefusals {build : Build σ} {plan : Plan} {s : Session σ}
    (h : LeadApart s.world.disk plan) (hq : Quiet build) :
    SameRefusals build s.world.disk (plan.filterMap (originOf s.world.disk)) (s.opened plan) := by
  intro g hg j p hf hj
  obtain ⟨x, name, mode, hl⟩ := lies_of_mem hg
  exact (h.follows hq hf hj).takes hg hl

theorem runPlan_unspoilt {build : Build σ} {plan : Plan} {s : Session σ} (hq : Quiet build)
    (hapart : LeadApart s.world.disk plan) (hnone : NoneCommitted (runDeeds build plan s)) :
    (∀ g ∈ plan.filterMap (originOf s.world.disk), s.world.disk.takes g.entry.path = true →
      lastWritten g.entry.path g.text (runDeeds build plan s) = g.text) ∧
    Within (pathsOf (plan.filterMap (originOf s.world.disk))) (runDeeds build plan s) := by
  have hs := hapart.allSteady hq
  have hsame := hapart.sameRefusals hq
  have hnodup := hapart.pathsOf_nodup
  have hopened : List.Forall₂ (fun g f =>
      Unspoilt s.world.disk (plan.filterMap (originOf s.world.disk)) g [] f ∧ f.remaining ≠ [])
      (plan.filterMap (originOf s.world.disk))
      ((plan.filterMap (originOf s.world.disk)).map Origin.opened) := by
    rw [List.forall₂_map_right_iff, List.forall₂_same]
    intro g hg
    obtain ⟨e, _, ho⟩ := List.mem_filterMap.1 hg
    obtain ⟨rfl, hne, _⟩ := originOf_some ho
    exact ⟨⟨hg, rfl, fun _ => opened_asOpened g⟩,
      by simpa [Origin.opened, FileCandidates.lines] using hne⟩
  unfold runDeeds at *
  rw [openAll_origins] at *
  generalize plan.filterMap (originOf s.world.disk) = gs at *
  by_cases hnil : gs = []
  · subst hnil
    exact ⟨by simp, within_nil _⟩
  have hmap : gs.map Origin.opened ≠ [] := by simpa using hnil
  simp only [hmap, if_false] at hnone ⊢
  obtain ⟨hbatchNone, hrefineNone⟩ := noneCommitted_append.1 hnone
  obtain ⟨hbatch, hwithin⟩ := judgeAll_asOpened hs hsame hnodup hnil hopened hbatchNone
  obtain ⟨hended, hwithin'⟩ := refineAll_asOpened hs hnodup hbatch
    (judgeAll_follows build _ _) hwithin hrefineNone
  refine ⟨?_, hwithin.append hwithin'⟩
  exact ((List.forall₂_and_left (R := fun _ _ => True) _ _).1
    (hended.imp fun g f hf => ⟨fun ht => (hf ht).text, trivial⟩)).1

theorem runPlan_asOpened {build : Build σ} {plan : Plan} {s : Session σ} (hq : Quiet build)
    (hapart : LeadApart s.world.disk plan) (hnone : NoneCommitted (runDeeds build plan s)) :
    (∀ g ∈ plan.filterMap (originOf s.world.disk),
      lastWritten g.entry.path g.text (runDeeds build plan s) = g.text) ∧
    Within (pathsOf (plan.filterMap (originOf s.world.disk))) (runDeeds build plan s) := by
  obtain ⟨htaken, hwithin⟩ := runPlan_unspoilt hq hapart hnone
  refine ⟨fun g hg => ?_, hwithin⟩
  cases ht : s.world.disk.takes g.entry.path with
  | true => exact htaken g hg ht
  | false => exact (hapart.follows hq (runPlan_follows build plan s) hwithin).text_of_refused hg ht

theorem noneCommitted_runJournal {build : Build σ} {plan : Plan} {s s' : Session σ} {report : Report}
    (hrun : run build plan s = (some report, s'))
    (hnone : ∀ o ∈ report.outcomes, o.resolution ≠ .committed) :
    NoneCommitted (runJournal build plan s) := by
  obtain ⟨p, hfollows, rfl, _⟩ := run_follows hrun
  intro o ho
  refine hnone o ((stableSort_perm Outcome.le _).mem_iff.2 ?_)
  rw [hfollows.outcomes]
  exact List.mem_append_right _ ho

/-- A regular file stands where the path was a link: a copy of the file to which the link led. -/
structure GaveWay (d d' : Disk) (path : Path) (loc : Location) : Prop where
  named : d.locateName path = .ok loc
  linked : ∃ target, d.get? loc = some (.link target)
  copied : ∃ x mode bytes, d.Finds path x mode bytes ∧ d'.get? loc = some (.file mode bytes)

namespace Overlaid

variable {d d' : Disk} {gs : List Origin} {x name : Location} {mode : Mode}

theorem name_entry (h : Overlaid d gs j d') (hg : g ∈ gs) (hl : g.Lies d x name mode)
    (hw : WroteTo g.entry.path j) (ht : lastWritten g.entry.path g.text j = g.text) :
    d'.get? name = some (.file mode (encode g.text)) := by
  obtain ⟨loc, hfinds, _, hat⟩ := h.shows g hg hl
  rw [← hat hw, ← ht]
  exact hfinds.entry

theorem gaveWay (h : Overlaid d gs j d') (hg : g ∈ gs) (hl : g.Lies d x name mode)
    (hw : WroteTo g.entry.path j) (ht : lastWritten g.entry.path g.text j = g.text) {target : Path}
    (htarget : d.get? name = some (.link target)) : GaveWay d d' g.entry.path name :=
  ⟨hl.named, ⟨target, htarget⟩, x, mode, encode g.text, hl.holds.finds, h.name_entry hg hl hw ht⟩

theorem same_or_gaveWay (h : Overlaid d gs j d')
    (hlies : ∀ g ∈ gs, ∃ x name mode, g.Lies d x name mode)
    (ht : ∀ g ∈ gs, lastWritten g.entry.path g.text j = g.text) (loc : Location) :
    d'.get? loc = d.get? loc ∨
      ∃ g ∈ gs, WroteTo g.entry.path j ∧ GaveWay d d' g.entry.path loc := by
  by_cases hnamed : ∃ g ∈ gs, WroteTo g.entry.path j ∧ d.locateName g.entry.path = .ok loc
  · obtain ⟨g, hg, hw, hloc⟩ := hnamed
    obtain ⟨x, name, mode, hl⟩ := hlies g hg
    obtain rfl := Except.ok.inj (hl.named.symm.trans hloc)
    rcases hl.holds.finds.link_or_eq hl.named with ⟨target, htarget, _⟩ | rfl
    · exact .inr ⟨g, hg, hw, h.gaveWay hg hl hw (ht g hg) htarget⟩
    · exact .inl ((h.name_entry hg hl hw (ht g hg)).trans hl.holds.content.symm)
  · exact .inl (h.others loc fun g hg hw hloc => hnamed ⟨g, hg, hw, hloc⟩)

end Overlaid

/-- Without outside edits a run that commits nothing leaves every entry of the disk as it was, except
that a linked path to which it has written holds a copy of its file. -/
theorem uncommitted_run_changes_only_links {build : Build σ} {plan : Plan} {s s' : Session σ}
    {report : Report} (hq : Quiet build) (hapart : LeadApart s.world.disk plan)
    (hrun : run build plan s = (some report, s'))
    (hnone : ∀ o ∈ report.outcomes, o.resolution ≠ .committed) :
    (∃ p, ((s.checked build).opened plan).Follows build (runJournal build plan s) p ∧
      report = p.report ∧ s' = p.toSession) ∧
    s'.world.disk.cwd = s.world.disk.cwd ∧
    (∀ loc, s'.world.disk.get? loc = s.world.disk.get? loc ∨
      ∃ e ∈ plan, WroteTo e.path (runJournal build plan s) ∧
        GaveWay s.world.disk s'.world.disk e.path loc) ∧
    ∀ e ∈ plan, ∀ x mode bytes, s.world.disk.Finds e.path x mode bytes →
      ∀ loc target, s.world.disk.locateName e.path = .ok loc →
        s.world.disk.get? loc = some (.link target) →
        (WroteTo e.path (runJournal build plan s) ∧
          GaveWay s.world.disk s'.world.disk e.path loc) ∨
        (¬ WroteTo e.path (runJournal build plan s) ∧
          s'.world.disk.get? loc = some (.link target)) := by
  have hdisk : (s.checked build).world.disk = s.world.disk :=
    (s.checked_disk build).trans (openingDisk_of_quiet hq s)
  have hnone' := noneCommitted_runJournal hrun hnone
  obtain ⟨rfl, rfl⟩ := run_eq_some hrun
  have hfollows := runPlan_follows build plan (s.checked build)
  rw [← hdisk] at hapart ⊢
  obtain ⟨ht, hwithin⟩ := runPlan_asOpened hq hapart hnone'
  have hover := hapart.follows hq hfollows hwithin
  refine ⟨⟨_, hfollows, rfl, rfl⟩, hover.cwd, fun loc => ?_, ?_⟩
  · refine (hover.same_or_gaveWay (fun _ hg => lies_of_mem hg) ht loc).imp id ?_
    rintro ⟨g, hg, hw, hgave⟩
    obtain ⟨e, he, ho⟩ := List.mem_filterMap.1 hg
    obtain ⟨rfl, _⟩ := originOf_some ho
    exact ⟨g.entry, he, hw, hgave⟩
  · intro e he x mode bytes hx loc target hloc hlink
    by_cases hw : WroteTo e.path (runJournal build plan s)
    · obtain ⟨text, htext⟩ := hw
      obtain ⟨g, hg, hpath⟩ := List.mem_map.1 (hwithin _ htext e.path rfl)
      obtain ⟨_, _, _, hl⟩ := lies_of_mem hg
      rw [← hpath] at hloc htext ⊢
      obtain rfl := Except.ok.inj (hl.named.symm.trans hloc)
      exact .inl ⟨⟨text, htext⟩, hover.gaveWay hg hl ⟨text, htext⟩ (ht g hg) hlink⟩
    · refine .inr ⟨hw, (hover.others loc fun g hg hwrote => ?_).trans hlink⟩
      exact hapart.name_ne he hx hloc hg fun hpath => hw (hpath ▸ hwrote)

def linkedFile : Disk :=
  ⟨[], [(["real.cc"], .file 0o644 (encode "#include <x.h>\n")), (["a.cc"], .link ⟨"real.cc"⟩)], []⟩

def linkedEntry : FileCandidates :=
  ⟨⟨"a.cc"⟩, [⟨⟨"a.cc"⟩, 1, "#include <x.h>"⟩]⟩

def failsTwice : Rehearsal.BuildScript :=
  ⟨false, [], [true, false, false], []⟩

def linkedAndPlain : Disk :=
  linkedFile.put ["b.cc"] (.file 0o600 (encode "int b;\n"))

def linkedAndPlainEntries : Plan :=
  [linkedEntry, ⟨⟨"b.cc"⟩, [⟨⟨"b.cc"⟩, 1, "#include <y.h>"⟩]⟩]

theorem uncommitted_run_changes_only_links_besidePlain :
    LeadApart linkedAndPlain linkedAndPlainEntries ∧
    ∃ report s, run failsTwice.toBuild linkedAndPlainEntries (Session.start ⟨linkedAndPlain, 0⟩) =
        (some report, s) ∧
      (∀ o ∈ report.outcomes, o.resolution ≠ .committed) ∧
      GaveWay linkedAndPlain s.world.disk ⟨"a.cc"⟩ ["a.cc"] ∧
      ∀ loc, s.world.disk.get? loc = linkedAndPlain.get? loc ∨
        ∃ e ∈ linkedAndPlainEntries, GaveWay linkedAndPlain s.world.disk e.path loc := by
  have hapart : LeadApart (Session.start ⟨linkedAndPlain, 0⟩).world.disk linkedAndPlainEntries := by
    have hne : linkedAndPlainEntries.Pairwise fun e e' =>
        linkedAndPlain.locate e.path ≠ linkedAndPlain.locate e'.path := by
      decide
    exact hne.imp fun h _ _ _ _ => h
  have hpass : (failsTwice.toBuild (Session.start ⟨linkedAndPlain, 0⟩).world).1 = true := by decide
  have hwrote : .wrote ⟨"a.cc"⟩ "// #include <x.h>\n" ∈ runJournal failsTwice.toBuild
      linkedAndPlainEntries (Session.start ⟨linkedAndPlain, 0⟩) := by
    decide +kernel
  have hkept : ((run failsTwice.toBuild linkedAndPlainEntries
      (Session.start ⟨linkedAndPlain, 0⟩)).1.map fun report =>
        report.outcomes.all fun o => !o.isCommitted) = some true := by
    decide +kernel
  obtain ⟨report, s, hrun⟩ := reports_of_pass hpass linkedAndPlainEntries
  have hnone : ∀ o ∈ report.outcomes, o.resolution ≠ .committed := by
    rw [hrun] at hkept
    simpa [Outcome.isCommitted] using hkept
  have hleaves := uncommitted_run_changes_only_links (failsTwice.toBuild_quiet rfl) hapart hrun hnone
  refine ⟨hapart, report, s, hrun, hnone, ?_, fun loc => ?_⟩
  · have hlinked := hleaves.2.2.2 linkedEntry (by decide) ["real.cc"] 0o644 (encode "#include <x.h>\n")
      ⟨by decide, by decide⟩ ["a.cc"] ⟨"real.cc"⟩ (by decide) (by decide)
    exact (hlinked.resolve_right fun hkept => hkept.1 ⟨_, hwrote⟩).2
  · rcases hleaves.2.2.1 loc with hsame | ⟨e, he, _, h⟩
    · exact .inl hsame
    · exact .inr ⟨e, he, h⟩

/-- A run that commits nothing may change the disk: a link has become a regular file. -/
theorem link_gives_way :
    Quiet failsTwice.toBuild ∧
    linkedFile.locate ⟨"a.cc"⟩ = .ok ["real.cc"] ∧
    ((run failsTwice.toBuild [linkedEntry] (Session.start ⟨linkedFile, 0⟩)).1.map fun report =>
      report.outcomes.map Outcome.resolution) = some [.keptBuildFailed] ∧
    linkedFile.get? ["a.cc"] = some (.link ⟨"real.cc"⟩) ∧
    (run failsTwice.toBuild [linkedEntry] (Session.start ⟨linkedFile, 0⟩)).2.world.disk.get?
      ["a.cc"] = some (.file 0o644 (encode "#include <x.h>\n")) :=
  ⟨failsTwice.toBuild_quiet rfl, by decide +kernel⟩

end IncludeSweep
