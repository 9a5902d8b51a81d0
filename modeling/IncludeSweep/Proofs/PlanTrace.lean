import IncludeSweep.Proofs.LineTrace
import IncludeSweep.Proofs.SamePaths

set_option autoImplicit false

/-! # What a run leaves of the files of a plan

The files of a plan are different files, so what is done for one of them does not touch another. The
trace of each file through its own steps is so its trace through the whole run. -/

namespace IncludeSweep

open Text Draft

variable {σ : Type} {g : Origin} {j j' : Journal}

/-- The candidates of a file: those that the journal has noted, and those that are still due. -/
def Owes (g : Origin) (j : Journal) (due : List Candidate) : Prop :=
  ((notedFor g.entry.path j).map Outcome.candidate ++ due).Perm g.entry.candidates

theorem Within.outcomesIn {path : Path} (h : Within [path] j) : outcomesIn j = notedFor path j := by
  refine List.flatMap_congr fun d hd => ?_
  cases d with
  | noted q os =>
    have hq : q = path := List.mem_singleton.1 (h _ hd q rfl)
    exact (if_pos hq).symm
  | _ => rfl

theorem Owes.foreign {due : List Candidate} (h : Owes g j due) (hj : Foreign g.entry.path j') :
    Owes g (j ++ j') due := by
  unfold Owes
  rwa [notedFor_append, hj.notedFor, List.append_nil]

theorem Owes.clears {due left : List Candidate} {build : Build σ} {p p' : Progress σ}
    (h : Owes g j due) (hfollows : p.Follows build j' p') (hc : p.Clears p' due left)
    (hj : Within [g.entry.path] j') : Owes g (j ++ j') left := by
  obtain ⟨os, hos, hdue, _⟩ := hc
  obtain rfl : os = notedFor g.entry.path j' := by
    rw [← hj.outcomesIn]
    exact List.append_cancel_left (hos.symm.trans hfollows.outcomes)
  unfold Owes
  rw [notedFor_append, List.map_append, List.append_assoc]
  exact (hdue.append_left _).trans h

def pathsOf (gs : List Origin) : List Path :=
  gs.map fun g => g.entry.path

theorem mem_pathsOf {gs : List Origin} (h : g ∈ gs) : g.entry.path ∈ pathsOf gs :=
  List.mem_map_of_mem h

section
variable {α : Type}

theorem forall₂_foreign {R : Origin → Journal → α → Prop}
    (hR : ∀ g j j' x, R g j x → Foreign g.entry.path j' → R g (j ++ j') x) {gs : List Origin}
    (hnot : g.entry.path ∉ pathsOf gs) {xs : List α}
    (h : List.Forall₂ (fun g x => R g j x) gs xs) (hj : Within [g.entry.path] j') :
    List.Forall₂ (fun g x => R g (j ++ j') x) gs xs := by
  have hforeign : ∀ g' ∈ gs, Foreign g'.entry.path j' := fun g' hg' =>
    hj.foreign fun hmem => hnot (List.mem_map.2 ⟨g', hg', List.mem_singleton.1 hmem⟩)
  exact ((List.forall₂_and_left gs xs).2 ⟨hforeign, h⟩).imp fun g' y hy => hR g' j j' y hy.2 hy.1

def inTurn (step : α → Progress σ → OpenFile × Progress σ) :
    List α → Progress σ → List OpenFile × Progress σ
  | [], p => ([], p)
  | x :: xs, p =>
    let others := inTurn step xs (step x p).2
    ((step x p).1 :: others.1, others.2)

def inTurnDeeds (step : α → Progress σ → OpenFile × Progress σ)
    (deeds : α → Progress σ → Journal) : List α → Progress σ → Journal
  | [], _ => []
  | x :: xs, p => deeds x p ++ inTurnDeeds step deeds xs (step x p).2

variable {step : α → Progress σ → OpenFile × Progress σ} {deeds : α → Progress σ → Journal}

/-- Steps that each trace their own file trace all of them. The run is one that began at `p₀` and has
so far been about the given paths. -/
theorem inTurn_trace {build : Build σ} {p₀ : Progress σ} {paths : List Path} (ok : Deed → Prop)
    {before : Origin → Journal → α → Prop} {after : Origin → Journal → OpenFile → Prop}
    (hfollows : ∀ x (p : Progress σ), p.Follows build (deeds x p) (step x p).2)
    (hstep : ∀ g j x p, g.entry.path ∈ paths → before g j x → p₀.Follows build j p →
      Within paths j → (∀ d ∈ deeds x p, ok d) →
      after g (j ++ deeds x p) (step x p).1 ∧ Within [g.entry.path] (deeds x p))
    (hbefore : ∀ g j j' x, before g j x → Foreign g.entry.path j' → before g (j ++ j') x)
    (hafter : ∀ g j j' f, after g j f → Foreign g.entry.path j' → after g (j ++ j') f)
    {xs : List α} {gs : List Origin} (hnodup : (pathsOf gs).Nodup)
    (hpaths : ∀ g ∈ gs, g.entry.path ∈ paths) {j : Journal} {p : Progress σ}
    (h : List.Forall₂ (fun g x => before g j x) gs xs) (hp : p₀.Follows build j p)
    (hj : Within paths j) (hok : ∀ d ∈ inTurnDeeds step deeds xs p, ok d) :
    List.Forall₂ (fun g f => after g (j ++ inTurnDeeds step deeds xs p) f) gs (inTurn step xs p).1 ∧
      Within (pathsOf gs) (inTurnDeeds step deeds xs p) := by
  induction xs generalizing gs j p with
  | nil =>
    obtain rfl := List.forall₂_nil_right_iff.1 h
    exact ⟨.nil, within_nil _⟩
  | cons x xs ih =>
    obtain ⟨g, gs, hx, hxs, rfl⟩ := List.forall₂_cons_right_iff.1 h
    obtain ⟨hg, hgs⟩ := List.forall_mem_cons.1 hpaths
    obtain ⟨hnot, hnodup'⟩ := List.nodup_cons.1 hnodup
    obtain ⟨hok₁, hok₂⟩ := List.forall_mem_append.1 hok
    obtain ⟨hfirst, hown⟩ := hstep g j x p hg hx hp hj hok₁
    -- the deeds for the first file are foreign to the others, and theirs to the first
    have hothers := forall₂_foreign hbefore hnot hxs hown
    have hown' : Within paths (deeds x p) := hown.mono (by simpa using hg)
    obtain ⟨hrest, hwithin⟩ := ih hnodup' hgs hothers (hp.trans (hfollows x p)) (hj.append hown') hok₂
    have hlast := hafter g _ _ _ hfirst (hwithin.foreign hnot)
    rw [List.append_assoc] at hlast hrest
    refine ⟨.cons hlast hrest, .append ?_ (hwithin.mono (List.subset_cons_self _ _))⟩
    exact hown.mono (by simp [pathsOf])

end

namespace Staged

def restore (st : Staged) (p : Progress σ) : OpenFile × Progress σ :=
  match st with
  | (f, none) => (f, p)
  | (f, some s) => f.restore s .global p

def restoreDeeds (st : Staged) (p : Progress σ) : Journal :=
  match st with
  | (_, none) => []
  | (f, some s) => f.restoreDeeds s .global p

def commit (st : Staged) (p : Progress σ) : OpenFile × Progress σ :=
  match st with
  | (f, none) => (f, p)
  | (f, some s) => (f.commit s .global p).2

def commitDeeds (st : Staged) (p : Progress σ) : Journal :=
  match st with
  | (_, none) => []
  | (f, some s) => f.commitDeeds s .global p

theorem restore_follows (build : Build σ) (st : Staged) (p : Progress σ) :
    p.Follows build (st.restoreDeeds p) (st.restore p).2 := by
  obtain ⟨f, _ | s⟩ := st
  · exact .done p
  · exact f.restore_follows build s .global p

theorem commit_follows (build : Build σ) (st : Staged) (p : Progress σ) :
    p.Follows build (st.commitDeeds p) (st.commit p).2 := by
  obtain ⟨f, _ | s⟩ := st
  · exact .done p
  · exact f.commit_follows build s .global p

end Staged

theorem restoreAll_inTurn (staged : List Staged) (p : Progress σ) :
    restoreAll staged p = inTurn Staged.restore staged p ∧
      restoreAllDeeds staged p = inTurnDeeds Staged.restore Staged.restoreDeeds staged p := by
  induction staged generalizing p with
  | nil => exact ⟨rfl, rfl⟩
  | cons st staged ih =>
    obtain ⟨f, _ | s⟩ := st
    · obtain ⟨hrest, hdeeds⟩ := ih p
      exact ⟨by simp [restoreAll, inTurn, Staged.restore, hrest],
        by simp [restoreAllDeeds, inTurnDeeds, Staged.restore, Staged.restoreDeeds, hdeeds]⟩
    · obtain ⟨hrest, hdeeds⟩ := ih (f.restore s .global p).2
      exact ⟨by simp [restoreAll, inTurn, Staged.restore, hrest],
        by simp [restoreAllDeeds, inTurnDeeds, Staged.restore, Staged.restoreDeeds, hdeeds]⟩

theorem commitAll_inTurn (staged : List Staged) (p : Progress σ) :
    commitAll staged p = inTurn Staged.commit staged p ∧
      commitAllDeeds staged p = inTurnDeeds Staged.commit Staged.commitDeeds staged p := by
  induction staged generalizing p with
  | nil => exact ⟨rfl, rfl⟩
  | cons st staged ih =>
    obtain ⟨f, _ | s⟩ := st
    · obtain ⟨hrest, hdeeds⟩ := ih p
      exact ⟨by simp [commitAll, inTurn, Staged.commit, hrest],
        by simp [commitAllDeeds, inTurnDeeds, Staged.commit, Staged.commitDeeds, hdeeds]⟩
    · obtain ⟨hrest, hdeeds⟩ := ih (f.commit s .global p).2.2
      exact ⟨by simp [commitAll, inTurn, Staged.commit, hrest],
        by simp [commitAllDeeds, inTurnDeeds, Staged.commit, Staged.commitDeeds, hdeeds]⟩

theorem refineAll_inTurn (build : Build σ) (fs : List OpenFile) (p : Progress σ) :
    refineAll build fs p = inTurn (refineFile build) fs p ∧
      refineAllDeeds build fs p = inTurnDeeds (refineFile build) (refineFileDeeds build) fs p := by
  induction fs generalizing p with
  | nil => exact ⟨rfl, rfl⟩
  | cons f fs ih =>
    obtain ⟨hrest, hdeeds⟩ := ih (refineFile build f p).2
    exact ⟨by simp [refineAll, inTurn, hrest], by simp [refineAllDeeds, inTurnDeeds, hdeeds]⟩

structure Kept (g : Origin) (j : Journal) (f : OpenFile) : Prop where
  rests : AtRest g j f
  owes : Owes g j f.due

/-- A file at the end of a run: each of its candidates has been noted. If it is left behind there are
lines commented out in it, unless the disk does not let it be replaced. -/
structure Ended (disk : Disk) (g : Origin) (j : Journal) (f : OpenFile) : Prop
    extends Recorded g j f where
  complete : ((notedFor g.entry.path j).map Outcome.candidate).Perm g.entry.candidates
  listed : .commentedOut ∈ f.draft.written → g.entry.path ∈ leftovers j
  left : g.entry.path ∈ leftovers j →
    .commentedOut ∈ f.draft.written ∨ disk.takes g.entry.path = false

def Judged (disk : Disk) (g : Origin) (j : Journal) (f : OpenFile) : Prop :=
  Kept g j f ∨ f.remaining = [] ∧ Ended disk g j f

inductive StagedTrace (g : Origin) (j : Journal) : Staged → Prop
  | idle {f : OpenFile} (h : Kept g j f) : StagedTrace g j (f, none)
  | trial {f₀ f : OpenFile} (h : OnTrial g j f₀ f) (ho : Owes g j f.due) :
      StagedTrace g j (f, some f₀.draft.snapshot)

def Staged.Shows (st : Staged) : Prop :=
  .commentedOut ∈ st.1.draft.written

theorem Kept.foreign {f : OpenFile} (h : Kept g j f) (hj : Foreign g.entry.path j') :
    Kept g (j ++ j') f :=
  ⟨h.rests.after hj.idle, h.owes.foreign hj⟩

theorem Ended.foreign {disk : Disk} {f : OpenFile} (h : Ended disk g j f)
    (hj : Foreign g.entry.path j') : Ended disk g (j ++ j') f where
  toRecorded := h.toRecorded.after hj.idle
  complete := by
    rw [notedFor_append, hj.notedFor, List.append_nil]
    exact h.complete
  listed := by
    intro hc
    rw [leftovers_append]
    exact List.mem_append_left _ (h.listed hc)
  left := by
    rw [leftovers_append, List.mem_append, or_iff_left hj.leftovers]
    exact h.left

theorem Judged.foreign {disk : Disk} {f : OpenFile} (h : Judged disk g j f)
    (hj : Foreign g.entry.path j') : Judged disk g (j ++ j') f :=
  h.imp (·.foreign hj) (And.imp_right (·.foreign hj))

theorem StagedTrace.foreign {st : Staged} (h : StagedTrace g j st) (hj : Foreign g.entry.path j') :
    StagedTrace g (j ++ j') st := by
  cases h with
  | idle h => exact .idle (h.foreign hj)
  | trial h ho => exact .trial (h.after hj.idle) (ho.foreign hj)

theorem Staged.restoreDeeds_within {st : Staged} (h : StagedTrace g j st) (p : Progress σ) :
    Within [g.entry.path] (st.restoreDeeds p) := by
  cases h with
  | idle => exact within_nil _
  | @trial _ f h => exact h.told.path ▸ f.restoreDeeds_within _ .global p

/-- A file in which nothing could be commented out is written nevertheless when it is put back. -/
theorem OnTrial.refused {disk : Disk} {f₀ f : OpenFile} (build : Build σ) (h : OnTrial g j f₀ f)
    (ho : Owes g j f.due) {p : Progress σ}
    (hleft : g.entry.path ∈ leftovers (f.restoreDeeds f₀.draft.snapshot .global p))
    (hs : .commentedOut ∉ f.draft.written) (htakes : disk.takes g.entry.path = false) :
    (f.restore f₀.draft.snapshot .global p).1.remaining = [] ∧
      Ended disk g (j ++ f.restoreDeeds f₀.draft.snapshot .global p)
        (f.restore f₀.draft.snapshot .global p).1 := by
  have hwithin : Within [g.entry.path] (f.restoreDeeds f₀.draft.snapshot .global p) :=
    h.told.path ▸ f.restoreDeeds_within _ .global p
  have howes := ho.clears (f.restore_follows build f₀.draft.snapshot .global p)
    (f.restore_clears _ .global p) hwithin
  unfold OpenFile.restoreDeeds OpenFile.restore at *
  cases hr : f.draft.revert p.disk f₀.draft.snapshot with
  | ok r => simp [hr] at hleft
  | error e =>
    simp only [hr] at howes ⊢
    rw [f.giveUp_eq] at howes ⊢
    refine ⟨rfl, ⟨?_, ?_, fun hc => absurd hc hs, fun _ => .inr htakes⟩⟩
    · have hgiven := h.recorded.after (h.told.path ▸ giveUpDeeds_idle f .global)
      rw [List.append_cons]
      exact ⟨hgiven.told, hgiven.candidates, hgiven.deleted⟩
    · simpa [Owes, OpenFile.due, candidatesAt] using howes

/-- Properties of files, before and after they are staged, that the steps of staging lead from one to
the other. A file all of whose lines could be commented out is `full`. -/
structure Stages (build : Build σ) (p₀ : Progress σ) (paths : List Path)
    (before : Origin → Journal → OpenFile → Prop) (after : Origin → Journal → Staged → Prop)
    (full : Staged → Prop) : Prop where
  path : ∀ g j f, before g j f → f.draft.path = g.entry.path
  idle : ∀ g j f, before g j f → after g j (f, none)
  failed : ∀ g j f (p : Progress σ) e, g.entry.path ∈ paths → before g j f →
    p₀.Follows build j p → Within paths j → f.draft.comment p.disk f.remaining = .error e →
    after g (j ++ f.giveUpDeeds .global) ((f.giveUp .global p).1, none)
  staged : ∀ g j f (p : Progress σ) applied d disk, g.entry.path ∈ paths → before g j f →
    p₀.Follows build j p → Within paths j →
    f.draft.comment p.disk f.remaining = .ok (applied, d, disk) →
    after g (j ++ d.changeDeeds applied) ({ f with draft := d }, some f.draft.snapshot) ∧
    (applied.length = f.remaining.length → full ({ f with draft := d }, some f.draft.snapshot))
  before_foreign : ∀ g j j' f, before g j f → Foreign g.entry.path j' → before g (j ++ j') f
  after_foreign : ∀ g j j' st, after g j st → Foreign g.entry.path j' → after g (j ++ j') st

section
variable {build : Build σ} {p₀ : Progress σ} {paths : List Path}
  {before : Origin → Journal → OpenFile → Prop} {after : Origin → Journal → Staged → Prop}
  {full : Staged → Prop}

theorem Stages.alone (hs : Stages build p₀ paths before after full) {gs : List Origin}
    {fs : List OpenFile} (h : List.Forall₂ (fun g f => before g j f) gs fs) :
    List.Forall₂ (fun g st => after g j st ∧ (false = true → full st)) gs (fs.map (·, none)) := by
  rw [List.forall₂_map_right_iff]
  exact h.imp fun _ _ hf => ⟨hs.idle _ _ _ hf, by simp⟩

theorem stageAll_inTurn (hs : Stages build p₀ paths before after full) {fs : List OpenFile}
    {gs : List Origin} (hnodup : (pathsOf gs).Nodup) (hpaths : ∀ g ∈ gs, g.entry.path ∈ paths)
    {j : Journal} {p : Progress σ} (h : List.Forall₂ (fun g f => before g j f) gs fs)
    (hp : p₀.Follows build j p) (hj : Within paths j) :
    List.Forall₂ (fun g st => after g (j ++ stageDeeds fs p) st ∧
        ((stageAll fs p).1 = true → full st)) gs (stageAll fs p).2.1 ∧
      Within (pathsOf gs) (stageDeeds fs p) := by
  induction fs generalizing gs j p with
  | nil =>
    obtain rfl := List.forall₂_nil_right_iff.1 h
    exact ⟨.nil, within_nil _⟩
  | cons f fs ih =>
    obtain ⟨g, gs, hf, hfs, rfl⟩ := List.forall₂_cons_right_iff.1 h
    obtain ⟨hg, hgs⟩ := List.forall_mem_cons.1 hpaths
    obtain ⟨hnot, hnodup'⟩ := List.nodup_cons.1 hnodup
    have hown : ∀ {j'}, Within [g.entry.path] j' → Within (pathsOf (g :: gs)) j' :=
      fun hj' => hj'.mono (by simp [pathsOf])
    unfold stageAll stageDeeds
    cases hc : f.draft.comment p.disk f.remaining with
    | error e =>
      have hwithin : Within [g.entry.path] (f.giveUpDeeds .global) :=
        hs.path g j f hf ▸ f.noteDeeds_within _ _ .global
      have hothers := forall₂_foreign hs.before_foreign hnot hfs hwithin
      exact ⟨.cons ⟨hs.failed g j f p e hg hf hp hj hc, by simp⟩ (hs.alone hothers), hown hwithin⟩
    | ok commented =>
      obtain ⟨applied, d, disk⟩ := commented
      obtain ⟨htrial, hfull⟩ := hs.staged g j f p applied d disk hg hf hp hj hc
      have hwithin : Within [g.entry.path] (d.changeDeeds applied) := by
        rw [← hs.path g j f hf, ← (comment_ok hc).2.1]
        exact d.changeDeeds_within applied
      have hothers := forall₂_foreign hs.before_foreign hnot hfs hwithin
      by_cases hlen : applied.length = f.remaining.length
      · obtain ⟨hrest, hwithin'⟩ := ih hnodup' hgs hothers (hp.trans (comment_follows hc))
          (hj.append (hwithin.mono (by simpa using hg)))
        have hhead := hs.after_foreign g _ _ _ htrial (hwithin'.foreign hnot)
        rw [List.append_assoc] at hhead hrest
        simp only [hlen, if_true]
        exact ⟨.cons ⟨hhead, fun _ => hfull hlen⟩ hrest,
          (hown hwithin).append (hwithin'.mono (List.subset_cons_self _ _))⟩
      · simp only [hlen, if_false, List.append_nil]
        exact ⟨.cons ⟨htrial, by simp⟩ (hs.alone hothers), hown hwithin⟩

end

theorem Kept.staged {f : OpenFile} (build : Build σ) (h : Kept g j f) (hne : f.remaining ≠ [])
    {p : Progress σ} {applied : List Nat} {d : Draft} {disk : Disk}
    (hc : f.draft.comment p.disk f.remaining = .ok (applied, d, disk)) :
    StagedTrace g (j ++ d.changeDeeds applied) ({ f with draft := d }, some f.draft.snapshot) ∧
      (applied.length = f.remaining.length →
        Staged.Shows ({ f with draft := d }, some f.draft.snapshot)) := by
  have hclean := h.rests.clean hne
  have htrial := h.rests.comment hclean hc
  have hwithin : Within [g.entry.path] (d.changeDeeds applied) :=
    htrial.told.path ▸ d.changeDeeds_within applied
  have hfollows : p.Follows build (d.changeDeeds applied) (p.withDisk disk) := comment_follows hc
  refine ⟨.trial htrial (h.owes.clears hfollows (p.clears_refl f.due) hwithin), fun hlen => ?_⟩
  refine htrial.commentedOut_mem ?_
  rw [← hclean.waiting.draft.lines, ← (comment_ok hc).1]
  intro hnil
  rw [hnil, List.length_nil] at hlen
  exact hne (List.length_eq_zero_iff.1 hlen.symm)

theorem Kept.giveUp {f : OpenFile} (build : Build σ) (h : Kept g j f) (p : Progress σ) :
    Kept g (j ++ f.giveUpDeeds .global) (f.giveUp .global p).1 := by
  have hwithin : Within [g.entry.path] (f.giveUpDeeds .global) :=
    h.rests.told.path ▸ f.noteDeeds_within _ _ .global
  exact ⟨h.rests.giveUp .global p, h.owes.clears (f.giveUp_follows build .global p)
    (f.conclude_clears _ _ .global p) hwithin⟩

section
variable {disk : Disk} {plan : Plan}

theorem LeadApart.pathsOf_nodup (h : LeadApart disk plan) :
    (pathsOf (plan.filterMap (originOf disk))).Nodup := by
  rw [pathsOf, List.Nodup, List.pairwise_map, List.pairwise_filterMap]
  refine h.imp fun {e e'} hne g hg g' hg' heq => ?_
  obtain ⟨rfl, _, ht⟩ := originOf_some hg
  obtain ⟨rfl, _, ht'⟩ := originOf_some hg'
  exact hne _ _ ht ht' (by rw [heq])

theorem Separate.pathsOf_nodup (h : Separate disk plan) :
    (pathsOf (plan.filterMap (originOf disk))).Nodup :=
  LeadApart.pathsOf_nodup h.distinct

end

end IncludeSweep
