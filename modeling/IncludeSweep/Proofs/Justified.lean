import IncludeSweep.Proofs.DisturbedFile
import IncludeSweep.Rehearsal.Programs

set_option autoImplicit false

/-! # Justified reports

Every verdict of a report rests on builds of the run, whatever the builds do to the disk, and
however the entries of the plan overlap. Entries that lead to one file are kept apart in the batch
of all files by its digest, which tells a text with lines commented out from the text itself. -/

namespace IncludeSweep

open Text Draft

variable {σ : Type}

def JustifiedBy (gs : List Origin) (ts : List Trial) (o : Outcome) : Prop :=
  ∃ g ∈ gs, g.Justifies ts o

theorem lasting_justifiedBy (gs : List Origin) : Lasting (JustifiedBy gs) := by
  rintro ts ts' o hsub ⟨g, hg, h⟩
  exact ⟨g, hg, h.mono hsub⟩

theorem justifiedBy_of_mem {g : Origin} {gs : List Origin} (hg : g ∈ gs) (ts : List Trial)
    (o : Outcome) (h : g.Justifies ts o) : JustifiedBy gs ts o :=
  ⟨g, hg, h⟩

def OpenFile.Rests (f : OpenFile) (g : Origin) : Prop :=
  f.remaining = [] ∨ f.Waiting g

theorem refineAll_evidence (build : Build σ) {gs₀ : List Origin} {fs : List OpenFile}
    {gs : List Origin} (h : List.Forall₂ OpenFile.Rests fs gs) (hsub : gs ⊆ gs₀) (p : Progress σ) :
    ∃ ts, p.Gains (JustifiedBy gs₀) (refineAll build fs p).2 ts := by
  induction h generalizing p with
  | nil => exact ⟨[], Progress.gains_refl _ p⟩
  | @cons f g fs gs hf _ ih =>
    obtain ⟨hg, hsub'⟩ := List.cons_subset.1 hsub
    obtain ⟨ts, hgains⟩ := refineFile_evidence build hf p
    obtain ⟨ts', hgains'⟩ := ih hsub' (refineFile build f p).2
    exact ⟨ts ++ ts', (hgains.imp (justifiedBy_of_mem hg)).trans (lasting_justifiedBy gs₀) hgains'⟩

inductive StagedFor (g : Origin) : Staged → Prop
  | idle {f : OpenFile} (h : f.Rests g) : StagedFor g (f, none)
  | marked {f : OpenFile} {d : Draft} (h : f.Waiting g) (hpath : d.path = f.draft.path)
      (hlines : d.lines = f.draft.lines)
      (hstates : d.states = (mark f.draft.lines f.remaining f.draft.states).1) :
      StagedFor g ({ f with draft := d }, some f.draft.snapshot)

theorem stagedFor_idle {fs : List OpenFile} {gs : List Origin}
    (h : List.Forall₂ OpenFile.Waiting fs gs) :
    List.Forall₂ (fun st g => StagedFor g st) (fs.map (·, none)) gs := by
  induction h with
  | nil => exact .nil
  | cons hf _ ih => exact .cons (.idle (.inr hf)) ih

theorem stageAll_evidence (gs₀ : List Origin) {fs : List OpenFile} {gs : List Origin}
    (h : List.Forall₂ OpenFile.Waiting fs gs) (hsub : gs ⊆ gs₀) (p : Progress σ) :
    p.Gains (JustifiedBy gs₀) (stageAll fs p).2.2 [] ∧
      List.Forall₂ (fun st g => StagedFor g st) (stageAll fs p).2.1 gs := by
  induction h generalizing p with
  | nil => exact ⟨Progress.gains_refl _ p, .nil⟩
  | @cons f g fs gs hf hfs ih =>
    obtain ⟨hg, hsub'⟩ := List.cons_subset.1 hsub
    have hrefl := Progress.gains_refl (JustifiedBy gs₀) p
    unfold stageAll
    cases hc : f.draft.comment p.disk f.remaining with
    | error e =>
      exact ⟨gains_giveUp (justifiedBy_of_mem hg) hf.candidates hrefl .global,
        .cons (.idle (.inl (f.giveUp_remaining .global p))) (stagedFor_idle hfs)⟩
    | ok commented =>
      obtain ⟨applied, d, disk⟩ := commented
      obtain ⟨_, hpath, hlines, hstates, _, _⟩ := comment_ok hc
      have hstaged : StagedFor g ({ f with draft := d }, some f.draft.snapshot) :=
        .marked hf hpath hlines hstates
      by_cases hlen : applied.length = f.remaining.length
      · simp only [hlen, if_true]
        obtain ⟨hgains, hrest⟩ := ih hsub' (p.withDisk disk)
        exact ⟨hgains, .cons hstaged hrest⟩
      · simp only [hlen, if_false]
        exact ⟨hrefl.onDisk disk, .cons hstaged (stagedFor_idle hfs)⟩

theorem restoreAll_evidence {gs₀ : List Origin} {staged : List Staged} {gs : List Origin}
    (h : List.Forall₂ (fun st g => StagedFor g st) staged gs) (hsub : gs ⊆ gs₀) (p : Progress σ) :
    p.Gains (JustifiedBy gs₀) (restoreAll staged p).2 [] ∧
      List.Forall₂ OpenFile.Rests (restoreAll staged p).1 gs := by
  induction h generalizing p with
  | nil => exact ⟨Progress.gains_refl _ p, .nil⟩
  | @cons st g staged gs hst _ ih =>
    obtain ⟨hg, hsub'⟩ := List.cons_subset.1 hsub
    cases hst with
    | idle hf =>
      obtain ⟨hgains, hrest⟩ := ih hsub' p
      exact ⟨hgains, .cons hf hrest⟩
    | @marked f d hf hpath hlines _ =>
      have hback := gains_restore (f := { f with draft := d }) (justifiedBy_of_mem hg) hf.candidates
        (Progress.gains_refl _ p) f.draft.snapshot .global
      obtain ⟨hgains, hrest⟩ := ih hsub'
        (OpenFile.restore { f with draft := d } f.draft.snapshot .global p).2
      exact ⟨hback.trans (lasting_justifiedBy gs₀) hgains,
        .cons (restore_waiting (f := { f with draft := d }) hf hpath hlines rfl (.refl _) .global p)
          hrest⟩

theorem commit_rests {g : Origin} {f : OpenFile} {d : Draft} (hf : f.Waiting g)
    (hpath : d.path = f.draft.path) (hlines : d.lines = f.draft.lines)
    (hstates : d.states = (mark f.draft.lines f.remaining f.draft.states).1) (tier : Tier)
    (p : Progress σ) :
    (OpenFile.commit { f with draft := d } f.draft.snapshot tier p).2.1.Rests g := by
  unfold OpenFile.commit
  cases hd : d.delete p.disk with
  | error e => exact .inl (OpenFile.giveUp_remaining _ tier _)
  | ok r =>
    obtain ⟨ls, d', disk⟩ := r
    obtain ⟨rfl, hpath', hlines', hstates'⟩ := delete_ok hd
    have hpending : d.pending.Perm (mark f.draft.lines f.remaining f.draft.states).2 := by
      unfold Draft.pending
      rw [hstates]
      exact linesIn_mark_perm _ _ hf.settled
    have hsub : ∀ n ∈ d.pending, n ∈ f.remaining :=
      fun n hn => (mem_mark.1 (hpending.mem_iff.1 hn)).1
    have htake : OpenFile.takeLines d.pending f.remaining =
        (d.pending, f.remaining.diff d.pending) :=
      takeLines_subset (linesIn_nodup _ _ _) hsub
    simp only [OpenFile.conclude_taken { f with draft := d' } htake]
    refine .inr (hf.removed (fun _ hn => hn) (hpath'.trans hpath) (hlines'.trans hlines) ?_
      (List.diff_sublist _ _) ?_)
    · rw [hstates', hstates]
    · intro n hn
      rw [← hpending.mem_iff]
      exact (hf.nodup.mem_sdiff_iff.1 hn).2

theorem commitAll_rests {staged : List Staged} {gs : List Origin}
    (h : List.Forall₂ (fun st g => StagedFor g st) staged gs) (p : Progress σ) :
    List.Forall₂ OpenFile.Rests (commitAll staged p).1 gs := by
  induction h generalizing p with
  | nil => exact .nil
  | @cons st g staged gs hst _ ih =>
    cases hst with
    | idle hf => exact .cons hf (ih p)
    | marked hf hpath hlines hstates =>
      exact .cons (commit_rests hf hpath hlines hstates .global p) (ih _)

theorem commitAll_evidence {gs₀ : List Origin} {staged : List Staged} {gs : List Origin}
    {p₀ : Progress σ} {ts : List Trial} (h : List.Forall₂ (fun st g => StagedFor g st ∧
      ∀ n ∈ st.1.draft.pending, g.Passed ts .global n) staged gs)
    (hsub : gs ⊆ gs₀) {p : Progress σ} (hp : p₀.Gains (JustifiedBy gs₀) p ts) :
    p₀.Gains (JustifiedBy gs₀) (commitAll staged p).2 ts := by
  induction h generalizing p with
  | nil => exact hp
  | @cons st g staged gs hst _ ih =>
    obtain ⟨hg, hsub'⟩ := List.cons_subset.1 hsub
    obtain ⟨hst, hpassed⟩ := hst
    cases hst with
    | idle hf => exact ih hsub' hp
    | @marked f d hf hpath hlines hstates =>
      have hcommit := gains_commit (f := { f with draft := d }) (justifiedBy_of_mem hg)
        hf.candidates hp
        f.draft.snapshot .global hpassed
      exact ih hsub' hcommit

/-- After the batch of all files each of them is resolved or waits, whatever became of the batch. -/
theorem judgeAll_rests (build : Build σ) {fs : List OpenFile} {gs : List Origin}
    (h : List.Forall₂ OpenFile.Waiting fs gs) (p : Progress σ) :
    List.Forall₂ OpenFile.Rests (judgeAll build fs p).1 gs := by
  have hstaged := (stageAll_evidence gs h (List.Subset.refl gs) p).2
  unfold judgeAll
  cases hall : (stageAll fs p).1 with
  | false =>
    simp only [hall, Bool.false_eq_true, if_false]
    exact (restoreAll_evidence hstaged (List.Subset.refl gs) _).2
  | true =>
    simp only [hall, if_true]
    cases ((stageAll fs p).2.2.verify build .global).1 with
    | false => exact (restoreAll_evidence hstaged (List.Subset.refl gs) _).2
    | true => exact commitAll_rests hstaged _

def AllFound (disk : Disk) (fs : List OpenFile) : Prop :=
  ∀ f ∈ fs, ∃ loc mode bytes, disk.Finds f.draft.path loc mode bytes

def OpenFile.staged (f : OpenFile) : ByteArray :=
  encode (renderLines f.draft.lines (mark f.draft.lines f.remaining f.draft.states).1)

/-- A file with the content given by one draft is not taken for that of another. -/
def ToldApart (disk : Disk) (path : Path) (bytes : ByteArray) (f : OpenFile) : Prop :=
  disk.locate path = disk.locate f.draft.path → digest bytes ≠ f.draft.digest

section
variable {disk disk' : Disk} {path q : Path} {x name y : Location} {mode mode' : Mode}
  {bytes bytes' : ByteArray} {fs : List OpenFile}

theorem AllFound.replaced (h : AllFound disk fs)
    (hr : Disk.Replaced disk disk' path x name mode bytes) : AllFound disk' fs := by
  intro f hf
  obtain ⟨loc, mode', bytes', hfound⟩ := h f hf
  rcases hr.others hfound with ⟨h', _⟩ | ⟨h', _⟩
  · exact ⟨_, _, _, h'⟩
  · exact ⟨_, _, _, h'⟩

theorem ToldApart.replaced {f : OpenFile} (h : ToldApart disk q bytes' f)
    (hr : Disk.Replaced disk disk' path x name mode bytes) {old : ByteArray}
    (hq : disk.Finds q y mode' old) (hfound : AllFound disk fs) (hf : f ∈ fs) :
    ToldApart disk' q bytes' f := by
  obtain ⟨loc, modef, bytesf, hff⟩ := hfound f hf
  intro hsame
  refine h ?_
  rw [hq.leads, hff.leads, hr.separate hq hff hsame]

theorem stageAll_cons {f : OpenFile} {fs : List OpenFile} {p : Progress σ}
    (h : (stageAll (f :: fs) p).1 = true) :
    ∃ applied d disk, f.draft.comment p.disk f.remaining = .ok (applied, d, disk) ∧
      applied.length = f.remaining.length ∧ (stageAll fs (p.withDisk disk)).1 = true ∧
      (stageAll (f :: fs) p).2 =
        (({ f with draft := d }, some f.draft.snapshot) :: (stageAll fs (p.withDisk disk)).2.1,
          (stageAll fs (p.withDisk disk)).2.2) := by
  unfold stageAll at h
  cases hc : f.draft.comment p.disk f.remaining with
  | error e => simp [hc] at h
  | ok commented =>
    obtain ⟨applied, d, disk⟩ := commented
    by_cases hlen : applied.length = f.remaining.length
    · simp only [hc, hlen, if_true] at h
      exact ⟨applied, d, disk, rfl, hlen, h, by simp [stageAll, hc, hlen]⟩
    · simp [hc, hlen] at h

/-- What the batch does to files that are told apart from all of its own leaves them as they are. -/
theorem stageAll_keeps (fs : List OpenFile) :
    ∀ {p : Progress σ} {loc : Location}, p.disk.Finds q loc mode bytes → AllFound p.disk fs →
    (∀ f ∈ fs, ToldApart p.disk q bytes f) → (stageAll fs p).1 = true →
    ∃ loc', (stageAll fs p).2.2.disk.Finds q loc' mode bytes := by
  induction fs with
  | nil =>
    intro p loc hq _ _ _
    exact ⟨loc, hq⟩
  | cons f fs ih =>
    intro p loc hq hfound hapart hall
    obtain ⟨applied, d, disk, hc, _, hrest, he⟩ := stageAll_cons hall
    obtain ⟨_, _, _, _, hnone, hwrite⟩ := comment_ok hc
    rw [he]
    have hfound' : AllFound p.disk fs := fun f' hf' => hfound f' (List.mem_cons_of_mem f hf')
    have hapart' := fun f' hf' => hapart f' (List.mem_cons_of_mem f hf')
    by_cases ha : applied = []
    · obtain ⟨_, rfl⟩ := hnone ha
      exact ih hq hfound' hapart' hrest
    obtain ⟨⟨old, hread, hdigest⟩, hfile⟩ := hwrite ha
    obtain ⟨x, name, mode', hr⟩ := Disk.replaced_of_replaceFile hfile
    have hapart'' := fun f' hf' => (hapart' f' hf').replaced hr hq hfound' hf'
    rcases hr.others hq with ⟨hq', _⟩ | ⟨_, rfl⟩
    · exact ih hq' (hfound'.replaced hr) hapart'' hrest
    · -- the path would lead to the file that is about to be replaced, and its digest would be known
      obtain ⟨old', hbefore⟩ := hr.before
      obtain ⟨rfl, rfl⟩ := Entry.file.inj (Option.some.inj (hq.entry.symm.trans hbefore.entry))
      obtain ⟨_, rfl⟩ := hbefore.readBytes_iff.1 hread
      exact absurd hdigest (hapart f (by simp) (hq.leads.trans hbefore.leads.symm))

theorem stageAll_shown {fs : List OpenFile} {gs : List Origin}
    (h : List.Forall₂ OpenFile.Waiting fs gs) :
    ∀ {p : Progress σ}, AllFound p.disk fs → (∀ f ∈ fs, f.remaining ≠ []) →
    fs.Pairwise (fun f f' => (mark f.draft.lines f.remaining f.draft.states).2 ≠ [] →
      ToldApart p.disk f.draft.path f.staged f') →
    (stageAll fs p).1 = true →
    List.Forall₂ (fun st g => StagedFor g st ∧
      g.Shown (stageAll fs p).2.2.disk st.1.draft.states) (stageAll fs p).2.1 gs := by
  induction h with
  | nil =>
    intro p _ _ _ _
    exact .nil
  | @cons f g fs gs hf hfs ih =>
    intro p hfound hne hpair hall
    obtain ⟨applied, d, disk, hc, hlen, hrest, he⟩ := stageAll_cons hall
    obtain ⟨happlied, hpath, hlines, hstates, _, hwrite⟩ := comment_ok hc
    obtain ⟨hhead, hpair'⟩ := List.pairwise_cons.1 hpair
    have ha : applied ≠ [] := by
      intro hnil
      have hzero : f.remaining.length = 0 := by rw [← hlen, hnil, List.length_nil]
      exact hne f (by simp) (List.length_eq_zero_iff.1 hzero)
    obtain ⟨⟨old, hread, _⟩, hfile⟩ := hwrite ha
    obtain ⟨x, name, mode, hr⟩ := Disk.replaced_of_replaceFile hfile
    obtain ⟨old', hbefore⟩ := hr.before
    have hfound' : AllFound p.disk fs := fun f' hf' => hfound f' (List.mem_cons_of_mem f hf')
    have hne' := fun f' hf' => hne f' (List.mem_cons_of_mem f hf')
    rw [he]
    refine .cons ⟨.marked hf hpath hlines hstates, ?_⟩ (ih (hfound'.replaced hr) hne' ?_ hrest)
    · -- the file was written first, and the rest of the batch keeps it
      have hkept := fun f' hf' => (hhead f' hf' (happlied ▸ ha)).replaced hr hbefore hfound' hf'
      obtain ⟨loc, hfinds⟩ := stageAll_keeps fs (p := p.withDisk disk) hr.after
        (hfound'.replaced hr)
        hkept hrest
      have hmode := (hbefore.readBytes_iff.1 hread).1
      have hbytes := hfinds.readBytes_iff.2 ⟨hmode, rfl⟩
      have hshown := hf.shown (fun _ hn => hn) hc ha
      rw [← hstates] at hshown hbytes
      rw [hf.draft.path, hf.draft.lines] at hbytes
      exact ⟨hshown.fits, hbytes⟩
    · refine hpair'.imp_of_mem ?_
      intro f₁ f₂ h₁ h₂ hapart hm
      obtain ⟨loc, mode₁, bytes₁, hfinds⟩ := hfound' f₁ h₁
      exact (hapart hm).replaced hr hfinds hfound' h₂

end

theorem judgeAll_evidence (build : Build σ) {fs : List OpenFile} {gs : List Origin}
    (h : List.Forall₂ OpenFile.Waiting fs gs) {p : Progress σ} (hfound : AllFound p.disk fs)
    (hne : ∀ f ∈ fs, f.remaining ≠ [])
    (hpair : fs.Pairwise fun f f' => (mark f.draft.lines f.remaining f.draft.states).2 ≠ [] →
      ToldApart p.disk f.draft.path f.staged f') :
    ∃ ts, p.Gains (JustifiedBy gs) (judgeAll build fs p).2 ts := by
  obtain ⟨hgains, hstaged⟩ := stageAll_evidence gs h (List.Subset.refl gs) p
  unfold judgeAll
  cases hall : (stageAll fs p).1 with
  | false =>
    simp only [hall, Bool.false_eq_true, if_false]
    have hback := (restoreAll_evidence hstaged (List.Subset.refl gs) (stageAll fs p).2.2).1
    exact ⟨_, hgains.trans (lasting_justifiedBy gs) hback⟩
  | true =>
    simp only [hall, if_true]
    have hbuilt := hgains.verified (lasting_justifiedBy gs) build .global
    cases hv : ((stageAll fs p).2.2.verify build .global).1 with
    | false =>
      simp only [Bool.false_eq_true, if_false]
      have hback := (restoreAll_evidence hstaged (List.Subset.refl gs)
        ((stageAll fs p).2.2.verify build .global).2).1
      exact ⟨_, hbuilt.trans (lasting_justifiedBy gs) hback⟩
    | true =>
      simp only [if_true]
      rw [hv] at hbuilt
      have hshown := stageAll_shown h hfound hne hpair hall
      have hpassed : List.Forall₂ (fun st g => StagedFor g st ∧ ∀ n ∈ st.1.draft.pending,
          g.Passed ([] ++ [⟨some .global, (stageAll fs p).2.2.disk, true⟩]) .global n)
          (stageAll fs p).2.1 gs := by
        refine hshown.imp ?_
        rintro st g ⟨hst, hsh⟩
        exact ⟨hst, fun n hn => ⟨_, List.mem_singleton_self _, rfl, rfl, _, hsh,
          mem_linesIn_one.1 hn⟩⟩
      exact ⟨_, commitAll_evidence hpassed (List.Subset.refl gs) hbuilt⟩

def Origin.commented (g : Origin) : String :=
  renderLines g.lines (mark g.lines g.entry.lines (allIntact g.lines)).1

/-- Where two entries of a plan lead to one file, the digest of the text with the lines of the first
commented out is not by accident that of the text itself. -/
def DigestsTell (disk : Disk) (plan : Plan) : Prop :=
  plan.Pairwise fun e e' => disk.locate e.path = disk.locate e'.path →
    ∀ text, disk.readText e.path = .ok text →
    digest (encode (Origin.commented ⟨e, text⟩)) = digest (encode text) →
    Origin.commented ⟨e, text⟩ = text

theorem commentedOut_not_mem_of_pieces (lines : List String) :
    ∀ states : List LineState, .deleted ∉ states → pieces lines states = lines →
    .commentedOut ∉ states.take lines.length := by
  induction lines with
  | nil => simp
  | cons line lines ih =>
    intro states hd hp
    cases states with
    | nil => simp
    | cons state states =>
      have hd' : .deleted ∉ states := fun h => hd (List.mem_cons_of_mem _ h)
      cases state with
      | intact =>
        have hp' := (List.cons.inj hp).2
        simpa using ih states hd' hp'
      | commentedOut =>
        have hlen := congrArg String.length (List.cons.inj hp).1
        simp [commentMark] at hlen
      | deleted => exact absurd List.mem_cons_self hd

theorem Origin.commented_ne (g : Origin)
    (h : (mark g.lines g.entry.lines (allIntact g.lines)).2 ≠ []) : g.commented ≠ g.text := by
  obtain ⟨n, hn⟩ := List.exists_mem_of_ne_nil _ h
  intro he
  have hlength : (mark g.lines g.entry.lines (allIntact g.lines)).1.length = g.lines.length := by
    rw [length_mark, allIntact, List.length_map]
  have hdeleted : .deleted ∉ (mark g.lines g.entry.lines (allIntact g.lines)).1 := by
    intro hmem
    obtain ⟨i, hi⟩ := List.mem_iff_getElem?.1 hmem
    have hnth := nth?_eq_some.2 ⟨i, rfl, hi⟩
    rw [nth?_mark] at hnth
    split at hnth
    · simp at hnth
    · rw [allIntact, nth?_map] at hnth
      simp at hnth
  have hpieces : pieces g.lines (mark g.lines g.entry.lines (allIntact g.lines)).1 = g.lines := by
    have hlined : Lined g.lines := lined_rawLines g.text
    rw [← rawLines_renderLines hlined]
    exact congrArg rawLines he
  have hnone := commentedOut_not_mem_of_pieces _ _ hdeleted hpieces
  rw [← hlength, List.take_length] at hnone
  have hnth : nth? (mark g.lines g.entry.lines (allIntact g.lines)).1 n = some .commentedOut := by
    rw [nth?_mark, if_pos hn]
  obtain ⟨i, _, hi⟩ := nth?_eq_some.1 hnth
  exact hnone (List.mem_of_getElem? hi)

theorem Origin.opened_waiting {g : Origin} (hn : g.entry.lines.Nodup) : g.opened.Waiting g where
  draft := by
    refine ⟨rfl, rfl, by simp [Origin.opened, allIntact], ?_⟩
    intro n state hstate hne
    change nth? (allIntact g.lines) n = some state at hstate
    rw [allIntact, nth?_map] at hstate
    obtain ⟨_, _, rfl⟩ := Option.map_eq_some_iff.1 hstate
    exact absurd rfl hne
  candidates := rfl
  settled := by simp [Origin.opened, allIntact]
  nodup := hn
  listed := fun _ h => h
  untouched := by
    intro n _
    change nth? (allIntact g.lines) n ≠ _
    rw [allIntact, nth?_map]
    simp

theorem Disk.readText_congr {disk : Disk} {p q : Path} (h : disk.locate p = disk.locate q) :
    disk.readText p = disk.readText q := by
  unfold Disk.readText Disk.readBytes Disk.fileAt
  rw [h]

section
variable {disk : Disk} {plan : Plan}

theorem allFound_opened (disk : Disk) (plan : Plan) :
    AllFound disk ((plan.filterMap (originOf disk)).map Origin.opened) := by
  intro f hf
  obtain ⟨g, hg, rfl⟩ := List.mem_map.1 hf
  obtain ⟨e, _, ho⟩ := List.mem_filterMap.1 hg
  obtain ⟨rfl, _, ht⟩ := originOf_some ho
  obtain ⟨loc, mode, hh⟩ := Disk.readText_ok ht
  exact ⟨loc, mode, _, hh.leads, hh.content⟩

theorem toldApart_opened (h : DigestsTell disk plan) :
    ((plan.filterMap (originOf disk)).map Origin.opened).Pairwise fun f f' =>
      (mark f.draft.lines f.remaining f.draft.states).2 ≠ [] →
      ToldApart disk f.draft.path f.staged f' := by
  rw [List.pairwise_map, List.pairwise_filterMap]
  refine List.Pairwise.imp ?_ h
  intro e e' hpair g hg g' hg' hm hsame hdigest
  obtain ⟨rfl, _, ht⟩ := originOf_some hg
  obtain ⟨rfl, _, ht'⟩ := originOf_some hg'
  have htext : g.text = g'.text := by
    have hread : disk.readText g.entry.path = disk.readText g'.entry.path :=
      Disk.readText_congr hsame
    exact Except.ok.inj (ht.symm.trans (hread.trans ht'))
  have hsame' : digest (encode g.commented) = digest (encode g.text) := by
    rw [htext]
    exact hdigest
  exact g.commented_ne hm (hpair hsame g.text ht hsame')

theorem opened_waiting (disk : Disk) (hlines : ∀ e ∈ plan, e.lines.Nodup) :
    List.Forall₂ OpenFile.Waiting ((plan.filterMap (originOf disk)).map Origin.opened)
      (plan.filterMap (originOf disk)) := by
  rw [List.forall₂_map_left_iff, List.forall₂_same]
  intro g hg
  obtain ⟨e, he, ho⟩ := List.mem_filterMap.1 hg
  obtain ⟨rfl, _, _⟩ := originOf_some ho
  exact Origin.opened_waiting (hlines _ he)

theorem opened_remaining_ne (disk : Disk) (plan : Plan) :
    ∀ f ∈ (plan.filterMap (originOf disk)).map Origin.opened, f.remaining ≠ [] := by
  intro f hf
  obtain ⟨g, hg, rfl⟩ := List.mem_map.1 hf
  obtain ⟨e, _, ho⟩ := List.mem_filterMap.1 hg
  obtain ⟨rfl, hne, _⟩ := originOf_some ho
  simpa [Origin.opened, FileCandidates.lines] using hne

theorem runPlan_evidence (build : Build σ) {s : Session σ} (hlines : ∀ e ∈ plan, e.lines.Nodup)
    (hdigest : DigestsTell s.world.disk plan) :
    ∃ ts, (runPlan build plan s).2.trials = s.trials ++ ts ∧
      ∀ o ∈ (runPlan build plan s).2.outcomes,
        (∃ e ∈ plan, o ∈ unopened s.world.disk e) ∨
        JustifiedBy (plan.filterMap (originOf s.world.disk)) ts o := by
  unfold runPlan
  rw [openAll_origins]
  by_cases hnil : (plan.filterMap (originOf s.world.disk)).map Origin.opened = []
  · simp only [hnil, if_true]
    exact ⟨[], by simp, fun o ho => .inl (List.mem_flatMap.1 ho)⟩
  simp only [hnil, if_false]
  have hwait := opened_waiting s.world.disk hlines
  obtain ⟨ts, hbatch⟩ := judgeAll_evidence build hwait
    (p := { s with outcomes := plan.flatMap (unopened s.world.disk), unrestored := [] })
    (allFound_opened s.world.disk plan) (opened_remaining_ne s.world.disk plan)
    (toldApart_opened hdigest)
  have hrests := judgeAll_rests build hwait
    { s with outcomes := plan.flatMap (unopened s.world.disk), unrestored := [] }
  obtain ⟨ts', hrefine⟩ := refineAll_evidence build hrests (List.Subset.refl _) _
  obtain ⟨htrials, os, hos, hjust⟩ := hbatch.trans (lasting_justifiedBy _) hrefine
  refine ⟨ts ++ ts', htrials, ?_⟩
  intro o ho
  rw [hos] at ho
  rcases List.mem_append.1 ho with ho | ho
  · exact .inl (List.mem_flatMap.1 ho)
  · exact .inr (hjust o ho)

end

/-- Every verdict of a report rests on builds of the run: a line was committed only if a build of
its tier passed while the file showed it commented out, kept for a failing build only if one failed
while it was the only line commented out, and skipped only if it held no live directive. -/
theorem verdicts_rest_on_builds {build : Build σ} {plan : Plan} {s s' : Session σ} {report : Report}
    (hlines : ∀ e ∈ plan, e.lines.Nodup) (hdigest : DigestsTell (s.openingDisk build) plan)
    (hrun : run build plan s = (some report, s')) :
    ∃ ts, s'.trials = s.trials ++ ts ∧ ∀ o ∈ report.outcomes,
      (∃ e ∈ plan, o ∈ unopened (s.openingDisk build) e) ∨
      ∃ g : Origin, g.entry ∈ plan ∧
        (s.openingDisk build).readText g.entry.path = .ok g.text ∧ g.Justifies ts o := by
  rcases run_checked build plan s with ⟨u, he, hdisk, _, htrials, _⟩ | ⟨hnone, _⟩
  · rw [he, Prod.mk.injEq, Option.some.injEq] at hrun
    obtain ⟨rfl, rfl⟩ := hrun
    rw [← hdisk] at hdigest ⊢
    obtain ⟨ts, hts, hjust⟩ := runPlan_evidence build hlines hdigest
    refine ⟨s.preflight build ++ ts, by rw [hts, htrials, List.append_assoc], ?_⟩
    intro o ho
    have hmem := (stableSort_perm Outcome.le _).mem_iff.1 ho
    refine (hjust o hmem).imp id ?_
    rintro ⟨g, hg, hj⟩
    obtain ⟨e, hplan, ho⟩ := List.mem_filterMap.1 hg
    obtain ⟨rfl, _, ht⟩ := originOf_some ho
    exact ⟨g, hplan, ht, hj.mono (List.subset_append_right _ _)⟩
  · rw [hrun] at hnone
    exact absurd hnone (by simp)

/-- Two entries for one file, and one for a file that is not there. -/
def overlapping : Plan :=
  [⟨⟨"a.cc"⟩, [⟨⟨"a.cc"⟩, 1, "#include <x.h>"⟩]⟩, ⟨⟨"a.cc"⟩, [⟨⟨"a.cc"⟩, 2, "#include <y.h>"⟩]⟩,
   ⟨⟨"c.cc"⟩, [⟨⟨"c.cc"⟩, 1, "#include <z.h>"⟩]⟩]

theorem overlapping_digests : DigestsTell twoFiles overlapping := by
  have hread : twoFiles.readText ⟨"a.cc"⟩ = .ok "#include <x.h>\n#include <y.h>\nint a;\n" := by
    decide
  have hdigest : digest (encode (Origin.commented ⟨⟨⟨"a.cc"⟩, [⟨⟨"a.cc"⟩, 1, "#include <x.h>"⟩]⟩,
      "#include <x.h>\n#include <y.h>\nint a;\n"⟩)) ≠
      digest (encode "#include <x.h>\n#include <y.h>\nint a;\n") := by decide +kernel
  have hgone : twoFiles.locate ⟨"a.cc"⟩ ≠ twoFiles.locate ⟨"c.cc"⟩ := by decide
  refine .cons ?_ (.cons ?_ (.cons (by simp) .nil))
  · intro e he hsame text ht heq
    rcases List.mem_cons.1 he with rfl | he
    · obtain rfl := Except.ok.inj (ht.symm.trans hread)
      exact absurd heq hdigest
    · rw [List.mem_singleton.1 he] at hsame
      exact absurd hsame hgone
  · intro e he hsame
    rw [List.mem_singleton.1 he] at hsame
    exact absurd hsame hgone

/-- A build during which somebody appends to the file. -/
def disturbing : Rehearsal.BuildScript :=
  ⟨false, [(⟨"a.cc"⟩, "#include <x.h>")], [true, false],
    [(3, .append ⟨"a.cc"⟩ (encode "int b;\n"))]⟩

theorem verdicts_rest_on_builds_disturbing :
    ∃ report s,
      run disturbing.toBuild overlapping (Session.start ⟨twoFiles, 0⟩) = (some report, s) ∧
      ∀ o ∈ report.outcomes, (∃ e ∈ overlapping, o ∈ unopened twoFiles e) ∨
        ∃ g : Origin, g.entry ∈ overlapping ∧ twoFiles.readText g.entry.path = .ok g.text ∧
          g.Justifies s.trials o := by
  have hlines : ∀ e ∈ overlapping, e.lines.Nodup := by decide
  have hpass : (disturbing.toBuild (Session.start ⟨twoFiles, 0⟩).world).1 = true := by decide
  obtain ⟨report, s, hrun⟩ := reports_of_pass hpass overlapping
  have hopen : (Session.start ⟨twoFiles, 0⟩).openingDisk disturbing.toBuild = twoFiles := by decide
  obtain ⟨ts, hts, hjust⟩ := verdicts_rest_on_builds hlines (hopen.symm ▸ overlapping_digests) hrun
  refine ⟨report, s, hrun, ?_⟩
  rw [hopen] at hjust
  rw [hts]
  exact hjust

end IncludeSweep
