import IncludeSweep.Proofs.Evidence
import IncludeSweep.Proofs.FileTiers
import IncludeSweep.Proofs.Journal

set_option autoImplicit false

/-! # The tiers of one file among disturbances

Whatever the builds do to the disk, the finer tiers of a file note only outcomes that they have
evidence for. -/

namespace IncludeSweep

open Text Draft

variable {σ : Type} {g : Origin}

/-- A file of the plan between two batches: nothing is commented out, and of the unresolved lines
nothing was deleted. -/
structure OpenFile.Waiting (f : OpenFile) (g : Origin) : Prop where
  draft : f.draft.Of g
  candidates : f.candidates = g.entry.candidates
  settled : .commentedOut ∉ f.draft.states
  nodup : f.remaining.Nodup
  listed : ∀ n ∈ f.remaining, n ∈ g.entry.lines
  untouched : ∀ n ∈ f.remaining, nth? f.draft.states n ≠ some .deleted

namespace OpenFile.Waiting

variable {f : OpenFile}

theorem intact (h : f.Waiting g) {n : Nat} (hn : n ∈ f.remaining) {line : String}
    (hl : nth? g.lines n = some line) : nth? f.draft.states n = some .intact := by
  obtain ⟨i, rfl, hi⟩ := nth?_eq_some.1 hl
  have hlt : i < f.draft.states.length := by
    rw [h.draft.fits.length]
    exact (List.getElem?_eq_some_iff.1 hi).1
  have hget : nth? f.draft.states (i + 1) = some f.draft.states[i] :=
    nth?_eq_some.2 ⟨i, rfl, List.getElem?_eq_getElem hlt⟩
  have hsettled : f.draft.states[i] ≠ .commentedOut :=
    fun he => h.settled (he ▸ List.getElem_mem hlt)
  have huntouched := h.untouched (i + 1) hn
  rw [hget] at huntouched ⊢
  cases hs : f.draft.states[i] with
  | intact => rfl
  | commentedOut => exact absurd hs hsettled
  | deleted => simp [hs] at huntouched

theorem notLive (h : f.Waiting g) {n : Nat} {ns : List Nat} (hn : n ∈ f.remaining) (hns : n ∈ ns)
    (hm : n ∉ (mark f.draft.lines ns f.draft.states).2) : g.NotLive n := by
  refine Origin.notLive_of_not_removable ?_ fun line hl => h.intact hn hl
  rw [mem_mark, not_and, h.draft.lines, Bool.not_eq_true] at hm
  exact hm hns

theorem less (h : f.Waiting g) {rest : List Nat} (hrest : rest.Sublist f.remaining) :
    OpenFile.Waiting { f with remaining := rest } g :=
  ⟨h.draft, h.candidates, h.settled, h.nodup.sublist hrest,
    fun n hn => h.listed n (hrest.subset hn),
    fun n hn => h.untouched n (hrest.subset hn)⟩

theorem redrafted (h : f.Waiting g) {d : Draft} (hpath : d.path = f.draft.path)
    (hlines : d.lines = f.draft.lines) (hstates : d.states = f.draft.states) :
    OpenFile.Waiting { f with draft := d } g where
  draft := ⟨hpath.trans h.draft.path, hlines.trans h.draft.lines, hstates.symm ▸ h.draft.fits⟩
  candidates := h.candidates
  settled := hstates.symm ▸ h.settled
  nodup := h.nodup
  listed := h.listed
  untouched := hstates.symm ▸ h.untouched

theorem removed (h : f.Waiting g) {ns rest : List Nat} {d : Draft} (hns : ∀ n ∈ ns, n ∈ f.remaining)
    (hpath : d.path = f.draft.path) (hlines : d.lines = f.draft.lines)
    (hstates : d.states = settle .deleted (mark f.draft.lines ns f.draft.states).1)
    (hrest : rest.Sublist f.remaining)
    (hgone : ∀ n ∈ rest, n ∉ (mark f.draft.lines ns f.draft.states).2) :
    OpenFile.Waiting { f with draft := d, remaining := rest } g where
  draft := by
    refine ⟨hpath.trans h.draft.path, hlines.trans h.draft.lines, ?_⟩
    change g.Fits d.states
    rw [hstates, h.draft.lines]
    exact (h.draft.fits.mark fun n hn => h.listed n (hns n hn)).settle .deleted
  candidates := h.candidates
  settled := by
    change .commentedOut ∉ d.states
    rw [hstates]
    exact commentedOut_not_mem_settle (by simp) _
  nodup := h.nodup.sublist hrest
  listed := fun n hn => h.listed n (hrest.subset hn)
  untouched := by
    intro n hn
    change nth? d.states n ≠ _
    rw [hstates, nth?_settle, nth?_mark, if_neg (hgone n hn), ← nth?_settle,
      settle_of_not_mem h.settled]
    exact h.untouched n (hrest.subset hn)

end OpenFile.Waiting

theorem takeLines_sublist (ns remaining : List Nat) :
    (OpenFile.takeLines ns remaining).1.Sublist ns := by
  induction ns generalizing remaining with
  | nil => exact .slnil
  | cons n ns ih =>
    unfold OpenFile.takeLines
    split
    · exact (ih _).cons_cons n
    · exact (ih _).cons n

section
variable {f : OpenFile} {p p' : Progress σ} {ts : List Trial} {J : List Trial → Outcome → Prop}

theorem OpenFile.giveUp_remaining (f : OpenFile) (tier : Tier) (p : Progress σ) :
    (f.giveUp tier p).1.remaining = [] := by
  rw [OpenFile.giveUp, f.conclude_taken (takeLines_self f.remaining)]

theorem gains_giveUp (hJ : ∀ ts o, g.Justifies ts o → J ts o)
    (hf : f.candidates = g.entry.candidates) (h : p.Gains J p' ts) (tier : Tier) :
    p.Gains J (f.giveUp tier p').2 ts := by
  rw [OpenFile.giveUp, f.conclude_taken (takeLines_self f.remaining)]
  exact h.noted f fun c hc _ => hJ ts _ ⟨hf ▸ hc, trivial⟩

theorem gains_restore (hJ : ∀ ts o, g.Justifies ts o → J ts o)
    (hf : f.candidates = g.entry.candidates) (h : p.Gains J p' ts) (s : Snapshot) (tier : Tier) :
    p.Gains J (f.restore s tier p').2 ts := by
  unfold OpenFile.restore
  cases f.draft.revert p'.disk s with
  | error e => exact gains_giveUp hJ hf (h.tainted f.draft.path) tier
  | ok r => exact h.onDisk r.2

/-- A file that was put back waits again; one that could not be is resolved. -/
theorem restore_waiting {f₀ : OpenFile} (h₀ : f₀.Waiting g) (hpath : f.draft.path = f₀.draft.path)
    (hlines : f.draft.lines = f₀.draft.lines) (hcand : f.candidates = f₀.candidates)
    (hrest : f.remaining.Sublist f₀.remaining) (tier : Tier) (p : Progress σ) :
    (f.restore f₀.draft.snapshot tier p).1.remaining = [] ∨
      (f.restore f₀.draft.snapshot tier p).1.Waiting g := by
  unfold OpenFile.restore
  cases hr : f.draft.revert p.disk f₀.draft.snapshot with
  | error e => exact .inl (OpenFile.giveUp_remaining f tier _)
  | ok r =>
    obtain ⟨d, disk⟩ := r
    obtain ⟨hp, hl, hs⟩ := revert_ok hr
    have hw := (h₀.redrafted (hp.trans hpath) (hl.trans hlines) hs).less hrest
    exact .inr (by simpa [hcand] using hw)

theorem restore_candidates (f : OpenFile) (s : Snapshot) (tier : Tier) (p : Progress σ) :
    (f.restore s tier p).1.candidates = f.candidates := by
  unfold OpenFile.restore
  cases f.draft.revert p.disk s <;> rfl

theorem commit_resolved (f : OpenFile) (s : Snapshot) (tier : Tier) (p : Progress σ) :
    (f.commit s tier p).1 = true ∨ (f.commit s tier p).2.1.remaining = [] := by
  unfold OpenFile.commit
  cases f.draft.delete p.disk with
  | ok r => exact .inl rfl
  | error e => exact .inr (OpenFile.giveUp_remaining _ tier _)

theorem gains_commit (hJ : ∀ ts o, g.Justifies ts o → J ts o)
    (hf : f.candidates = g.entry.candidates) (h : p.Gains J p' ts) (s : Snapshot) (tier : Tier)
    (hp : ∀ n ∈ f.draft.pending, g.Passed ts tier n) :
    p.Gains J (f.commit s tier p').2.2 ts := by
  unfold OpenFile.commit
  cases hd : f.draft.delete p'.disk with
  | error e =>
    refine gains_giveUp hJ ?_ (gains_restore hJ hf h s tier) tier
    rw [restore_candidates, hf]
  | ok r =>
    obtain ⟨ls, d, disk⟩ := r
    obtain ⟨rfl, _⟩ := delete_ok hd
    refine (h.onDisk disk).noted _ fun c hc hline => hJ ts _ ⟨hf ▸ hc, tier, rfl, hp c.line ?_⟩
    exact (takeLines_sublist _ _).subset hline

end

/-- What the loop over lines leaves: justified outcomes, and lines to confirm that builds passed. -/
structure TriedLines (g : Origin) (p : Progress σ) (news : List Nat) (f' : OpenFile)
    (p' : Progress σ) : Prop where
  gained : ∃ ts, p.Gains g.Justifies p' ts ∧ ∀ n ∈ news, g.Passed ts .sequential n
  candidates : f'.candidates = g.entry.candidates

namespace TriedLines

variable {p q p' : Progress σ} {news : List Nat} {f' : OpenFile} {ts : List Trial}

theorem after (h : TriedLines g q news f' p') (hq : p.Gains g.Justifies q ts) :
    TriedLines g p news f' p' := by
  obtain ⟨ts', hgains, hpassed⟩ := h.gained
  refine ⟨⟨ts ++ ts', hq.trans g.lasting hgains, fun n hn => ?_⟩, h.candidates⟩
  exact (hpassed n hn).mono (List.subset_append_right ts ts')

theorem confirming {n : Nat} (h : TriedLines g q news f' p') (hq : p.Gains g.Justifies q ts)
    (hn : g.Passed ts .sequential n) : TriedLines g p (n :: news) f' p' := by
  obtain ⟨ts', hgains, hpassed⟩ := h.gained
  refine ⟨⟨ts ++ ts', hq.trans g.lasting hgains, ?_⟩, h.candidates⟩
  intro m hm
  rcases List.mem_cons.1 hm with rfl | hm
  · exact hn.mono (List.subset_append_left ts ts')
  · exact (hpassed m hm).mono (List.subset_append_right ts ts')

theorem gaveUp {f : OpenFile} (hf : f.candidates = g.entry.candidates)
    (hq : p.Gains g.Justifies q ts) :
    TriedLines g p [] (f.giveUp .sequential q).1 (f.giveUp .sequential q).2 :=
  ⟨⟨ts, gains_giveUp (fun _ _ h => h) hf hq .sequential, by simp⟩, hf⟩

end TriedLines

/-- The build that judges marked lines sees the file as the draft renders it. -/
theorem OpenFile.Waiting.shown {f : OpenFile} (h : f.Waiting g) {ns applied : List Nat} {d : Draft}
    {disk disk' : Disk} (hns : ∀ n ∈ ns, n ∈ f.remaining)
    (hc : f.draft.comment disk ns = .ok (applied, d, disk')) (hne : applied ≠ []) :
    g.Shown disk' (mark f.draft.lines ns f.draft.states).1 := by
  obtain ⟨_, _, _, _, _, hwrite⟩ := comment_ok hc
  obtain ⟨⟨bytes, hread, _⟩, hfile⟩ := hwrite hne
  refine ⟨?_, ?_⟩
  · rw [h.draft.lines]
    exact h.draft.fits.mark fun n hn => h.listed n (hns n hn)
  · have hafter := readBytes_replaceFile hread hfile
    rw [h.draft.path] at hafter
    rw [← h.draft.lines]
    exact hafter

theorem OpenFile.Waiting.passed {f : OpenFile} (h : f.Waiting g) {ns applied : List Nat} {d : Draft}
    {disk disk' : Disk} (hns : ∀ n ∈ ns, n ∈ f.remaining)
    (hc : f.draft.comment disk ns = .ok (applied, d, disk')) (tier : Tier) {n : Nat}
    (hn : n ∈ applied) :
    g.Passed [⟨some tier, disk', true⟩] tier n := by
  have hne : applied ≠ [] := fun hnil => by simp [hnil] at hn
  refine ⟨_, List.mem_singleton_self _, rfl, rfl, _, h.shown hns hc hne, ?_⟩
  rw [nth?_mark, if_pos ((comment_ok hc).1 ▸ hn)]

theorem OpenFile.Waiting.failed {f : OpenFile} (h : f.Waiting g) {n : Nat} {applied : List Nat}
    {d : Draft} {disk disk' : Disk} (hn : ∀ m ∈ [n], m ∈ f.remaining)
    (hc : f.draft.comment disk [n] = .ok (applied, d, disk')) (hne : applied ≠ []) :
    g.Failed [⟨some .sequential, disk', false⟩] n := by
  refine ⟨_, List.mem_singleton_self _, rfl, rfl, _, h.shown hn hc hne, ?_⟩
  have hperm := linesIn_mark_perm f.draft.lines [n] h.settled
  rwa [mark_single_of_ne ((comment_ok hc).1 ▸ hne), List.perm_singleton] at hperm

theorem OpenFile.Waiting.confirmed {f : OpenFile} (h : f.Waiting g) {n : Nat} {applied : List Nat}
    {d : Draft} {disk disk' : Disk} (hn : ∀ m ∈ [n], m ∈ f.remaining)
    (hc : f.draft.comment disk [n] = .ok (applied, d, disk')) (hne : applied ≠ []) :
    OpenFile.Waiting { f with draft := d.confirm.2, remaining := f.remaining.erase n } g := by
  obtain ⟨happlied, hpath, hlines, hstates, _, _⟩ := comment_ok hc
  refine h.removed hn hpath hlines (by rw [← hstates]; rfl) List.erase_sublist ?_
  intro m hm
  rw [mark_single_of_ne (happlied ▸ hne), List.mem_singleton]
  exact (h.nodup.mem_erase_iff.1 hm).1

theorem OpenFile.Waiting.rolledBack {f : OpenFile} (h : f.Waiting g) {ns applied back : List Nat}
    {d d' : Draft} {disk disk' tree tree' : Disk}
    (hc : f.draft.comment disk ns = .ok (applied, d, disk'))
    (hr : d.rollback tree = .ok (back, d', tree')) : OpenFile.Waiting { f with draft := d' } g := by
  obtain ⟨_, hpath, hlines, hstates, _, _⟩ := comment_ok hc
  obtain ⟨hpath', hlines', hstates'⟩ := rollback_ok hr
  refine h.redrafted (hpath'.trans hpath) (hlines'.trans hlines) ?_
  rw [hstates', hstates, settle_mark h.settled]

theorem LineTrials.evidence {build : Build σ} {ns news : List Nat} {f f' : OpenFile}
    {p p' : Progress σ} {j : Journal} (h : LineTrials build ns f p j news f' p') (hf : f.Waiting g)
    (hrem : f.remaining.Perm ns) : TriedLines g p news f' p' := by
  induction h with
  | done f p => exact ⟨⟨[], Progress.gains_refl _ p, by simp⟩, hf.candidates⟩
  | gaveUp _ => exact .gaveUp hf.candidates (Progress.gains_refl _ _)
  | @skipped n ns news f f' p p' d disk j ht hc rest ih =>
    obtain ⟨hn, hrem'⟩ := List.cons_perm_iff_perm_erase.1 hrem.symm
    rw [f.conclude_single hn] at ih
    have hlive : g.NotLive n :=
      hf.notLive hn (List.mem_singleton_self n) (by simp [← (comment_ok hc).1])
    refine (ih (hf.less List.erase_sublist) hrem'.symm).after
      ((Progress.gains_refl _ p).noted f fun c hcand hline => ?_)
    have hlive' : g.NotLive c.line := List.mem_singleton.1 hline ▸ hlive
    exact ⟨hf.candidates ▸ hcand, hlive'⟩
  | @passed n ns applied news f f' p p' d disk j ht hc ha hv rest ih =>
    obtain ⟨hn, hrem'⟩ := List.cons_perm_iff_perm_erase.1 hrem.symm
    have hone : ∀ m ∈ [n], m ∈ f.remaining := fun m hm => List.mem_singleton.1 hm ▸ hn
    have hbuilt := ((Progress.gains_refl _ p).onDisk disk).verified g.lasting build .sequential
    rw [hv] at hbuilt
    have hmem : n ∈ applied := by
      have happlied := (comment_ok hc).1
      rw [happlied, mark_single_of_ne (happlied ▸ ha)]
      exact List.mem_singleton_self n
    exact (ih (hf.confirmed hone hc ha) hrem'.symm).confirming hbuilt
      (hf.passed hone hc .sequential hmem)
  | @failed n ns applied back news f f' p p' d d' disk disk' j ht hc ha hv hr rest ih =>
    obtain ⟨hn, hrem'⟩ := List.cons_perm_iff_perm_erase.1 hrem.symm
    have hone : ∀ m ∈ [n], m ∈ f.remaining := fun m hm => List.mem_singleton.1 hm ▸ hn
    have hbuilt := ((Progress.gains_refl _ p).onDisk disk).verified g.lasting build .sequential
    rw [hv] at hbuilt
    rw [OpenFile.conclude_single { f with draft := d' } hn] at ih
    have hwait := (hf.rolledBack hc hr).less (List.erase_sublist (a := n))
    refine (ih hwait hrem'.symm).after ((hbuilt.onDisk disk').noted _ fun c hcand hline => ?_)
    have hfailed : g.Failed _ c.line := List.mem_singleton.1 hline ▸ hf.failed hone hc ha
    exact ⟨hf.candidates ▸ hcand, hfailed⟩
  | @stuck n ns applied f p d disk e ht hc ha hv hr =>
    have hbuilt := ((Progress.gains_refl _ p).onDisk disk).verified g.lasting build .sequential
    exact .gaveUp (f := { f with draft := d }) hf.candidates (hbuilt.tainted d.path)

theorem OpenFile.flush_candidates (f : OpenFile) (p : Progress σ) :
    (f.flush p).1.candidates = f.candidates := by
  unfold OpenFile.flush
  split
  · cases f.draft.flush p.disk with
    | ok r => rfl
    | error e => by_cases h : p.unrestored.any f.draft.path.same <;> simp [h]
  · rfl

theorem gains_flush {f : OpenFile} {p p' : Progress σ} {J : List Trial → Outcome → Prop}
    {ts : List Trial} (h : p.Gains J p' ts) : p.Gains J (f.flush p').2 ts := by
  unfold OpenFile.flush
  split
  · cases f.draft.flush p'.disk with
    | ok r => exact h.onDisk r.2
    | error e =>
      by_cases hu : p'.unrestored.any f.draft.path.same
      · simpa only [hu, if_true] using h
      · simp only [hu, Bool.false_eq_true, if_false]
        exact h
  · exact h

theorem judgeLines_evidence (build : Build σ) {f : OpenFile} (hf : f.Waiting g) (p : Progress σ) :
    ∃ ts, p.Gains g.Justifies (judgeLines build f p).2 ts := by
  obtain ⟨news, f', p', he, htrials⟩ := tryLines_trials build f.remaining [] f p
  have h := htrials.evidence hf (.refl _)
  obtain ⟨ts, hgains, hpassed⟩ := h.gained
  unfold judgeLines
  rw [he, List.nil_append]
  by_cases hnil : news = []
  · simp only [hnil, if_true]
    exact ⟨ts, hgains⟩
  · simp only [hnil, if_false]
    have hcand := (f'.flush_candidates p').trans h.candidates
    refine ⟨ts, ((gains_flush hgains).noted _ ?_).noted _ ?_⟩
    · intro c hc hline
      exact ⟨hcand ▸ hc, .sequential, rfl, hpassed c.line (List.mem_filter.1 hline).1⟩
    · intro c hc _
      exact ⟨hcand ▸ hc, trivial⟩

theorem OpenFile.Waiting.tryTogether {f : OpenFile} (h : f.Waiting g) {applied : List Nat}
    {d : Draft} {disk disk' : Disk}
    (hc : f.draft.comment disk f.remaining = .ok (applied, d, disk')) (build : Build σ)
    (p : Progress σ) :
    p.Gains g.Justifies (f.tryTogether build applied (p.withDisk disk')).2
      [⟨some .perFile, disk', (f.tryTogether build applied (p.withDisk disk')).1⟩] := by
  have hskip : p.Gains g.Justifies
      (f.note (f.passedOver applied) .keptSkipped .perFile (p.withDisk disk')) [] := by
    refine ((Progress.gains_refl _ p).onDisk disk').noted _ fun c hcand hline => ?_
    obtain ⟨hmem, hnot⟩ := List.mem_filter.1 hline
    exact ⟨h.candidates ▸ hcand, h.notLive hmem hmem (by simpa [(comment_ok hc).1] using hnot)⟩
  exact hskip.verified g.lasting build .perFile

theorem FileTrial.evidence {build : Build σ} {f : OpenFile} {p : Progress σ} {j : Journal}
    {r : Bool × OpenFile × Progress σ} (h : FileTrial build f p j r) (hf : f.Waiting g) :
    (∃ ts, p.Gains g.Justifies r.2.2 ts) ∧
      (r.1 = true ∨ r.2.1.remaining = [] ∨ r.2.1.Waiting g) := by
  have hrefl := Progress.gains_refl g.Justifies p
  cases h with
  | gaveUp _ =>
    exact ⟨⟨[], gains_giveUp (fun _ _ h => h) hf.candidates hrefl .perFile⟩,
      .inr (.inl (f.giveUp_remaining .perFile p))⟩
  | @skipped d disk ht hc =>
    refine ⟨⟨[], (hrefl.onDisk disk).noted _ fun c hcand hline => ?_⟩, .inr (.inl rfl)⟩
    exact ⟨hf.candidates ▸ hcand, hf.notLive hline hline (by simp [← (comment_ok hc).1])⟩
  | @passed applied d disk ht hc ha hv =>
    have hbuilt := hf.tryTogether hc build p
    rw [hv] at hbuilt
    have hpending : ∀ n ∈ d.pending, g.Passed [⟨some .perFile, disk, true⟩] .perFile n := by
      intro n hn
      obtain ⟨happlied, _, _, hstates, _⟩ := comment_ok hc
      unfold Draft.pending at hn
      rw [hstates, mem_linesIn_mark hf.settled, ← happlied] at hn
      exact hf.passed (fun _ h => h) hc .perFile hn
    exact ⟨⟨_, gains_commit (f := f.onTrial d applied) (fun _ _ h => h) hf.candidates hbuilt
      f.draft.snapshot .perFile hpending⟩, (commit_resolved _ _ .perFile _).imp id .inl⟩
  | @failed applied d disk ht hc ha hv =>
    obtain ⟨_, hpath, hlines, _⟩ := comment_ok hc
    exact ⟨⟨_, gains_restore (f := f.onTrial d applied) (fun _ _ h => h) hf.candidates
        (hf.tryTogether hc build p) f.draft.snapshot .perFile⟩,
      .inr (restore_waiting (f := f.onTrial d applied) hf hpath hlines rfl List.filter_sublist
        .perFile _)⟩

theorem refineFile_evidence (build : Build σ) {f : OpenFile} (hf : f.remaining = [] ∨ f.Waiting g)
    (p : Progress σ) : ∃ ts, p.Gains g.Justifies (refineFile build f p).2 ts := by
  unfold refineFile
  by_cases hnil : f.remaining = []
  · simp only [hnil, if_true]
    exact ⟨[], Progress.gains_refl _ p⟩
  have hwait := hf.resolve_left hnil
  simp only [hnil, if_false]
  by_cases hlen : f.remaining.length < 2
  · simp only [hlen, if_true]
    exact judgeLines_evidence build hwait p
  simp only [hlen, if_false]
  obtain ⟨⟨ts, hgains⟩, hcase⟩ := (judgeFile_trial build f p).evidence hwait
  by_cases hdone : ((judgeFile build f p).1 || (judgeFile build f p).2.1.remaining.isEmpty) = true
  · simp only [hdone, if_true]
    exact ⟨ts, hgains⟩
  · simp only [hdone]
    rw [Bool.or_eq_true, not_or, List.isEmpty_iff] at hdone
    have hwait' := (hcase.resolve_left hdone.1).resolve_left hdone.2
    obtain ⟨ts', hgains'⟩ := judgeLines_evidence build hwait' (judgeFile build f p).2.2
    exact ⟨ts ++ ts', hgains.trans g.lasting hgains'⟩

end IncludeSweep
