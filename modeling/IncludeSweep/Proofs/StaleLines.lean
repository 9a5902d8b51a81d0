import IncludeSweep.Proofs.FileTrace
import IncludeSweep.Proofs.RequiredLines

set_option autoImplicit false

/-! # Lines that have changed since the analysis

A plan names lines by their numbers and by the text that they had when the files were analysed; a
run goes by the numbers. It looks at a line again before it touches it, but asks only for a live
directive. So a line that holds none any more is never removed, while another directive that has
come to stand there may be. -/

namespace IncludeSweep

open Text Draft

variable {σ : Type} {gs : List Origin} {g : Origin} {J : Journal}

def Origin.LiveAt (g : Origin) (n : Nat) : Prop :=
  ∃ line, nth? g.lines n = some line ∧ Directive.live (stripTerminator line) = true

def Origin.Removed (g : Origin) (J : Journal) (n : Nat) : Prop :=
  ∃ states, g.Touched states ∧ .wrote g.entry.path (renderLines g.lines states) ∈ J ∧
    nth? states n = some .deleted

theorem Origin.Removed.liveAt {n : Nat} (h : g.Removed J n) : g.LiveAt n := by
  obtain ⟨states, hs, _, hn⟩ := h
  exact hs.live n _ hn (by simp)

structure Outcome.BorneOut (gs : List Origin) (J : Journal) (o : Outcome) : Prop where
  removed : o.resolution = .committed →
    ∃ g ∈ gs, o.candidate ∈ g.entry.candidates ∧ g.Removed J o.candidate.line
  tried : o.resolution = .keptBuildFailed →
    ∃ g ∈ gs, o.candidate ∈ g.entry.candidates ∧ g.LiveAt o.candidate.line

/-- A write leaves alone what is no live candidate, and outcomes are true. -/
def Deed.BorneOut (gs : List Origin) (J : Journal) : Deed → Prop
  | .wrote path text => ∃ g ∈ gs, g.entry.path = path ∧
      ∃ states, g.Touched states ∧ text = renderLines g.lines states
  | .noted _ os => ∀ o ∈ os, o.BorneOut gs J
  | _ => True

def BorneOut (gs : List Origin) (J j : Journal) : Prop :=
  ∀ d ∈ j, d.BorneOut gs J

theorem borneOut_nil : BorneOut gs J [] := by
  simp [BorneOut]

theorem BorneOut.append {j j' : Journal} (h : BorneOut gs J j) (h' : BorneOut gs J j') :
    BorneOut gs J (j ++ j') :=
  List.forall_mem_append.2 ⟨h, h'⟩

theorem BorneOut.cons {d : Deed} {j : Journal} (hd : d.BorneOut gs J) (h : BorneOut gs J j) :
    BorneOut gs J (d :: j) :=
  List.forall_mem_cons.2 ⟨hd, h⟩

theorem BorneOut.outcome {j : Journal} (h : BorneOut gs J j) {o : Outcome} (ho : o ∈ outcomesIn j) :
    o.BorneOut gs J := by
  obtain ⟨d, hd, hmem⟩ := List.mem_flatMap.1 ho
  cases d with
  | noted path os => exact h _ hd o hmem
  | _ => simp [Deed.outcomes] at hmem

structure Snapshot.Of (s : Snapshot) (g : Origin) : Prop where
  touched : g.Touched s.states
  text : s.text = renderLines g.lines s.states

namespace OpenFile

/-- Whatever is gone from the file was taken out by a write of the journal. -/
structure Backed (f : OpenFile) (g : Origin) (J : Journal) : Prop where
  path : f.draft.path = g.entry.path
  lines : f.draft.lines = g.lines
  candidates : f.candidates = g.entry.candidates
  listed : ∀ n ∈ f.remaining, n ∈ g.entry.lines
  touched : g.Touched f.draft.states
  removed : ∀ n, nth? f.draft.written n = some .deleted → g.Removed J n

theorem noteDeeds_borneOut (hg : g ∈ gs) {f : OpenFile} (hc : f.candidates = g.entry.candidates)
    {ns : List Nat} {r : Resolution} (hcommit : r = .committed → ∀ n ∈ ns, g.Removed J n)
    (htried : r = .keptBuildFailed → ∀ n ∈ ns, g.LiveAt n) (tier : Tier) :
    BorneOut gs J (f.noteDeeds ns r tier) := by
  refine .cons (fun o ho => ?_) borneOut_nil
  obtain ⟨hcand, hline, rfl, _⟩ := mem_outcomesAt ho
  rw [hc] at hcand
  exact ⟨fun hr => ⟨g, hg, hcand, hcommit hr _ hline⟩, fun hr => ⟨g, hg, hcand, htried hr _ hline⟩⟩

namespace Backed

variable {f : OpenFile} {d : Draft} {disk disk' : Disk}

theorem less (h : f.Backed g J) {rest : List Nat} (hrest : rest ⊆ f.remaining) :
    OpenFile.Backed { f with remaining := rest } g J :=
  ⟨h.path, h.lines, h.candidates, fun n hn => h.listed n (hrest hn), h.touched, h.removed⟩

theorem conclude (h : f.Backed g J) (ns : List Nat) (r : Resolution) (tier : Tier)
    (p : Progress σ) : (f.conclude ns r tier p).1.Backed g J := by
  refine h.less fun n hn => ?_
  exact (takeLines_perm ns f.remaining).mem_iff.1 (List.mem_append_right _ hn)

theorem concludeDeeds (h : f.Backed g J) (hg : g ∈ gs) {ns : List Nat} {r : Resolution}
    (hcommit : r = .committed → ∀ n ∈ ns, g.Removed J n)
    (htried : r = .keptBuildFailed → ∀ n ∈ ns, g.LiveAt n) (tier : Tier) :
    BorneOut gs J (f.concludeDeeds ns r tier) := by
  have hsub := (takeLines_sublist ns f.remaining).subset
  exact noteDeeds_borneOut hg h.candidates (fun hr n hn => hcommit hr n (hsub hn))
    (fun hr n hn => htried hr n (hsub hn)) tier

theorem giveUpDeeds (h : f.Backed g J) (hg : g ∈ gs) (tier : Tier) :
    BorneOut gs J (f.giveUpDeeds tier) :=
  h.concludeDeeds hg (by simp) (by simp) tier

theorem write (h : f.Backed g J) (hg : g ∈ gs) {states : List LineState} (hs : g.Touched states) :
    Deed.BorneOut gs J (.wrote f.draft.path (renderLines f.draft.lines states)) :=
  ⟨g, hg, h.path.symm, states, hs, by rw [h.lines]⟩

theorem wrote (h : f.Backed g J) {states : List LineState} (hs : g.Touched states)
    (hj : .wrote f.draft.path (renderLines f.draft.lines states) ∈ J) :
    OpenFile.Backed { f with draft := f.draft.wrote states } g J := by
  refine ⟨h.path, h.lines, h.candidates, h.listed, hs, fun n hn => ⟨states, hs, ?_, hn⟩⟩
  rwa [h.path, h.lines] at hj

theorem comment (h : f.Backed g J) (hg : g ∈ gs) {ns applied : List Nat}
    (hns : ∀ n ∈ ns, n ∈ g.entry.lines) (hc : f.draft.comment disk ns = .ok (applied, d, disk'))
    (hj : d.changeDeeds applied ⊆ J) :
    OpenFile.Backed { f with draft := d } g J ∧ BorneOut gs J (d.changeDeeds applied) ∧
      ∀ n ∈ applied, g.LiveAt n := by
  by_cases ha : applied = []
  · subst ha
    obtain ⟨_, rfl, _⟩ := comment_nothing_ok hc
    exact ⟨h, borneOut_nil, by simp⟩
  · obtain ⟨happlied, rfl, _⟩ := comment_wrote hc ha
    have hs : g.Touched (mark f.draft.lines ns f.draft.states).1 := by
      rw [h.lines]
      exact h.touched.mark hns
    rw [changeDeeds, if_neg ha] at hj ⊢
    refine ⟨h.wrote hs (hj List.mem_cons_self), .cons (h.write hg hs) borneOut_nil, fun n hn => ?_⟩
    rw [happlied, h.lines] at hn
    exact (removable_iff.1 (mem_mark.1 hn).2).2

theorem confirm (h : f.Backed g J) (rest : List Nat) (hrest : rest ⊆ f.remaining) :
    OpenFile.Backed { f with draft := f.draft.confirm.2, remaining := rest } g J :=
  ⟨h.path, h.lines, h.candidates, fun n hn => h.listed n (hrest hn), h.touched.settle .deleted,
    h.removed⟩

theorem rollback (h : f.Backed g J) (hg : g ∈ gs) {back : List Nat}
    (hr : f.draft.rollback disk = .ok (back, d, disk')) (hj : d.changeDeeds back ⊆ J) :
    OpenFile.Backed { f with draft := d } g J ∧ BorneOut gs J (d.changeDeeds back) := by
  by_cases hp : f.draft.pending = []
  · obtain ⟨rfl, rfl, _⟩ : [] = back ∧ f.draft = d ∧ disk = disk' := by
      simpa [Draft.rollback, hp] using hr
    exact ⟨h, borneOut_nil⟩
  · obtain ⟨rfl, rfl, _⟩ := rollback_wrote hr hp
    have hs := h.touched.settle .intact
    rw [changeDeeds, if_neg hp] at hj ⊢
    exact ⟨h.wrote hs (hj List.mem_cons_self), .cons (h.write hg hs) borneOut_nil⟩

theorem snapshot (h : f.Backed g J) : f.draft.snapshot.Of g :=
  ⟨h.touched, by rw [← h.lines]; rfl⟩

theorem restore (h : f.Backed g J) (hg : g ∈ gs) {s : Snapshot} (hs : s.Of g) {tier : Tier}
    {p : Progress σ} (hj : f.restoreDeeds s tier p ⊆ J) :
    (f.restore s tier p).1.Backed g J ∧ BorneOut gs J (f.restoreDeeds s tier p) := by
  unfold OpenFile.restore OpenFile.restoreDeeds at *
  cases hr : f.draft.revert p.disk s with
  | error e => exact ⟨h.conclude _ _ tier _, .cons trivial (h.giveUpDeeds hg tier)⟩
  | ok r =>
    obtain ⟨d, disk⟩ := r
    obtain ⟨rfl, _⟩ := revert_wrote hr
    rw [hr, hs.text, ← h.lines] at hj
    refine ⟨⟨h.path, h.lines, h.candidates, h.listed, hs.touched, ?_⟩, ?_⟩
    · exact (h.wrote hs.touched (hj List.mem_cons_self)).removed
    · rw [hs.text, ← h.lines]
      exact .cons (h.write hg hs.touched) borneOut_nil

theorem commit (h : f.Backed g J) (hg : g ∈ gs) {s : Snapshot} (hs : s.Of g) {tier : Tier}
    {p : Progress σ} (hj : f.commitDeeds s tier p ⊆ J) :
    (f.commit s tier p).2.1.Backed g J ∧ BorneOut gs J (f.commitDeeds s tier p) := by
  unfold OpenFile.commit OpenFile.commitDeeds at *
  cases hd : f.draft.delete p.disk with
  | error e =>
    rw [hd] at hj
    obtain ⟨hrestored, hdeeds⟩ := h.restore hg hs (List.append_subset.1 hj).1
    exact ⟨hrestored.conclude _ _ tier _, hdeeds.append (hrestored.giveUpDeeds hg tier)⟩
  | ok r =>
    obtain ⟨ls, d, disk⟩ := r
    rw [hd] at hj
    obtain ⟨rfl, rfl, _⟩ := delete_wrote hd
    have hdeleted := h.touched.settle .deleted
    have hbacked := h.wrote hdeleted (hj List.mem_cons_self)
    refine ⟨hbacked.conclude _ _ tier _, .cons (h.write hg hdeleted) ?_⟩
    refine hbacked.concludeDeeds hg (fun _ n hn => hbacked.removed n ?_) (by simp) tier
    exact nth?_settle_deleted.2 (.inr (mem_linesIn_one.1 hn))

theorem flush (h : f.Backed g J) (hg : g ∈ gs) {p : Progress σ} (hj : f.flushDeeds p ⊆ J) :
    (f.flush p).1.Backed g J ∧ BorneOut gs J (f.flushDeeds p) := by
  unfold OpenFile.flush OpenFile.flushDeeds at *
  by_cases hu : f.draft.unwritten = true
  · simp only [hu, if_true] at hj ⊢
    cases hf : f.draft.flush p.disk with
    | ok r =>
      obtain ⟨d, disk⟩ := r
      rw [hf] at hj
      obtain ⟨rfl, _⟩ := flush_wrote hf
      exact ⟨h.wrote h.touched (hj List.mem_cons_self), .cons (h.write hg h.touched) borneOut_nil⟩
    | error e =>
      by_cases hany : p.unrestored.any f.draft.path.same = true
      · simpa [hany] using And.intro h borneOut_nil
      · simpa [hany, BorneOut, Deed.BorneOut] using h
  · simpa [hu] using And.intro h borneOut_nil

end Backed

end OpenFile

theorem LineTrials.backed {build : Build σ} {ns news : List Nat} {f f' : OpenFile}
    {p p' : Progress σ} {j : Journal} (h : LineTrials build ns f p j news f' p') (hg : g ∈ gs)
    (hf : f.Backed g J) (hns : ∀ n ∈ ns, n ∈ g.entry.lines) (hj : j ⊆ J) :
    f'.Backed g J ∧ BorneOut gs J j := by
  induction h with
  | done f p => exact ⟨hf, borneOut_nil⟩
  | gaveUp _ => exact ⟨hf.conclude _ _ .sequential _, hf.giveUpDeeds hg .sequential⟩
  | skipped _ _ _ ih =>
    obtain ⟨_, hns⟩ := List.forall_mem_cons.1 hns
    obtain ⟨hbacked, hrest⟩ := ih (hf.conclude _ _ .sequential _) hns (List.append_subset.1 hj).2
    exact ⟨hbacked, (hf.concludeDeeds hg (by simp) (by simp) .sequential).append hrest⟩
  | passed _ hc _ _ _ ih =>
    obtain ⟨hn, hns⟩ := List.forall_mem_cons.1 hns
    obtain ⟨hchange, hj⟩ := List.append_subset.1 hj
    obtain ⟨hcommented, hwrite, _⟩ := hf.comment hg (by simpa using hn) hc hchange
    obtain ⟨hbacked, hrest⟩ := ih (hcommented.confirm _ List.erase_subset) hns
      (List.cons_subset.1 hj).2
    exact ⟨hbacked, hwrite.append (.cons trivial hrest)⟩
  | @failed n ns applied back news f f' p p' d d' disk disk' j _ hc ha _ hr _ ih =>
    obtain ⟨hn, hns⟩ := List.forall_mem_cons.1 hns
    obtain ⟨hchange, hj⟩ := List.append_subset.1 hj
    obtain ⟨hcommented, hwrite, hlive⟩ := hf.comment hg (by simpa using hn) hc hchange
    obtain ⟨hj, hj'⟩ := List.append_subset.1 (List.cons_subset.1 hj).2
    obtain ⟨hback, hundone⟩ := hcommented.rollback hg hr (List.append_subset.1 hj).1
    obtain ⟨hbacked, hrest⟩ := ih (hback.conclude _ _ .sequential _) hns hj'
    -- something was commented out, and no other line was asked for
    have hone : ∀ m ∈ [n], g.LiveAt m := by
      obtain ⟨m, hm⟩ := List.exists_mem_of_ne_nil _ ha
      have hmem : m ∈ [n] := (mem_mark.1 ((comment_ok hc).1 ▸ hm)).1
      rw [← List.mem_singleton.1 hmem]
      simpa using hlive m hm
    exact ⟨hbacked, hwrite.append (.cons trivial
      ((hundone.append (hback.concludeDeeds hg (by simp) (fun _ => hone) .sequential)).append
        hrest))⟩
  | stuck _ hc _ _ _ =>
    obtain ⟨hn, _⟩ := List.forall_mem_cons.1 hns
    obtain ⟨hcommented, hwrite, _⟩ := hf.comment hg (by simpa using hn) hc
      (List.append_subset.1 hj).1
    exact ⟨hcommented.conclude _ _ .sequential _,
      hwrite.append (.cons trivial (.cons trivial (hcommented.giveUpDeeds hg .sequential)))⟩

section
variable {build : Build σ} {f : OpenFile} {p : Progress σ}

theorem judgeLines_backed (hg : g ∈ gs) (hf : f.Backed g J) (hj : judgeLinesDeeds build f p ⊆ J) :
    (judgeLines build f p).1.Backed g J ∧ BorneOut gs J (judgeLinesDeeds build f p) := by
  obtain ⟨news, f', p', he, htrials⟩ := tryLines_trials build f.remaining [] f p
  unfold judgeLines judgeLinesDeeds at *
  rw [he, List.nil_append] at hj ⊢
  obtain ⟨hbacked, htried⟩ := htrials.backed hg hf hf.listed (List.append_subset.1 hj).1
  by_cases hnil : news = []
  · simpa [hnil] using And.intro hbacked htried
  · simp only [hnil, if_false] at hj ⊢
    have hj' := List.append_subset.1 (List.append_subset.1 (List.append_subset.1 hj).2).1
    obtain ⟨hflushed, hwrite⟩ := hbacked.flush hg hj'.1
    refine ⟨hflushed, htried.append ((hwrite.append ?_).append ?_)⟩
    · refine OpenFile.noteDeeds_borneOut hg hflushed.candidates (fun _ n hn => ?_) (by simp)
        .sequential
      exact hflushed.removed n (mem_linesIn_one.1 (List.contains_iff_mem.1 (List.mem_filter.1 hn).2))
    · exact OpenFile.noteDeeds_borneOut hg hflushed.candidates (by simp) (by simp) .sequential

theorem OpenFile.Backed.tryTogether (hf : f.Backed g J) (hg : g ∈ gs) {applied : List Nat}
    {d : Draft} {disk : Disk} (hc : f.draft.comment p.disk f.remaining = .ok (applied, d, disk))
    (hj : f.tryTogetherDeeds d applied ⊆ J) :
    (f.onTrial d applied).Backed g J ∧ BorneOut gs J (f.tryTogetherDeeds d applied) := by
  have hchange := (List.append_subset.1 (List.append_subset.1 hj).1).1
  obtain ⟨hcommented, hwrite, _⟩ := hf.comment hg hf.listed hc hchange
  have htried : (f.onTrial d applied).Backed g J := hcommented.less List.filter_sublist.subset
  exact ⟨htried, (hwrite.append (OpenFile.noteDeeds_borneOut hg htried.candidates (by simp) (by simp)
    .perFile)).append (.cons trivial borneOut_nil)⟩

theorem FileTrial.backed {j : Journal} {r : Bool × OpenFile × Progress σ}
    (h : FileTrial build f p j r) (hg : g ∈ gs) (hf : f.Backed g J) (hj : j ⊆ J) :
    r.2.1.Backed g J ∧ BorneOut gs J j := by
  cases h with
  | gaveUp _ => exact ⟨hf.conclude _ _ .perFile p, hf.giveUpDeeds hg .perFile⟩
  | skipped _ hc =>
    obtain ⟨_, rfl, _⟩ := comment_nothing_ok hc
    exact ⟨hf.less (List.nil_subset _),
      OpenFile.noteDeeds_borneOut hg hf.candidates (by simp) (by simp) .perFile⟩
  | passed _ hc _ _ =>
    obtain ⟨hbefore, hafter⟩ := List.append_subset.1 hj
    obtain ⟨htried, hdeeds⟩ := hf.tryTogether hg hc hbefore
    obtain ⟨hbacked, hcommit⟩ := htried.commit hg hf.snapshot hafter
    exact ⟨hbacked, hdeeds.append hcommit⟩
  | failed _ hc _ _ =>
    obtain ⟨hbefore, hafter⟩ := List.append_subset.1 hj
    obtain ⟨htried, hdeeds⟩ := hf.tryTogether hg hc hbefore
    obtain ⟨hbacked, hrestore⟩ := htried.restore hg hf.snapshot hafter
    exact ⟨hbacked, hdeeds.append hrestore⟩

theorem refineFile_backed (hg : g ∈ gs) (hf : f.Backed g J) (hj : refineFileDeeds build f p ⊆ J) :
    (refineFile build f p).1.Backed g J ∧ BorneOut gs J (refineFileDeeds build f p) := by
  unfold refineFile refineFileDeeds at *
  by_cases hnil : f.remaining = []
  · simpa [hnil] using And.intro hf borneOut_nil
  simp only [hnil, if_false] at hj ⊢
  by_cases hlen : f.remaining.length < 2
  · simp only [hlen, if_true] at hj ⊢
    exact judgeLines_backed hg hf hj
  simp only [hlen, if_false] at hj ⊢
  obtain ⟨hfile, hj⟩ := List.append_subset.1 hj
  obtain ⟨hbatch, hdeeds⟩ := (judgeFile_trial build f p).backed hg hf hfile
  split at hj
  · rename_i hdone
    simpa [hdone] using And.intro hbatch hdeeds
  · rename_i hmore
    obtain ⟨hbacked, hrest⟩ := judgeLines_backed hg hbatch hj
    simp only [hmore]
    exact ⟨hbacked, hdeeds.append hrest⟩

end

def AllBacked (gs : List Origin) (J : Journal) (fs : List OpenFile) : Prop :=
  ∀ f ∈ fs, ∃ g ∈ gs, f.Backed g J

def Staged.Backed (gs : List Origin) (J : Journal) (st : Staged) : Prop :=
  ∃ g ∈ gs, st.1.Backed g J ∧ ∀ s, st.2 = some s → s.Of g

section
variable {p : Progress σ}

theorem stageAll_backed {fs : List OpenFile} (h : AllBacked gs J fs) (hj : stageDeeds fs p ⊆ J) :
    (∀ st ∈ (stageAll fs p).2.1, Staged.Backed gs J st) ∧ BorneOut gs J (stageDeeds fs p) := by
  induction fs generalizing p with
  | nil => exact ⟨by simp [stageAll], borneOut_nil⟩
  | cons f fs ih =>
    obtain ⟨⟨g, hg, hf⟩, hfs⟩ := List.forall_mem_cons.1 h
    have hidle : ∀ st ∈ fs.map fun f => ((f, none) : Staged), Staged.Backed gs J st := by
      intro st hst
      obtain ⟨f', hf', rfl⟩ := List.mem_map.1 hst
      obtain ⟨g', hg', hbacked⟩ := hfs f' hf'
      exact ⟨g', hg', hbacked, by simp⟩
    unfold stageDeeds at hj
    unfold stageAll stageDeeds
    cases hc : f.draft.comment p.disk f.remaining with
    | error e =>
      refine ⟨List.forall_mem_cons.2 ⟨⟨g, hg, ?_, by simp⟩, hidle⟩, hf.giveUpDeeds hg .global⟩
      exact hf.conclude f.remaining .keptIoFailure .global p
    | ok commented =>
      obtain ⟨applied, d, disk⟩ := commented
      simp only [hc] at hj ⊢
      obtain ⟨hchange, hj⟩ := List.append_subset.1 hj
      obtain ⟨hcommented, hwrite, _⟩ := hf.comment hg hf.listed hc hchange
      have hstaged : Staged.Backed gs J ({ f with draft := d }, some f.draft.snapshot) := by
        refine ⟨g, hg, hcommented, fun s hs => ?_⟩
        obtain rfl := Option.some.inj hs
        exact hf.snapshot
      by_cases hlen : applied.length = f.remaining.length
      · simp only [hlen, if_true] at hj ⊢
        obtain ⟨hrest, hdeeds⟩ := ih hfs hj
        exact ⟨List.forall_mem_cons.2 ⟨hstaged, hrest⟩, hwrite.append hdeeds⟩
      · simp only [hlen, if_false, List.append_nil]
        exact ⟨List.forall_mem_cons.2 ⟨hstaged, hidle⟩, hwrite⟩

theorem restoreAll_backed {staged : List Staged} (h : ∀ st ∈ staged, Staged.Backed gs J st)
    (hj : restoreAllDeeds staged p ⊆ J) :
    AllBacked gs J (restoreAll staged p).1 ∧ BorneOut gs J (restoreAllDeeds staged p) := by
  induction staged generalizing p with
  | nil => exact ⟨by simp [restoreAll, AllBacked], borneOut_nil⟩
  | cons st staged ih =>
    obtain ⟨⟨g, hg, hf, hs⟩, hrest⟩ := List.forall_mem_cons.1 h
    obtain ⟨f, _ | s⟩ := st
    · obtain ⟨hothers, hdeeds⟩ := ih hrest hj
      exact ⟨List.forall_mem_cons.2 ⟨⟨g, hg, hf⟩, hothers⟩, hdeeds⟩
    · obtain ⟨hj, hj'⟩ := List.append_subset.1 hj
      obtain ⟨hrestored, hfirst⟩ := hf.restore hg (hs s rfl) hj
      obtain ⟨hothers, hdeeds⟩ := ih hrest hj'
      exact ⟨List.forall_mem_cons.2 ⟨⟨g, hg, hrestored⟩, hothers⟩, hfirst.append hdeeds⟩

theorem commitAll_backed {staged : List Staged} (h : ∀ st ∈ staged, Staged.Backed gs J st)
    (hj : commitAllDeeds staged p ⊆ J) :
    AllBacked gs J (commitAll staged p).1 ∧ BorneOut gs J (commitAllDeeds staged p) := by
  induction staged generalizing p with
  | nil => exact ⟨by simp [commitAll, AllBacked], borneOut_nil⟩
  | cons st staged ih =>
    obtain ⟨⟨g, hg, hf, hs⟩, hrest⟩ := List.forall_mem_cons.1 h
    obtain ⟨f, _ | s⟩ := st
    · obtain ⟨hothers, hdeeds⟩ := ih hrest hj
      exact ⟨List.forall_mem_cons.2 ⟨⟨g, hg, hf⟩, hothers⟩, hdeeds⟩
    · obtain ⟨hj, hj'⟩ := List.append_subset.1 hj
      obtain ⟨hcommitted, hfirst⟩ := hf.commit hg (hs s rfl) hj
      obtain ⟨hothers, hdeeds⟩ := ih hrest hj'
      exact ⟨List.forall_mem_cons.2 ⟨⟨g, hg, hcommitted⟩, hothers⟩, hfirst.append hdeeds⟩

variable {build : Build σ}

theorem judgeAll_backed {fs : List OpenFile} (h : AllBacked gs J fs)
    (hj : judgeAllDeeds build fs p ⊆ J) :
    AllBacked gs J (judgeAll build fs p).1 ∧ BorneOut gs J (judgeAllDeeds build fs p) := by
  unfold judgeAll judgeAllDeeds at *
  obtain ⟨hstage, hj⟩ := List.append_subset.1 hj
  obtain ⟨hstaged, hdeeds⟩ := stageAll_backed h hstage
  split at hj
  · rename_i hall
    simp only [hall, if_true]
    have hlast := (List.cons_subset.1 hj).2
    split at hlast
    · rename_i hv
      obtain ⟨hbacked, hcommit⟩ := commitAll_backed hstaged hlast
      simp only [hv, if_true]
      exact ⟨hbacked, hdeeds.append (.cons trivial hcommit)⟩
    · rename_i hv
      obtain ⟨hbacked, hrestore⟩ := restoreAll_backed hstaged hlast
      simp only [hv]
      exact ⟨hbacked, hdeeds.append (.cons trivial hrestore)⟩
  · rename_i hall
    obtain ⟨hbacked, hrestore⟩ := restoreAll_backed hstaged hj
    simp only [hall]
    exact ⟨hbacked, hdeeds.append hrestore⟩

theorem refineAll_backed {fs : List OpenFile} (h : AllBacked gs J fs)
    (hj : refineAllDeeds build fs p ⊆ J) : BorneOut gs J (refineAllDeeds build fs p) := by
  induction fs generalizing p with
  | nil => exact borneOut_nil
  | cons f fs ih =>
    obtain ⟨⟨g, hg, hf⟩, hfs⟩ := List.forall_mem_cons.1 h
    obtain ⟨hj, hj'⟩ := List.append_subset.1 hj
    exact (refineFile_backed hg hf hj).2.append (ih hfs hj')

end

theorem opened_backed (gs : List Origin) (J : Journal) : AllBacked gs J (gs.map Origin.opened) := by
  intro f hf
  obtain ⟨g, hg, rfl⟩ := List.mem_map.1 hf
  refine ⟨g, hg, rfl, rfl, rfl, fun n hn => hn, g.touched_allIntact, fun n hn => ?_⟩
  change nth? (allIntact g.lines) n = _ at hn
  rw [allIntact, nth?_map] at hn
  simp at hn

theorem runDeeds_borneOut (build : Build σ) (plan : Plan) (s : Session σ) :
    BorneOut (plan.filterMap (originOf s.world.disk)) (runDeeds build plan s)
      (runDeeds build plan s) := by
  -- a part of the journal may rest on a later part, so the whole is held fixed while it is taken apart
  have hall : ∀ J, runDeeds build plan s ⊆ J →
      BorneOut (plan.filterMap (originOf s.world.disk)) J (runDeeds build plan s) := by
    intro J hJ
    unfold runDeeds at *
    rw [openAll_origins] at *
    by_cases hnil : (plan.filterMap (originOf s.world.disk)).map Origin.opened = []
    · simp only [hnil, if_true]
      exact borneOut_nil
    · simp only [hnil, if_false] at hJ ⊢
      obtain ⟨hj, hj'⟩ := List.append_subset.1 hJ
      obtain ⟨hbacked, hdeeds⟩ := judgeAll_backed (opened_backed _ J) hj
      exact hdeeds.append (refineAll_backed hbacked hj')
  exact hall _ (List.Subset.refl _)

structure Analysed where
  path : Path
  content : String
  reported : List Nat

def Analysed.entry (a : Analysed) : FileCandidates :=
  .select a.path a.reported a.content

def planOf (as : List Analysed) : Plan :=
  as.map Analysed.entry

theorem Analysed.candidate {a : Analysed} {c : Candidate} (h : c ∈ a.entry.candidates) :
    c.path = a.path ∧ ∃ was, nth? (rawLines a.content) c.line = some was ∧
      c.content = stripTerminator was := by
  obtain ⟨n, _, hn⟩ := List.mem_filterMap.1 h
  obtain ⟨was, hwas, _, rfl⟩ := candidate?_eq_some.1 hn
  exact ⟨rfl, was, hwas, rfl⟩

theorem mem_origins {as : List Analysed} {disk : Disk} {g : Origin}
    (h : g ∈ (planOf as).filterMap (originOf disk)) :
    ∃ a ∈ as, disk.readText a.path = .ok g.text ∧ g = ⟨a.entry, g.text⟩ := by
  obtain ⟨e, he, ho⟩ := List.mem_filterMap.1 h
  obtain ⟨a, ha, rfl⟩ := List.mem_map.1 he
  obtain ⟨hentry, _, hread⟩ := originOf_some ho
  exact ⟨a, ha, hread, by rw [← hentry]⟩

def Analysed.Unchanged (a : Analysed) (n : Nat) (line : String) : Prop :=
  ∃ was, nth? (rawLines a.content) n = some was ∧ stripTerminator was = stripTerminator line

theorem Analysed.unchanged_iff {a : Analysed} {c : Candidate} (h : c ∈ a.entry.candidates)
    (line : String) : stripTerminator line = c.content ↔ a.Unchanged c.line line := by
  obtain ⟨_, was, hwas, hcontent⟩ := Analysed.candidate h
  rw [hcontent]
  constructor
  · intro he
    exact ⟨was, hwas, he.symm⟩
  · rintro ⟨was', hwas', he⟩
    rw [← he, Option.some.inj (hwas'.symm.trans hwas)]

/-- A candidate has one line in the opened files, whichever entry it comes from. -/
theorem liveAt_of_candidate {as : List Analysed} {disk : Disk} {g : Origin} {a : Analysed}
    {c : Candidate} {now : String} (hg : g ∈ (planOf as).filterMap (originOf disk))
    (hc : c ∈ g.entry.candidates) (ha : c ∈ a.entry.candidates)
    (hnow : disk.readText a.path = .ok now) {n : Nat} (h : g.LiveAt n) :
    Origin.LiveAt ⟨a.entry, now⟩ n := by
  obtain ⟨a', _, hread, he⟩ := mem_origins hg
  rw [he] at hc
  rw [← (Analysed.candidate hc).1, (Analysed.candidate ha).1, hnow] at hread
  obtain rfl := Except.ok.inj hread
  exact h

/-- What a run of an older plan may take out of the files. Every write is the file as it was opened,
touched only at candidates that hold a live directive. A line reported as committed was taken out by
such a write, and it is the line that was analysed exactly if its text is still the same. A candidate
whose line holds no live directive any more is skipped, if it is not given up with its file. -/
theorem only_live_lines_removed {build : Build σ} {as : List Analysed} {s s' : Session σ}
    {report : Report} (hrun : run build (planOf as) s = (some report, s')) :
    (∀ path text, .wrote path text ∈ runJournal build (planOf as) s → ∃ a ∈ as, a.path = path ∧
      ∃ now, (s.openingDisk build).readText path = .ok now ∧
      ∃ states, Origin.Touched ⟨a.entry, now⟩ states ∧ text = renderLines (rawLines now) states) ∧
    (∀ o ∈ report.outcomes, o.resolution = .committed →
      ∃ a ∈ as, o.candidate ∈ a.entry.candidates ∧
      ∃ now, (s.openingDisk build).readText a.path = .ok now ∧
        Origin.Removed ⟨a.entry, now⟩ (runJournal build (planOf as) s) o.candidate.line ∧
      ∃ line, nth? (rawLines now) o.candidate.line = some line ∧
        Directive.live (stripTerminator line) = true ∧
        (stripTerminator line = o.candidate.content ↔ a.Unchanged o.candidate.line line)) ∧
    ∀ o ∈ report.outcomes, ∀ a ∈ as, o.candidate ∈ a.entry.candidates →
      ∀ now, (s.openingDisk build).readText a.path = .ok now →
      ¬ Origin.LiveAt ⟨a.entry, now⟩ o.candidate.line →
      o.resolution = .keptSkipped ∨ o.resolution = .keptIoFailure := by
  have hborne := runDeeds_borneOut build (planOf as) (s.checked build)
  obtain ⟨p, hfollows, rfl, rfl⟩ := run_follows hrun
  rw [s.checked_disk build] at hborne
  have hout : ∀ o ∈ p.report.outcomes, o.BorneOut
      ((planOf as).filterMap (originOf (s.openingDisk build))) (runJournal build (planOf as) s) := by
    intro o ho
    have hmem := (stableSort_perm Outcome.le _).mem_iff.1 ho
    rw [hfollows.outcomes] at hmem
    rcases List.mem_append.1 hmem with hmem | hmem
    · obtain ⟨e, _, hmem⟩ := List.mem_flatMap.1 hmem
      have hkept := (resolution_of_unopened hmem).1
      exact ⟨by simp [hkept], by simp [hkept]⟩
    · exact hborne.outcome hmem
  refine ⟨fun path text hw => ?_, fun o ho hc => ?_, fun o ho a ha hcand now hnow hnot => ?_⟩
  · obtain ⟨g, hg, rfl, states, hs, htext⟩ := hborne _ hw
    obtain ⟨a, ha, hread, he⟩ := mem_origins hg
    rw [he] at hs htext ⊢
    exact ⟨a, ha, rfl, g.text, hread, states, hs, htext⟩
  · obtain ⟨g, hg, hcand, hremoved⟩ := (hout o ho).removed hc
    obtain ⟨a, ha, hread, he⟩ := mem_origins hg
    rw [he] at hcand hremoved
    obtain ⟨line, hline, hlive⟩ := hremoved.liveAt
    exact ⟨a, ha, hcand, g.text, hread, hremoved, line, hline, hlive, a.unchanged_iff hcand line⟩
  · cases hr : o.resolution with
    | committed =>
      obtain ⟨g, hg, hc, hremoved⟩ := (hout o ho).removed hr
      exact absurd (liveAt_of_candidate hg hc hcand hnow hremoved.liveAt) hnot
    | keptBuildFailed =>
      obtain ⟨g, hg, hc, hlive⟩ := (hout o ho).tried hr
      exact absurd (liveAt_of_candidate hg hc hcand hnow hlive) hnot
    | keptSkipped => exact .inl rfl
    | keptIoFailure => exact .inr rfl

def analysedBefore : List Analysed :=
  [⟨⟨"a.cc"⟩, "#include <x.h>\n#include <y.h>\n#include <z.h>\n", [1, 3]⟩]

theorem only_live_lines_removed_analysedBefore :
    ∃ report s', run passing.toBuild (planOf analysedBefore) (Session.start ⟨twoFiles, 0⟩) =
        (some report, s') ∧
      report.outcomes =
        [⟨⟨⟨"a.cc"⟩, 1, "#include <x.h>"⟩, .committed, some .perFile⟩,
         ⟨⟨⟨"a.cc"⟩, 3, "#include <z.h>"⟩, .keptSkipped, some .perFile⟩] ∧
      ∀ o ∈ report.outcomes, o.resolution = .committed →
        ∃ a ∈ analysedBefore, o.candidate ∈ a.entry.candidates ∧
        ∃ now, twoFiles.readText a.path = .ok now ∧
          Origin.Removed ⟨a.entry, now⟩
            (runJournal passing.toBuild (planOf analysedBefore) (Session.start ⟨twoFiles, 0⟩))
            o.candidate.line ∧
        ∃ line, nth? (rawLines now) o.candidate.line = some line ∧
          Directive.live (stripTerminator line) = true ∧
          (stripTerminator line = o.candidate.content ↔ a.Unchanged o.candidate.line line) := by
  have hpass : (passing.toBuild (Session.start ⟨twoFiles, 0⟩).world).1 = true := by decide
  have hopen : (Session.start ⟨twoFiles, 0⟩).openingDisk passing.toBuild = twoFiles := by decide
  have houtcomes : (run passing.toBuild (planOf analysedBefore) (Session.start ⟨twoFiles, 0⟩)).1.map
      Report.outcomes = some
        [⟨⟨⟨"a.cc"⟩, 1, "#include <x.h>"⟩, .committed, some .perFile⟩,
         ⟨⟨⟨"a.cc"⟩, 3, "#include <z.h>"⟩, .keptSkipped, some .perFile⟩] := by
    decide +kernel
  obtain ⟨report, s', hrun⟩ := reports_of_pass hpass (planOf analysedBefore)
  obtain ⟨_, hremoved, _⟩ := only_live_lines_removed hrun
  rw [hopen] at hremoved
  rw [hrun] at houtcomes
  exact ⟨report, s', hrun, Option.some.inj houtcomes, hremoved⟩

def directiveReplaced : Disk :=
  ⟨["src"], [(["src"], .dir), (["src", "a.cc"], .file 0o644 (encode "#include <y.h>\nint a;\n"))], []⟩

/-- The new directive is removed, and the old one reported as removed. -/
theorem replaced_directive_removed :
    (run passing.toBuild (planOf [⟨⟨"a.cc"⟩, "#include <x.h>\nint a;\n", [1]⟩])
      (Session.start ⟨directiveReplaced, 0⟩)).1.map Report.outcomes =
        some [⟨⟨⟨"a.cc"⟩, 1, "#include <x.h>"⟩, .committed, some .global⟩] ∧
    (run passing.toBuild (planOf [⟨⟨"a.cc"⟩, "#include <x.h>\nint a;\n", [1]⟩])
      (Session.start ⟨directiveReplaced, 0⟩)).2.world.disk.get? ["src", "a.cc"] =
        some (.file 0o644 (encode "int a;\n")) := by
  decide +kernel

end IncludeSweep
