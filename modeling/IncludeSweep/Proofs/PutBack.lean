import IncludeSweep.Proofs.OutsideEdits
import IncludeSweep.Proofs.Overwriting
import IncludeSweep.Proofs.Taint

set_option autoImplicit false

/-! # What is not committed is put back

One file through the tiers, while it shows what was last written to it. No write of its draft fails
then: a batch that is not kept is taken back, and a line that is confirmed gets its outcome. So the
file has the text with which it was opened unless a line of it is reported as committed. -/

namespace IncludeSweep

open Text Draft

variable {σ : Type} {g : Origin} {j j' : Journal}

structure Disk.Keeps (disk : Disk) (g : Origin) (j : Journal) : Prop where
  reads : disk.readBytes g.entry.path = .ok (encode (lastWritten g.entry.path g.text j))
  takes : ∀ bytes, ∃ disk', disk.replaceFile g.entry.path bytes = .ok disk'

theorem Overlaid.keeps {d d' : Disk} {gs : List Origin} (h : Overlaid d gs j d') (hg : g ∈ gs)
    {x name : Location} {mode : Mode} (hl : g.Lies d x name mode)
    (ht : d.takes g.entry.path = true) : d'.Keeps g j := by
  obtain ⟨loc, hfinds, hname, _⟩ := h.shows g hg hl
  exact ⟨hfinds.readBytes_iff.2 ⟨hl.holds.reads, rfl⟩,
    fun bytes => ⟨_, hfinds.replaceFile hname ((h.takes hg hl).trans ht) bytes⟩⟩

/-- As long as no other file is written, the file keeps what is written to it. -/
def Steady (build : Build σ) (g : Origin) (j : Journal) (p : Progress σ) : Prop :=
  ∀ j' (p' : Progress σ), p.Follows build j' p' → Within [g.entry.path] j' →
    p'.disk.Keeps g (j ++ j')

namespace Steady

variable {build : Build σ} {p p' : Progress σ}

theorem keeps (h : Steady build g j p) : p.disk.Keeps g j := by
  simpa using h [] p (.done p) (within_nil _)

theorem after (h : Steady build g j p) (hf : p.Follows build j' p')
    (hj : Within [g.entry.path] j') : Steady build g (j ++ j') p' := by
  intro j₁ p₁ hf₁ hj₁
  rw [List.append_assoc]
  exact h _ _ (hf.trans hf₁) (hj.append hj₁)

theorem built (h : Steady build g j p) (tier : Tier) :
    Steady build g (j ++ [.built tier]) (p.verify build tier).2 :=
  h.after (.built tier (.done _)) (.cons (by simp [Deed.path?]) (within_nil _))

end Steady

namespace Draft

structure Knows (d : Draft) (g : Origin) (j : Journal) : Prop where
  path : d.path = g.entry.path
  lines : d.lines = g.lines
  digest : d.digest = IncludeSweep.digest (encode (lastWritten g.entry.path g.text j))

namespace Knows

variable {d d' : Draft} {disk disk' : Disk}

theorem after (h : d.Knows g j) (hj : ∀ text, .wrote g.entry.path text ∉ j') :
    d.Knows g (j ++ j') :=
  ⟨h.path, h.lines, by rw [lastWritten_append, lastWritten_unwritten hj, h.digest]⟩

theorem wrote (h : d.Knows g j) (states : List LineState) :
    (d.wrote states).Knows g (j ++ [.wrote d.path (renderLines d.lines states)]) := by
  refine ⟨h.path, h.lines, ?_⟩
  rw [lastWritten_append, h.path]
  simp [lastWritten, Draft.wrote]

theorem comment (h : d.Knows g j) {ns applied : List Nat}
    (hc : d.comment disk ns = .ok (applied, d', disk')) :
    d'.Knows g (j ++ d'.changeDeeds applied) := by
  by_cases ha : applied = []
  · subst ha
    obtain ⟨_, rfl, _⟩ := comment_nothing_ok hc
    simpa [changeDeeds] using h
  · obtain ⟨_, rfl, _⟩ := comment_wrote hc ha
    rw [changeDeeds, if_neg ha]
    exact h.wrote _

theorem rollback (h : d.Knows g j) {back : List Nat}
    (hr : d.rollback disk = .ok (back, d', disk')) : d'.Knows g (j ++ d'.changeDeeds back) := by
  by_cases hp : d.pending = []
  · obtain ⟨rfl, rfl, _⟩ : [] = back ∧ d = d' ∧ disk = disk' := by
      simpa [Draft.rollback, hp] using hr
    simpa [changeDeeds] using h
  · obtain ⟨rfl, rfl, _⟩ := rollback_wrote hr hp
    rw [changeDeeds, if_neg hp]
    exact h.wrote _

theorem perform (h : d.Knows g j) (hk : disk.Keeps g j) (op : Operation) :
    ∃ r, d.perform disk op = .ok r := by
  cases ht : op.text? d with
  | none => exact ⟨_, perform_idle disk ht⟩
  | some text =>
    obtain ⟨disk', hw⟩ := hk.takes (encode text)
    have hreads := hk.reads
    have htext : d.replaceText disk text =
        .ok ({ d with digest := IncludeSweep.digest (encode text) }, disk') := by
      simp [replaceText, h.path, h.digest, hreads, hw]
    exact ⟨(op.drafted d text, disk'), by rw [perform_writing disk ht, htext]; rfl⟩

end Knows

end Draft

structure Abreast (g : Origin) (j : Journal) (f : OpenFile) : Prop where
  knows : f.draft.Knows g j
  candidates : f.candidates = g.entry.candidates
  listed : ∀ n ∈ f.remaining, n ∈ g.entry.lines

structure AsOpened (g : Origin) (j : Journal) (f : OpenFile) : Prop extends Abreast g j f where
  states : f.draft.states = allIntact g.lines
  text : lastWritten g.entry.path g.text j = g.text

theorem noneCommitted_iff : NoneCommitted j ↔ ∀ d ∈ j, NoneCommitted [d] := by
  simp only [NoneCommitted, outcomesIn, List.mem_flatMap, List.mem_singleton]
  grind

theorem not_noneCommitted_noteDeeds {f : OpenFile} (hf : f.candidates = g.entry.candidates)
    {ns : List Nat} {n : Nat} (hn : n ∈ ns) (hlisted : n ∈ g.entry.lines) (tier : Tier) :
    ¬ NoneCommitted (f.noteDeeds ns .committed tier) := by
  intro hnone
  obtain ⟨c, hc, hline⟩ := List.mem_map.1 hlisted
  cases hfind : f.candidates.find? fun c => c.line == n with
  | none =>
    rw [hf] at hfind
    exact absurd hline (by simpa using List.find?_eq_none.1 hfind c hc)
  | some c' =>
    refine hnone ⟨c', .committed, some tier⟩ ?_ rfl
    refine List.mem_flatMap.2 ⟨_, List.mem_singleton_self _, List.mem_filterMap.2 ⟨n, hn, ?_⟩⟩
    rw [hfind]
    rfl

theorem mem_takeLines {n : Nat} {ns remaining : List Nat} (hn : n ∈ ns) (hr : n ∈ remaining) :
    n ∈ (OpenFile.takeLines ns remaining).1 := by
  induction ns generalizing remaining with
  | nil => simp at hn
  | cons m ns ih =>
    unfold OpenFile.takeLines
    by_cases hm : m ∈ remaining
    · rw [if_pos hm]
      by_cases he : n = m
      · exact he ▸ List.mem_cons_self
      · exact List.mem_cons_of_mem _ (ih ((List.mem_cons.1 hn).resolve_left he)
          ((List.mem_erase_of_ne he).2 hr))
    · rw [if_neg hm]
      exact ih ((List.mem_cons.1 hn).resolve_left fun he => hm (he ▸ hr)) hr

namespace Abreast

variable {f : OpenFile}

theorem after (h : Abreast g j f) (hj : ∀ text, .wrote g.entry.path text ∉ j') :
    Abreast g (j ++ j') f :=
  ⟨h.knows.after hj, h.candidates, h.listed⟩

theorem built (h : Abreast g j f) (tier : Tier) : Abreast g (j ++ [.built tier]) f :=
  h.after (built_idle g.entry.path tier).unwritten

theorem less (h : Abreast g j f) {rest : List Nat} (hrest : rest ⊆ f.remaining) :
    Abreast g j { f with remaining := rest } :=
  ⟨h.knows, h.candidates, fun n hn => h.listed n (hrest hn)⟩

theorem conclude (h : Abreast g j f) (ns : List Nat) (r : Resolution) (tier : Tier)
    (p : Progress σ) : Abreast g (j ++ f.concludeDeeds ns r tier) (f.conclude ns r tier p).1 := by
  refine (h.less fun n hn => ?_).after (by simp [OpenFile.concludeDeeds, OpenFile.noteDeeds])
  exact (takeLines_perm ns f.remaining).mem_iff.1 (List.mem_append_right _ hn)

theorem comment (h : Abreast g j f) {ns applied : List Nat} {d : Draft} {disk disk' : Disk}
    (hc : f.draft.comment disk ns = .ok (applied, d, disk')) :
    Abreast g (j ++ d.changeDeeds applied) { f with draft := d } :=
  ⟨h.knows.comment hc, h.candidates, h.listed⟩

theorem confirm (h : Abreast g j f) : Abreast g j { f with draft := f.draft.confirm.2 } :=
  ⟨⟨h.knows.path, h.knows.lines, h.knows.digest⟩, h.candidates, h.listed⟩

theorem rollback (h : Abreast g j f) {back : List Nat} {d : Draft} {disk disk' : Disk}
    (hr : f.draft.rollback disk = .ok (back, d, disk')) :
    Abreast g (j ++ d.changeDeeds back) { f with draft := d } :=
  ⟨h.knows.rollback hr, h.candidates, h.listed⟩

theorem wroteBack (h : Abreast g j f) :
    AsOpened g (j ++ [.wrote f.draft.path g.text])
      { f with draft := f.draft.wrote (allIntact g.lines) } := by
  have htext : renderLines f.draft.lines (allIntact g.lines) = g.text := by
    rw [h.knows.lines]
    exact renderLines_allIntact g.text
  have hknows := h.knows.wrote (allIntact g.lines)
  rw [htext] at hknows
  refine ⟨⟨hknows, h.candidates, h.listed⟩, rfl, ?_⟩
  rw [lastWritten_append, h.knows.path]
  simp [lastWritten]

theorem restore (h : Abreast g j f) {p : Progress σ} (hk : p.disk.Keeps g j) (tier : Tier) :
    AsOpened g (j ++ f.restoreDeeds g.opened.draft.snapshot tier p)
      (f.restore g.opened.draft.snapshot tier p).1 := by
  have htext : g.opened.draft.snapshot = ⟨g.text, allIntact g.lines⟩ :=
    congrArg (Snapshot.mk · (allIntact g.lines)) (renderLines_allIntact g.text)
  obtain ⟨r, hr⟩ := h.knows.perform hk (.revert g.opened.draft.snapshot)
  change f.draft.revert p.disk g.opened.draft.snapshot = .ok r at hr
  obtain ⟨d, disk⟩ := r
  obtain ⟨hd, _⟩ := revert_wrote hr
  have hwrote : d = f.draft.wrote (allIntact g.lines) := by
    rw [hd, Draft.wrote, h.knows.lines]
    rfl
  unfold OpenFile.restoreDeeds OpenFile.restore
  rw [hr, hwrote, htext]
  exact h.wroteBack

theorem flush (h : Abreast g j f) {p : Progress σ} (hk : p.disk.Keeps g j) :
    (f.flush p).1.draft.written = f.draft.states := by
  unfold OpenFile.flush
  by_cases hu : f.draft.unwritten = true
  · obtain ⟨r, hr⟩ := h.knows.perform hk .flush
    change f.draft.flush p.disk = .ok r at hr
    obtain ⟨hd, _⟩ := flush_wrote hr
    simp [hu, hr, hd, Draft.wrote]
  · have hsame : f.draft.states = f.draft.written := by simpa [Draft.unwritten] using hu
    simp [hu, hsame]

theorem commits (h : Abreast g j f) {p : Progress σ} (hk : p.disk.Keeps g j) {n : Nat}
    (hp : n ∈ f.draft.pending) (hr : n ∈ f.remaining) (s : Snapshot) (tier : Tier) :
    ¬ NoneCommitted (f.commitDeeds s tier p) := by
  unfold OpenFile.commitDeeds
  obtain ⟨r, hd⟩ := h.knows.perform hk .delete
  cases hdelete : f.draft.delete p.disk with
  | error e => simp [Draft.perform, hdelete, Except.map] at hd
  | ok deleted =>
    obtain ⟨ls, d, disk⟩ := deleted
    obtain ⟨rfl, _, _⟩ := delete_wrote hdelete
    intro hnone
    refine not_noneCommitted_noteDeeds (f := { f with draft := d }) h.candidates
      (mem_takeLines hp hr) (h.listed n hr) tier fun o ho => hnone o ?_
    exact ho

end Abreast

namespace Steady

variable {build : Build σ} {f : OpenFile} {p : Progress σ} {d : Draft} {disk : Disk}

theorem comment (hs : Steady build g j p) (hf : Abreast g j f) {ns applied : List Nat}
    (hc : f.draft.comment p.disk ns = .ok (applied, d, disk)) :
    Steady build g (j ++ d.changeDeeds applied) (p.withDisk disk) :=
  hs.after (comment_follows hc) ((hf.knows.comment hc).path ▸ d.changeDeeds_within applied)

theorem rollback (hs : Steady build g j p) (hf : Abreast g j f) {back : List Nat}
    (hr : f.draft.rollback p.disk = .ok (back, d, disk)) :
    Steady build g (j ++ d.changeDeeds back) (p.withDisk disk) :=
  hs.after (rollback_follows hr) ((hf.knows.rollback hr).path ▸ d.changeDeeds_within back)

theorem conclude (hs : Steady build g j p) (hf : Abreast g j f) (ns : List Nat) (r : Resolution)
    (tier : Tier) : Steady build g (j ++ f.concludeDeeds ns r tier) (f.conclude ns r tier p).2 :=
  hs.after (f.conclude_follows build ns r tier p) (hf.knows.path ▸ f.noteDeeds_within _ r tier)

end Steady

namespace AsOpened

variable {f : OpenFile}

theorem after (h : AsOpened g j f) (hj : ∀ text, .wrote g.entry.path text ∉ j') :
    AsOpened g (j ++ j') f :=
  ⟨h.toAbreast.after hj, h.states, by rw [lastWritten_append, lastWritten_unwritten hj, h.text]⟩

theorem less (h : AsOpened g j f) {rest : List Nat} (hrest : rest ⊆ f.remaining) :
    AsOpened g j { f with remaining := rest } :=
  ⟨h.toAbreast.less hrest, h.states, h.text⟩

theorem conclude (h : AsOpened g j f) (ns : List Nat) (r : Resolution) (tier : Tier)
    (p : Progress σ) : AsOpened g (j ++ f.concludeDeeds ns r tier) (f.conclude ns r tier p).1 :=
  ⟨h.toAbreast.conclude ns r tier p, h.states,
    (h.after (by simp [OpenFile.concludeDeeds, OpenFile.noteDeeds])).text⟩

theorem snapshot (h : AsOpened g j f) : f.draft.snapshot = g.opened.draft.snapshot := by
  rw [Draft.snapshot, Draft.render, h.states, h.knows.lines]
  rfl

theorem mem_pending (h : AsOpened g j f) {ns applied : List Nat} {d : Draft} {disk disk' : Disk}
    (hc : f.draft.comment disk ns = .ok (applied, d, disk')) {n : Nat} :
    n ∈ d.pending ↔ n ∈ applied := by
  obtain ⟨happlied, _, _, hstates, _⟩ := comment_ok hc
  rw [Draft.pending, hstates, happlied]
  refine mem_linesIn_mark ?_
  rw [h.states]
  exact commentedOut_not_mem_allIntact g.lines

theorem rolledBack (h : AsOpened g j f) {ns applied back : List Nat} {d d' : Draft}
    {disk disk₁ disk₂ disk' : Disk} (hc : f.draft.comment disk ns = .ok (applied, d, disk₁))
    (ha : applied ≠ []) (hr : d.rollback disk₂ = .ok (back, d', disk')) {j₁ : Journal}
    (hj₁ : Abreast g j₁ { f with draft := d }) :
    AsOpened g (j₁ ++ d'.changeDeeds back) { f with draft := d' } := by
  have hpending : d.pending ≠ [] := by
    obtain ⟨n, hn⟩ := List.exists_mem_of_ne_nil _ ha
    exact List.ne_nil_of_mem ((h.mem_pending hc).2 hn)
  have hsettle : settle .intact d.states = allIntact g.lines := by
    rw [(comment_ok hc).2.2.2.1, h.states]
    exact settle_mark (commentedOut_not_mem_allIntact g.lines)
  obtain ⟨rfl, rfl, _⟩ := rollback_wrote hr hpending
  have hback := hj₁.wroteBack
  rw [changeDeeds, if_neg hpending, hsettle]
  have htext : (d.wrote (allIntact g.lines)).render = g.text := by
    rw [← renderLines_allIntact g.text]
    exact congrArg (renderLines · _) hj₁.knows.lines
  rwa [htext]

end AsOpened

section
variable {build : Build σ} {f : OpenFile} {p : Progress σ}

theorem Abreast.tryTogether (h : Abreast g j f) (hs : Steady build g j p) {applied : List Nat}
    {d : Draft} {disk : Disk} (hc : f.draft.comment p.disk f.remaining = .ok (applied, d, disk)) :
    Abreast g (j ++ f.tryTogetherDeeds d applied) (f.onTrial d applied) ∧
      Steady build g (j ++ f.tryTogetherDeeds d applied)
        (f.tryTogether build applied (p.withDisk disk)).2 := by
  have hcommented := h.comment hc
  constructor
  · have hless : Abreast g (j ++ d.changeDeeds applied) (f.onTrial d applied) :=
      hcommented.less List.filter_sublist.subset
    rw [OpenFile.tryTogetherDeeds, ← List.append_assoc, ← List.append_assoc]
    exact (hless.after (by simp [OpenFile.noteDeeds])).built .perFile
  · exact hs.after (OpenFile.tryTogether_follows build hc)
      (hcommented.knows.path ▸ f.tryTogetherDeeds_within d applied)

theorem FileTrial.asOpened {r : Bool × OpenFile × Progress σ} (ht : FileTrial build f p j' r)
    (h : AsOpened g j f) (hs : Steady build g j p) (hnone : NoneCommitted j') :
    AsOpened g (j ++ j') r.2.1 := by
  cases ht with
  | gaveUp _ => exact h.conclude f.remaining .keptIoFailure .perFile p
  | skipped _ hc =>
    obtain ⟨_, rfl, _⟩ := comment_nothing_ok hc
    exact (h.less (List.nil_subset _)).after (by simp [OpenFile.noteDeeds])
  | @passed applied d disk _ hc ha _ =>
    -- a line that is on trial is still unresolved, and would have been committed
    obtain ⟨htried, hsteady⟩ := h.toAbreast.tryTogether hs hc
    obtain ⟨n, hn⟩ := List.exists_mem_of_ne_nil _ ha
    have hremaining : n ∈ (f.onTrial d applied).remaining :=
      List.mem_filter.2 ⟨(mem_mark.1 ((comment_ok hc).1 ▸ hn)).1, by simpa using hn⟩
    exact absurd (noneCommitted_append.1 hnone).2
      (htried.commits hsteady.keeps ((h.mem_pending hc).2 hn) hremaining _ .perFile)
  | failed _ hc _ _ =>
    obtain ⟨htried, hsteady⟩ := h.toAbreast.tryTogether hs hc
    rw [h.snapshot, ← List.append_assoc]
    exact htried.restore hsteady.keeps .perFile

theorem LineTrials.abreast {ns news : List Nat} {f' : OpenFile} {p' : Progress σ}
    (h : LineTrials build ns f p j' news f' p') (hf : Abreast g j f) :
    Abreast g (j ++ j') f' ∧
      ∀ n, nth? f.draft.states n = some .deleted → nth? f'.draft.states n = some .deleted := by
  induction h generalizing j with
  | done f p => exact ⟨by rwa [List.append_nil], fun _ hn => hn⟩
  | gaveUp _ => exact ⟨hf.conclude _ _ .sequential _, fun _ hn => hn⟩
  | skipped _ _ _ ih =>
    rw [← List.append_assoc]
    exact ih (hf.conclude _ _ .sequential _)
  | passed _ hc _ _ _ ih =>
    obtain ⟨hend, hkeeps⟩ := ih (((hf.comment hc).built .sequential).confirm.less List.erase_subset)
    refine ⟨by simpa using hend, fun n hn => hkeeps n (nth?_settle_deleted.2 (.inl ?_))⟩
    rw [(comment_ok hc).2.2.2.1]
    exact nth?_mark_deleted.2 hn
  | @failed n ns applied back news f f' p p' d d' disk disk' j' _ hc _ _ hr _ ih =>
    obtain ⟨hend, hkeeps⟩ := ih ((((hf.comment hc).built .sequential).rollback hr).conclude _ _
      .sequential _)
    refine ⟨by simpa using hend, fun m hm => hkeeps m ?_⟩
    change nth? d'.states m = _
    rw [(rollback_ok hr).2.2, nth?_settle, (comment_ok hc).2.2.2.1, nth?_mark_deleted.2 hm]
    rfl
  | @stuck n ns applied f p d disk e _ hc _ _ _ =>
    have hstuck : Abreast g (j ++ d.changeDeeds applied ++ [.built .sequential, .stuck d.path])
        { f with draft := d } := (hf.comment hc).after (by simp)
    have hend := hstuck.conclude f.remaining .keptIoFailure .sequential
      (((p.withDisk disk).verify build .sequential).2.taint d.path)
    rw [List.append_assoc, List.append_assoc] at hend
    refine ⟨hend, fun m hm => ?_⟩
    change nth? d.states m = _
    rw [(comment_ok hc).2.2.2.1]
    exact nth?_mark_deleted.2 hm

/-- Without a confirmed line the loop leaves the file as it was opened; a confirmed one is deleted in
the draft. -/
theorem LineTrials.asOpened {ns news : List Nat} {f' : OpenFile} {p' : Progress σ}
    (h : LineTrials build ns f p j' news f' p') (hf : AsOpened g j f) (hs : Steady build g j p)
    (hns : ∀ n ∈ ns, n ∈ g.entry.lines) :
    news = [] ∧ AsOpened g (j ++ j') f' ∨
      ∃ n ∈ news, n ∈ g.entry.lines ∧ nth? f'.draft.states n = some .deleted := by
  induction h generalizing j with
  | done f p => exact .inl ⟨rfl, by rwa [List.append_nil]⟩
  | gaveUp _ => exact .inl ⟨rfl, hf.conclude _ _ .sequential _⟩
  | @skipped n ns news f f' p p' d disk j' _ _ _ ih =>
    rw [← List.append_assoc]
    exact ih (hf.conclude _ _ .sequential _) (hs.conclude hf.toAbreast [n] .keptSkipped .sequential)
      (List.forall_mem_cons.1 hns).2
  | @passed n ns applied news f f' p p' d disk j' _ hc ha _ rest _ =>
    have hbuilt := (hf.toAbreast.comment hc).built .sequential
    have hone : n ∈ (mark f.draft.lines [n] f.draft.states).2 := by
      rw [mark_single_of_ne ((comment_ok hc).1 ▸ ha)]
      exact List.mem_singleton_self n
    refine .inr ⟨n, List.mem_cons_self, (List.forall_mem_cons.1 hns).1, ?_⟩
    refine (rest.abreast (hbuilt.confirm.less List.erase_subset)).2 n ?_
    change nth? (settle .deleted d.states) n = _
    rw [nth?_settle_deleted, (comment_ok hc).2.2.2.1, nth?_mark, if_pos hone]
    exact .inr rfl
  | @failed n ns applied back news f f' p p' d d' disk disk' j' _ hc ha _ hr _ ih =>
    have hbuilt := (hf.toAbreast.comment hc).built .sequential
    have hback := hf.rolledBack hc ha hr hbuilt
    have hsteady := ((((hs.comment hf.toAbreast hc).built .sequential).rollback hbuilt hr).conclude
      hback.toAbreast [n] .keptBuildFailed .sequential)
    have hrest := ih (hback.conclude [n] .keptBuildFailed .sequential _) hsteady
      (List.forall_mem_cons.1 hns).2
    simpa using hrest
  | @stuck n ns applied f p d disk e _ hc _ _ hr =>
    -- the file is as the draft has written it, so that it can be put back
    have hbuilt := (hf.toAbreast.comment hc).built .sequential
    have hsteady := (hs.comment hf.toAbreast hc).built .sequential
    obtain ⟨r, hback⟩ := hbuilt.knows.perform hsteady.keeps .rollback
    simp [Draft.perform, hr, Except.map] at hback

theorem judgeLines_asOpened (h : AsOpened g j f) (hs : Steady build g j p)
    (hnone : NoneCommitted (judgeLinesDeeds build f p)) :
    AsOpened g (j ++ judgeLinesDeeds build f p) (judgeLines build f p).1 := by
  obtain ⟨news, f', p', he, htrials⟩ := tryLines_trials build f.remaining [] f p
  unfold judgeLines judgeLinesDeeds at *
  rw [he, List.nil_append] at hnone ⊢
  rcases htrials.asOpened h hs h.listed with ⟨rfl, hopened⟩ | ⟨n, hn, hlisted, hgone⟩
  · simpa using hopened
  · -- the confirmed line is gone from the file after the flush, and would have been committed
    have hne : news ≠ [] := List.ne_nil_of_mem hn
    have habreast := (htrials.abreast h.toAbreast).1
    have hwithin : Within [g.entry.path] (tryDeeds build f.remaining f p) :=
      h.knows.path ▸ htrials.within.2
    have hwritten := habreast.flush (hs.after (htrials.follows build) hwithin).keeps
    have hcandidates := (f'.flush_candidates p').trans habreast.candidates
    simp only [hne, if_false, noneCommitted_append] at hnone
    refine absurd hnone.2.1.2 (not_noneCommitted_noteDeeds hcandidates ?_ hlisted .sequential)
    refine List.mem_filter.2 ⟨hn, List.contains_iff_mem.2 (mem_linesIn_one.2 ?_)⟩
    rw [hwritten]
    exact hgone

theorem refineFile_asOpened (h : AsOpened g j f) (hs : Steady build g j p)
    (hnone : NoneCommitted (refineFileDeeds build f p)) :
    AsOpened g (j ++ refineFileDeeds build f p) (refineFile build f p).1 := by
  unfold refineFile refineFileDeeds at *
  by_cases hnil : f.remaining = []
  · simpa [hnil] using h
  simp only [hnil, if_false] at hnone ⊢
  by_cases hlen : f.remaining.length < 2
  · simp only [hlen, if_true] at hnone ⊢
    exact judgeLines_asOpened h hs hnone
  simp only [hlen, if_false] at hnone ⊢
  rw [noneCommitted_append] at hnone
  obtain ⟨hnone, hnone'⟩ := hnone
  have hbatch := (judgeFile_trial build f p).asOpened h hs hnone
  have hwithin : Within [g.entry.path] (judgeFileDeeds build f p) :=
    h.knows.path ▸ (judgeFile_trial build f p).within.2
  split at hnone'
  · rename_i hdone
    simpa [hdone] using hbatch
  · rename_i hmore
    simp only [hmore]
    rw [← List.append_assoc]
    exact judgeLines_asOpened hbatch (hs.after (judgeFile_trial build f p).follows hwithin) hnone'

end

end IncludeSweep
