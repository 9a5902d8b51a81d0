import Mathlib.Data.List.Induction
import IncludeSweep.Proofs.DisturbedFile
import IncludeSweep.Proofs.Greedy

set_option autoImplicit false

/-! # Runs that are rejected everything

If every build with candidates commented out fails, a run commits nothing and leaves the disk as it
was, whether or not the disk takes its writes. Several entries of the plan may name one file here. Then the batch of all files writes over
what it has written before, if the digests let it, and what it puts back has to be followed from
entry to entry. -/

namespace IncludeSweep

open Text Draft

variable {σ : Type}

/-- Whatever targets of the plan are commented out, the verdict fails. -/
def Rejects (V : Disk → Bool) (disk : Disk) (plan : Plan) : Prop :=
  ∀ batch, batch ≠ [] → batch ⊆ spots (disk.targets plan) → V (disk.showing [] batch) = false

structure Progress.Unmoved (disk : Disk) (p : Progress σ) : Prop where
  disk : p.disk = disk
  committed : committedIn p.outcomes = []

section
variable {refused : Prop} {V : Disk → Bool} {lines : List String} {candidates : List Candidate}
  {tree : List LineState → Disk} {states states' : List LineState} {ns : List Nat}
  {ts : List Trial} {os : List Outcome}

theorem LineCourse.rejected (hc : LineCourse lines candidates tree ns states ts os states')
    (hts : ∀ t ∈ ts, t.passed = V t.disk)
    (href : ∀ ms ⊆ ns, (mark lines ms states).2 ≠ [] → V (tree (mark lines ms states).1) = false) :
    states' = states ∧ committedIn os = [] := by
  induction hc with
  | done => exact ⟨rfl, rfl⟩
  | @skipped n ns _ _ _ _ _ _ ih =>
    obtain ⟨hsame, hnone⟩ := ih hts fun ms hms => href ms (List.subset_cons_of_subset n hms)
    rw [committedIn_append, hnone, committedIn_kept _ _ (by simp)]
    exact ⟨hsame, rfl⟩
  | @passed n ns _ _ _ _ hm _ _ =>
    have hpass := hts _ List.mem_cons_self
    rw [href [n] (by simp) hm] at hpass
    exact absurd hpass (by simp)
  | @failed n ns _ _ _ _ _ _ ih =>
    obtain ⟨hsame, hnone⟩ := ih (fun t ht => hts t (List.mem_cons_of_mem _ ht))
      fun ms hms => href ms (List.subset_cons_of_subset n hms)
    rw [committedIn_append, hnone, committedIn_kept _ _ (by simp)]
    exact ⟨hsame, rfl⟩

theorem FileCourse.rejected
    (hc : FileCourse refused lines candidates tree ns states ts os states')
    (hts : ∀ t ∈ ts, t.passed = V t.disk)
    (href : ∀ ms ⊆ ns, (mark lines ms states).2 ≠ [] → V (tree (mark lines ms states).1) = false) :
    states' = states ∧ committedIn os = [] := by
  cases hc with
  | byLine _ rest => exact rest.rejected hts href
  | skipped => exact ⟨rfl, committedIn_kept _ _ (by simp) _⟩
  | passed _ hm =>
    have hpass := hts _ (List.mem_singleton.2 rfl)
    rw [href ns (List.Subset.refl _) hm] at hpass
    exact absurd hpass (by simp)
  | failed _ _ rest =>
    obtain ⟨hsame, hnone⟩ := rest.rejected (fun t ht => hts t (List.mem_cons_of_mem _ ht))
      fun ms hms => href ms (List.Subset.trans hms List.filter_sublist.subset)
    rw [committedIn_append, hnone, committedIn_kept _ _ (by simp)]
    exact ⟨hsame, rfl⟩
  | givenUp _ tier => exact ⟨rfl, committedIn_kept _ _ (by simp) tier⟩

end

section
variable {V : Disk → Bool} {build : Build σ} {disk : Disk} {plan : Plan} {x : Placed}
  {p : Progress σ}

theorem OpenFile.note_committed (f : OpenFile) (lines : List Nat) (tier : Tier) (p : Progress σ) :
    committedIn (f.note lines .keptIoFailure tier p).outcomes = committedIn p.outcomes := by
  change committedIn (p.outcomes ++ outcomesOf f.candidates lines .keptIoFailure tier) = _
  rw [committedIn_append, committedIn_kept _ _ (by simp), List.append_nil]

theorem OpenFile.giveUp_committed (f : OpenFile) (tier : Tier) (p : Progress σ) :
    committedIn (f.giveUp tier p).2.outcomes = committedIn p.outcomes := by
  rw [f.giveUp_eq]
  exact f.note_committed f.remaining tier p

theorem mem_spots_of_mark (hx : x ∈ plan.filterMap (place disk)) {ns : List Nat}
    {states : List LineState} (hns : ns ⊆ x.1.remaining) {n : Nat}
    (hn : n ∈ (mark x.2.lines ns states).2) : (x.2.loc, n) ∈ spots (disk.targets plan) := by
  obtain ⟨e, he, hp⟩ := List.mem_filterMap.1 hx
  obtain ⟨text, loc, mode, _, hh, rfl⟩ := place_some hp
  obtain ⟨c, hc, rfl⟩ := List.mem_map.1 (hns (mem_mark.1 hn).1)
  refine List.mem_map.2 ⟨⟨c, loc⟩, List.mem_flatMap.2 ⟨e, he, ?_⟩, rfl⟩
  rw [hh.targetsOf]
  refine List.mem_map_of_mem (List.mem_filter.2 ⟨hc, ?_⟩)
  exact decide_eq_true (applicable_of_mark hn)

theorem refineFile_rejected (hq : Quiet build) (hj : Judges build V) (href : Rejects V disk plan)
    (hx : x ∈ plan.filterMap (place disk)) (hon : x.2.On disk)
    (hcalm : x.1.Calm disk x.2 (disk.asFound x.2.loc)) (h : p.Unmoved disk) :
    (refineFile build x.1 p).2.Unmoved disk := by
  have hsited : Sited disk [x.2] := by
    refine ⟨List.nodup_singleton _, fun s hs => ?_⟩
    rw [List.mem_singleton.1 hs]
    exact hon
  have hfound : disk.relaid [x.2] disk.asFound x.2.loc (disk.asFound x.2.loc) = disk := by
    rw [← laid_eq_relaid]
    exact Disk.laid_intact hsited fun s hs => (hsited.on s hs).asFound
  obtain ⟨states, ts, os, hdisk, hadds, hcourse⟩ : Refines True build disk [x.2] disk.asFound x.2
      x.1 p (disk.asFound x.2.loc) :=
    refineFile_course hq hsited (List.mem_singleton.2 rfl) hcalm (fun _ => trivial)
      (h.disk.trans hfound.symm) fun _ => trivial
  have hf : Follows (Function.update disk.asFound x.2.loc (disk.asFound x.2.loc)) [x.2] [] [] := by
    rw [Function.update_eq_self]
    exact hsited.follows_asFound
  rw [hcalm.sits.lines] at hcourse
  obtain ⟨rfl, hnone⟩ := hcourse.rejected (fun t ht => hj.given (hadds.given t ht)) (by
    intro ms hms hne
    rw [Disk.relaid, (hf.markAt hsited (List.mem_singleton.2 rfl) ms).laid hsited]
    refine href _ (by simpa using hne) fun q hq => ?_
    obtain ⟨n, hn, rfl⟩ := List.mem_map.1 hq
    exact mem_spots_of_mark hx hms hn)
  refine ⟨hdisk.trans hfound, ?_⟩
  have hperm := committedIn_perm hadds.outcomes
  rw [committedIn_append, h.committed, hnone] at hperm
  exact List.perm_nil.1 hperm

def LeftAlone (xs : List Placed) (f : OpenFile) : Prop :=
  f.remaining = [] ∨ ∃ x ∈ xs, x.1 = f

theorem refineAll_rejected (hq : Quiet build) (hj : Judges build V) (href : Rejects V disk plan)
    (hxs : ∀ x ∈ plan.filterMap (place disk),
      x.2.On disk ∧ x.1.Calm disk x.2 (disk.asFound x.2.loc))
    (fs : List OpenFile) : ∀ p : Progress σ, p.Unmoved disk →
    (∀ f ∈ fs, LeftAlone (plan.filterMap (place disk)) f) →
    (refineAll build fs p).2.Unmoved disk := by
  induction fs with
  | nil => exact fun p h _ => h
  | cons f fs ih =>
    intro p h hfs
    refine ih (refineFile build f p).2 ?_ fun g hg => hfs g (List.mem_cons_of_mem f hg)
    rcases hfs f List.mem_cons_self with hnil | ⟨x, hx, rfl⟩
    · unfold refineFile
      rwa [if_pos hnil]
    · exact refineFile_rejected hq hj href hx (hxs x hx).1 (hxs x hx).2 h

end

def Placed.marked (disk : Disk) (x : Placed) : List LineState :=
  (mark x.1.draft.lines x.1.remaining (disk.asFound x.2.loc)).1

/-- The layout after the files have been commented out one after the other. The last one to write a
file decides. -/
def overlay (disk : Disk) (xs : List Placed) (w : Layout) : Layout :=
  xs.foldl (fun w x => Function.update w x.2.loc (x.marked disk)) w

def Placed.staged (disk : Disk) (x : Placed) : Staged :=
  ({ x.1 with draft := x.1.draft.wrote (x.marked disk) }, some x.1.draft.snapshot)

structure Untouched (disk : Disk) (sites : List Site) (xs : List Placed) : Prop where
  sited : ∀ x ∈ xs, x.2 ∈ sites
  calm : ∀ x ∈ xs, x.1.Calm disk x.2 (disk.asFound x.2.loc)
  waiting : ∀ x ∈ xs, x.1.remaining ≠ []
  markable : ∀ x ∈ xs,
    (mark x.1.draft.lines x.1.remaining (disk.asFound x.2.loc)).2 = x.1.remaining

/-- Every file is as it was, or as one of the staged files has written it. -/
def Covers (disk : Disk) (sites : List Site) (w : Layout) (xs : List Placed) : Prop :=
  ∀ s ∈ sites, w s.loc = disk.asFound s.loc ∨ ∃ x ∈ xs, x.2.loc = s.loc ∧ w s.loc = x.marked disk

section
variable {disk : Disk} {sites : List Site} {w : Layout} {x : Placed} {xs : List Placed}

theorem Untouched.sub {ys : List Placed} (h : Untouched disk sites xs) (hsub : ys ⊆ xs) :
    Untouched disk sites ys where
  sited := fun x hx => h.sited x (hsub hx)
  calm := fun x hx => h.calm x (hsub hx)
  waiting := fun x hx => h.waiting x (hsub hx)
  markable := fun x hx => h.markable x (hsub hx)

theorem Untouched.tail (h : Untouched disk sites (x :: xs)) : Untouched disk sites xs :=
  h.sub (List.subset_cons_self x xs)

theorem overlay_concat (disk : Disk) (xs : List Placed) (x : Placed) (w : Layout) :
    overlay disk (xs ++ [x]) w =
      Function.update (overlay disk xs w) x.2.loc (x.marked disk) := by
  simp [overlay]

theorem covers_overlay (disk : Disk) (sites : List Site) (xs : List Placed) :
    Covers disk sites (overlay disk xs disk.asFound) xs := by
  induction xs using List.reverseRecOn with
  | nil => exact fun s _ => .inl rfl
  | append_singleton xs x ih =>
    intro s hs
    rw [overlay_concat]
    by_cases hloc : s.loc = x.2.loc
    · rw [hloc, Function.update_self]
      exact .inr ⟨x, by simp, rfl, rfl⟩
    · rw [Function.update_of_ne hloc]
      rcases ih s hs with hfound | ⟨y, hy, hyx⟩
      · exact .inl hfound
      · exact .inr ⟨y, List.mem_append_left _ hy, hyx⟩

theorem Covers.putBack (h : Covers disk sites w (x :: xs)) :
    Covers disk sites (Function.update w x.2.loc (disk.asFound x.2.loc)) xs := by
  intro s hs
  by_cases hloc : s.loc = x.2.loc
  · rw [hloc, Function.update_self]
    exact .inl rfl
  · rw [Function.update_of_ne hloc]
    rcases h s hs with hfound | ⟨y, hy, hyloc, hw⟩
    · exact .inl hfound
    · rcases List.mem_cons.1 hy with rfl | hy
      · exact absurd hyloc.symm hloc
      · exact .inr ⟨y, hy, hyloc, hw⟩

theorem Covers.disowned (h : Covers disk sites w (x :: xs)) (hne : w x.2.loc ≠ x.marked disk) :
    Covers disk sites w xs := by
  intro s hs
  rcases h s hs with hfound | ⟨y, hy, hyloc, hw⟩
  · exact .inl hfound
  · rcases List.mem_cons.1 hy with rfl | hy
    · exact absurd (hyloc ▸ hw) hne
    · exact .inr ⟨y, hy, hyloc, hw⟩

theorem LeftAlone.of_tail {f : OpenFile} (h : LeftAlone xs f) : LeftAlone (x :: xs) f :=
  h.imp id fun ⟨y, hy, hyf⟩ => ⟨y, List.mem_cons_of_mem x hy, hyf⟩

theorem OpenFile.Calm.comment_onto {f : OpenFile} {s : Site} {states : List LineState}
    (hf : f.Calm disk s states) (h : Sited disk sites) (hs : s ∈ sites) (w : Layout) {ns : List Nat}
    (hne : (mark f.draft.lines ns states).2 ≠ []) :
    (∃ e, f.draft.comment (disk.laid w sites) ns = .error e) ∨
      disk.takes f.draft.path = true ∧ f.draft.comment (disk.laid w sites) ns =
        .ok ((mark f.draft.lines ns states).2, f.draft.wrote (mark f.draft.lines ns states).1,
          disk.relaid sites w s.loc (mark f.draft.lines ns states).1) := by
  cases ht : disk.takes f.draft.path with
  | false =>
    have hrefuses := (Disk.takes_alike (Disk.alike_laid h w) f.draft.path).trans ht
    exact .inl (Draft.comment_of_not_takes hrefuses (hf.holds.symm ▸ hne))
  | true =>
    have hc := Draft.comment_onto h hs hf.sits ht w (hf.holds.symm ▸ hne)
    rw [hf.holds] at hc
    rw [hc]
    split
    · exact .inr ⟨rfl, rfl⟩
    · exact .inl ⟨_, rfl⟩

theorem stageAll_overlay (h : Sited disk sites) (xs : List Placed) :
    ∀ (w : Layout) (p : Progress σ), Untouched disk sites xs → p.disk = disk.laid w sites →
    ∃ (all : Bool) (front : List Placed) (back : List OpenFile) (p' : Progress σ),
      stageAll (xs.map Prod.fst) p =
        (all, front.map (Placed.staged disk) ++ back.map (·, none), p') ∧
      front ⊆ xs ∧ (∀ x ∈ front, disk.takes x.1.draft.path = true) ∧
      (∀ f ∈ back, LeftAlone xs f) ∧ p'.disk = disk.laid (overlay disk front w) sites ∧
      committedIn p'.outcomes = committedIn p.outcomes ∧ (all = true → front = xs) := by
  induction xs with
  | nil =>
    intro w p _ hdisk
    exact ⟨true, [], [], p, rfl, by simp, by simp, by simp, hdisk, rfl, fun _ => rfl⟩
  | cons x xs ih =>
    intro w p hx hdisk
    have hmark := hx.markable x List.mem_cons_self
    have hne := hmark.symm ▸ hx.waiting x List.mem_cons_self
    have hrest : ∀ f ∈ xs.map Prod.fst, LeftAlone (x :: xs) f := by
      intro f hf
      obtain ⟨y, hy, rfl⟩ := List.mem_map.1 hf
      exact .inr ⟨y, List.mem_cons_of_mem x hy, rfl⟩
    rcases (hx.calm x List.mem_cons_self).comment_onto h (hx.sited x List.mem_cons_self) w hne with
      ⟨e, hc⟩ | ⟨htakes, hc⟩
    · -- an earlier entry has written this file, and its digest tells; or the disk refuses
      rw [← hdisk] at hc
      refine ⟨false, [], (x.1.giveUp .global p).1 :: xs.map Prod.fst, (x.1.giveUp .global p).2, ?_,
        by simp, by simp, ?_, hdisk, x.1.giveUp_committed .global p, by simp⟩
      · simp [stageAll, hc]
      · intro f hf
        rcases List.mem_cons.1 hf with rfl | hf
        · exact .inl (OpenFile.giveUp_remaining x.1 .global p)
        · exact hrest f hf
    · rw [← hdisk, hmark] at hc
      obtain ⟨all, front, back, p', he, hfront, htaken, hback, hd, hcommit, hall⟩ :=
        ih _ (p.withDisk (disk.relaid sites w x.2.loc (x.marked disk))) hx.tail rfl
      exact ⟨all, x :: front, back, p', stageAll_next hc rfl he, List.cons_subset_cons x hfront,
        List.forall_mem_cons.2 ⟨htakes, htaken⟩, fun f hf => (hback f hf).of_tail, hd, hcommit,
        fun htrue => by rw [hall htrue]⟩

theorem restoreAll_idle (back : List OpenFile) (p : Progress σ) :
    restoreAll (back.map (·, none)) p = (back, p) := by
  induction back with
  | nil => rfl
  | cons f back ih => simp [restoreAll, ih]

/-- Putting the staged files back brings back the disk, even where some of them could not be put
back: another one has then done so, or does it later. -/
theorem restoreAll_covers (h : Sited disk sites) (back : List OpenFile) (front : List Placed) :
    ∀ (w : Layout) (p : Progress σ), Untouched disk sites front →
    (∀ x ∈ front, disk.takes x.1.draft.path = true) → p.disk = disk.laid w sites →
    Covers disk sites w front →
    ∃ (fs : List OpenFile) (p' : Progress σ),
      restoreAll (front.map (Placed.staged disk) ++ back.map (·, none)) p = (fs, p') ∧
      p'.disk = disk ∧ committedIn p'.outcomes = committedIn p.outcomes ∧
      ∀ f ∈ fs, LeftAlone front f ∨ f ∈ back := by
  induction front with
  | nil =>
    intro w p _ _ hdisk hcovers
    refine ⟨back, p, restoreAll_idle back p, hdisk.trans (Disk.laid_intact h fun s hs => ?_), rfl,
      fun f hf => .inr hf⟩
    rcases hcovers s hs with hfound | ⟨x, hx, _⟩
    · rw [hfound, (h.on s hs).asFound]
    · simp at hx
  | cons x front ih =>
    intro w p hx htakes hdisk hcovers
    obtain ⟨hwrite, htakes'⟩ := List.forall_mem_cons.1 htakes
    have hrestore := (hx.calm x List.mem_cons_self).restore_onto h (hx.sited x List.mem_cons_self)
      hwrite (x.marked disk) hdisk x.1.remaining .global
    have hmore : ∀ {f}, LeftAlone front f ∨ f ∈ back → LeftAlone (x :: front) f ∨ f ∈ back :=
      fun hf => hf.imp LeftAlone.of_tail id
    split at hrestore
    · obtain ⟨fs, p', he, hd, hcommit, hfs⟩ := ih (Function.update w x.2.loc (disk.asFound x.2.loc))
        (p.withDisk (disk.relaid sites w x.2.loc (disk.asFound x.2.loc))) hx.tail htakes' rfl
        hcovers.putBack
      refine ⟨x.1 :: fs, p', restoreAll_cons hrestore he, hd, hcommit, fun f hf => ?_⟩
      rcases List.mem_cons.1 hf with rfl | hf
      · exact .inl (.inr ⟨x, List.mem_cons_self, rfl⟩)
      · exact hmore (hfs f hf)
    · rename_i hdigest
      let q := (x.staged disk).1.giveUp .global (p.taint x.1.draft.path)
      -- the file is not as this entry has written it, so another entry answers for it
      have hothers : Covers disk sites w front :=
        hcovers.disowned fun hw => hdigest (by rw [hw])
      obtain ⟨fs, p', he, hd, hcommit, hfs⟩ := ih w q.2 hx.tail htakes' hdisk hothers
      refine ⟨q.1 :: fs, p', restoreAll_cons hrestore he, hd,
        hcommit.trans (OpenFile.giveUp_committed _ _ _), fun f hf => ?_⟩
      rcases List.mem_cons.1 hf with rfl | hf
      · exact .inl (.inl (OpenFile.giveUp_remaining _ _ (p.taint x.1.draft.path)))
      · exact hmore (hfs f hf)

def commentedSpots (sites : List Site) (w : Layout) : List Spot :=
  sites.flatMap fun s => (linesIn .commentedOut 1 (w s.loc)).map (s.loc, ·)

theorem mem_commentedSpots (h : Sited disk sites) {s : Site} (hs : s ∈ sites) {n : Nat} :
    (s.loc, n) ∈ commentedSpots sites w ↔ nth? (w s.loc) n = some .commentedOut := by
  rw [← mem_linesIn_one, commentedSpots, List.mem_flatMap]
  constructor
  · rintro ⟨t, ht, hmem⟩
    obtain ⟨m, hm, heq⟩ := List.mem_map.1 hmem
    obtain ⟨hloc, rfl⟩ := Prod.mk.inj heq
    rwa [h.eq_of_loc ht hs hloc] at hm
  · exact fun hn => ⟨s, hs, List.mem_map_of_mem hn⟩

theorem follows_commentedSpots (h : Sited disk sites)
    (hw : ∀ s ∈ sites, ∃ ns, w s.loc = (mark s.lines ns (allIntact s.lines)).1) :
    Follows w sites [] (commentedSpots sites w) := by
  constructor
  · intro s hs
    obtain ⟨ns, hns⟩ := hw s hs
    apply ext_nth?
    intro n
    have hmem : (s.loc, n) ∈ commentedSpots sites w ↔ n ∈ (mark s.lines ns (allIntact s.lines)).2 := by
      rw [mem_commentedSpots h hs, hns, ← mem_linesIn_one,
        mem_linesIn_mark (commentedOut_not_mem_allIntact _)]
    rw [hns, nth?_mark, nth?_numbered]
    by_cases hn : n ∈ (mark s.lines ns (allIntact s.lines)).2
    · obtain ⟨line, hline, _⟩ := applicable_of_mark hn
      simp [hn, hline, stateUnder, hmem]
    · rw [if_neg hn, allIntact, nth?_map]
      simp [stateUnder, hmem, hn]
  · intro p hp
    obtain ⟨s, hs, hmem⟩ := List.mem_flatMap.1 hp
    obtain ⟨n, _, rfl⟩ := List.mem_map.1 hmem
    exact ⟨s, hs, rfl⟩

theorem Rejects.overlay {V : Disk → Bool} {plan : Plan} (href : Rejects V disk plan)
    (h : Sited disk sites) (hx : Untouched disk sites xs)
    (hxs : xs ⊆ plan.filterMap (place disk)) (hne : xs ≠ []) :
    V (disk.laid (overlay disk xs disk.asFound) sites) = false := by
  have hcovers := covers_overlay disk sites xs
  have hmarked : ∀ x ∈ xs, x.marked disk =
      (mark x.2.lines x.1.remaining (allIntact x.2.lines)).1 := by
    intro x hmem
    rw [Placed.marked, (hx.calm x hmem).sits.lines, (h.on x.2 (hx.sited x hmem)).asFound]
  have hf : Follows (IncludeSweep.overlay disk xs disk.asFound) sites []
      (commentedSpots sites (IncludeSweep.overlay disk xs disk.asFound)) := by
    refine follows_commentedSpots h fun s hs => ?_
    rcases hcovers s hs with hfound | ⟨x, hmem, hloc, hw⟩
    · exact ⟨[], hfound.trans (h.on s hs).asFound⟩
    · obtain rfl := h.eq_of_loc (hx.sited x hmem) hs hloc
      exact ⟨x.1.remaining, hw.trans (hmarked x hmem)⟩
  rw [hf.laid h]
  refine href _ ?_ ?_
  · -- the file that was written last has lines commented out
    obtain ⟨front, x, rfl⟩ := (List.eq_nil_or_concat' xs).resolve_left hne
    obtain ⟨n, hn⟩ := List.exists_mem_of_ne_nil _ (hx.waiting x (by simp))
    rw [← hx.markable x (by simp)] at hn
    refine List.ne_nil_of_mem ((mem_commentedSpots h (hx.sited x (by simp)) (n := n)).2 ?_)
    rw [overlay_concat, Function.update_self, Placed.marked, nth?_mark, if_pos hn]
  · intro p hp
    obtain ⟨s, hs, hmem⟩ := List.mem_flatMap.1 hp
    obtain ⟨n, hn, rfl⟩ := List.mem_map.1 hmem
    rcases hcovers s hs with hfound | ⟨x, hxm, hloc, hw⟩
    · rw [hfound, (h.on s hs).asFound, mem_linesIn_one] at hn
      obtain ⟨i, _, hi⟩ := nth?_eq_some.1 hn
      exact absurd (List.mem_of_getElem? hi) (commentedOut_not_mem_allIntact _)
    · obtain rfl := h.eq_of_loc (hx.sited x hxm) hs hloc
      rw [hw, hmarked x hxm, mem_linesIn_mark (commentedOut_not_mem_allIntact _)] at hn
      exact mem_spots_of_mark (hxs hxm) (List.Subset.refl _) hn

theorem judgeAll_rejected {V : Disk → Bool} {build : Build σ} {plan : Plan} {p : Progress σ}
    (hq : Quiet build) (hj : Judges build V) (href : Rejects V disk plan) (h : Sited disk sites)
    (hx : Untouched disk sites xs) (hxs : xs ⊆ plan.filterMap (place disk)) (hne : xs ≠ [])
    (hp : p.Unmoved disk) :
    (judgeAll build (xs.map Prod.fst) p).2.Unmoved disk ∧
      ∀ f ∈ (judgeAll build (xs.map Prod.fst) p).1, LeftAlone xs f := by
  have hfound : p.disk = disk.laid disk.asFound sites :=
    hp.disk.trans (Disk.laid_intact h fun s hs => (h.on s hs).asFound).symm
  obtain ⟨all, front, back, p', hstage, hfront, htakes, hback, hdisk, hcommit, hall⟩ :=
    stageAll_overlay h xs _ p hx hfound
  -- with or without a build in between, everything is put back
  have hrestored : ∀ q : Progress σ, q.disk = p'.disk → q.outcomes = p'.outcomes →
      (restoreAll (front.map (Placed.staged disk) ++ back.map (·, none)) q).2.Unmoved disk ∧
      ∀ f ∈ (restoreAll (front.map (Placed.staged disk) ++ back.map (·, none)) q).1,
        LeftAlone xs f := by
    intro q hqd hqo
    obtain ⟨fs, q', he, hd, hc, hfs⟩ := restoreAll_covers h back front _ q (hx.sub hfront)
      htakes (hqd.trans hdisk) (covers_overlay disk sites front)
    rw [he]
    refine ⟨⟨hd, ?_⟩, fun f hf => ?_⟩
    · rw [hc, hqo, hcommit, hp.committed]
    · rcases hfs f hf with (hnil | ⟨x, hmem, hxf⟩) | hmem
      · exact .inl hnil
      · exact .inr ⟨x, hfront hmem, hxf⟩
      · exact hback f hmem
  unfold judgeAll
  cases all with
  | false =>
    simp only [hstage, Bool.false_eq_true, if_false]
    exact hrestored p' rfl rfl
  | true =>
    have hfail : (p'.verify build .global).1 = false := by
      change (build p'.world).1 = false
      rw [hj, ← Progress.disk, hdisk, hall rfl]
      exact href.overlay h hx hxs hne
    simp only [hstage, if_true, hfail, Bool.false_eq_true, if_false]
    exact hrestored _ (Progress.verify_disk hq .global p') rfl

end

section
variable {disk : Disk}

theorem Site.On.eq_of_loc {s t : Site} (hs : s.On disk) (ht : t.On disk) (h : s.loc = t.loc) :
    s = t := by
  obtain ⟨hmode, hlines⟩ := hs.of_text (h ▸ ht.content)
  rw [rawLines_renderLines ht.lined, pieces_allIntact] at hlines
  cases s
  cases t
  simp_all

/-- The sites of files that may be the same, each of them once. -/
theorem exists_sited (ss : List Site) (hon : ∀ s ∈ ss, s.On disk) :
    ∃ sites, Sited disk sites ∧ ∀ s ∈ ss, s ∈ sites := by
  suffices h : ∃ sites, Sited disk sites ∧ ∀ s, s ∈ sites ↔ s ∈ ss by
    obtain ⟨sites, hsited, hmem⟩ := h
    exact ⟨sites, hsited, fun s hs => (hmem s).2 hs⟩
  induction ss with
  | nil => exact ⟨[], ⟨by simp, by simp⟩, by simp⟩
  | cons s ss ih =>
    obtain ⟨sites, hsited, hmem⟩ := ih fun t ht => hon t (List.mem_cons_of_mem s ht)
    by_cases hs : s ∈ sites
    · refine ⟨sites, hsited, fun t => ?_⟩
      rw [hmem, List.mem_cons]
      exact ⟨.inr, fun ht => ht.elim (fun he => he ▸ (hmem s).1 hs) id⟩
    · refine ⟨s :: sites, ⟨?_, ?_⟩, fun t => by rw [List.mem_cons, List.mem_cons, hmem]⟩
      · rw [List.map_cons, List.nodup_cons]
        refine ⟨fun hloc => hs ?_, hsited.distinct⟩
        obtain ⟨t, ht, he⟩ := List.mem_map.1 hloc
        rwa [(hon s List.mem_cons_self).eq_of_loc (hsited.on t ht) he.symm]
      · intro t ht
        rcases List.mem_cons.1 ht with rfl | ht
        · exact hon t List.mem_cons_self
        · exact hsited.on t ht

theorem runPlan_rejected {V : Disk → Bool} {build : Build σ} {plan : Plan} {s : Session σ}
    (hq : Quiet build) (hj : Judges build V) (href : Rejects V s.world.disk plan)
    (hreg : ∀ e ∈ plan, ∀ text, s.world.disk.readText e.path = .ok text →
      s.world.disk.locateName e.path = s.world.disk.locate e.path)
    (hmark : ∀ x ∈ plan.filterMap (place s.world.disk),
      (mark x.1.draft.lines x.1.remaining (s.world.disk.asFound x.2.loc)).2 = x.1.remaining) :
    (runPlan build plan s).2.Unmoved s.world.disk := by
  have hcalm := fun x hx => place_calm hreg (x := x) hx
  obtain ⟨sites, hsited, hsites⟩ := exists_sited
    ((plan.filterMap (place s.world.disk)).map Prod.snd) (by
      intro t ht
      obtain ⟨x, hx, rfl⟩ := List.mem_map.1 ht
      exact (hcalm x hx).1)
  have hx : Untouched s.world.disk sites (plan.filterMap (place s.world.disk)) := by
    refine ⟨fun x hx => hsites _ (List.mem_map_of_mem hx), fun x hx => (hcalm x hx).2, ?_, hmark⟩
    intro x hx
    obtain ⟨e, _, hp⟩ := List.mem_filterMap.1 hx
    obtain ⟨_, _, _, hne, _, rfl⟩ := place_some hp
    simpa [Origin.opened, FileCandidates.lines] using hne
  have hopen : (s.opened plan).Unmoved s.world.disk :=
    ⟨rfl, committedIn_unopened s.world.disk plan⟩
  unfold runPlan
  rw [openAll_eq]
  by_cases hnil : plan.filterMap (place s.world.disk) = []
  · rw [hnil]
    exact hopen
  have hne : (plan.filterMap (place s.world.disk)).map Prod.fst ≠ [] := by simpa using hnil
  simp only [hne, if_false]
  obtain ⟨hjudged, hleft⟩ := judgeAll_rejected hq hj href hsited hx (List.Subset.refl _) hnil hopen
  exact refineAll_rejected hq hj href hcalm _ _ hjudged hleft

theorem run_rejected {V : Disk → Bool} {build : Build σ} {plan : Plan} {s : Session σ}
    (hq : Quiet build) (hj : Judges build V) (hpass : V s.world.disk = true)
    (href : Rejects V s.world.disk plan)
    (hreg : ∀ e ∈ plan, ∀ text, s.world.disk.readText e.path = .ok text →
      s.world.disk.locateName e.path = s.world.disk.locate e.path)
    (hmark : ∀ x ∈ plan.filterMap (place s.world.disk),
      (mark x.1.draft.lines x.1.remaining (s.world.disk.asFound x.2.loc)).2 = x.1.remaining) :
    ∃ report s', run build plan s = (some report, s') ∧ report.committed = [] ∧
      s'.world.disk = s.world.disk := by
  obtain ⟨report, s', hrun⟩ := reports_of_pass ((hj s.world).trans hpass) plan
  rcases run_checked build plan s with ⟨u, he, hdisk, _⟩ | ⟨hnone, _⟩
  · rw [openingDisk_of_quiet hq] at hdisk
    rw [← hdisk] at href hreg hmark
    have hend := runPlan_rejected hq hj href hreg hmark
    refine ⟨_, _, he, ?_, hend.disk.trans hdisk⟩
    have hperm := committedIn_perm (stableSort_perm Outcome.le (runPlan build plan u).2.outcomes)
    rw [hend.committed] at hperm
    exact List.perm_nil.1 hperm
  · rw [hrun] at hnone
    exact absurd hnone (by simp)

end

end IncludeSweep
