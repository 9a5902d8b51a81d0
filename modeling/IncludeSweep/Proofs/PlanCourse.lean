import IncludeSweep.Proofs.FileTiers

set_option autoImplicit false

/-! # The course of a plan

The batch of all files, and then the files one after the other. What `Placed` adds to an open file
is the place of its draft on the disk. -/

namespace IncludeSweep

open Text Draft

variable {σ : Type}

abbrev Placed := OpenFile × Site

/-- The files of a plan one after the other, each from the disk that those before it have left. -/
inductive FilesCourse (refused : Prop) (disk : Disk) (sites : List Site) :
    List Placed → Layout → List Trial → List Outcome → Layout → Prop
  | nil (w : Layout) : FilesCourse refused disk sites [] w [] [] w
  | cons {x : Placed} {xs : List Placed} {w w' : Layout} {states : List LineState}
      {ts ts' : List Trial} {os os' : List Outcome}
      (head : FileCourse refused x.1.draft.lines x.1.candidates (disk.relaid sites w x.2.loc)
        x.1.remaining (w x.2.loc) ts os states)
      (tail : FilesCourse refused disk sites xs (Function.update w x.2.loc states) ts' os' w') :
      FilesCourse refused disk sites (x :: xs) w (ts ++ ts') (os ++ os') w'

def markAll : List Placed → Layout → Layout
  | [], w => w
  | x :: xs, w =>
    markAll xs (Function.update w x.2.loc (mark x.1.draft.lines x.1.remaining (w x.2.loc)).1)

def allMarkable (xs : List Placed) (w : Layout) : Bool :=
  xs.all fun x =>
    (mark x.1.draft.lines x.1.remaining (w x.2.loc)).2.length == x.1.remaining.length

theorem mark_of_allMarkable {xs : List Placed} {w : Layout} (h : allMarkable xs w = true)
    {x : Placed} (hx : x ∈ xs) :
    (mark x.1.draft.lines x.1.remaining (w x.2.loc)).2 = x.1.remaining := by
  have hlen := List.all_eq_true.1 h x hx
  exact (mark_sublist _ _ _).eq_of_length (by simpa using hlen)

def batchOutcomes (xs : List Placed) (w : Layout) : List Outcome :=
  xs.flatMap fun x =>
    outcomesOf x.1.candidates (linesIn .commentedOut 1 (w x.2.loc)) .committed .global

/-- A whole run: the batch of all files if it can be staged, and the finer tiers unless it
passed. -/
inductive PlanCourse (refused : Prop) (disk : Disk) (xs : List Placed) (w : Layout) :
    List Trial → List Outcome → Layout → Prop
  | idle (hnil : xs = []) : PlanCourse refused disk xs w [] [] w
  | passed (hne : xs ≠ []) (hm : allMarkable xs w = true) :
      PlanCourse refused disk xs w
        [⟨some .global, disk.laid (markAll xs w) (xs.map Prod.snd), true⟩]
        (batchOutcomes xs (markAll xs w)) (fun loc => settle .deleted (markAll xs w loc))
  | failed {w' : Layout} {ts : List Trial} {os : List Outcome} (hne : xs ≠ [])
      (hm : allMarkable xs w = true)
      (rest : FilesCourse refused disk (xs.map Prod.snd) xs w ts os w') :
      PlanCourse refused disk xs w
        (⟨some .global, disk.laid (markAll xs w) (xs.map Prod.snd), false⟩ :: ts) os w'
  | abandoned {w' : Layout} {ts : List Trial} {os : List Outcome} (hne : xs ≠ [])
      (hm : allMarkable xs w = true → refused)
      (rest : FilesCourse refused disk (xs.map Prod.snd) xs w ts os w') :
      PlanCourse refused disk xs w ts os w'

structure Ready (disk : Disk) (sites : List Site) (w : Layout) (xs : List Placed) : Prop where
  distinct : (xs.map fun x => x.2.loc).Nodup
  sited : ∀ x ∈ xs, x.2 ∈ sites
  calm : ∀ x ∈ xs, x.1.Calm disk x.2 (w x.2.loc)

namespace Ready

variable {disk : Disk} {sites : List Site} {w : Layout} {x : Placed} {xs : List Placed}

theorem head_ne (h : Ready disk sites w (x :: xs)) {y : Placed} (hy : y ∈ xs) :
    y.2.loc ≠ x.2.loc := by
  intro he
  have hnot := (List.nodup_cons.1 h.distinct).1
  exact hnot (List.mem_map.2 ⟨y, hy, he⟩)

theorem tail (h : Ready disk sites w (x :: xs)) (states : List LineState) :
    Ready disk sites (Function.update w x.2.loc states) xs where
  distinct := (List.nodup_cons.1 h.distinct).2
  sited := fun y hy => h.sited y (List.mem_cons_of_mem x hy)
  calm := by
    intro y hy
    rw [Function.update_of_ne (h.head_ne hy)]
    exact h.calm y (List.mem_cons_of_mem x hy)

theorem rest (h : Ready disk sites w (x :: xs)) : Ready disk sites w xs := by
  have ht := h.tail (w x.2.loc)
  rwa [Function.update_eq_self] at ht

end Ready

def SameElsewhere (xs : List Placed) (u u' : Layout) : Prop :=
  ∀ loc, (∀ x ∈ xs, x.2.loc ≠ loc) → u' loc = u loc

namespace SameElsewhere

variable {x : Placed} {xs : List Placed} {u u' : Layout} {states : List LineState}

theorem refl (xs : List Placed) (u : Layout) : SameElsewhere xs u u :=
  fun _ _ => rfl

theorem cons (h : SameElsewhere xs (Function.update u x.2.loc states) u') :
    SameElsewhere (x :: xs) u u' := by
  intro loc hloc
  rw [h loc fun y hy => hloc y (List.mem_cons_of_mem x hy),
    Function.update_of_ne (Ne.symm (hloc x (by simp)))]

theorem head (h : SameElsewhere xs (Function.update u x.2.loc states) u')
    (hne : ∀ y ∈ xs, y.2.loc ≠ x.2.loc) : u' x.2.loc = states := by
  rw [h x.2.loc hne, Function.update_self]

end SameElsewhere

theorem laid_eq_relaid (disk : Disk) (sites : List Site) (w : Layout) (loc : Location) :
    disk.laid w sites = disk.relaid sites w loc (w loc) := by
  rw [Disk.relaid, Function.update_eq_self]

theorem markAll_other {xs : List Placed} {loc : Location} (h : ∀ x ∈ xs, x.2.loc ≠ loc)
    (w : Layout) : markAll xs w loc = w loc := by
  induction xs generalizing w with
  | nil => rfl
  | cons x xs ih =>
    unfold markAll
    rw [ih (fun y hy => h y (List.mem_cons_of_mem x hy)),
      Function.update_of_ne (Ne.symm (h x (by simp)))]

theorem markAll_mem {xs : List Placed} (hd : (xs.map fun x => x.2.loc).Nodup) {x : Placed}
    (hx : x ∈ xs) (w : Layout) :
    markAll xs w x.2.loc = (mark x.1.draft.lines x.1.remaining (w x.2.loc)).1 := by
  induction xs generalizing w with
  | nil => simp at hx
  | cons y xs ih =>
    have hnot := (List.nodup_cons.1 hd).1
    unfold markAll
    rcases List.mem_cons.1 hx with rfl | hx
    · rw [markAll_other, Function.update_self]
      intro z hz he
      exact hnot (List.mem_map.2 ⟨z, hz, he⟩)
    · have hne : x.2.loc ≠ y.2.loc := fun he => hnot (List.mem_map.2 ⟨x, hx, he⟩)
      rw [ih (List.nodup_cons.1 hd).2 hx, Function.update_of_ne hne]

/-- If some file is not written to, that is because the disk refuses. -/
def Writable (refused : Prop) (disk : Disk) (xs : List Placed) : Prop :=
  ∀ x ∈ xs, disk.takes x.1.draft.path = false → refused

theorem Writable.tail {refused : Prop} {disk : Disk} {x : Placed} {xs : List Placed}
    (h : Writable refused disk (x :: xs)) : Writable refused disk xs :=
  fun y hy => h y (List.mem_cons_of_mem x hy)

/-- The files after a batch that was not kept, with what it has resolved: each is as it was before,
or was given up. -/
inductive LeftOver (refused : Prop) : List Placed → List OpenFile → List Outcome → Prop
  | nil : LeftOver refused [] [] []
  | same {x : Placed} {xs : List Placed} {fs : List OpenFile} {os : List Outcome}
      (rest : LeftOver refused xs fs os) : LeftOver refused (x :: xs) (x.1 :: fs) os
  | givenUp {x : Placed} {xs : List Placed} {f : OpenFile} {fs : List OpenFile} {os : List Outcome}
      (hrefused : refused) (hf : f.remaining = []) (rest : LeftOver refused xs fs os) :
      LeftOver refused (x :: xs) (f :: fs)
        (outcomesOf x.1.candidates x.1.remaining .keptIoFailure .global ++ os)

section
variable {refused : Prop} {build : Build σ} {disk : Disk} {sites : List Site}

theorem refineAll_course (hq : Quiet build) (h : Sited disk sites) {xs : List Placed}
    {fs : List OpenFile} {os₀ : List Outcome} (hleft : LeftOver refused xs fs os₀) :
    ∀ (w : Layout) (p : Progress σ), Ready disk sites w xs → Writable refused disk xs →
    p.disk = disk.laid w sites → (p.tainted = true → refused) →
    ∃ (w' : Layout) (ts : List Trial) (os os' : List Outcome),
      (refineAll build fs p).2.disk = disk.laid w' sites ∧
      p.Adds build (refineAll build fs p).2 ts os ∧ os'.Perm (os₀ ++ os) ∧
      FilesCourse refused disk sites xs w ts os' w' := by
  induction hleft with
  | nil =>
    intro w p _ _ hdisk _
    exact ⟨w, [], [], [], hdisk, Progress.adds_refl build p, .refl _, .nil w⟩
  | @same x xs fs os₀ _ ih =>
    intro w p hr hwrite hdisk htaint
    rw [laid_eq_relaid disk sites w x.2.loc] at hdisk
    obtain ⟨states, ts, os, hd, hadds, hcourse⟩ := refineFile_course hq h (hr.sited x (by simp))
      (hr.calm x (by simp)) (hwrite x (by simp)) hdisk htaint
    obtain ⟨w', ts', os', os'', hd', hadds', hperm, hcourse'⟩ :=
      ih _ (refineFile build x.1 p).2 (hr.tail states) hwrite.tail hd (hadds.tainted ▸ htaint)
    refine ⟨w', ts ++ ts', os ++ os', os ++ os'', hd', hadds.trans hadds', ?_, .cons hcourse hcourse'⟩
    rw [← List.append_assoc]
    refine (hperm.append_left os).trans ?_
    rw [← List.append_assoc]
    exact List.perm_append_comm.append_right os'
  | @givenUp x xs f fs os₀ hrefused hf _ ih =>
    intro w p hr hwrite hdisk htaint
    have hskip : refineFile build f p = (f, p) := by
      unfold refineFile
      rw [if_pos hf]
    obtain ⟨w', ts, os, os', hd, hadds, hperm, hcourse⟩ := ih w p hr.rest hwrite.tail hdisk htaint
    refine ⟨w', ts, os, outcomesOf x.1.candidates x.1.remaining .keptIoFailure .global ++ os', ?_, ?_,
      ?_, ?_⟩
    · simpa only [refineAll, hskip] using hd
    · simpa only [refineAll, hskip] using hadds
    · rw [List.append_assoc]
      exact hperm.append_left _
    · rw [← List.nil_append ts]
      refine .cons (.givenUp hrefused .global) ?_
      rwa [Function.update_eq_self]

theorem refineAll_resolved {fs : List OpenFile} (h : ∀ f ∈ fs, f.remaining = []) (p : Progress σ) :
    (refineAll build fs p).2 = p := by
  induction fs with
  | nil => rfl
  | cons f fs ih =>
    have hf : refineFile build f p = (f, p) := by
      unfold refineFile
      rw [if_pos (h f (by simp))]
    change (refineAll build fs (refineFile build f p).2).2 = p
    rw [hf]
    exact ih fun g hg => h g (List.mem_cons_of_mem f hg)

def stagedAt (w : Layout) (x : Placed) : Staged :=
  ({ x.1 with draft := x.1.draft.wrote (w x.2.loc) }, some x.1.draft.snapshot)

/-- The staged files of a batch, with what was resolved while they were staged. Those reached are
staged, the others are as they were. A file that cannot be written is given up, or, if there was
nothing to be written in it, staged as it was. -/
inductive Staging (refused : Prop) (disk : Disk) (w : Layout) :
    List Placed → List Staged → List Outcome → Prop
  | nil : Staging refused disk w [] [] []
  | idle {x : Placed} {xs : List Placed} {staged : List Staged} {os : List Outcome}
      (hx : w x.2.loc = x.1.draft.states) (rest : Staging refused disk w xs staged os) :
      Staging refused disk w (x :: xs) ((x.1, none) :: staged) os
  | reached {x : Placed} {xs : List Placed} {staged : List Staged} {os : List Outcome}
      (htakes : disk.takes x.1.draft.path = true) (rest : Staging refused disk w xs staged os) :
      Staging refused disk w (x :: xs) (stagedAt w x :: staged) os
  | stuck {x : Placed} {xs : List Placed} {staged : List Staged} {os : List Outcome}
      (hrefused : refused) (htakes : disk.takes x.1.draft.path = false)
      (hx : w x.2.loc = x.1.draft.states) (rest : Staging refused disk w xs staged os) :
      Staging refused disk w (x :: xs) (stagedAt w x :: staged) os
  | givenUp {x : Placed} {xs : List Placed} {f : OpenFile} {staged : List Staged}
      {os : List Outcome} (hrefused : refused) (hf : f.remaining = [])
      (hx : w x.2.loc = x.1.draft.states) (rest : Staging refused disk w xs staged os) :
      Staging refused disk w (x :: xs) ((f, none) :: staged)
        (outcomesOf x.1.candidates x.1.remaining .keptIoFailure .global ++ os)

theorem staging_idle {w : Layout} {xs : List Placed}
    (h : ∀ x ∈ xs, w x.2.loc = x.1.draft.states) :
    Staging refused disk w xs ((xs.map Prod.fst).map (·, none)) [] := by
  induction xs with
  | nil => exact .nil
  | cons x xs ih => exact .idle (h x (by simp)) (ih fun y hy => h y (List.mem_cons_of_mem x hy))

theorem OpenFile.Calm.comment {f : OpenFile} {s : Site} {states : List LineState} {w : Layout}
    (hf : f.Calm disk s states) (h : Sited disk sites) (hs : s ∈ sites)
    (ht : disk.takes f.draft.path = true) (ns : List Nat) :
    f.draft.comment (disk.relaid sites w s.loc states) ns =
      .ok ((mark f.draft.lines ns states).2, f.draft.wrote (mark f.draft.lines ns states).1,
        disk.relaid sites w s.loc (mark f.draft.lines ns states).1) := by
  by_cases hm : (mark f.draft.lines ns states).2 = []
  · rw [comment_nothing (by rw [hf.holds, hm]), mark_eq_self hm, hf.wrote, hm]
  · have hc := comment_laid (w := w) h hs hf.sits ht (by rw [hf.holds]; exact hm)
    rwa [hf.saved, hf.holds] at hc

theorem stageAll_next {f : OpenFile} {fs : List OpenFile} {p p' : Progress σ} {applied : List Nat}
    {draft : Draft} {tree : Disk} {all : Bool} {staged : List Staged}
    (hc : f.draft.comment p.disk f.remaining = .ok (applied, draft, tree))
    (hlen : applied.length = f.remaining.length)
    (hrest : stageAll fs (p.withDisk tree) = (all, staged, p')) :
    stageAll (f :: fs) p = (all, ({ f with draft := draft }, some f.draft.snapshot) :: staged, p') := by
  simp [stageAll, hc, hlen, hrest]

structure StagedTo (refused : Prop) (build : Build σ) (disk : Disk) (sites : List Site)
    (xs : List Placed) (w : Layout) (p : Progress σ) (all : Bool) (w' : Layout)
    (staged : List Staged) (os : List Outcome) (p' : Progress σ) : Prop where
  eq : stageAll (xs.map Prod.fst) p = (all, staged, p')
  staging : Staging refused disk w' xs staged os
  laid : p'.disk = disk.laid w' sites
  adds : p.Adds build p' [] os
  elsewhere : SameElsewhere xs w w'
  whole : all = true → allMarkable xs w = true ∧ w' = markAll xs w ∧
    staged = xs.map (stagedAt w') ∧ os = [] ∧ ∀ x ∈ xs, disk.takes x.1.draft.path = true
  stopped : all = false → allMarkable xs w = true → refused

section
variable {x : Placed} {xs : List Placed} {w : Layout} {p : Progress σ}

theorem stagedTo_refused (build : Build σ) (hr : Ready disk sites w (x :: xs))
    (hne : x.1.remaining ≠ []) (h : Sited disk sites) (hdisk : p.disk = disk.laid w sites)
    (htakes : disk.takes x.1.draft.path = false) (hrefused : refused) :
    ∃ staged os p', StagedTo refused build disk sites (x :: xs) w p false w staged os p' := by
  have hcalm := hr.calm x (by simp)
  have hidle : Staging refused disk w xs ((xs.map Prod.fst).map (·, none)) [] :=
    staging_idle fun y hy => (hr.calm y (List.mem_cons_of_mem x hy)).holds.symm
  have hrefuses : p.disk.takes x.1.draft.path = false := by
    rw [hdisk, Disk.takes_alike (Disk.alike_laid h w), htakes]
  by_cases hm : (mark x.1.draft.lines x.1.remaining x.1.draft.states).2 = []
  · have hstaged : stagedAt w x = (x.1, some x.1.draft.snapshot) := by
      simp only [stagedAt, hcalm.wrote]
    refine ⟨_, [], p, ?_, .stuck hrefused htakes hcalm.holds.symm hidle, hdisk,
      Progress.adds_refl build p, .refl _ w, by simp, fun _ _ => hrefused⟩
    have hlen : ¬ 0 = x.1.remaining.length := fun he => hne (List.length_eq_zero_iff.1 he.symm)
    simp [stageAll, comment_nothing hm, hlen, hstaged, Progress.withDisk]
    rfl
  · obtain ⟨e, he⟩ := comment_of_not_takes hrefuses hm
    refine ⟨_, _, (x.1.giveUp .global p).2, ?_,
      .givenUp (f := (x.1.giveUp .global p).1) hrefused ?_ hcalm.holds.symm hidle, ?_, ?_, .refl _ w,
      by simp, fun _ _ => hrefused⟩
    · simp [stageAll, he]
    · rw [x.1.giveUp_eq]
    · rw [x.1.giveUp_eq]
      exact hdisk
    · rw [x.1.giveUp_eq, List.append_nil]
      exact (Progress.adds_refl build p).noted x.1 x.1.remaining .keptIoFailure .global

theorem stagedTo_unmarkable (build : Build σ) (hr : Ready disk sites w (x :: xs))
    (h : Sited disk sites) (hdisk : p.disk = disk.laid w sites)
    (htakes : disk.takes x.1.draft.path = true)
    (hall : (mark x.1.draft.lines x.1.remaining (w x.2.loc)).2.length ≠ x.1.remaining.length) :
    ∃ w' staged p', StagedTo refused build disk sites (x :: xs) w p false w' staged [] p' := by
  have hcomment := (hr.calm x (by simp)).comment (w := w) h (hr.sited x (by simp)) htakes
    x.1.remaining
  rw [← laid_eq_relaid, ← hdisk] at hcomment
  let marked := (mark x.1.draft.lines x.1.remaining (w x.2.loc)).1
  refine ⟨Function.update w x.2.loc marked, stagedAt (Function.update w x.2.loc marked) x ::
    (xs.map Prod.fst).map (·, none), p.withDisk (disk.relaid sites w x.2.loc marked), ?_,
    .reached htakes (staging_idle ?_), rfl, (Progress.adds_refl build p).onDisk _,
    (SameElsewhere.refl xs _).cons, by simp, ?_⟩
  · simp only [List.map_cons, stageAll, hcomment, hall, if_false, stagedAt, Function.update_self]
    rfl
  · intro y hy
    rw [Function.update_of_ne (hr.head_ne hy)]
    exact (hr.calm y (List.mem_cons_of_mem x hy)).holds.symm
  · intro _ hm
    exact absurd (by simpa using List.all_eq_true.1 hm x (by simp)) hall

theorem allMarkable_cons (hr : Ready disk sites w (x :: xs))
    (hall : (mark x.1.draft.lines x.1.remaining (w x.2.loc)).2.length = x.1.remaining.length)
    (states : List LineState) :
    allMarkable (x :: xs) w = allMarkable xs (Function.update w x.2.loc states) := by
  have hsame : allMarkable xs (Function.update w x.2.loc states) = allMarkable xs w := by
    unfold allMarkable
    rw [Bool.eq_iff_iff, List.all_eq_true, List.all_eq_true]
    refine forall₂_congr fun y hy => ?_
    rw [Function.update_of_ne (hr.head_ne hy)]
  rw [hsame]
  simp [allMarkable, hall]

end

theorem stageAll_laid (build : Build σ) (h : Sited disk sites) (xs : List Placed) :
    ∀ (w : Layout) (p : Progress σ), Ready disk sites w xs → Writable refused disk xs →
    (∀ x ∈ xs, x.1.remaining ≠ []) → p.disk = disk.laid w sites →
    ∃ all w' staged os p', StagedTo refused build disk sites xs w p all w' staged os p' := by
  induction xs with
  | nil =>
    intro w p _ _ _ hdisk
    exact ⟨true, w, [], [], p, rfl, .nil, hdisk, Progress.adds_refl build p, .refl [] w,
      fun _ => ⟨rfl, rfl, rfl, rfl, by simp⟩, by simp⟩
  | cons x xs ih =>
    intro w p hr hwrite hne hdisk
    cases htakes : disk.takes x.1.draft.path with
    | false =>
      obtain ⟨staged, os, p', hst⟩ := stagedTo_refused build hr (hne x (by simp)) h hdisk htakes
        (hwrite x (by simp) htakes)
      exact ⟨_, _, _, _, _, hst⟩
    | true =>
      by_cases hall :
          (mark x.1.draft.lines x.1.remaining (w x.2.loc)).2.length = x.1.remaining.length
      · let marked := (mark x.1.draft.lines x.1.remaining (w x.2.loc)).1
        have hcomment := (hr.calm x (by simp)).comment (w := w) h (hr.sited x (by simp)) htakes
          x.1.remaining
        rw [← laid_eq_relaid, ← hdisk] at hcomment
        obtain ⟨all, w', staged, os, p', hst⟩ :=
          ih _ (p.withDisk (disk.relaid sites w x.2.loc marked)) (hr.tail marked) hwrite.tail
            (fun y hy => hne y (List.mem_cons_of_mem x hy)) rfl
        have hx : w' x.2.loc = marked := hst.elsewhere.head fun y hy => hr.head_ne hy
        have hmore := allMarkable_cons hr hall marked
        refine ⟨all, w', stagedAt w' x :: staged, os, p', ?_, .reached htakes hst.staging, hst.laid,
          ((Progress.adds_refl build p).onDisk _).trans hst.adds, hst.elsewhere.cons, ?_, ?_⟩
        · rw [List.map_cons, stageAll_next hcomment hall hst.eq, stagedAt, hx]
        · intro htrue
          obtain ⟨hm, hw, hs, hos, ht⟩ := hst.whole htrue
          refine ⟨hmore.trans hm, hw, by rw [hs, List.map_cons], hos, fun y hy => ?_⟩
          rcases List.mem_cons.1 hy with rfl | hy
          · exact htakes
          · exact ht y hy
        · exact fun hfalse hm => hst.stopped hfalse (hmore ▸ hm)
      · obtain ⟨w', staged, p', hst⟩ := stagedTo_unmarkable build hr h hdisk htakes hall
        exact ⟨_, _, _, _, _, hst⟩

theorem restoreAll_cons {f f' : OpenFile} {snap : Snapshot} {staged : List Staged}
    {fs : List OpenFile} {p q p' : Progress σ} (hf : f.restore snap .global p = (f', q))
    (hrest : restoreAll staged q = (fs, p')) :
    restoreAll ((f, some snap) :: staged) p = (f' :: fs, p') := by
  simp [restoreAll, hf, hrest]

theorem commitAll_cons {f f' : OpenFile} {snap : Snapshot} {staged : List Staged}
    {fs : List OpenFile} {p q p' : Progress σ} (hf : (f.commit snap .global p).2 = (f', q))
    (hrest : commitAll staged q = (fs, p')) :
    commitAll ((f, some snap) :: staged) p = (f' :: fs, p') := by
  simp [commitAll, hf, hrest]

structure PutBackTo (refused : Prop) (build : Build σ) (disk : Disk) (sites : List Site)
    (w : Layout) (xs : List Placed) (os₀ : List Outcome) (u : Layout) (p : Progress σ) (u' : Layout)
    (fs : List OpenFile) (os : List Outcome) (p' : Progress σ) : Prop where
  laid : p'.disk = disk.laid u' sites
  grows : p.Grows build p' [] os
  unharmed : ¬ refused → p'.unrestored = p.unrestored ∧ p'.tainted = p.tainted
  /-- Only files that the disk refuses to replace are left behind. -/
  listed : ∃ qs, p'.unrestored = p.unrestored ++ qs ∧ ∀ q ∈ qs, disk.takes q = false
  left : ∃ os', LeftOver refused xs fs os' ∧ os'.Perm (os₀ ++ os)
  restored : ∀ x ∈ xs, u' x.2.loc = w x.2.loc
  elsewhere : SameElsewhere xs u u'

namespace PutBackTo

variable {x : Placed} {xs : List Placed} {w u u' : Layout} {os₀ os : List Outcome}
  {p p' : Progress σ} {fs : List OpenFile}

theorem nil (build : Build σ) (hdisk : p.disk = disk.laid u sites) :
    PutBackTo refused build disk sites w [] [] u p u [] [] p :=
  ⟨hdisk, (Progress.adds_refl build p).toGrows, fun _ => ⟨rfl, rfl⟩, ⟨[], by simp⟩,
    ⟨[], .nil, .refl _⟩, by simp, .refl [] u⟩

theorem restored_cons (h : PutBackTo refused build disk sites w xs os₀ u p u' fs os p')
    (hx : u' x.2.loc = w x.2.loc) : ∀ y ∈ x :: xs, u' y.2.loc = w y.2.loc := by
  intro y hy
  rcases List.mem_cons.1 hy with rfl | hy
  · exact hx
  · exact h.restored y hy

theorem same (h : PutBackTo refused build disk sites w xs os₀ u p u' fs os p')
    (hx : u' x.2.loc = w x.2.loc) :
    PutBackTo refused build disk sites w (x :: xs) os₀ u p u' (x.1 :: fs) os p' := by
  obtain ⟨os', hleft, hperm⟩ := h.left
  exact ⟨h.laid, h.grows, h.unharmed, h.listed, ⟨os', .same hleft, hperm⟩, h.restored_cons hx,
    fun loc hloc => h.elsewhere loc fun y hy => hloc y (List.mem_cons_of_mem x hy)⟩

theorem written {disk' : Disk} {states : List LineState}
    (h : PutBackTo refused build disk sites w xs os₀ (Function.update u x.2.loc states)
      (p.withDisk disk') u' fs os p')
    (hx : u' x.2.loc = w x.2.loc) :
    PutBackTo refused build disk sites w (x :: xs) os₀ u p u' (x.1 :: fs) os p' := by
  obtain ⟨os', hleft, hperm⟩ := h.left
  exact ⟨h.laid, ⟨h.grows.trials, h.grows.given, h.grows.outcomes⟩, h.unharmed,
    h.listed, ⟨os', .same hleft, hperm⟩, h.restored_cons hx, h.elsewhere.cons⟩

theorem dropped (h : PutBackTo refused build disk sites w xs os₀ u p u' fs os p')
    (hrefused : refused) {f : OpenFile} (hf : f.remaining = []) (hx : u' x.2.loc = w x.2.loc) :
    PutBackTo refused build disk sites w (x :: xs)
      (outcomesOf x.1.candidates x.1.remaining .keptIoFailure .global ++ os₀) u p u' (f :: fs) os
      p' := by
  obtain ⟨os', hleft, hperm⟩ := h.left
  refine ⟨h.laid, h.grows, h.unharmed, h.listed, ⟨_, .givenUp hrefused hf hleft, ?_⟩,
    h.restored_cons hx, fun loc hloc => h.elsewhere loc fun y hy => hloc y (List.mem_cons_of_mem x hy)⟩
  rw [List.append_assoc]
  exact hperm.append_left _

theorem givenUp {f : OpenFile} {path : Path}
    (h : PutBackTo refused build disk sites w xs os₀ u
      (x.1.note x.1.remaining .keptIoFailure .global (p.taint path)) u' fs os p')
    (hrefused : refused) (htakes : disk.takes path = false) (hf : f.remaining = [])
    (hx : u' x.2.loc = w x.2.loc) :
    PutBackTo refused build disk sites w (x :: xs) os₀ u p u' (f :: fs)
      (outcomesOf x.1.candidates x.1.remaining .keptIoFailure .global ++ os) p' := by
  obtain ⟨os', hleft, hperm⟩ := h.left
  obtain ⟨qs, hqs, hrefuses⟩ := h.listed
  refine ⟨h.laid, ⟨h.grows.trials, h.grows.given, ?_⟩, fun hnot => absurd hrefused hnot,
    ⟨path :: qs, ?_, List.forall_mem_cons.2 ⟨htakes, hrefuses⟩⟩,
    ⟨_, .givenUp hrefused hf hleft, ?_⟩, h.restored_cons hx,
    fun loc hloc => h.elsewhere loc fun y hy => hloc y (List.mem_cons_of_mem x hy)⟩
  · rw [← List.append_assoc]
    exact h.grows.outcomes
  · rw [hqs, List.append_cons]
    rfl
  · refine (hperm.append_left _).trans ?_
    rw [← List.append_assoc, ← List.append_assoc]
    exact List.perm_append_comm.append_right os

end PutBackTo

theorem restoreAll_laid (build : Build σ) (h : Sited disk sites) {w v : Layout} {xs : List Placed}
    {staged : List Staged} {os₀ : List Outcome} (hst : Staging refused disk v xs staged os₀) :
    ∀ (u : Layout) (p : Progress σ), Ready disk sites w xs → p.disk = disk.laid u sites →
    (∀ x ∈ xs, u x.2.loc = v x.2.loc) →
    ∃ u' fs os p', restoreAll staged p = (fs, p') ∧
      PutBackTo refused build disk sites w xs os₀ u p u' fs os p' := by
  induction hst with
  | nil =>
    intro u p _ hdisk _
    exact ⟨u, [], [], p, rfl, .nil build hdisk⟩
  | @idle x xs staged os₀ hx rest ih =>
    intro u p hr hdisk hu
    obtain ⟨u', fs, os, p', he, hback⟩ :=
      ih u p hr.rest hdisk fun y hy => hu y (List.mem_cons_of_mem x hy)
    refine ⟨u', x.1 :: fs, os, p', by simp only [restoreAll, he], hback.same ?_⟩
    rw [hback.elsewhere _ fun z hz => hr.head_ne hz, hu x (by simp), hx, (hr.calm x (by simp)).holds]
  | @reached x xs staged os₀ htakes rest ih =>
    intro u p hr hdisk hu
    have hdisk' : p.disk = disk.relaid sites u x.2.loc (v x.2.loc) := by
      rw [hdisk, laid_eq_relaid disk sites u x.2.loc, hu x (by simp)]
    have hrestore := (hr.calm x (by simp)).restore h (hr.sited x (by simp)) htakes hdisk'
      x.1.remaining .global
    obtain ⟨u', fs, os, p', he, hback⟩ :=
      ih (Function.update u x.2.loc (w x.2.loc))
        (p.withDisk (disk.relaid sites u x.2.loc (w x.2.loc))) hr.rest rfl (by
          intro y hy
          rw [Function.update_of_ne (hr.head_ne hy)]
          exact hu y (List.mem_cons_of_mem x hy))
    exact ⟨u', x.1 :: fs, os, p', restoreAll_cons hrestore he,
      hback.written (hback.elsewhere.head fun z hz => hr.head_ne hz)⟩
  | @stuck x xs staged os₀ hrefused htakes hx rest ih =>
    intro u p hr hdisk hu
    have hrefuses : p.disk.takes (x.1.draft.wrote (v x.2.loc)).path = false := by
      rw [hdisk, Disk.takes_alike (Disk.alike_laid h u)]
      exact htakes
    obtain ⟨e, he⟩ := revert_of_not_takes hrefuses x.1.draft.snapshot
    let f : OpenFile := { x.1 with draft := x.1.draft.wrote (v x.2.loc) }
    let q := x.1.note x.1.remaining .keptIoFailure .global (p.taint x.1.draft.path)
    have hrestore : f.restore x.1.draft.snapshot .global p = ({ f with remaining := [] }, q) := by
      simp only [OpenFile.restore, f, he]
      exact OpenFile.giveUp_eq _ .global _
    obtain ⟨u', fs, os, p', he', hback⟩ :=
      ih u q hr.rest hdisk fun y hy => hu y (List.mem_cons_of_mem x hy)
    refine ⟨u', { f with remaining := [] } :: fs, _, p', restoreAll_cons hrestore he',
      hback.givenUp hrefused htakes rfl ?_⟩
    rw [hback.elsewhere _ fun z hz => hr.head_ne hz, hu x (by simp), hx, (hr.calm x (by simp)).holds]
  | @givenUp x xs f staged os₀ hrefused hf hx rest ih =>
    intro u p hr hdisk hu
    obtain ⟨u', fs, os, p', he, hback⟩ :=
      ih u p hr.rest hdisk fun y hy => hu y (List.mem_cons_of_mem x hy)
    refine ⟨u', f :: fs, os, p', by simp only [restoreAll, he], hback.dropped hrefused hf ?_⟩
    rw [hback.elsewhere _ fun z hz => hr.head_ne hz, hu x (by simp), hx, (hr.calm x (by simp)).holds]

/-- A file whose unresolved lines are all commented out has none left once they are deleted. -/
theorem takeLines_marked {lines : List String} {ns : List Nat} {states : List LineState}
    (hs : .commentedOut ∉ states) (hall : (mark lines ns states).2 = ns) :
    OpenFile.takeLines (linesIn .commentedOut 1 (mark lines ns states).1) ns =
      (linesIn .commentedOut 1 (mark lines ns states).1, []) := by
  have hmem : ∀ n, n ∈ linesIn .commentedOut 1 (mark lines ns states).1 ↔ n ∈ ns := by
    intro n
    rw [mem_linesIn_mark hs, hall]
  have hnodup : ns.Nodup := hall ▸ mark_nodup lines ns states
  rw [takeLines_subset (linesIn_nodup .commentedOut 1 _) fun n hn => (hmem n).1 hn]
  rw [hnodup.sdiff_eq_filter]
  congr 1
  rw [List.filter_eq_nil_iff]
  intro n hn
  simp [(hmem n).2 hn]

theorem commitAll_laid (build : Build σ) (h : Sited disk sites) {w v : Layout} (xs : List Placed) :
    ∀ (u : Layout) (p : Progress σ), Ready disk sites w xs → p.disk = disk.laid u sites →
    allMarkable xs w = true → (∀ x ∈ xs, disk.takes x.1.draft.path = true) →
    (∀ x ∈ xs, u x.2.loc = v x.2.loc) →
    (∀ x ∈ xs, v x.2.loc = (mark x.1.draft.lines x.1.remaining (w x.2.loc)).1) →
    ∃ (u' : Layout) (fs : List OpenFile) (p' : Progress σ),
      commitAll (xs.map (stagedAt v)) p = (fs, p') ∧ (∀ f ∈ fs, f.remaining = []) ∧
      p'.disk = disk.laid u' sites ∧ p.Adds build p' [] (batchOutcomes xs v) ∧
      (∀ x ∈ xs, u' x.2.loc = settle .deleted (v x.2.loc)) ∧ SameElsewhere xs u u' := by
  induction xs with
  | nil =>
    intro u p _ hdisk _ _ _ _
    exact ⟨u, [], p, rfl, by simp, hdisk, Progress.adds_refl build p, by simp, .refl [] u⟩
  | cons x xs ih =>
    intro u p hr hdisk hall htakes hu hv
    have hcalm := hr.calm x (by simp)
    have hall' : allMarkable xs w = true := by
      rw [allMarkable, List.all_cons, Bool.and_eq_true] at hall
      exact hall.2
    let g : OpenFile := { x.1 with draft := x.1.draft.wrote (v x.2.loc) }
    let q := g.note (linesIn .commentedOut 1 (v x.2.loc)) .committed .global
      (p.withDisk (disk.relaid sites u x.2.loc (settle .deleted (v x.2.loc))))
    have hg : p.disk = disk.relaid sites u x.2.loc g.draft.written := by
      rw [hdisk, laid_eq_relaid disk sites u x.2.loc, hu x (by simp)]
      rfl
    have htake : OpenFile.takeLines g.draft.pending g.remaining =
        (linesIn .commentedOut 1 (v x.2.loc), []) := by
      change OpenFile.takeLines (linesIn .commentedOut 1 (v x.2.loc)) x.1.remaining = _
      rw [hv x (by simp)]
      exact takeLines_marked hcalm.settled (mark_of_allMarkable hall (by simp))
    have hcommit := OpenFile.commit_laid (f := g) h (hr.sited x (by simp)) (hcalm.sits.wrote _)
      (htakes x (by simp)) hg htake x.1.draft.snapshot .global
    obtain ⟨u', fs, p', he, hfs, hd, hadds, hxs, hother⟩ :=
      ih (Function.update u x.2.loc (settle .deleted (v x.2.loc))) q hr.rest rfl hall'
        (fun y hy => htakes y (List.mem_cons_of_mem x hy)) (by
          intro y hy
          rw [Function.update_of_ne (hr.head_ne hy)]
          exact hu y (List.mem_cons_of_mem x hy))
        fun y hy => hv y (List.mem_cons_of_mem x hy)
    have hfirst : p.Adds build q [] (outcomesOf x.1.candidates
        (linesIn .commentedOut 1 (v x.2.loc)) .committed .global) :=
      ((Progress.adds_refl build p).onDisk _).noted g _ .committed .global
    refine ⟨u', ⟨g.draft.wrote (settle .deleted g.draft.states), g.candidates, []⟩ :: fs, p', ?_,
      ?_, hd, hfirst.trans hadds, ?_, hother.cons⟩
    · exact commitAll_cons (congrArg Prod.snd hcommit) he
    · intro f hf
      rcases List.mem_cons.1 hf with rfl | hf
      · rfl
      · exact hfs f hf
    · intro y hy
      rcases List.mem_cons.1 hy with rfl | hy
      · exact hother.head fun z hz => hr.head_ne hz
      · exact hxs y hy

theorem Disk.laid_placed {xs : List Placed} {w w' : Layout}
    (h : ∀ x ∈ xs, w x.2.loc = w' x.2.loc) :
    disk.laid w (xs.map Prod.snd) = disk.laid w' (xs.map Prod.snd) := by
  apply Disk.laid_congr
  intro s hs
  obtain ⟨x, hx, rfl⟩ := List.mem_map.1 hs
  exact h x hx

/-- With or without a build in between, the files of a batch that is not kept are put back. -/
theorem StagedTo.putBack {xs : List Placed} {w v : Layout} {p q : Progress σ} {all : Bool}
    {staged : List Staged} {os₀ : List Outcome}
    (hst : StagedTo refused build disk (xs.map Prod.snd) xs w p all v staged os₀ q)
    (h : Sited disk (xs.map Prod.snd)) (hr : Ready disk (xs.map Prod.snd) w xs) {ts : List Trial}
    {q' : Progress σ} (hadds : p.Adds build q' ts os₀)
    (hd : q'.disk = disk.laid v (xs.map Prod.snd)) :
    ∃ (os : List Outcome) (fs : List OpenFile) (p' : Progress σ),
      restoreAll staged q' = (fs, p') ∧ LeftOver refused xs fs os ∧
      p'.disk = disk.laid w (xs.map Prod.snd) ∧ p.Grows build p' ts os ∧
      (¬ refused → p'.unrestored = p.unrestored ∧ p'.tainted = p.tainted) := by
  obtain ⟨u, fs, os, p', he, hb⟩ := restoreAll_laid build h hst.staging v q' hr hd fun _ _ => rfl
  obtain ⟨os', hleft, hperm⟩ := hb.left
  refine ⟨os', fs, p', he, hleft, hb.laid.trans (Disk.laid_placed hb.restored), ?_, fun hnot => ?_⟩
  · have hgrows := hadds.toGrows.trans hb.grows
    rw [List.append_nil] at hgrows
    exact hgrows.perm hperm.symm
  · obtain ⟨hunrestored, htainted⟩ := hb.unharmed hnot
    exact ⟨hunrestored.trans hadds.unrestored, htainted.trans hadds.tainted⟩

theorem judgeAll_course (hq : Quiet build) {xs : List Placed} {w : Layout} {p : Progress σ}
    (h : Sited disk (xs.map Prod.snd)) (hr : Ready disk (xs.map Prod.snd) w xs)
    (hwrite : Writable refused disk xs) (hne : ∀ x ∈ xs, x.1.remaining ≠ [])
    (hdisk : p.disk = disk.laid w (xs.map Prod.snd)) :
    (∃ (fs : List OpenFile) (p' : Progress σ), judgeAll build (xs.map Prod.fst) p = (fs, p') ∧
      allMarkable xs w = true ∧ (∀ f ∈ fs, f.remaining = []) ∧
      p'.disk = disk.laid (fun loc => settle .deleted (markAll xs w loc)) (xs.map Prod.snd) ∧
      p.Adds build p' [⟨some .global, disk.laid (markAll xs w) (xs.map Prod.snd), true⟩]
        (batchOutcomes xs (markAll xs w))) ∨
    ∃ (ts : List Trial) (os : List Outcome) (fs : List OpenFile) (p' : Progress σ),
      judgeAll build (xs.map Prod.fst) p = (fs, p') ∧ LeftOver refused xs fs os ∧
      p'.disk = disk.laid w (xs.map Prod.snd) ∧ p.Grows build p' ts os ∧
      (¬ refused → p'.unrestored = p.unrestored ∧ p'.tainted = p.tainted) ∧
      (allMarkable xs w = true ∧
          ts = [⟨some .global, disk.laid (markAll xs w) (xs.map Prod.snd), false⟩] ∨
        (allMarkable xs w = true → refused) ∧ ts = []) := by
  obtain ⟨all, v, staged, os₀, q, hst⟩ := stageAll_laid build h xs w p hr hwrite hne hdisk
  unfold judgeAll
  rw [hst.eq]
  cases all with
  | false =>
    right
    obtain ⟨os, fs, p', he, hleft, hd, hgrows, hunharmed⟩ := hst.putBack h hr hst.adds hst.laid
    exact ⟨[], os, fs, p', he, hleft, hd, hgrows, hunharmed, .inr ⟨hst.stopped rfl, rfl⟩⟩
  | true =>
    obtain ⟨hm, rfl, rfl, rfl, htakes⟩ := hst.whole rfl
    have hv := hst.adds.verified .global
    have hdv : (q.verify build .global).2.disk = disk.laid (markAll xs w) (xs.map Prod.snd) :=
      (Progress.verify_disk hq .global q).trans hst.laid
    rw [hst.laid] at hv
    simp only [if_true]
    cases hpass : (q.verify build .global).1 with
    | true =>
      left
      rw [hpass] at hv
      obtain ⟨u, fs, p', hcommit, hfs, hd', hadds', hu, _⟩ :=
        commitAll_laid build h xs (markAll xs w) (q.verify build .global).2 hr hdv hm htakes
          (fun _ _ => rfl) fun x hx => markAll_mem hr.distinct hx w
      exact ⟨fs, p', hcommit, hm, hfs, hd'.trans (Disk.laid_placed hu), hv.trans hadds'⟩
    | false =>
      right
      rw [hpass] at hv
      obtain ⟨os, fs, p', he, hleft, hd, hgrows, hunharmed⟩ := hst.putBack h hr hv hdv
      exact ⟨_, os, fs, p', he, hleft, hd, hgrows, hunharmed, .inl ⟨hm, rfl⟩⟩

end

end IncludeSweep
