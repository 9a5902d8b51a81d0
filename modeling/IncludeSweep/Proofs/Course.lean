import Mathlib.Data.List.Nodup
import IncludeSweep.Proofs.Layout
import IncludeSweep.Verification.Run

set_option autoImplicit false

/-! # The course of an undisturbed run

What a run does when nothing but the run itself edits the disk, told without drafts, digests and
errors: which lines are tried together, the disk each build sees, and what its verdict does to the
states of the lines. The relations speak of one file, whose disk depends on its states alone, and of
the files of a plan one after the other. -/

namespace IncludeSweep

open Text Draft

variable {σ : Type}

def Quiet (build : Build σ) : Prop :=
  ∀ w, (build w).2.disk = w.disk

/-- The trial records a verdict that the build gives on the disk of the trial. -/
def Trial.Given (t : Trial) (build : Build σ) : Prop :=
  ∃ outside, t.passed = (build ⟨t.disk, outside⟩).1

def outcomesOf (candidates : List Candidate) (lines : List Nat) (resolution : Resolution)
    (tier : Tier) : List Outcome :=
  lines.filterMap fun n =>
    (candidates.find? fun c => c.line == n).map fun c => ⟨c, resolution, some tier⟩

structure Progress.Grows (build : Build σ) (p p' : Progress σ) (ts : List Trial)
    (os : List Outcome) : Prop where
  trials : p'.trials = p.trials ++ ts
  given : ∀ t ∈ ts, t.Given build
  outcomes : p'.outcomes.Perm (p.outcomes ++ os)

structure Progress.Adds (build : Build σ) (p p' : Progress σ) (ts : List Trial)
    (os : List Outcome) : Prop extends p.Grows build p' ts os where
  unrestored : p'.unrestored = p.unrestored
  tainted : p'.tainted = p.tainted

namespace Progress

variable {build : Build σ} {p p' p'' : Progress σ} {ts ts' : List Trial} {os os' : List Outcome}

theorem adds_refl (build : Build σ) (p : Progress σ) : Adds build p p [] [] :=
  ⟨⟨by simp, by simp, by simp⟩, rfl, rfl⟩

theorem Grows.trans (h : Grows build p p' ts os) (h' : Grows build p' p'' ts' os') :
    Grows build p p'' (ts ++ ts') (os ++ os') := by
  refine ⟨?_, ?_, ?_⟩
  · rw [h'.trials, h.trials, List.append_assoc]
  · intro t ht
    rcases List.mem_append.1 ht with ht | ht
    · exact h.given t ht
    · exact h'.given t ht
  · rw [← List.append_assoc]
    exact h'.outcomes.trans (h.outcomes.append_right os')

theorem Grows.perm (h : Grows build p p' ts os) (ho : os.Perm os') : Grows build p p' ts os' :=
  ⟨h.trials, h.given, h.outcomes.trans (ho.append_left _)⟩

theorem Adds.trans (h : Adds build p p' ts os) (h' : Adds build p' p'' ts' os') :
    Adds build p p'' (ts ++ ts') (os ++ os') :=
  ⟨h.toGrows.trans h'.toGrows, h'.unrestored.trans h.unrestored, h'.tainted.trans h.tainted⟩

theorem Adds.perm (h : Adds build p p' ts os) (ho : os.Perm os') : Adds build p p' ts os' :=
  ⟨h.toGrows.perm ho, h.unrestored, h.tainted⟩

theorem Adds.onDisk (h : Adds build p p' ts os) (disk : Disk) :
    Adds build p (p'.withDisk disk) ts os :=
  ⟨⟨h.trials, h.given, h.outcomes⟩, h.unrestored, h.tainted⟩

theorem Adds.noted (h : Adds build p p' ts os) (f : OpenFile) (lines : List Nat)
    (resolution : Resolution) (tier : Tier) :
    Adds build p (f.note lines resolution tier p') ts
      (os ++ outcomesOf f.candidates lines resolution tier) := by
  refine ⟨⟨h.trials, h.given, ?_⟩, h.unrestored, h.tainted⟩
  rw [← List.append_assoc]
  exact h.outcomes.append_right _

theorem Adds.verified (h : Adds build p p' ts os) (tier : Tier) :
    Adds build p (p'.verify build tier).2
      (ts ++ [⟨some tier, p'.disk, (p'.verify build tier).1⟩]) os := by
  refine ⟨⟨?_, ?_, h.outcomes⟩, h.unrestored, h.tainted⟩
  · rw [← List.append_assoc, ← h.trials]
    rfl
  · intro t ht
    rcases List.mem_append.1 ht with ht | ht
    · exact h.given t ht
    · rw [List.mem_singleton.1 ht]
      exact ⟨p'.world.outside, rfl⟩

theorem verify_disk (hq : Quiet build) (tier : Tier) (p : Progress σ) :
    (p.verify build tier).2.disk = p.disk :=
  hq p.world

@[simp] theorem withDisk_self (p : Progress σ) : p.withDisk p.disk = p := rfl

end Progress

theorem takeLines_singleton {n : Nat} {remaining : List Nat} (h : n ∈ remaining) :
    OpenFile.takeLines [n] remaining = ([n], remaining.erase n) := by
  simp [OpenFile.takeLines, h]

theorem takeLines_filter_append (q : Nat → Bool) (before rest : List Nat)
    (h : ∀ n ∈ before, q n = false) :
    OpenFile.takeLines (rest.filter q) (before ++ rest) =
      (rest.filter q, before ++ rest.filter fun n => !q n) := by
  induction rest generalizing before with
  | nil => simp [OpenFile.takeLines]
  | cons n rest ih =>
    cases hn : q n with
    | true =>
      have hmem : n ∉ before := fun hm => by simp [h n hm] at hn
      have herase : (before ++ n :: rest).erase n = before ++ rest := by
        rw [List.erase_append_right _ hmem, List.erase_cons_head]
      simp [hn, OpenFile.takeLines, herase, ih before h]
    | false =>
      have hb : ∀ m ∈ before ++ [n], q m = false := by
        intro m hm
        rcases List.mem_append.1 hm with hm | hm
        · exact h m hm
        · rw [List.mem_singleton.1 hm]
          exact hn
      have hi := ih (before ++ [n]) hb
      simp only [List.append_assoc, List.singleton_append] at hi
      simp [hn, hi]

theorem takeLines_filter (q : Nat → Bool) (remaining : List Nat) :
    OpenFile.takeLines (remaining.filter q) remaining =
      (remaining.filter q, remaining.filter fun n => !q n) := by
  simpa using takeLines_filter_append q [] remaining (by simp)

theorem takeLines_self (remaining : List Nat) :
    OpenFile.takeLines remaining remaining = (remaining, []) := by
  have h := takeLines_filter (fun _ => true) remaining
  simpa using h

theorem takeLines_subset {ns remaining : List Nat} (hn : ns.Nodup) (h : ∀ n ∈ ns, n ∈ remaining) :
    OpenFile.takeLines ns remaining = (ns, remaining.diff ns) := by
  induction ns generalizing remaining with
  | nil => simp [OpenFile.takeLines]
  | cons n ns ih =>
    obtain ⟨hnot, hn'⟩ := List.nodup_cons.1 hn
    have hr : ∀ m ∈ ns, m ∈ remaining.erase n := by
      intro m hm
      have hne : m ≠ n := fun he => hnot (he ▸ hm)
      exact (List.mem_erase_of_ne hne).2 (h m (List.mem_cons_of_mem n hm))
    simp [OpenFile.takeLines, h n (by simp), ih hn' hr]

namespace OpenFile

def passedOver (f : OpenFile) (applied : List Nat) : List Nat :=
  f.remaining.filter fun n => !applied.contains n

/-- The file with the applied lines commented out, once the others have been passed over. -/
def onTrial (f : OpenFile) (draft : Draft) (applied : List Nat) : OpenFile :=
  { f with draft := draft, remaining := f.remaining.filter fun n => applied.contains n }

def tryTogether (f : OpenFile) (build : Build σ) (applied : List Nat) (p : Progress σ) :
    Bool × Progress σ :=
  (f.note (f.passedOver applied) .keptSkipped .perFile p).verify build .perFile

theorem takeLines_passedOver (f : OpenFile) (applied : List Nat) :
    takeLines (f.remaining.filter fun n => !applied.contains n) f.remaining =
      (f.passedOver applied, f.remaining.filter fun n => applied.contains n) := by
  simpa [passedOver] using takeLines_filter (fun n => !applied.contains n) f.remaining

end OpenFile

section
variable (refused : Prop) (lines : List String) (candidates : List Candidate)
  (tree : List LineState → Disk)

/-- One line after the other. A line that can be commented out is judged by a build of the disk with
it commented out, and deleted if the build passes. -/
inductive LineCourse :
    List Nat → List LineState → List Trial → List Outcome → List LineState → Prop
  | done (states : List LineState) : LineCourse [] states [] [] states
  | skipped {n : Nat} {ns : List Nat} {states states' : List LineState} {ts : List Trial}
      {os : List Outcome} (hm : (mark lines [n] states).2 = [])
      (rest : LineCourse ns states ts os states') :
      LineCourse (n :: ns) states ts
        (outcomesOf candidates [n] .keptSkipped .sequential ++ os) states'
  | passed {n : Nat} {ns : List Nat} {states states' : List LineState} {ts : List Trial}
      {os : List Outcome} (hm : (mark lines [n] states).2 ≠ [])
      (rest : LineCourse ns (settle .deleted (mark lines [n] states).1) ts os states') :
      LineCourse (n :: ns) states (⟨some .sequential, tree (mark lines [n] states).1, true⟩ :: ts)
        (outcomesOf candidates [n] .committed .sequential ++ os) states'
  | failed {n : Nat} {ns : List Nat} {states states' : List LineState} {ts : List Trial}
      {os : List Outcome} (hm : (mark lines [n] states).2 ≠ [])
      (rest : LineCourse ns states ts os states') :
      LineCourse (n :: ns) states (⟨some .sequential, tree (mark lines [n] states).1, false⟩ :: ts)
        (outcomesOf candidates [n] .keptBuildFailed .sequential ++ os) states'

/-- The finer tiers for a file: two or more lines are first judged together, those that cannot be
commented out left aside. Where the disk has refused some file of the plan to be written, a file may
be given up as it is, at any tier. -/
inductive FileCourse (remaining : List Nat) (states : List LineState) :
    List Trial → List Outcome → List LineState → Prop
  | byLine {states' : List LineState} {ts : List Trial} {os : List Outcome}
      (hlen : remaining.length < 2)
      (rest : LineCourse lines candidates tree remaining states ts os states') :
      FileCourse remaining states ts os states'
  | skipped (hlen : ¬ remaining.length < 2) (hm : (mark lines remaining states).2 = []) :
      FileCourse remaining states [] (outcomesOf candidates remaining .keptSkipped .perFile) states
  | passed (hlen : ¬ remaining.length < 2) (hm : (mark lines remaining states).2 ≠ []) :
      FileCourse remaining states [⟨some .perFile, tree (mark lines remaining states).1, true⟩]
        (outcomesOf candidates
            (remaining.filter fun n => !(mark lines remaining states).2.contains n)
            .keptSkipped .perFile ++
          outcomesOf candidates (linesIn .commentedOut 1 (mark lines remaining states).1)
            .committed .perFile)
        (settle .deleted (mark lines remaining states).1)
  | failed {states' : List LineState} {ts : List Trial} {os : List Outcome}
      (hlen : ¬ remaining.length < 2) (hm : (mark lines remaining states).2 ≠ [])
      (rest : LineCourse lines candidates tree
        (remaining.filter fun n => (mark lines remaining states).2.contains n)
        states ts os states') :
      FileCourse remaining states
        (⟨some .perFile, tree (mark lines remaining states).1, false⟩ :: ts)
        (outcomesOf candidates
            (remaining.filter fun n => !(mark lines remaining states).2.contains n)
            .keptSkipped .perFile ++ os)
        states'
  | givenUp (hrefused : refused) (tier : Tier) :
      FileCourse remaining states [] (outcomesOf candidates remaining .keptIoFailure tier) states

end

theorem mark_single_of_ne {lines : List String} {n : Nat} {states : List LineState}
    (h : (mark lines [n] states).2 ≠ []) : (mark lines [n] states).2 = [n] := by
  unfold mark at h ⊢
  split
  · rfl
  · rename_i hr
    simp [hr, mark] at h

theorem linesIn_mark_perm (lines : List String) (ns : List Nat) {states : List LineState}
    (hs : .commentedOut ∉ states) :
    (linesIn .commentedOut 1 (mark lines ns states).1).Perm (mark lines ns states).2 :=
  (List.perm_ext_iff_of_nodup (linesIn_nodup _ _ _) (mark_nodup lines ns states)).2
    fun _ => mem_linesIn_mark hs

theorem nth?_deleted_of_mark {lines : List String} {ns : List Nat} {states : List LineState}
    {n : Nat} (h : nth? states n = some .deleted) :
    nth? (settle .deleted (mark lines ns states).1) n = some .deleted := by
  rw [nth?_settle, nth?_mark]
  split
  · rfl
  · rw [h]
    rfl

theorem LineCourse.deleted {lines : List String} {candidates : List Candidate}
    {tree : List LineState → Disk} {ns : List Nat} {states states' : List LineState}
    {ts : List Trial} {os : List Outcome}
    (h : LineCourse lines candidates tree ns states ts os states') {n : Nat}
    (hn : nth? states n = some .deleted) : nth? states' n = some .deleted := by
  induction h with
  | done => exact hn
  | skipped _ _ ih => exact ih hn
  | passed _ _ ih => exact ih (nth?_deleted_of_mark hn)
  | failed _ _ ih => exact ih hn

end IncludeSweep
