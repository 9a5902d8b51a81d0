import Mathlib.Data.List.Perm.Basic
import IncludeSweep.Proofs.FinalContent
import IncludeSweep.Proofs.LiveLines

set_option autoImplicit false

/-! # Batches against one line at a time

The plain way to use a verdict on disks is greedy: one candidate after the other is taken out, and
stays out if the verdict passes without it and all those taken out before. If a line that is
commented out counts as one that is gone, and lines put back never make a passing verdict fail, then
the batches of a run commit what the greedy procedure takes out. -/

namespace IncludeSweep

open Text Draft

variable {σ : Type}

/-- One target after the other is taken out if the verdict passes without it and without those taken
out before. -/
def greedy (V : Disk → Bool) (disk : Disk) : List Target → List Target → List Target
  | removed, [] => removed
  | removed, t :: todo =>
    if V (disk.without (spots (removed ++ [t]))) then greedy V disk (removed ++ [t]) todo
    else greedy V disk removed todo

section
variable {V : Disk → Bool} {disk : Disk} {plan : Plan} {removed todo : List Target}

theorem greedy_pass {t : Target} (h : V (disk.without (spots (removed ++ [t]))) = true) :
    greedy V disk removed (t :: todo) = greedy V disk (removed ++ [t]) todo := by
  rw [greedy, if_pos h]

theorem greedy_fail {t : Target} (h : V (disk.without (spots (removed ++ [t]))) = false) :
    greedy V disk removed (t :: todo) = greedy V disk removed todo := by
  rw [greedy, h, if_neg Bool.false_ne_true]

theorem greedy_append (removed todo todo' : List Target) :
    greedy V disk removed (todo ++ todo') = greedy V disk (greedy V disk removed todo) todo' := by
  induction todo generalizing removed with
  | nil => rfl
  | cons t todo ih =>
    rw [List.cons_append, greedy, greedy]
    split
    · exact ih _
    · exact ih _

theorem greedy_subset (removed todo : List Target) :
    greedy V disk removed todo ⊆ removed ++ todo := by
  induction todo generalizing removed with
  | nil => simp [greedy]
  | cons t todo ih =>
    rw [greedy]
    split
    · have hmore := ih (removed ++ [t])
      rwa [List.append_assoc] at hmore
    · intro u hu
      rcases List.mem_append.1 (ih removed hu) with hu | hu
      · exact List.mem_append_left _ hu
      · exact List.mem_append_right _ (List.mem_cons_of_mem t hu)

/-- What passes at once passes one by one. -/
theorem greedy_all (hV : Consistent V disk plan)
    (hsub : spots (removed ++ todo) ⊆ spots (disk.targets plan))
    (hpass : V (disk.without (spots (removed ++ todo))) = true) :
    greedy V disk removed todo = removed ++ todo := by
  induction todo generalizing removed with
  | nil => simp [greedy]
  | cons t todo ih =>
    have hassoc : removed ++ t :: todo = (removed ++ [t]) ++ todo := by simp
    rw [hassoc] at hsub hpass ⊢
    have hfirst : V (disk.without (spots (removed ++ [t]))) = true :=
      hV.fewer _ _ hsub (spots_subset (List.subset_append_left _ _)) hpass
    rw [greedy_pass hfirst]
    exact ih hsub hpass

theorem subset_greedy (removed todo : List Target) :
    removed ⊆ greedy V disk removed todo := by
  induction todo generalizing removed with
  | nil => exact List.Subset.refl _
  | cons t todo ih =>
    rw [greedy]
    split
    · exact List.Subset.trans (List.subset_append_left _ _) (ih _)
    · exact ih _

theorem greedy_passes (hpass : V (disk.without (spots removed)) = true) (todo : List Target) :
    V (disk.without (spots (greedy V disk removed todo))) = true := by
  induction todo generalizing removed with
  | nil => exact hpass
  | cons t todo ih =>
    rw [greedy]
    split
    · rename_i hmore
      exact ih hmore
    · exact ih hpass

/-- What was not taken out cannot be taken out in the end either. -/
theorem greedy_maximal (hV : Consistent V disk plan)
    (hsub : spots (removed ++ todo) ⊆ spots (disk.targets plan)) {t : Target} (ht : t ∈ todo)
    (hkept : t ∉ greedy V disk removed todo) :
    V (disk.without (spots (greedy V disk removed todo ++ [t]))) = false := by
  induction todo generalizing removed with
  | nil => simp at ht
  | cons u todo ih =>
    have hrest : removed ++ todo ⊆ removed ++ u :: todo := by simp
    by_cases hpass : V (disk.without (spots (removed ++ [u]))) = true
    · rw [greedy_pass hpass] at hkept ⊢
      rw [List.append_cons] at hsub
      rcases List.mem_cons.1 ht with rfl | ht
      · exact absurd (subset_greedy _ _ (by simp)) hkept
      · exact ih hsub ht hkept
    · rw [Bool.not_eq_true] at hpass
      rw [greedy_fail hpass] at hkept ⊢
      rcases List.mem_cons.1 ht with rfl | ht
      · rw [Bool.eq_false_iff] at hpass ⊢
        refine mt (hV.fewer _ _ ?_ (spots_subset ?_)) hpass
        · refine List.Subset.trans (spots_subset (List.append_subset.2 ⟨?_, by simp⟩)) hsub
          exact List.Subset.trans (greedy_subset _ _) hrest
        · exact List.append_subset.2 ⟨List.Subset.trans (subset_greedy _ _)
            (List.subset_append_left _ _), List.subset_append_right _ _⟩
      · exact ih (List.Subset.trans (spots_subset hrest) hsub) ht hkept

end

section
variable {sites : List Site} {s : Site} {w : Layout} {states : List LineState} {gone : List Spot}
  {loc : Location} {lines : List String} {c : Candidate} {cs : List Candidate}

theorem mark_eq_filter {ns : List Nat} (hn : ns.Nodup) :
    (mark lines ns states).2 = ns.filter (removable lines states) := by
  have hall : (mark lines ns states).2.filter (removable lines states) = (mark lines ns states).2 :=
    List.filter_eq_self.2 fun n hn => (mem_mark.1 hn).2
  have hsub : (mark lines ns states).2.Sublist (ns.filter (removable lines states)) :=
    hall ▸ (mark_sublist lines ns states).filter _
  refine hsub.eq_of_length (List.Perm.length_eq ?_)
  refine (List.perm_ext_iff_of_nodup (mark_nodup lines ns states) (hn.filter _)).2 fun n => ?_
  rw [mem_mark, List.mem_filter]

theorem Follows.marked (hs : s ∈ sites)
    (hf : Follows (Function.update w s.loc states) sites gone [])
    (hn : (cs.map Candidate.line).Nodup) (hfree : ∀ c ∈ cs, (s.loc, c.line) ∉ gone) :
    (Draft.mark s.lines (cs.map Candidate.line) states).2 =
      (cs.filter fun c => Applicable s.lines c.line).map Candidate.line := by
  rw [mark_eq_filter hn, List.filter_map]
  congr 1
  refine List.filter_congr fun c hc => ?_
  rw [Bool.eq_iff_iff, decide_eq_true_iff]
  exact hf.removable hs (hfree c hc)

end

/-- From the targets removed so far, a part of a run has gone where the greedy procedure goes on the
targets still to do. -/
structure Matched (V : Disk → Bool) (disk : Disk) (sites : List Site) (removed todo : List Target)
    (os : List Outcome) (w : Layout) : Prop where
  follows : Follows w sites (spots (greedy V disk removed todo)) []
  committed : ((greedy V disk removed todo).map Target.candidate).Perm
    (removed.map Target.candidate ++ committedIn os)

section
variable {V : Disk → Bool} {disk : Disk} {sites : List Site} {removed todo todo' : List Target}
  {os os' : List Outcome} {w w' : Layout} {t : Target}

namespace Matched

theorem nothing (hf : Follows w sites (spots removed) []) (hos : committedIn os = []) :
    Matched V disk sites removed [] os w :=
  ⟨hf, by rw [hos, List.append_nil]; exact .refl _⟩

theorem append (h : Matched V disk sites removed todo os w)
    (h' : Matched V disk sites (greedy V disk removed todo) todo' os' w') :
    Matched V disk sites removed (todo ++ todo') (os ++ os') w' := by
  constructor
  · rw [greedy_append]
    exact h'.follows
  · rw [greedy_append, committedIn_append, ← List.append_assoc]
    exact h'.committed.trans (h.committed.append_right _)

theorem after (hos : committedIn os = []) (h : Matched V disk sites removed todo os' w) :
    Matched V disk sites removed todo (os ++ os') w := by
  refine ⟨h.follows, ?_⟩
  rw [committedIn_append, hos]
  exact h.committed

theorem taken (hpass : V (disk.without (spots (removed ++ [t]))) = true)
    (hos : committedIn os = [t.candidate])
    (h : Matched V disk sites (removed ++ [t]) todo os' w) :
    Matched V disk sites removed (t :: todo) (os ++ os') w := by
  constructor
  · rw [greedy_pass hpass]
    exact h.follows
  · rw [greedy_pass hpass, committedIn_append, hos]
    simpa using h.committed

theorem refused (hfail : V (disk.without (spots (removed ++ [t]))) = false)
    (hos : committedIn os = []) (h : Matched V disk sites removed todo os' w) :
    Matched V disk sites removed (t :: todo) (os ++ os') w := by
  have hrest := after hos h
  constructor
  · rw [greedy_fail hfail]
    exact hrest.follows
  · rw [greedy_fail hfail]
    exact hrest.committed

end Matched

end

section
variable {V : Disk → Bool} {disk : Disk} {plan : Plan} {sites : List Site} {s : Site} {w : Layout}
  {states states' : List LineState} {ts : List Trial} {os : List Outcome}
  {candidates cs : List Candidate} {removed : List Target}

theorem Consistent.tried {gone : List Spot} (hV : Consistent V disk plan) (h : Sited disk sites)
    (hs : s ∈ sites) (hf : Follows (Function.update w s.loc states) sites gone []) (ns : List Nat)
    (hsub : gone ++ (mark s.lines ns states).2.map (s.loc, ·) ⊆ spots (disk.targets plan)) :
    V (disk.relaid sites w s.loc (mark s.lines ns states).1) =
      V (disk.without (gone ++ (mark s.lines ns states).2.map (s.loc, ·))) := by
  rw [Disk.relaid, (hf.markAt h hs ns).laid h, hV.commented _ _ hsub]

theorem spots_after (removed : List Target) (c : Candidate) (loc : Location) :
    spots removed ++ [c.line].map (loc, ·) = spots (removed ++ [⟨c, loc⟩]) := by
  simp [spots, Target.spot]

/-- Candidates of a file that the greedy procedure still has before it, when it has removed some
targets and the file is under states. -/
structure Ahead (disk : Disk) (plan : Plan) (sites : List Site) (s : Site) (w : Layout)
    (states : List LineState) (removed : List Target) (cs : List Candidate) : Prop where
  distinct : (cs.map Candidate.line).Nodup
  inside : spots (removed ++ targetsIn s.loc s.lines cs) ⊆ spots (disk.targets plan)
  free : ∀ c ∈ cs, (s.loc, c.line) ∉ spots removed
  follows : Follows (Function.update w s.loc states) sites (spots removed) []

namespace Ahead

variable {c : Candidate}

theorem skip (ha : Ahead disk plan sites s w states removed (c :: cs)) (hs : s ∈ sites)
    (hm : (mark s.lines [c.line] states).2 = []) :
    targetsIn s.loc s.lines (c :: cs) = targetsIn s.loc s.lines cs ∧
      Ahead disk plan sites s w states removed cs := by
  have hnot : ¬ Applicable s.lines c.line := by
    rw [← ha.follows.removable hs (ha.free c (by simp))]
    intro hr
    have hmem : c.line ∈ (mark s.lines [c.line] states).2 := mem_mark.2 ⟨by simp, hr⟩
    simp [hm] at hmem
  have htargets : targetsIn s.loc s.lines (c :: cs) = targetsIn s.loc s.lines cs :=
    targetsIn_cons_of_not hnot
  exact ⟨htargets, (List.nodup_cons.1 ha.distinct).2, htargets ▸ ha.inside,
    fun d hd => ha.free d (List.mem_cons_of_mem c hd), ha.follows⟩

theorem target (hm : (mark s.lines [c.line] states).2 ≠ []) :
    targetsIn s.loc s.lines (c :: cs) = ⟨c, s.loc⟩ :: targetsIn s.loc s.lines cs :=
  targetsIn_cons (applicable_of_mark (mark_single_of_ne hm ▸ List.mem_singleton.2 rfl))

/-- A build with one line commented out says what the greedy procedure is told. -/
theorem verdict (ha : Ahead disk plan sites s w states removed (c :: cs))
    (hV : Consistent V disk plan) (h : Sited disk sites) (hs : s ∈ sites)
    (hm : (mark s.lines [c.line] states).2 ≠ []) :
    V (disk.relaid sites w s.loc (mark s.lines [c.line] states).1) =
      V (disk.without (spots (removed ++ [⟨c, s.loc⟩]))) := by
  have htried := hV.tried h hs ha.follows [c.line]
  have hinside := ha.inside
  rw [mark_single_of_ne hm, spots_after] at htried
  rw [target hm, List.append_cons] at hinside
  exact htried (List.Subset.trans (spots_subset (List.subset_append_left _ _)) hinside)

theorem pass (ha : Ahead disk plan sites s w states removed (c :: cs)) (h : Sited disk sites)
    (hs : s ∈ sites) (hm : (mark s.lines [c.line] states).2 ≠ []) :
    Ahead disk plan sites s w (settle .deleted (mark s.lines [c.line] states).1)
      (removed ++ [⟨c, s.loc⟩]) cs := by
  have hinside := ha.inside
  have hsettled := ha.follows.settleAt h hs [c.line]
  rw [target hm, List.append_cons] at hinside
  rw [mark_single_of_ne hm, spots_after] at hsettled
  refine ⟨(List.nodup_cons.1 ha.distinct).2, hinside, fun d hd hmem => ?_, hsettled⟩
  rw [← spots_after, List.mem_append] at hmem
  rcases hmem with hmem | hmem
  · exact ha.free d (List.mem_cons_of_mem c hd) hmem
  · have hline : d.line = c.line := by simpa using hmem
    exact (List.nodup_cons.1 ha.distinct).1 (hline ▸ List.mem_map_of_mem hd)

theorem fail (ha : Ahead disk plan sites s w states removed (c :: cs))
    (hm : (mark s.lines [c.line] states).2 ≠ []) :
    Ahead disk plan sites s w states removed cs := by
  have hinside := ha.inside
  have hrest : removed ++ targetsIn s.loc s.lines cs ⊆
      removed ++ ⟨c, s.loc⟩ :: targetsIn s.loc s.lines cs := by
    simp
  rw [target hm] at hinside
  exact ⟨(List.nodup_cons.1 ha.distinct).2, List.Subset.trans (spots_subset hrest) hinside,
    fun d hd => ha.free d (List.mem_cons_of_mem c hd), ha.follows⟩

end Ahead

theorem LineCourse.matched {ns : List Nat}
    (hc : LineCourse s.lines candidates (disk.relaid sites w s.loc) ns states ts os states')
    (hV : Consistent V disk plan) (h : Sited disk sites) (hs : s ∈ sites)
    (hd : (candidates.map Candidate.line).Nodup) (hns : ns = cs.map Candidate.line)
    (hcs : cs ⊆ candidates) (ha : Ahead disk plan sites s w states removed cs)
    (hts : ∀ t ∈ ts, t.passed = V t.disk) :
    Matched V disk sites removed (targetsIn s.loc s.lines cs) os
      (Function.update w s.loc states') := by
  induction hc generalizing cs removed with
  | done states =>
    obtain rfl : cs = [] := List.map_eq_nil_iff.1 hns.symm
    exact .nothing ha.follows rfl
  | @skipped n ns states _ _ _ hm _ ih =>
    obtain ⟨c, cs, rfl, rfl, rfl⟩ := List.map_eq_cons_iff.1 hns.symm
    obtain ⟨htargets, hrest⟩ := ha.skip hs hm
    rw [htargets]
    exact .after (committedIn_kept candidates [c.line] (by simp) .sequential)
      (ih rfl (List.subset_of_cons_subset hcs) hrest hts)
  | @passed n ns states _ ts _ hm _ ih =>
    obtain ⟨c, cs, rfl, rfl, rfl⟩ := List.map_eq_cons_iff.1 hns.symm
    have hpass := (hts _ (List.mem_cons_self ..)).trans (ha.verdict hV h hs hm)
    have hcommit : committedIn (outcomesOf candidates [c.line] .committed .sequential) = [c] := by
      have hmem : [c] ⊆ candidates := by simpa using hcs (by simp)
      rw [committedIn_committed]
      exact candidatesAt_map hd hmem
    rw [Ahead.target hm]
    exact .taken hpass.symm hcommit (ih rfl (List.subset_of_cons_subset hcs) (ha.pass h hs hm)
      fun t ht => hts t (List.mem_cons_of_mem _ ht))
  | @failed n ns states _ ts _ hm _ ih =>
    obtain ⟨c, cs, rfl, rfl, rfl⟩ := List.map_eq_cons_iff.1 hns.symm
    have hfail := (hts _ (List.mem_cons_self ..)).trans (ha.verdict hV h hs hm)
    rw [Ahead.target hm]
    exact .refused hfail.symm (committedIn_kept candidates [c.line] (by simp) .sequential)
      (ih rfl (List.subset_of_cons_subset hcs) (ha.fail hm)
        fun t ht => hts t (List.mem_cons_of_mem _ ht))

theorem Ahead.applicable (ha : Ahead disk plan sites s w states removed candidates)
    (hs : s ∈ sites) :
    ((candidates.map Candidate.line).filter fun n =>
        (mark s.lines (candidates.map Candidate.line) states).2.contains n) =
        (candidates.filter fun c => Applicable s.lines c.line).map Candidate.line ∧
      Ahead disk plan sites s w states removed
        (candidates.filter fun c => Applicable s.lines c.line) := by
  constructor
  · rw [List.filter_map]
    congr 1
    refine List.filter_congr fun c hc => ?_
    rw [Bool.eq_iff_iff, decide_eq_true_iff, ← ha.follows.removable hs (ha.free c hc)]
    rw [Function.comp_apply, List.contains_iff_mem, mem_mark]
    exact and_iff_right (List.mem_map_of_mem hc)
  · have hinside := ha.inside
    rw [← targetsIn_applicable] at hinside
    exact ⟨ha.distinct.sublist (List.filter_sublist.map _), hinside,
      fun c hc => ha.free c (List.mem_filter.1 hc).1, ha.follows⟩

theorem FileCourse.matched {refused : Prop} (hnot : ¬ refused)
    (hc : FileCourse refused s.lines candidates (disk.relaid sites w s.loc)
      (candidates.map Candidate.line) states ts os states')
    (hV : Consistent V disk plan) (h : Sited disk sites) (hs : s ∈ sites)
    (ha : Ahead disk plan sites s w states removed candidates)
    (hts : ∀ t ∈ ts, t.passed = V t.disk) :
    Matched V disk sites removed (targetsIn s.loc s.lines candidates) os
      (Function.update w s.loc states') := by
  have hmarked := ha.follows.marked hs ha.distinct ha.free
  cases hc with
  | byLine _ rest => exact rest.matched hV h hs ha.distinct rfl (List.Subset.refl _) ha hts
  | skipped _ hm =>
    have hnone : targetsIn s.loc s.lines candidates = [] := by
      rw [hm] at hmarked
      rw [targetsIn, List.map_eq_nil_iff.1 hmarked.symm, List.map_nil]
    rw [hnone]
    exact .nothing ha.follows (committedIn_kept _ _ (by simp) _)
  | passed _ hm =>
    have htried := hV.tried h hs ha.follows (candidates.map Candidate.line)
    have hsettled := ha.follows.settleAt h hs (candidates.map Candidate.line)
    rw [hmarked, ← spots_targetsIn, ← spots_append] at htried hsettled
    have hpass := (hts _ (List.mem_cons_self ..)).trans (htried ha.inside)
    have hall := greedy_all hV ha.inside hpass.symm
    refine .after (committedIn_kept _ _ (by simp) _) ⟨by rwa [hall], ?_⟩
    rw [hall, List.map_append, candidates_targetsIn, committedIn_committed]
    refine List.Perm.append_left _ ?_
    have hcalm : .commentedOut ∉ states := by simpa using ha.follows.settled hs
    have hperm := (linesIn_mark_perm s.lines (candidates.map Candidate.line) hcalm).filterMap
      fun n => candidates.find? fun c => c.line == n
    rw [hmarked] at hperm
    exact (hperm.trans (.of_eq (candidatesAt_map ha.distinct List.filter_sublist.subset))).symm
  | @failed _ ts os _ _ rest =>
    obtain ⟨hleft, hrest⟩ := ha.applicable hs
    rw [hleft] at rest
    rw [← targetsIn_applicable]
    exact .after (committedIn_kept _ _ (by simp) _)
      (rest.matched hV h hs ha.distinct rfl List.filter_sublist.subset hrest
        fun t ht => hts t (List.mem_cons_of_mem _ ht))
  | givenUp hrefused => exact absurd hrefused hnot

end

section
variable {V : Disk → Bool} {disk : Disk} {plan : Plan} {sites : List Site} {w w' : Layout}
  {xs : List Placed} {ts : List Trial} {os : List Outcome} {removed : List Target}

theorem FromPlan.fresh (hxs : FromPlan disk plan xs) {x : Placed} (hx : x ∈ xs) :
    x.1.draft.lines = x.2.lines ∧ x.1.remaining = x.1.candidates.map Candidate.line ∧
      (x.1.candidates.map Candidate.line).Nodup := by
  obtain ⟨e, _, hn, hp⟩ := hxs x hx
  obtain ⟨text, loc, mode, _, _, rfl⟩ := place_some hp
  exact ⟨rfl, rfl, hn⟩

theorem FilesCourse.matched {refused : Prop} (hnot : ¬ refused)
    (hc : FilesCourse refused disk sites xs w ts os w') (hV : Consistent V disk plan) (h : Sited disk sites) (hxs : FromPlan disk plan xs)
    (hsites : ∀ x ∈ xs, x.2 ∈ sites) (hd : (xs.map fun x => x.2.loc).Nodup)
    (hsub : spots (removed ++ xs.flatMap Placed.targets) ⊆ spots (disk.targets plan))
    (hfree : ∀ x ∈ xs, ∀ n, (x.2.loc, n) ∉ spots removed)
    (hf : Follows w sites (spots removed) []) (hts : ∀ t ∈ ts, t.passed = V t.disk) :
    Matched V disk sites removed (xs.flatMap Placed.targets) os w' := by
  induction hc generalizing removed with
  | nil => exact .nothing hf rfl
  | @cons x xs w w' states ts ts' os os' head tail ih =>
    obtain ⟨hlines, hrem, hn⟩ := hxs.fresh (x := x) (by simp)
    obtain ⟨hother, hd'⟩ := List.nodup_cons.1 hd
    rw [List.flatMap_cons, ← List.append_assoc] at hsub
    rw [hlines, hrem] at head
    have hw : Follows (Function.update w x.2.loc (w x.2.loc)) sites (spots removed) [] := by
      rwa [Function.update_eq_self]
    have hfirst : Matched V disk sites removed x.targets os (Function.update w x.2.loc states) :=
      head.matched hnot hV h (hsites x (by simp))
        ⟨hn, List.Subset.trans (spots_subset (List.subset_append_left _ _)) hsub,
          fun c _ => hfree x (by simp) c.line, hw⟩
        fun t ht => hts t (List.mem_append_left _ ht)
    have hgone : greedy V disk removed x.targets ⊆ removed ++ x.targets := greedy_subset _ _
    refine hfirst.append (ih (fun y hy => hxs y (List.mem_cons_of_mem x hy))
      (fun y hy => hsites y (List.mem_cons_of_mem x hy)) hd' ?_ ?_ hfirst.follows
      fun t ht => hts t (List.mem_append_right _ ht))
    · refine List.Subset.trans (spots_subset ?_) hsub
      exact List.append_subset.2 ⟨List.Subset.trans hgone (List.subset_append_left _ _),
        List.subset_append_right _ _⟩
    · intro y hy n hmem
      obtain ⟨t, ht, hspot⟩ := List.mem_map.1 hmem
      rcases List.mem_append.1 (hgone ht) with ht | ht
      · exact hfree y (List.mem_cons_of_mem x hy) n (hspot ▸ List.mem_map_of_mem ht)
      · have hloc : t.loc = y.2.loc := congrArg Prod.fst hspot
        exact hother (List.mem_map.2 ⟨y, hy, hloc.symm.trans (Placed.loc_of_target ht)⟩)

theorem allSpots_eq (hxs : FromPlan disk plan xs) (hm : allMarkable xs w = true) :
    allSpots xs = spots (xs.flatMap Placed.targets) ∧
      ∀ x ∈ xs, x.targets.map Target.candidate = x.1.candidates := by
  have hall : ∀ x ∈ xs, (x.1.candidates.filter fun c => Applicable x.2.lines c.line) =
      x.1.candidates := by
    intro x hx
    obtain ⟨hlines, hrem, _⟩ := hxs.fresh hx
    have hmarked := mark_of_allMarkable hm hx
    rw [List.filter_eq_self]
    intro c hc
    have hmem : c.line ∈ (mark x.1.draft.lines x.1.remaining (w x.2.loc)).2 := by
      rw [hmarked, hrem]
      exact List.mem_map_of_mem hc
    rw [decide_eq_true_iff, ← hlines]
    exact applicable_of_mark hmem
  constructor
  · rw [spots, List.map_flatMap, allSpots]
    refine List.flatMap_congr fun x hx => ?_
    rw [← spots, Placed.targets, spots_targetsIn, hall x hx, (hxs.fresh hx).2.1]
  · intro x hx
    rw [Placed.targets, candidates_targetsIn, hall x hx]

theorem committedIn_batchOutcomes (hxs : FromPlan disk plan xs)
    (hd : (xs.map fun x => x.2.loc).Nodup) (hcalm : ∀ x ∈ xs, .commentedOut ∉ w x.2.loc)
    (hm : allMarkable xs w = true) :
    (committedIn (batchOutcomes xs (markAll xs w))).Perm
      (xs.flatMap fun x => x.1.candidates) := by
  have hflat : committedIn (batchOutcomes xs (markAll xs w)) = xs.flatMap fun x =>
      candidatesAt x.1.candidates (linesIn .commentedOut 1 (markAll xs w x.2.loc)) := by
    simp only [committedIn, batchOutcomes, List.filter_flatMap, List.map_flatMap]
    exact List.flatMap_congr fun x _ => committedIn_committed _ _ _
  rw [hflat]
  refine List.Perm.flatMap_left _ fun x hx => ?_
  obtain ⟨_, hrem, hn⟩ := hxs.fresh hx
  rw [markAll_mem hd hx]
  have hperm := (linesIn_mark_perm x.1.draft.lines x.1.remaining (hcalm x hx)).filterMap
    fun n => x.1.candidates.find? fun c => c.line == n
  rw [mark_of_allMarkable hm hx, hrem] at hperm
  rw [hrem]
  exact hperm.trans (.of_eq (candidatesAt_lines hn))

theorem PlanCourse.matched {refused : Prop} (hnot : ¬ refused) (hsep : Separate disk plan)
    (hlines : ∀ e ∈ plan, e.lines.Nodup)
    (hc : PlanCourse refused disk (plan.filterMap (place disk)) disk.asFound ts os w')
    (hV : Consistent V disk plan) (hts : ∀ t ∈ ts, t.passed = V t.disk) :
    Matched V disk ((plan.filterMap (place disk)).map Prod.snd) [] (disk.targets plan) os w' := by
  have h := place_sited hsep
  have hd := place_distinct hsep
  have hxs := fromPlan_place disk hlines
  have hf := h.follows_asFound
  have hfiles : ∀ {ts os}, FilesCourse refused disk ((plan.filterMap (place disk)).map Prod.snd)
      (plan.filterMap (place disk)) disk.asFound ts os w' → (∀ t ∈ ts, t.passed = V t.disk) →
      Matched V disk ((plan.filterMap (place disk)).map Prod.snd) [] (disk.targets plan) os w' := by
    intro ts os rest hts
    rw [targets_eq]
    exact rest.matched hnot hV h hxs (fun x hx => List.mem_map_of_mem hx) hd
      (by rw [targets_eq]; simp) (by simp [spots]) hf hts
  cases hc with
  | idle hnil =>
    rw [targets_eq, hnil]
    exact .nothing (hnil ▸ hf) rfl
  | passed _ hm =>
    have hmarked := follows_markAll hxs hd hm hf
    obtain ⟨hspots, hcands⟩ := allSpots_eq hxs hm
    rw [hspots, ← targets_eq] at hmarked
    have hpass := hts _ (List.mem_singleton.2 rfl)
    rw [hmarked.laid h] at hpass
    have hsame := hV.commented [] (spots (disk.targets plan)) (List.Subset.refl _)
    have hall : greedy V disk [] (disk.targets plan) = disk.targets plan :=
      greedy_all hV (List.Subset.refl _) (hsame.symm.trans hpass.symm)
    refine ⟨by rw [hall]; exact hmarked.settle, ?_⟩
    have hcommit := committedIn_batchOutcomes hxs hd (fun x hx =>
      hf.settled (List.mem_map_of_mem hx)) hm
    rw [hall, targets_eq, List.map_flatMap, List.flatMap_congr hcands]
    exact hcommit.symm
  | failed _ _ rest => exact hfiles rest fun t ht => hts t (List.mem_cons_of_mem _ ht)
  | abandoned _ _ rest => exact hfiles rest hts

end

theorem committedIn_unopened (disk : Disk) (plan : Plan) :
    committedIn (plan.flatMap (unopened disk)) = [] := by
  rw [committedIn, List.filter_eq_nil_iff.2, List.map_nil]
  intro o ho
  obtain ⟨e, _, ho⟩ := List.mem_flatMap.1 ho
  simp [Outcome.isCommitted, (resolution_of_unopened ho).1]

theorem Undisturbed.greedy {build : Build σ} {V : Disk → Bool} {plan : Plan} {s s' : Session σ}
    {report : Report} {ts : List Trial} {os : List Outcome} {w : Layout}
    (hu : Undisturbed build plan s report s' ts os w) (hj : Judges build V)
    (hV : Consistent V s.world.disk plan) (hsep : Separate s.world.disk plan)
    (htakes : TakesWrites s.world.disk plan) (hlines : ∀ e ∈ plan, e.lines.Nodup) :
    report.committed.Perm
        ((greedy V s.world.disk [] (s.world.disk.targets plan)).map Target.candidate) ∧
      s'.world.disk =
        s.world.disk.without (spots (greedy V s.world.disk [] (s.world.disk.targets plan))) := by
  have hm := hu.course.matched (not_not.2 htakes) hsep hlines hV
    fun t ht => hj.given (hu.given t ht)
  constructor
  · have hcommit : report.committed.Perm (committedIn os) := by
      have hperm := committedIn_perm hu.outcomes
      rwa [committedIn_append, committedIn_unopened] at hperm
    exact hcommit.trans hm.committed.symm
  · rw [hu.disk, hm.follows.laid (place_sited hsep)]
    rfl

/-- On a disk that takes the writes a run commits what the greedy procedure takes out, and leaves the
disk without it. -/
theorem tiers_agree_with_greedy {build : Build σ} {V : Disk → Bool} {plan : Plan} {s : Session σ}
    (hq : Quiet build) (hj : Judges build V) (hV : Consistent V s.world.disk plan)
    (hpass : V s.world.disk = true) (hsep : Separate s.world.disk plan)
    (htakes : TakesWrites s.world.disk plan) (hlines : ∀ e ∈ plan, e.lines.Nodup)
    (ht : s.tainted = false) :
    ∃ report s', run build plan s = (some report, s') ∧
      report.committed.Perm
        ((greedy V s.world.disk [] (s.world.disk.targets plan)).map Target.candidate) ∧
      s'.world.disk =
        s.world.disk.without (spots (greedy V s.world.disk [] (s.world.disk.targets plan))) := by
  obtain ⟨report, s', hrun⟩ := reports_of_pass ((hj s.world).trans hpass) plan
  obtain ⟨ts, os, w, hu⟩ := run_undisturbed hq hsep ht hrun
  exact ⟨report, s', hrun, hu.greedy hj hV hsep htakes hlines⟩

def requiresOne : Rehearsal.BuildScript :=
  ⟨false, [(⟨"a.cc"⟩, "#include <x.h>")], [], []⟩

theorem tiers_agree_with_greedy_requiresOne :
    ∃ report s,
      run requiresOne.toBuild twoEntries (Session.start ⟨twoFiles, 0⟩) = (some report, s) ∧
      report.committed.Perm
        [⟨⟨"a.cc"⟩, 2, "#include <y.h>"⟩, ⟨⟨"b.cc"⟩, 1, "#include <z.h>"⟩] ∧
      s.world.disk = twoFiles.without [(["src", "a.cc"], 2), (["src", "b.cc"], 1)] := by
  have hlines : ∀ e ∈ twoEntries, e.lines.Nodup := by decide
  have hpass : requiresOne.check twoFiles = true := by decide
  obtain ⟨report, s, hrun, hcommit, hdisk⟩ := tiers_agree_with_greedy
    (requiresOne.toBuild_quiet rfl) (requiresOne.toBuild_judges (by decide))
    (requiresOne.check_consistent twoFiles twoEntries) (s := Session.start ⟨twoFiles, 0⟩) hpass
    twoEntries_separate twoEntries_takesWrites hlines rfl
  have hgreedy : greedy requiresOne.check (Session.start (⟨twoFiles, 0⟩ : World Nat)).world.disk []
      ((Session.start (⟨twoFiles, 0⟩ : World Nat)).world.disk.targets twoEntries) =
      [⟨⟨⟨"a.cc"⟩, 2, "#include <y.h>"⟩, ["src", "a.cc"]⟩,
       ⟨⟨⟨"b.cc"⟩, 1, "#include <z.h>"⟩, ["src", "b.cc"]⟩] := by
    decide +kernel
  rw [hgreedy] at hcommit hdisk
  exact ⟨report, s, hrun, hcommit, hdisk⟩

theorem targets_detourEntry : detourDisk.targets [detourEntry] =
    [⟨⟨longDetour, 1, "#include <x.h>"⟩, ["src", "a.cc"]⟩] := by
  have happlicable : Applicable (rawLines detourText) 1 := by decide +kernel
  rw [Disk.targets, List.flatMap_singleton,
    Disk.Holds.targetsOf (e := detourEntry) detourDisk_holds, targetsIn, detourEntry,
    select_detourText]
  simp [happlicable]

/-- The greedy procedure takes a line out of a file that the disk does not let be replaced. -/
theorem greedy_takes_refused_line :
    Quiet passing.toBuild ∧ Judges passing.toBuild passing.check ∧
    Consistent passing.check detourDisk [detourEntry] ∧ passing.check detourDisk = true ∧
    Separate detourDisk [detourEntry] ∧ detourEntry.lines.Nodup ∧
    (greedy passing.check detourDisk [] (detourDisk.targets [detourEntry])).map Target.candidate =
      [⟨longDetour, 1, "#include <x.h>"⟩] ∧
    ∃ report s, run passing.toBuild [detourEntry] (Session.start ⟨detourDisk, 0⟩) =
        (some report, s) ∧ report.committed = [] := by
  obtain ⟨report, s, hrun, houtcomes, _⟩ := run_detourEntry
  refine ⟨passing.toBuild_quiet rfl, passing.toBuild_judges (by decide),
    passing.check_consistent _ _, rfl, detourDisk_separate, ?_, ?_, report, s, hrun, ?_⟩
  · rw [detourEntry_lines]
    exact List.nodup_singleton 1
  · rw [targets_detourEntry]
    rfl
  · rw [Report.committed, Report.committedOutcomes, houtcomes]
    rfl

end IncludeSweep
