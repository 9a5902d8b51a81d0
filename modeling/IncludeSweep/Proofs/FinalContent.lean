import Mathlib.Data.List.Pairwise
import IncludeSweep.Proofs.RefusedFile

set_option autoImplicit false

/-! # What an undisturbed run leaves behind

A file of the plan ends as its lines without those reported as committed. The outcomes of a run fall
into parts, one for each entry of the plan, and what is said of a file is said with its own part. -/

namespace IncludeSweep

open Text Draft

variable {σ : Type}

def committedIn (os : List Outcome) : List Candidate :=
  (os.filter Outcome.isCommitted).map Outcome.candidate

def committedLines (os : List Outcome) : List Nat :=
  (os.filter Outcome.isCommitted).map fun o => o.candidate.line

theorem committedIn_append (os os' : List Outcome) :
    committedIn (os ++ os') = committedIn os ++ committedIn os' := by
  simp [committedIn]

theorem committedIn_perm {os os' : List Outcome} (h : os.Perm os') :
    (committedIn os).Perm (committedIn os') :=
  (h.filter _).map _

theorem committedLines_eq (os : List Outcome) :
    committedLines os = (committedIn os).map Candidate.line :=
  List.map_map.symm

theorem committedLines_append (os os' : List Outcome) :
    committedLines (os ++ os') = committedLines os ++ committedLines os' := by
  simp [committedLines]

def candidatesAt (candidates : List Candidate) (ns : List Nat) : List Candidate :=
  ns.filterMap fun n => candidates.find? fun c => c.line == n

theorem outcomesOf_eq (candidates : List Candidate) (ns : List Nat) (r : Resolution) (t : Tier) :
    outcomesOf candidates ns r t = (candidatesAt candidates ns).map fun c => ⟨c, r, some t⟩ := by
  unfold outcomesOf candidatesAt
  rw [List.map_filterMap]

theorem candidatesAt_map {candidates cs : List Candidate}
    (h : (candidates.map Candidate.line).Nodup) (hsub : cs ⊆ candidates) :
    candidatesAt candidates (cs.map Candidate.line) = cs := by
  have hfind : ∀ c ∈ candidates, candidates.find? (fun d => d.line == c.line) = some c := by
    intro c hc
    obtain ⟨d, hd⟩ : ∃ d, candidates.find? (fun d => d.line == c.line) = some d := by
      apply Option.isSome_iff_exists.1
      rw [List.find?_isSome]
      exact ⟨c, hc, by simp⟩
    have hline : d.line = c.line := by simpa using List.find?_some hd
    rw [hd, List.inj_on_of_nodup_map h (List.mem_of_find?_eq_some hd) hc hline]
  unfold candidatesAt
  rw [List.filterMap_map]
  refine (List.filterMap_congr fun c hc => ?_).trans List.filterMap_some
  exact hfind c (hsub hc)

theorem candidatesAt_lines {candidates : List Candidate}
    (h : (candidates.map Candidate.line).Nodup) :
    candidatesAt candidates (candidates.map Candidate.line) = candidates :=
  candidatesAt_map h (List.Subset.refl _)

def AllCandidates (candidates : List Candidate) (ns : List Nat) : Prop :=
  ∀ n ∈ ns, n ∈ candidates.map Candidate.line

theorem lines_candidatesAt {candidates : List Candidate} {ns : List Nat}
    (h : AllCandidates candidates ns) : (candidatesAt candidates ns).map Candidate.line = ns := by
  induction ns with
  | nil => rfl
  | cons n ns ih =>
    obtain ⟨c, hc⟩ : ∃ c, candidates.find? (fun c => c.line == n) = some c := by
      obtain ⟨c, hc, hline⟩ := List.mem_map.1 (h n (by simp))
      apply Option.isSome_iff_exists.1
      rw [List.find?_isSome]
      exact ⟨c, hc, by simp [hline]⟩
    have hline : c.line = n := by simpa using List.find?_some hc
    have hrest := ih fun m hm => h m (List.mem_cons_of_mem n hm)
    simp only [candidatesAt, List.filterMap_cons, hc, List.map_cons, hline]
    rw [← candidatesAt, hrest]

theorem committedIn_committed (candidates : List Candidate) (ns : List Nat) (t : Tier) :
    committedIn (outcomesOf candidates ns .committed t) = candidatesAt candidates ns := by
  rw [outcomesOf_eq, committedIn, List.filter_eq_self.2, List.map_map]
  · exact List.map_id _
  · intro o ho
    obtain ⟨c, _, rfl⟩ := List.mem_map.1 ho
    rfl

theorem committedIn_kept (candidates : List Candidate) (ns : List Nat) {r : Resolution}
    (h : r ≠ .committed) (t : Tier) : committedIn (outcomesOf candidates ns r t) = [] := by
  rw [outcomesOf_eq, committedIn, List.filter_eq_nil_iff.2, List.map_nil]
  intro o ho
  obtain ⟨c, _, rfl⟩ := List.mem_map.1 ho
  simpa [Outcome.isCommitted] using h

theorem committedLines_committed {candidates : List Candidate} {ns : List Nat}
    (h : AllCandidates candidates ns) (t : Tier) :
    committedLines (outcomesOf candidates ns .committed t) = ns := by
  rw [committedLines_eq, committedIn_committed, lines_candidatesAt h]

theorem committedLines_kept (candidates : List Candidate) (ns : List Nat) {r : Resolution}
    (h : r ≠ .committed) (t : Tier) : committedLines (outcomesOf candidates ns r t) = [] := by
  rw [committedLines_eq, committedIn_kept candidates ns h, List.map_nil]

/-- Outcomes that account for the candidates at lines: each has one, none of them for want of a
writable file unless the disk refuses, and the lines reported as committed are the ones that were
deleted. -/
structure Accounts (refused : Prop) (candidates : List Candidate) (ns : List Nat)
    (os : List Outcome) (states states' : List LineState) : Prop where
  complete : (os.map Outcome.candidate).Perm (candidatesAt candidates ns)
  tried : ¬ refused → ∀ o ∈ os, o.resolution ≠ .keptIoFailure
  deleted : ∀ n, nth? states' n =
    (nth? states n).map fun state => if n ∈ committedLines os then .deleted else state

namespace Accounts

variable {refused : Prop} {candidates : List Candidate} {ns ns' : List Nat} {os os' : List Outcome}
  {states states' states'' : List LineState} {lines : List String}

theorem append (h : Accounts refused candidates ns os states states')
    (h' : Accounts refused candidates ns' os' states' states'') :
    Accounts refused candidates (ns ++ ns') (os ++ os') states states'' := by
  refine ⟨?_, ?_, ?_⟩
  · simp only [candidatesAt, List.map_append, List.filterMap_append]
    exact h.complete.append h'.complete
  · intro hnot o ho
    rcases List.mem_append.1 ho with ho | ho
    · exact h.tried hnot o ho
    · exact h'.tried hnot o ho
  · intro n
    rw [h'.deleted, h.deleted, Option.map_map, committedLines_append]
    congr 1
    funext state
    by_cases hn : n ∈ committedLines os <;> by_cases hn' : n ∈ committedLines os' <;> simp [hn, hn']

theorem perm (h : Accounts refused candidates ns os states states') (hp : ns.Perm ns') :
    Accounts refused candidates ns' os states states' :=
  ⟨h.complete.trans (hp.filterMap _), h.tried, h.deleted⟩

theorem nothing : Accounts refused candidates [] [] states states := by
  refine ⟨.refl _, by simp, fun n => ?_⟩
  simp [committedLines]

theorem kept (ns : List Nat) {r : Resolution} (h : r ≠ .committed)
    (h' : ¬ refused → r ≠ .keptIoFailure) (t : Tier) :
    Accounts refused candidates ns (outcomesOf candidates ns r t) states states := by
  refine ⟨?_, ?_, ?_⟩
  · rw [outcomesOf_eq, List.map_map]
    exact .of_eq (List.map_id _)
  · rw [outcomesOf_eq]
    intro hnot o ho
    obtain ⟨c, _, rfl⟩ := List.mem_map.1 ho
    exact h' hnot
  · intro n
    rw [committedLines_kept candidates ns h t]
    simp

theorem removed (hs : .commentedOut ∉ states) (hc : AllCandidates candidates ns) {ms : List Nat}
    (hms : ms.Perm (mark lines ns states).2) (t : Tier) :
    Accounts refused candidates ms (outcomesOf candidates ms .committed t)
      states (settle .deleted (mark lines ns states).1) := by
  have hall : AllCandidates candidates ms := fun n hn => hc n (mem_mark.1 (hms.mem_iff.1 hn)).1
  refine ⟨?_, ?_, ?_⟩
  · rw [outcomesOf_eq, List.map_map]
    exact .of_eq (List.map_id _)
  · rw [outcomesOf_eq]
    intro _ o ho
    obtain ⟨c, _, rfl⟩ := List.mem_map.1 ho
    simp
  · intro n
    rw [committedLines_committed hall, nth?_settle, nth?_mark]
    by_cases hn : n ∈ (mark lines ns states).2
    · rw [if_pos hn, (removable_iff.1 (mem_mark.1 hn).2).1]
      simp [hms.mem_iff, hn]
    · rw [if_neg hn]
      simp only [hms.mem_iff, hn, if_false]
      rw [← nth?_settle, settle_of_not_mem hs, Option.map_id']

end Accounts

section
variable {refused : Prop} {lines : List String} {candidates : List Candidate}
  {tree : List LineState → Disk} {ns : List Nat} {states states' : List LineState} {ts : List Trial}
  {os : List Outcome}

theorem LineCourse.accounts (refused : Prop) (h : LineCourse lines candidates tree ns states ts os states')
    (hs : .commentedOut ∉ states) (hc : AllCandidates candidates ns) :
    Accounts refused candidates ns os states states' := by
  induction h with
  | done => exact .nothing
  | @skipped n ns _ _ _ _ hm rest ih =>
    have hrest := ih hs fun m hm => hc m (List.mem_cons_of_mem n hm)
    exact (Accounts.kept [n] (by simp) (by simp) .sequential).append hrest
  | @passed n ns states _ _ _ hm rest ih =>
    have hrest := ih (commentedOut_not_mem_settle (by simp) _)
      fun m hm => hc m (List.mem_cons_of_mem n hm)
    have hone : AllCandidates candidates [n] := fun m hm => hc m (List.mem_singleton.1 hm ▸ by simp)
    exact (Accounts.removed hs hone (.of_eq (mark_single_of_ne hm).symm) .sequential).append hrest
  | @failed n ns _ _ _ _ hm rest ih =>
    have hrest := ih hs fun m hm => hc m (List.mem_cons_of_mem n hm)
    exact (Accounts.kept [n] (by simp) (by simp) .sequential).append hrest

theorem FileCourse.accounts (h : FileCourse refused lines candidates tree ns states ts os states')
    (hs : .commentedOut ∉ states) (hc : AllCandidates candidates ns) (hn : ns.Nodup) :
    Accounts refused candidates ns os states states' := by
  -- the lines of a file that are left aside, and those that are not
  have hsplit : ((ns.filter fun n => !(mark lines ns states).2.contains n) ++
      ns.filter fun n => (mark lines ns states).2.contains n).Perm ns :=
    List.perm_append_comm.trans (List.filter_append_perm _ ns)
  cases h with
  | byLine _ rest => exact rest.accounts refused hs hc
  | skipped => exact .kept ns (by simp) (by simp) .perFile
  | passed =>
    have hmarked : (mark lines ns states).2.Perm
        (ns.filter fun n => (mark lines ns states).2.contains n) := by
      refine (List.perm_ext_iff_of_nodup (mark_nodup lines ns states) (hn.filter _)).2 fun n => ?_
      simp only [List.mem_filter, List.contains_iff_mem]
      exact ⟨fun h => ⟨(mem_mark.1 h).1, h⟩, And.right⟩
    refine ((Accounts.kept _ (by simp) (by simp) .perFile).append ?_).perm hsplit
    exact (Accounts.removed hs hc (linesIn_mark_perm _ _ hs) .perFile).perm
      ((linesIn_mark_perm _ _ hs).trans hmarked)
  | failed _ _ rest =>
    have hrest := rest.accounts refused hs fun n hn => hc n (List.mem_filter.1 hn).1
    exact ((Accounts.kept _ (by simp) (by simp) .perFile).append hrest).perm hsplit
  | givenUp hrefused tier => exact .kept ns (by simp) (fun hnot => absurd hrefused hnot) tier

end

def Placed.Accounts (refused : Prop) (w w' : Layout) (x : Placed) (os : List Outcome) : Prop :=
  IncludeSweep.Accounts refused x.1.candidates x.1.remaining os (w x.2.loc) (w' x.2.loc)

def Placed.Proper (x : Placed) : Prop :=
  x.1.remaining.Nodup ∧ AllCandidates x.1.candidates x.1.remaining

section
variable {refused : Prop} {disk : Disk} {sites : List Site} {xs : List Placed} {w w' : Layout}
  {ts : List Trial} {os : List Outcome}

theorem FilesCourse.elsewhere (h : FilesCourse refused disk sites xs w ts os w') :
    SameElsewhere xs w w' := by
  induction h with
  | nil w => exact .refl [] w
  | cons _ _ ih => exact ih.cons

theorem FilesCourse.accounts (h : FilesCourse refused disk sites xs w ts os w')
    (hr : Ready disk sites w xs) (hp : ∀ x ∈ xs, x.Proper) :
    ∃ parts : List (List Outcome), os = parts.flatten ∧
      List.Forall₂ (Placed.Accounts refused w w') xs parts := by
  induction h with
  | nil => exact ⟨[], rfl, .nil⟩
  | @cons x xs w w' states ts ts' os os' head tail ih =>
    obtain ⟨parts, hos, hparts⟩ := ih (hr.tail states) fun y hy => hp y (List.mem_cons_of_mem x hy)
    refine ⟨os :: parts, by rw [hos, List.flatten_cons], .cons ?_ ?_⟩
    · have hw : w' x.2.loc = states := tail.elsewhere.head fun y hy => hr.head_ne hy
      have hx := hp x (by simp)
      unfold Placed.Accounts
      rw [hw]
      exact head.accounts (hr.calm x (by simp)).settled hx.2 hx.1
    · have hne : ∀ y ∈ xs, y.2.loc ≠ x.2.loc := fun y hy => hr.head_ne hy
      refine ((List.forall₂_and_left xs parts).2 ⟨hne, hparts⟩).imp ?_
      rintro y part ⟨hy, hpart⟩
      unfold Placed.Accounts at hpart ⊢
      rwa [Function.update_of_ne hy] at hpart

theorem PlanCourse.accounts (h : PlanCourse refused disk xs w ts os w')
    (hr : Ready disk (xs.map Prod.snd) w xs) (hp : ∀ x ∈ xs, x.Proper) :
    ∃ parts : List (List Outcome), os = parts.flatten ∧
      List.Forall₂ (Placed.Accounts refused w w') xs parts := by
  cases h with
  | idle hnil =>
    subst hnil
    exact ⟨[], rfl, .nil⟩
  | passed _ hm =>
    refine ⟨_, List.flatMap_def, ?_⟩
    rw [List.forall₂_map_right_iff, List.forall₂_same]
    intro x hx
    have hcalm := (hr.calm x hx).settled
    unfold Placed.Accounts
    simp only [markAll_mem hr.distinct hx]
    exact (Accounts.removed hcalm (hp x hx).2 (linesIn_mark_perm _ _ hcalm) .global).perm
      ((linesIn_mark_perm _ _ hcalm).trans (.of_eq (mark_of_allMarkable hm hx)))
  | failed _ _ rest => exact rest.accounts hr hp
  | abandoned _ _ rest => exact rest.accounts hr hp

end

/-- The outcomes of an entry tell how its file has changed. On a disk that takes the writes, no
candidate of a file that could be opened is kept for want of a writable file. -/
structure Settled (taken : Prop) (disk disk' : Disk) (e : FileCandidates) (os : List Outcome) :
    Prop where
  complete : (os.map Outcome.candidate).Perm e.candidates
  tried : taken → ∀ loc mode text, disk.Holds e.path loc mode text →
    ∀ o ∈ os, o.resolution ≠ .keptIoFailure
  content : ∀ loc mode text, disk.Holds e.path loc mode text →
    disk'.Holds e.path loc mode (String.join (linesWithout (committedLines os) (rawLines text)))

theorem place_proper {disk : Disk} {e : FileCandidates} {x : Placed} (h : place disk e = some x)
    (hn : e.lines.Nodup) : x.Proper := by
  obtain ⟨text, loc, mode, _, _, rfl⟩ := place_some h
  exact ⟨hn, fun n hn => hn⟩

theorem unopened_of_place {disk : Disk} {e : FileCandidates} {x : Placed}
    (h : place disk e = some x) : unopened disk e = [] := by
  obtain ⟨text, loc, mode, _, hh, rfl⟩ := place_some h
  simp [unopened, hh.readText]

theorem Disk.Holds.unique {disk : Disk} {path : Path} {loc loc' : Location} {mode mode' : Mode}
    {text text' : String} (h : disk.Holds path loc mode text)
    (h' : disk.Holds path loc' mode' text') : loc' = loc ∧ mode' = mode ∧ text' = text := by
  have hloc : loc' = loc := Except.ok.inj (h'.leads.symm.trans h.leads)
  subst hloc
  have hfile := Option.some.inj (h'.content.symm.trans h.content)
  injection hfile with hmode hbytes
  have htext := congrArg decode hbytes
  rw [decode_encode, decode_encode] at htext
  exact ⟨rfl, hmode, Option.some.inj htext⟩

theorem LeadApart.locate_ne {disk : Disk} {plan : Plan} (h : LeadApart disk plan)
    {e e' : FileCandidates} (he : e ∈ plan) (he' : e' ∈ plan) (hne : e ≠ e') {text text' : String}
    (ht : disk.readText e.path = .ok text) (ht' : disk.readText e'.path = .ok text') :
    disk.locate e.path ≠ disk.locate e'.path := by
  have hsymm : Std.Symm fun e e' : FileCandidates => ∀ text text',
      disk.readText e.path = .ok text → disk.readText e'.path = .ok text' →
      disk.locate e.path ≠ disk.locate e'.path :=
    ⟨fun _ _ h text text' ht ht' => (h text' text ht' ht).symm⟩
  exact List.Pairwise.forall h he he' hne text text' ht ht'

theorem Separate.loc_ne {disk : Disk} {plan : Plan} (h : Separate disk plan)
    {e e' : FileCandidates} (he : e ∈ plan) (he' : e' ∈ plan) (hne : e ≠ e') {loc loc' : Location}
    {mode mode' : Mode} {text text' : String} (hh : disk.Holds e.path loc mode text)
    (hh' : disk.Holds e'.path loc' mode' text') : loc ≠ loc' := by
  have hlocs := LeadApart.locate_ne h.distinct he he' hne hh.readText hh'.readText
  rw [hh.leads, hh'.leads] at hlocs
  exact fun heq => hlocs (congrArg Except.ok heq)

section
variable {taken : Prop} {disk : Disk} {plan : Plan} {w : Layout}

theorem settled_placed (hsep : Separate disk plan) {e : FileCandidates} (he : e ∈ plan)
    (hn : e.lines.Nodup) {x : Placed} (hx : place disk e = some x) {os : List Outcome}
    (h : x.Accounts (¬ taken) disk.asFound w os) :
    Settled taken disk (disk.laid w ((plan.filterMap (place disk)).map Prod.snd)) e os := by
  have hsited := place_sited hsep
  have hmem : x ∈ plan.filterMap (place disk) := List.mem_filterMap.2 ⟨e, he, hx⟩
  have hon := hsited.on x.2 (List.mem_map_of_mem hmem)
  have hget := Disk.get?_laid hsited w (List.mem_map_of_mem hmem)
  unfold Placed.Accounts at h
  rw [hon.asFound] at h
  obtain ⟨text, loc, mode, _, hh, rfl⟩ := place_some hx
  refine ⟨?_, fun htaken _ _ _ _ => h.tried (not_not.2 htaken), ?_⟩
  · have hcomplete := h.complete
    change List.Perm _ (candidatesAt e.candidates (e.candidates.map Candidate.line)) at hcomplete
    rwa [candidatesAt_lines hn] at hcomplete
  · intro loc' mode' text' hh'
    obtain ⟨rfl, rfl, rfl⟩ := hh.unique hh'
    refine ⟨(Disk.locate_alike (Disk.alike_laid hsited w) _).trans hh.leads, hh.reads, ?_⟩
    have hw : w loc' = numbered (fun n => if n ∈ committedLines os then .deleted else .intact)
        (rawLines text') := by
      apply ext_nth?
      intro n
      rw [h.deleted, nth?_numbered, allIntact, nth?_map, Option.map_map]
      rfl
    rw [hget, Site.entry, hw, renderLines_eq_join, pieces_numbered_deleted]

theorem settled_unplaced (hsep : Separate disk plan) {e : FileCandidates} (he : e ∈ plan)
    (hx : place disk e = none) :
    Settled taken disk (disk.laid w ((plan.filterMap (place disk)).map Prod.snd)) e
      (unopened disk e) := by
  have hsited := place_sited hsep
  cases ht : disk.readText e.path with
  | error cause =>
    have hnot : ∀ loc mode text, ¬ disk.Holds e.path loc mode text := by
      intro loc mode text hh
      rw [hh.readText] at ht
      simp at ht
    refine ⟨?_, fun _ loc mode text hh => absurd hh (hnot loc mode text),
      fun loc mode text hh => absurd hh (hnot loc mode text)⟩
    simp only [unopened, ht, List.map_map]
    exact .of_eq (List.map_id _)
  | ok text =>
    have hnil : e.candidates = [] := by
      by_contra hne
      obtain ⟨loc, mode, hh⟩ := Disk.readText_ok ht
      simp [place_of_holds hne hh] at hx
    have hun : unopened disk e = [] := by simp [unopened, ht]
    refine ⟨by simp [hun, hnil], by simp [hun], ?_⟩
    intro loc mode text hh
    have hsite : ∀ s ∈ (plan.filterMap (place disk)).map Prod.snd, s.loc ≠ loc := by
      intro s hs
      obtain ⟨y, hy, rfl⟩ := List.mem_map.1 hs
      obtain ⟨e', he', hy'⟩ := List.mem_filterMap.1 hy
      obtain ⟨text', loc', mode', hne', hh', rfl⟩ := place_some hy'
      have hee : e' ≠ e := fun h => hne' (h ▸ hnil)
      exact hsep.loc_ne he' he hee hh' hh
    refine ⟨(Disk.locate_alike (Disk.alike_laid hsited w) _).trans hh.leads, hh.reads, ?_⟩
    rw [Disk.get?_laid_other hsited w hsite, hh.content, hun]
    have hall : linesWithout (committedLines []) (rawLines text) = rawLines text := by
      simp [linesWithout, committedLines]
    rw [hall, join_rawLines]

theorem settled_parts {disk' : Disk} {parts : List (List Outcome)} (plan : Plan)
    (hopen : ∀ e ∈ plan, ∀ x os, place disk e = some x →
      x.Accounts (¬ taken) disk.asFound w os → Settled taken disk disk' e os)
    (hother : ∀ e ∈ plan, place disk e = none → Settled taken disk disk' e (unopened disk e))
    (h : List.Forall₂ (Placed.Accounts (¬ taken) disk.asFound w) (plan.filterMap (place disk))
      parts) :
    ∃ parts' : List (List Outcome), List.Forall₂ (Settled taken disk disk') plan parts' ∧
      (plan.flatMap (unopened disk) ++ parts.flatten).Perm parts'.flatten := by
  induction plan generalizing parts with
  | nil =>
    obtain rfl := List.forall₂_nil_left_iff.1 h
    exact ⟨[], .nil, .refl _⟩
  | cons e plan ih =>
    have hopen' := fun e he => hopen e (List.mem_cons_of_mem _ he)
    have hother' := fun e he => hother e (List.mem_cons_of_mem _ he)
    cases hx : place disk e with
    | none =>
      rw [List.filterMap_cons_none hx] at h
      obtain ⟨parts', hparts, hperm⟩ := ih hopen' hother' h
      refine ⟨unopened disk e :: parts', .cons (hother e (by simp) hx) hparts, ?_⟩
      rw [List.flatMap_cons, List.flatten_cons, List.append_assoc]
      exact hperm.append_left _
    | some x =>
      rw [List.filterMap_cons_some hx] at h
      obtain ⟨part, rest, hpart, hrest, rfl⟩ := List.forall₂_cons_left_iff.1 h
      obtain ⟨parts', hparts, hperm⟩ := ih hopen' hother' hrest
      refine ⟨part :: parts', .cons (hopen e (by simp) x part hx hpart) hparts, ?_⟩
      rw [List.flatMap_cons, unopened_of_place hx, List.nil_append, List.flatten_cons,
        List.flatten_cons]
      exact (List.perm_append_comm_assoc _ _ _).trans (hperm.append_left part)

theorem Placed.Accounts.unchanged {refused : Prop} {w' : Layout} {x : Placed} {os : List Outcome}
    (h : x.Accounts refused w w' os) (hos : committedLines os = []) : w' x.2.loc = w x.2.loc := by
  apply ext_nth?
  intro n
  rw [h.deleted, hos]
  simp

theorem unchanged_of_none_committed {refused : Prop} {w' : Layout} {xs : List Placed}
    {parts : List (List Outcome)} (h : List.Forall₂ (Placed.Accounts refused w w') xs parts)
    (hnone : committedLines parts.flatten = []) :
    ∀ x ∈ xs, w' x.2.loc = w x.2.loc := by
  induction h with
  | nil => simp
  | @cons x part xs parts hx _ ih =>
    rw [List.flatten_cons, committedLines_append, List.append_eq_nil_iff] at hnone
    intro y hy
    rcases List.mem_cons.1 hy with rfl | hy
    · exact hx.unchanged hnone.1
    · exact ih hnone.2 y hy

end

/-- After an undisturbed run every file of the plan that could be opened holds, under its old mode,
its lines without the committed ones. All other entries of the disk are as they were. If the disk
takes the writes of the plan, nothing goes wrong on the way. -/
theorem exact_final_content {build : Build σ} {plan : Plan} {s s' : Session σ} {report : Report}
    (hq : Quiet build) (hsep : Separate s.world.disk plan) (hlines : ∀ e ∈ plan, e.lines.Nodup)
    (ht : s.tainted = false) (hrun : run build plan s = (some report, s')) :
    (TakesWrites s.world.disk plan → report.unrestored = []) ∧
    (∃ parts : List (List Outcome), report.outcomes.Perm parts.flatten ∧
      List.Forall₂ (Settled (TakesWrites s.world.disk plan) s.world.disk s'.world.disk) plan
        parts) ∧
    s'.world.disk.cwd = s.world.disk.cwd ∧
    (∀ loc, (∀ e ∈ plan, ∀ mode text, ¬ s.world.disk.Holds e.path loc mode text) →
      s'.world.disk.get? loc = s.world.disk.get? loc) ∧
    (report.committed = [] → s'.world.disk = s.world.disk) := by
  obtain ⟨ts, os, w, hu⟩ := run_undisturbed hq hsep ht hrun
  have hsited := place_sited hsep
  have hproper : ∀ x ∈ plan.filterMap (place s.world.disk), x.Proper := by
    intro x hx
    obtain ⟨e, he, hx⟩ := List.mem_filterMap.1 hx
    exact place_proper hx (hlines e he)
  obtain ⟨parts, rfl, hparts⟩ := hu.course.accounts (place_ready hsep) hproper
  refine ⟨hu.unrestored, ?_, ?_, ?_, ?_⟩
  · rw [hu.disk]
    obtain ⟨parts', hparts', hperm⟩ := settled_parts plan
      (fun e he x part hx hpart => settled_placed hsep he (hlines e he) hx hpart)
      (fun e he hx => settled_unplaced hsep he hx) hparts
    exact ⟨parts', hu.outcomes.trans hperm, hparts'⟩
  · rw [hu.disk]
    exact (Disk.alike_laid hsited w).cwd
  · intro loc hloc
    rw [hu.disk]
    apply Disk.get?_laid_other hsited w
    intro t hmem
    obtain ⟨x, hx, rfl⟩ := List.mem_map.1 hmem
    obtain ⟨e, he, hx⟩ := List.mem_filterMap.1 hx
    obtain ⟨text, loc', mode, _, hh, rfl⟩ := place_some hx
    rintro rfl
    exact hloc e he mode text hh
  · intro hnone
    have hnone' : committedLines parts.flatten = [] := by
      have hall := (hu.outcomes.filter Outcome.isCommitted).symm.trans
        (.of_eq (List.map_eq_nil_iff.1 hnone))
      rw [List.filter_append, List.perm_nil, List.append_eq_nil_iff] at hall
      rw [committedLines, hall.2, List.map_nil]
    rw [hu.disk]
    apply Disk.laid_intact hsited
    intro t hmem
    obtain ⟨x, hx, rfl⟩ := List.mem_map.1 hmem
    rw [← (hsited.on x.2 hmem).asFound]
    exact unchanged_of_none_committed hparts hnone' x hx

theorem exact_final_content_requiresFirst :
    ∃ report s,
      run requiresFirst.toBuild twoEntries (Session.start ⟨twoFiles, 0⟩) = (some report, s) ∧
      report.unrestored = [] ∧
      (∃ parts : List (List Outcome), report.outcomes.Perm parts.flatten ∧
        List.Forall₂ (Settled True twoFiles s.world.disk) twoEntries parts) ∧
      s.world.disk.get? ["src"] = some .dir := by
  obtain ⟨report, s, hrun⟩ := requiresFirst_reports
  have hlines : ∀ e ∈ twoEntries, e.lines.Nodup := by decide
  obtain ⟨hclean, hparts, _, hother, _⟩ := exact_final_content
    (requiresFirst.toBuild_quiet rfl) twoEntries_separate hlines rfl hrun
  have htakes : TakesWrites twoFiles twoEntries := twoEntries_takesWrites
  have hall : TakesWrites (Session.start ⟨twoFiles, 0⟩).world.disk twoEntries ↔ True :=
    iff_true_intro htakes
  rw [propext hall] at hparts
  refine ⟨report, s, hrun, hclean htakes, hparts, ?_⟩
  rw [hother ["src"]]
  · rfl
  · intro e _ mode text hh
    exact absurd hh.content (by simp [Session.start, twoFiles, Disk.get?])

/-- A file that is opened may be kept for a failure: it can be read and not replaced. -/
theorem opened_file_kept_for_failure :
    Quiet passing.toBuild ∧ Separate detourDisk [detourEntry] ∧ detourEntry.lines.Nodup ∧
    detourDisk.Holds detourEntry.path ["src", "a.cc"] 0o644 detourText ∧
    ∃ report s, run passing.toBuild [detourEntry] (Session.start ⟨detourDisk, 0⟩) =
        (some report, s) ∧
      report.outcomes.map Outcome.resolution = [.keptIoFailure] := by
  obtain ⟨report, s, hrun, houtcomes, _⟩ := run_detourEntry
  refine ⟨passing.toBuild_quiet rfl, detourDisk_separate, ?_, detourDisk_holds, report, s, hrun, ?_⟩
  · rw [detourEntry_lines]
    exact List.nodup_singleton 1
  · rw [houtcomes]
    rfl

end IncludeSweep
