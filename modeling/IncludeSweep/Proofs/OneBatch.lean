import IncludeSweep.Proofs.UndisturbedRun

set_option autoImplicit false

/-! # One batch at a time

Every build of an undisturbed run sees the disk of its start, without the lines that earlier builds
have passed, and with the lines of one batch commented out. What a batch is made of depends on the
tier. -/

namespace IncludeSweep

open Text Draft

variable {σ : Type}

abbrev Spot := Location × Nat

def stateUnder (gone batch : List Spot) (loc : Location) (n : Nat) : LineState :=
  if (loc, n) ∈ batch then .commentedOut else if (loc, n) ∈ gone then .deleted else .intact

/-- The second disk is the first one with some lines deleted and some commented out. -/
structure Shows (disk disk' : Disk) (gone batch : List Spot) : Prop where
  cwd : disk'.cwd = disk.cwd
  texts : ∀ loc mode text, disk.get? loc = some (.file mode (encode text)) →
    disk'.get? loc = some (.file mode (encode (renderLines (rawLines text)
      (numbered (stateUnder gone batch loc) (rawLines text)))))
  others : ∀ loc, (∀ n, (loc, n) ∉ gone ∧ (loc, n) ∉ batch) → disk'.get? loc = disk.get? loc

def Applicable (lines : List String) (n : Nat) : Prop :=
  ∃ line, nth? lines n = some line ∧ Directive.live (stripTerminator line) = true

/-- The lines a build of a tier judges when some are resolved: the candidates of all files, the
applicable unresolved ones of a file, or one of these. -/
inductive IsBatch (disk : Disk) (plan : Plan) (resolved : List Spot) :
    Option Tier → List Spot → Prop
  | global {batch : List Spot}
      (h : ∀ loc n, (loc, n) ∈ batch ↔
        ∃ e ∈ plan, n ∈ e.lines ∧ ∃ mode text, disk.Holds e.path loc mode text) :
      IsBatch disk plan resolved (some .global) batch
  | perFile {batch : List Spot} {e : FileCandidates} {loc : Location} {mode : Mode} {text : String}
      (he : e ∈ plan) (hh : disk.Holds e.path loc mode text)
      (h : ∀ p : Spot, p ∈ batch ↔
        p.1 = loc ∧ p.2 ∈ e.lines ∧ Applicable (rawLines text) p.2 ∧ p ∉ resolved) :
      IsBatch disk plan resolved (some .perFile) batch
  | sequential {e : FileCandidates} {loc : Location} {mode : Mode} {text : String} {n : Nat}
      (he : e ∈ plan) (hh : disk.Holds e.path loc mode text) (hn : n ∈ e.lines)
      (ha : Applicable (rawLines text) n) (hr : (loc, n) ∉ resolved) :
      IsBatch disk plan resolved (some .sequential) [(loc, n)]

structure Attempt where
  trial : Trial
  batch : List Spot

def passedSpots (as : List Attempt) : List Spot :=
  (as.filter fun a => a.trial.passed).flatMap Attempt.batch

def failedSpots (as : List Attempt) : List Spot :=
  (as.filter fun a => !a.trial.passed && a.trial.tier == some .sequential).flatMap Attempt.batch

def resolvedSpots (as : List Attempt) : List Spot :=
  passedSpots as ++ failedSpots as

/-- Each build judges one batch, on the disk without the lines that passed before. -/
def EachOneBatch (disk : Disk) (plan : Plan) : List Attempt → List Attempt → Prop
  | _, [] => True
  | before, a :: as =>
    Shows disk a.trial.disk (passedSpots before) a.batch ∧
    IsBatch disk plan (resolvedSpots before) a.trial.tier a.batch ∧
    EachOneBatch disk plan (before ++ [a]) as

theorem EachOneBatch.append {disk : Disk} {plan : Plan} {before as as' : List Attempt}
    (h : EachOneBatch disk plan before as) (h' : EachOneBatch disk plan (before ++ as) as') :
    EachOneBatch disk plan before (as ++ as') := by
  induction as generalizing before with
  | nil => simpa using h'
  | cons a as ih =>
    refine ⟨h.1, h.2.1, ih h.2.2 ?_⟩
    rwa [List.append_assoc]

theorem passedSpots_append (as as' : List Attempt) :
    passedSpots (as ++ as') = passedSpots as ++ passedSpots as' := by
  simp [passedSpots]

theorem mem_resolvedSpots_append {as as' : List Attempt} {p : Spot}
    (h : p ∈ resolvedSpots (as ++ as')) : p ∈ resolvedSpots as ∨ ∃ a ∈ as', p ∈ a.batch := by
  have hsplit : p ∈ passedSpots as ∨ p ∈ passedSpots as' ∨
      p ∈ failedSpots as ∨ p ∈ failedSpots as' := by
    simpa [resolvedSpots, passedSpots, failedSpots] using h
  rcases hsplit with h | h | h | h
  · exact .inl (List.mem_append_left _ h)
  · obtain ⟨a, ha, hp⟩ := List.mem_flatMap.1 h
    exact .inr ⟨a, (List.mem_filter.1 ha).1, hp⟩
  · exact .inl (List.mem_append_right _ h)
  · obtain ⟨a, ha, hp⟩ := List.mem_flatMap.1 h
    exact .inr ⟨a, (List.mem_filter.1 ha).1, hp⟩

/-- The layout deletes and comments out the lines at the spots, and all spots are lines of sites. -/
structure Follows (w : Layout) (sites : List Site) (gone batch : List Spot) : Prop where
  states : ∀ s ∈ sites, w s.loc = numbered (stateUnder gone batch s.loc) s.lines
  inside : ∀ p ∈ gone ++ batch, ∃ s ∈ sites, s.loc = p.1

section
variable {disk : Disk} {sites : List Site} {w w' : Layout} {gone batch : List Spot} {s : Site}

theorem Sited.eq_of_loc (h : Sited disk sites) {s t : Site} (hs : s ∈ sites) (ht : t ∈ sites)
    (he : s.loc = t.loc) : s = t :=
  List.inj_on_of_nodup_map h.distinct hs ht he

theorem Follows.shows (hf : Follows w sites gone batch) (h : Sited disk sites) :
    Shows disk (disk.laid w sites) gone batch := by
  have hnone : ∀ loc, (∀ s ∈ sites, s.loc ≠ loc) → ∀ n, (loc, n) ∉ gone ++ batch := by
    intro loc hloc n hmem
    obtain ⟨s, hs, he⟩ := hf.inside _ hmem
    exact hloc s hs he
  refine ⟨(Disk.alike_laid h w).1, ?_, ?_⟩
  · intro loc mode text hget
    by_cases hloc : ∃ s ∈ sites, s.loc = loc
    · obtain ⟨s, hs, rfl⟩ := hloc
      obtain ⟨hmode, hlines⟩ := (h.on s hs).of_text hget
      rw [Disk.get?_laid h w hs, Site.entry, hf.states s hs, hlines, hmode]
    · have hno : ∀ s ∈ sites, s.loc ≠ loc := fun s hs he => hloc ⟨s, hs, he⟩
      have hstate : stateUnder gone batch loc = fun _ => .intact := by
        funext n
        have hn := hnone loc hno n
        rw [List.mem_append, not_or] at hn
        simp [stateUnder, hn.1, hn.2]
      rw [Disk.get?_laid_other h w hno, hget, hstate, numbered_intact, renderLines_allIntact]
  · intro loc hloc
    by_cases hs : ∃ s ∈ sites, s.loc = loc
    · obtain ⟨s, hs, rfl⟩ := hs
      have hstate : stateUnder gone batch s.loc = fun _ => .intact := by
        funext n
        simp [stateUnder, (hloc n).1, (hloc n).2]
      rw [Disk.get?_laid h w hs, hf.states s hs, hstate, numbered_intact, (h.on s hs).content]
    · exact Disk.get?_laid_other h w fun s hs' he => hs ⟨s, hs', he⟩

theorem Sited.follows_asFound (h : Sited disk sites) : Follows disk.asFound sites [] [] := by
  refine ⟨fun s hs => ?_, by simp⟩
  rw [(h.on s hs).asFound, ← numbered_intact]
  rfl

theorem Follows.congr (hf : Follows w sites gone batch) (h : ∀ s ∈ sites, w' s.loc = w s.loc) :
    Follows w' sites gone batch :=
  ⟨fun s hs => (h s hs).trans (hf.states s hs), hf.inside⟩

theorem Follows.settle (hf : Follows w sites gone batch) :
    Follows (fun loc => settle .deleted (w loc)) sites (gone ++ batch) [] := by
  refine ⟨?_, by simpa using hf.inside⟩
  intro s hs
  apply ext_nth?
  intro n
  rw [nth?_settle, hf.states s hs, nth?_numbered, nth?_numbered, Option.map_map]
  congr 1
  funext _
  by_cases hb : (s.loc, n) ∈ batch <;> by_cases hg : (s.loc, n) ∈ gone <;> simp [stateUnder, hb, hg]

theorem Follows.mark (hf : Follows w sites gone []) (h : Sited disk sites) (hs : s ∈ sites)
    (ns : List Nat) :
    Follows (Function.update w s.loc (mark s.lines ns (w s.loc)).1) sites gone
      ((mark s.lines ns (w s.loc)).2.map (s.loc, ·)) := by
  constructor
  · intro t ht
    by_cases he : t.loc = s.loc
    · obtain rfl := h.eq_of_loc ht hs he
      rw [Function.update_self]
      apply ext_nth?
      intro n
      rw [nth?_mark, nth?_numbered]
      by_cases hn : n ∈ (mark t.lines ns (w t.loc)).2
      · obtain ⟨line, hline, _⟩ := (removable_iff.1 (mem_mark.1 hn).2).2
        simp [stateUnder, hn, hline]
      · have hst : nth? (w t.loc) n = (nth? t.lines n).map fun _ => stateUnder gone [] t.loc n := by
          rw [hf.states t ht, nth?_numbered]
        rw [if_neg hn, hst]
        simp [stateUnder, hn]
    · rw [Function.update_of_ne he, hf.states t ht]
      congr 1
      funext n
      simp [stateUnder, Ne.symm he]
  · intro p hp
    rcases List.mem_append.1 hp with hp | hp
    · exact hf.inside p (by simpa using hp)
    · obtain ⟨n, _, rfl⟩ := List.mem_map.1 hp
      exact ⟨s, hs, rfl⟩

theorem Follows.settled (hf : Follows w sites gone []) (hs : s ∈ sites) :
    .commentedOut ∉ w s.loc := by
  rw [hf.states s hs, numbered]
  intro hmem
  obtain ⟨x, _, hx⟩ := List.mem_map.1 hmem
  by_cases hg : (s.loc, x.2) ∈ gone <;> simp [stateUnder, hg] at hx

theorem Follows.markAt {states : List LineState}
    (hf : Follows (Function.update w s.loc states) sites gone []) (h : Sited disk sites)
    (hs : s ∈ sites) (ns : List Nat) :
    Follows (Function.update w s.loc (Draft.mark s.lines ns states).1) sites gone
      ((Draft.mark s.lines ns states).2.map (s.loc, ·)) := by
  have hm := hf.mark h hs ns
  rwa [Function.update_self, Function.update_idem] at hm

theorem Follows.settleAt {states : List LineState}
    (hf : Follows (Function.update w s.loc states) sites gone []) (h : Sited disk sites)
    (hs : s ∈ sites) (ns : List Nat) :
    Follows (Function.update w s.loc (Draft.settle .deleted (Draft.mark s.lines ns states).1)) sites
      (gone ++ (Draft.mark s.lines ns states).2.map (s.loc, ·)) [] := by
  refine (hf.markAt h hs ns).settle.congr fun t ht => ?_
  by_cases he : t.loc = s.loc
  · rw [he, Function.update_self, Function.update_self]
  · have hsettled := hf.settled ht
    rw [Function.update_of_ne he] at hsettled ⊢
    rw [Function.update_of_ne he, settle_of_not_mem hsettled]

end

/-- The builds are attempts after earlier ones, on lines in an area, and end in a layout. -/
def Attempted (disk : Disk) (plan : Plan) (sites : List Site) (area : Spot → Prop)
    (before : List Attempt) (ts : List Trial) (w : Layout) : Prop :=
  ∃ as : List Attempt, ts = as.map Attempt.trial ∧ EachOneBatch disk plan before as ∧
    Follows w sites (passedSpots (before ++ as)) [] ∧ ∀ a ∈ as, ∀ p ∈ a.batch, area p

section
variable {disk : Disk} {plan : Plan} {sites : List Site} {area : Spot → Prop}
  {before : List Attempt} {ts : List Trial} {w : Layout}

theorem Attempted.nil (hf : Follows w sites (passedSpots before) []) :
    Attempted disk plan sites area before [] w :=
  ⟨[], rfl, trivial, by rwa [List.append_nil], by simp⟩

theorem Attempted.cons {a : Attempt} (hshow : Shows disk a.trial.disk (passedSpots before) a.batch)
    (hb : IsBatch disk plan (resolvedSpots before) a.trial.tier a.batch)
    (ha : ∀ p ∈ a.batch, area p) (h : Attempted disk plan sites area (before ++ [a]) ts w) :
    Attempted disk plan sites area before (a.trial :: ts) w := by
  obtain ⟨as, rfl, has, hf, harea⟩ := h
  refine ⟨a :: as, rfl, ⟨hshow, hb, has⟩, ?_, ?_⟩
  · rwa [List.append_assoc] at hf
  · intro b hb
    rcases List.mem_cons.1 hb with rfl | hb
    · exact ha
    · exact harea b hb

theorem Attempted.append {ts' : List Trial} {w' : Layout} {as : List Attempt}
    (has : EachOneBatch disk plan before as) (harea : ∀ a ∈ as, ∀ p ∈ a.batch, area p)
    (h : Attempted disk plan sites area (before ++ as) ts' w') :
    Attempted disk plan sites area before (as.map Attempt.trial ++ ts') w' := by
  obtain ⟨as', rfl, has', hf', harea'⟩ := h
  refine ⟨as ++ as', List.map_append.symm, has.append has', by rwa [← List.append_assoc], ?_⟩
  intro a ha
  rcases List.mem_append.1 ha with ha | ha
  · exact harea a ha
  · exact harea' a ha

theorem Attempted.mono {area' : Spot → Prop} (h : Attempted disk plan sites area before ts w)
    (hsub : ∀ p, area p → area' p) : Attempted disk plan sites area' before ts w := by
  obtain ⟨as, hts, has, hf, harea⟩ := h
  exact ⟨as, hts, has, hf, fun a ha p hp => hsub p (harea a ha p hp)⟩

end

section
variable {disk : Disk} {plan : Plan} {sites : List Site} {before : List Attempt} {ts : List Trial}
  {w : Layout} {e : FileCandidates} {s : Site} {text : String} {candidates : List Candidate}
  {states states' : List LineState} {os : List Outcome}

theorem applicable_of_mark {lines : List String} {ns : List Nat} {n : Nat}
    (hm : n ∈ (mark lines ns states).2) : Applicable lines n :=
  (removable_iff.1 (mem_mark.1 hm).2).2

def Attempt.inFile (disk : Disk) (sites : List Site) (w : Layout) (s : Site)
    (states : List LineState) (tier : Tier) (ns : List Nat) (passed : Bool) : Attempt :=
  ⟨⟨some tier, disk.relaid sites w s.loc (mark s.lines ns states).1, passed⟩,
    (mark s.lines ns states).2.map (s.loc, ·)⟩

theorem mem_inFile {tier : Tier} {ns : List Nat} {passed : Bool} {p : Spot}
    (hp : p ∈ (Attempt.inFile disk sites w s states tier ns passed).batch) :
    p.1 = s.loc ∧ p.2 ∈ ns := by
  obtain ⟨n, hn, rfl⟩ := List.mem_map.1 hp
  exact ⟨rfl, (mem_mark.1 hn).1⟩

theorem Follows.passed (hf : Follows (Function.update w s.loc states) sites (passedSpots before) [])
    (h : Sited disk sites) (hs : s ∈ sites) (tier : Tier) (ns : List Nat) :
    Follows (Function.update w s.loc (Draft.settle .deleted (Draft.mark s.lines ns states).1)) sites
      (passedSpots (before ++ [.inFile disk sites w s states tier ns true])) [] := by
  rw [passedSpots_append]
  have hone : passedSpots [.inFile disk sites w s states tier ns true] =
      (Draft.mark s.lines ns states).2.map (s.loc, ·) := List.append_nil _
  rw [hone]
  exact hf.settleAt h hs ns

variable (disk) in
theorem Follows.failed (hf : Follows (Function.update w s.loc states) sites (passedSpots before) [])
    (tier : Tier) (ns : List Nat) :
    Follows (Function.update w s.loc states) sites
      (passedSpots (before ++ [.inFile disk sites w s states tier ns false])) [] := by
  rw [passedSpots_append]
  exact (List.append_nil (passedSpots before)).symm ▸ hf

/-- A build of the disk with one more line commented out, whatever its verdict. -/
theorem Attempted.line {n : Nat} {ns : List Nat} {passed : Bool} (h : Sited disk sites)
    (hs : s ∈ sites)
    (he : e ∈ plan) (hh : disk.Holds e.path s.loc s.mode text) (hlines : s.lines = rawLines text)
    (hm : (mark s.lines [n] states).2 ≠ [])
    (hf : Follows (Function.update w s.loc states) sites (passedSpots before) [])
    (hmem : n ∈ e.lines ∧ (s.loc, n) ∉ resolvedSpots before)
    (hrest : Attempted disk plan sites (fun p => p.1 = s.loc ∧ p.2 ∈ ns)
      (before ++ [.inFile disk sites w s states .sequential [n] passed]) ts
      (Function.update w s.loc states')) :
    Attempted disk plan sites (fun p => p.1 = s.loc ∧ p.2 ∈ n :: ns) before
      (⟨some .sequential, disk.relaid sites w s.loc (mark s.lines [n] states).1, passed⟩ :: ts)
      (Function.update w s.loc states') := by
  have hsingle := mark_single_of_ne hm
  have hap : Applicable s.lines n := applicable_of_mark (by rw [hsingle]; simp)
  have hbatch : IsBatch disk plan (resolvedSpots before) (some .sequential)
      ((mark s.lines [n] states).2.map (s.loc, ·)) := by
    rw [hsingle]
    exact .sequential he hh hmem.1 (hlines ▸ hap) hmem.2
  refine .cons ((hf.markAt h hs [n]).shows h) hbatch ?_
    (hrest.mono fun p hp => ⟨hp.1, List.mem_cons_of_mem n hp.2⟩)
  intro p hp
  obtain ⟨hloc, hn⟩ := mem_inFile hp
  rw [List.mem_singleton.1 hn]
  exact ⟨hloc, by simp⟩

theorem unresolved_after {n : Nat} {ns : List Nat} {passed : Bool} (hns : (n :: ns).Nodup)
    (hmem : ∀ m ∈ n :: ns, m ∈ e.lines ∧ (s.loc, m) ∉ resolvedSpots before) :
    ∀ m ∈ ns, m ∈ e.lines ∧ (s.loc, m) ∉ resolvedSpots
      (before ++ [.inFile disk sites w s states .sequential [n] passed]) := by
  intro m hm
  obtain ⟨hl, hfree⟩ := hmem m (List.mem_cons_of_mem n hm)
  refine ⟨hl, fun hres => ?_⟩
  rcases mem_resolvedSpots_append hres with hres | ⟨b, hb, hp⟩
  · exact hfree hres
  · rw [List.mem_singleton.1 hb] at hp
    have he : m = n := List.mem_singleton.1 (mem_inFile hp).2
    exact (List.nodup_cons.1 hns).1 (he ▸ hm)

theorem LineCourse.attempted {ns : List Nat} (h : Sited disk sites) (hs : s ∈ sites) (he : e ∈ plan)
    (hh : disk.Holds e.path s.loc s.mode text) (hlines : s.lines = rawLines text)
    (hc : LineCourse s.lines candidates (disk.relaid sites w s.loc) ns states ts os states')
    (hf : Follows (Function.update w s.loc states) sites (passedSpots before) [])
    (hns : ns.Nodup) (hmem : ∀ n ∈ ns, n ∈ e.lines ∧ (s.loc, n) ∉ resolvedSpots before) :
    Attempted disk plan sites (fun p => p.1 = s.loc ∧ p.2 ∈ ns) before ts
      (Function.update w s.loc states') := by
  induction hc generalizing before with
  | done => exact .nil hf
  | @skipped n ns states _ _ _ _ _ ih =>
    have hrest := ih hf (List.nodup_cons.1 hns).2 fun m hm => hmem m (List.mem_cons_of_mem n hm)
    exact hrest.mono fun p hp => ⟨hp.1, List.mem_cons_of_mem n hp.2⟩
  | @passed n ns states _ ts _ hm rest ih =>
    have hrest := ih (hf.passed h hs .sequential [n]) (List.nodup_cons.1 hns).2
      (unresolved_after hns hmem)
    exact .line h hs he hh hlines hm hf (hmem n (by simp)) hrest
  | @failed n ns states _ ts _ hm rest ih =>
    have hrest := ih (hf.failed disk .sequential [n]) (List.nodup_cons.1 hns).2
      (unresolved_after hns hmem)
    exact .line h hs he hh hlines hm hf (hmem n (by simp)) hrest

theorem Follows.removable {gone : List Spot} (hs : s ∈ sites)
    (hf : Follows (Function.update w s.loc states) sites gone []) {n : Nat}
    (hn : (s.loc, n) ∉ gone) : removable s.lines states n = true ↔ Applicable s.lines n := by
  have hstate : nth? states n = (nth? s.lines n).map fun _ => .intact := by
    have hst := hf.states s hs
    rw [Function.update_self] at hst
    rw [hst, nth?_numbered]
    simp [stateUnder, hn]
  rw [removable_iff, hstate]
  constructor
  · exact And.right
  · rintro ⟨line, hline, hlive⟩
    exact ⟨by rw [hline]; rfl, line, hline, hlive⟩

theorem isBatch_file (hs : s ∈ sites) (he : e ∈ plan) (hh : disk.Holds e.path s.loc s.mode text)
    (hlines : s.lines = rawLines text)
    (hf : Follows (Function.update w s.loc states) sites (passedSpots before) [])
    (hfree : ∀ n, (s.loc, n) ∉ resolvedSpots before) :
    IsBatch disk plan (resolvedSpots before) (some .perFile)
      ((mark s.lines e.lines states).2.map (s.loc, ·)) := by
  refine .perFile he hh ?_
  rintro ⟨loc, n⟩
  rw [← hlines, ← hf.removable hs fun hp => hfree n (List.mem_append_left _ hp)]
  constructor
  · intro hp
    obtain ⟨m, hm, hpm⟩ := List.mem_map.1 hp
    obtain ⟨rfl, rfl⟩ := Prod.mk.inj hpm
    exact ⟨rfl, (mem_mark.1 hm).1, (mem_mark.1 hm).2, hfree m⟩
  · rintro ⟨rfl, hn, hr, _⟩
    exact List.mem_map.2 ⟨n, mem_mark.2 ⟨hn, hr⟩, rfl⟩

/-- Lines that failed together stay unresolved. -/
theorem resolvedSpots_failed_file (before : List Attempt) (ns : List Nat) :
    resolvedSpots (before ++ [.inFile disk sites w s states .perFile ns false]) =
      resolvedSpots before := by
  simp [resolvedSpots, passedSpots, failedSpots, Attempt.inFile]

theorem FileCourse.attempted {refused : Prop} (h : Sited disk sites) (hs : s ∈ sites) (he : e ∈ plan)
    (hh : disk.Holds e.path s.loc s.mode text) (hlines : s.lines = rawLines text)
    (hc : FileCourse refused s.lines candidates (disk.relaid sites w s.loc) e.lines states ts os
      states')
    (hf : Follows (Function.update w s.loc states) sites (passedSpots before) [])
    (hns : e.lines.Nodup) (hfree : ∀ n, (s.loc, n) ∉ resolvedSpots before) :
    Attempted disk plan sites (fun p => p.1 = s.loc) before ts
      (Function.update w s.loc states') := by
  have hshow := (hf.markAt h hs e.lines).shows h
  have hbatch := isBatch_file hs he hh hlines hf hfree
  have harea : ∀ passed, ∀ p ∈ (Attempt.inFile disk sites w s states .perFile e.lines passed).batch,
      p.1 = s.loc := fun _ p hp => (mem_inFile hp).1
  cases hc with
  | byLine _ rest =>
    have hlinesOnly := rest.attempted h hs he hh hlines hf hns fun n hn => ⟨hn, hfree n⟩
    exact hlinesOnly.mono fun p hp => hp.1
  | skipped => exact .nil hf
  | passed => exact .cons hshow hbatch (harea true) (.nil (hf.passed h hs .perFile e.lines))
  | failed _ _ rest =>
    have hlinesOnly := rest.attempted h hs he hh hlines (hf.failed disk .perFile e.lines)
      (hns.filter _)
      fun n hn => ⟨(List.mem_filter.1 hn).1, by rw [resolvedSpots_failed_file]; exact hfree n⟩
    exact .cons hshow hbatch (harea false) (hlinesOnly.mono fun p hp => hp.1)
  | givenUp => exact .nil hf

end

def FromPlan (disk : Disk) (plan : Plan) (xs : List Placed) : Prop :=
  ∀ x ∈ xs, ∃ e ∈ plan, e.lines.Nodup ∧ place disk e = some x

theorem fromPlan_place (disk : Disk) {plan : Plan} (hlines : ∀ e ∈ plan, e.lines.Nodup) :
    FromPlan disk plan (plan.filterMap (place disk)) := by
  intro x hx
  obtain ⟨e, he, hp⟩ := List.mem_filterMap.1 hx
  exact ⟨e, he, hlines e he, hp⟩

section
variable {disk : Disk} {plan : Plan} {sites : List Site} {before : List Attempt} {ts : List Trial}
  {w w' : Layout} {xs : List Placed} {os : List Outcome}

theorem FilesCourse.attempted {refused : Prop} (before : List Attempt)
    (hc : FilesCourse refused disk sites xs w ts os w') (h : Sited disk sites) (hxs : FromPlan disk plan xs) (hsites : ∀ x ∈ xs, x.2 ∈ sites)
    (hd : (xs.map fun x => x.2.loc).Nodup) (hf : Follows w sites (passedSpots before) [])
    (hfree : ∀ x ∈ xs, ∀ n, (x.2.loc, n) ∉ resolvedSpots before) :
    Attempted disk plan sites (fun _ => True) before ts w' := by
  induction hc generalizing before with
  | nil => exact .nil hf
  | @cons x xs w w' states ts ts' os os' head tail ih =>
    obtain ⟨hnot, hd'⟩ := List.nodup_cons.1 hd
    have hw : Follows (Function.update w x.2.loc (w x.2.loc)) sites (passedSpots before) [] := by
      rwa [Function.update_eq_self]
    obtain ⟨as, rfl, has, hf', harea⟩ : Attempted disk plan sites (fun p => p.1 = x.2.loc) before ts
        (Function.update w x.2.loc states) := by
      obtain ⟨e, he, hn, hx⟩ := hxs x (by simp)
      have hs := hsites x (by simp)
      have hfree := hfree x (by simp)
      obtain ⟨text, loc, mode, _, hh, rfl⟩ := place_some hx
      exact head.attempted h hs he hh rfl hw hn hfree
    refine .append has (fun _ _ _ _ => trivial) (ih _ (fun y hy => hxs y (List.mem_cons_of_mem x hy))
      (fun y hy => hsites y (List.mem_cons_of_mem x hy)) hd' hf' ?_)
    intro y hy n hres
    rcases mem_resolvedSpots_append hres with hres | ⟨a, ha, hp⟩
    · exact hfree y (List.mem_cons_of_mem x hy) n hres
    · exact hnot (List.mem_map.2 ⟨y, hy, harea a ha _ hp⟩)

def allSpots (xs : List Placed) : List Spot :=
  xs.flatMap fun x => x.1.remaining.map (x.2.loc, ·)

theorem mem_allSpots {loc : Location} {n : Nat} :
    (loc, n) ∈ allSpots xs ↔ ∃ x ∈ xs, x.2.loc = loc ∧ n ∈ x.1.remaining := by
  simp only [allSpots, List.mem_flatMap, List.mem_map, Prod.mk.injEq]
  constructor
  · rintro ⟨x, hx, m, hm, hloc, rfl⟩
    exact ⟨x, hx, hloc, hm⟩
  · rintro ⟨x, hx, hloc, hn⟩
    exact ⟨x, hx, n, hn, hloc, rfl⟩

theorem follows_markAll (hxs : FromPlan disk plan xs) (hd : (xs.map fun x => x.2.loc).Nodup)
    (hm : allMarkable xs w = true) (hf : Follows w (xs.map Prod.snd) [] []) :
    Follows (markAll xs w) (xs.map Prod.snd) [] (allSpots xs) := by
  constructor
  · intro s hs
    obtain ⟨x, hx, rfl⟩ := List.mem_map.1 hs
    have hlines : x.1.draft.lines = x.2.lines := by
      obtain ⟨e, _, _, hp⟩ := hxs x hx
      obtain ⟨text, loc, mode, _, _, rfl⟩ := place_some hp
      rfl
    have hsame := mark_of_allMarkable hm hx
    rw [hlines] at hsame
    have hspot : ∀ n, (x.2.loc, n) ∈ allSpots xs ↔ n ∈ x.1.remaining := by
      intro n
      rw [mem_allSpots]
      constructor
      · rintro ⟨y, hy, hloc, hn⟩
        obtain rfl := List.inj_on_of_nodup_map hd hy hx hloc
        exact hn
      · exact fun hn => ⟨x, hx, rfl, hn⟩
    rw [markAll_mem hd hx, hlines]
    apply ext_nth?
    intro n
    rw [nth?_mark, nth?_numbered, hsame]
    by_cases hn : n ∈ x.1.remaining
    · obtain ⟨line, hline, _⟩ := applicable_of_mark (hsame.symm ▸ hn)
      simp [stateUnder, hspot, hn, hline]
    · rw [if_neg hn, hf.states x.2 hs, nth?_numbered]
      simp [stateUnder, hspot, hn]
  · intro p hp
    obtain ⟨x, hx, hloc, _⟩ := mem_allSpots.1 (by simpa using hp)
    exact ⟨x.2, List.mem_map_of_mem hx, hloc⟩

theorem isBatch_all (disk : Disk) (plan : Plan) :
    IsBatch disk plan [] (some .global) (allSpots (plan.filterMap (place disk))) := by
  refine .global fun loc n => ?_
  rw [mem_allSpots]
  constructor
  · rintro ⟨x, hx, rfl, hn⟩
    obtain ⟨e, he, hp⟩ := List.mem_filterMap.1 hx
    obtain ⟨text, loc, mode, _, hh, rfl⟩ := place_some hp
    exact ⟨e, he, hn, mode, text, hh⟩
  · rintro ⟨e, he, hn, mode, text, hh⟩
    have hne : e.candidates ≠ [] := by
      intro hnil
      simp [FileCandidates.lines, hnil] at hn
    exact ⟨_, List.mem_filterMap.2 ⟨e, he, place_of_holds hne hh⟩, rfl, hn⟩

end

theorem PlanCourse.attempted {refused : Prop} {disk : Disk} {plan : Plan} {w : Layout}
    {ts : List Trial} {os : List Outcome}
    (hc : PlanCourse refused disk (plan.filterMap (place disk)) disk.asFound ts os w) (hsep : Separate disk plan) (hlines : ∀ e ∈ plan, e.lines.Nodup) :
    ∃ as : List Attempt, ts = as.map Attempt.trial ∧ EachOneBatch disk plan [] as := by
  have h := place_sited hsep
  have hd := place_distinct hsep
  have hxs := fromPlan_place disk hlines
  have hsites : ∀ x ∈ plan.filterMap (place disk),
      x.2 ∈ (plan.filterMap (place disk)).map Prod.snd :=
    fun x hx => List.mem_map_of_mem hx
  have hf := h.follows_asFound
  have hall := isBatch_all disk plan
  cases hc with
  | idle => exact ⟨[], rfl, trivial⟩
  | passed _ hm =>
    have hshow := (follows_markAll hxs hd hm hf).shows h
    exact ⟨[⟨_, allSpots (plan.filterMap (place disk))⟩], rfl, hshow, hall, trivial⟩
  | failed _ hm rest =>
    have hshow := (follows_markAll hxs hd hm hf).shows h
    -- a failing batch of all files resolves nothing
    obtain ⟨as, rfl, has, _⟩ := rest.attempted
      [⟨⟨some .global, _, false⟩, allSpots (plan.filterMap (place disk))⟩] h hxs hsites hd hf
      fun x _ n => List.not_mem_nil
    exact ⟨⟨_, allSpots (plan.filterMap (place disk))⟩ :: as, rfl, hshow, hall, has⟩
  | abandoned _ _ rest =>
    obtain ⟨as, hts, has, _⟩ := rest.attempted [] h hxs hsites hd hf fun x _ n => List.not_mem_nil
    exact ⟨as, hts, has⟩

/-- Every build of a run after the one before the first edit sees the disk as it was found, with the
lines that earlier builds have passed deleted and those of one batch commented out. -/
theorem one_batch_at_a_time {build : Build σ} {plan : Plan} {s : Session σ} (hq : Quiet build)
    (hsep : Separate s.world.disk plan) (hlines : ∀ e ∈ plan, e.lines.Nodup)
    (ht : s.tainted = false) :
    ∃ as : List Attempt,
      (run build plan s).2.trials = s.trials ++ s.preflight build ++ as.map Attempt.trial ∧
      EachOneBatch s.world.disk plan [] as := by
  rcases hrun : run build plan s with ⟨_ | report, s'⟩
  · rcases run_checked build plan s with ⟨u, he, _⟩ | ⟨_, htrials⟩
    · rw [he] at hrun
      simp at hrun
    · rw [hrun] at htrials
      exact ⟨[], by simpa using htrials, trivial⟩
  · obtain ⟨ts, os, w, hu⟩ := run_undisturbed hq hsep ht hrun
    obtain ⟨as, rfl, has⟩ := hu.course.attempted hsep hlines
    exact ⟨as, hu.trials, has⟩

theorem one_batch_at_a_time_requiresFirst :
    ∃ as : List Attempt,
      (run requiresFirst.toBuild twoEntries (Session.start ⟨twoFiles, 0⟩)).2.trials =
        ⟨none, twoFiles, true⟩ :: as.map Attempt.trial ∧
      EachOneBatch twoFiles twoEntries [] as := by
  have hlines : ∀ e ∈ twoEntries, e.lines.Nodup := by decide
  have hpass : (Session.start ⟨twoFiles, 0⟩).preflight requiresFirst.toBuild =
      [⟨none, twoFiles, true⟩] := by decide
  obtain ⟨as, htrials, has⟩ :=
    one_batch_at_a_time (requiresFirst.toBuild_quiet rfl) twoEntries_separate hlines
      (s := Session.start ⟨twoFiles, 0⟩) rfl
  rw [hpass] at htrials
  exact ⟨as, htrials, has⟩

end IncludeSweep
