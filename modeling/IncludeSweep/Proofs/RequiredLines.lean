import Mathlib.Data.Nat.Find
import IncludeSweep.Proofs.Accounting
import IncludeSweep.Proofs.Greedy

set_option autoImplicit false

/-! # A run against required lines

When all a build asks for is that certain lines are there, what a run keeps has a closed form. A
candidate is needed if a requirement on its file asks for its text and every other line of the file
with that text is a candidate before it: those go first, and the last one has to stay. -/

namespace IncludeSweep

open Text Draft Rehearsal

theorem trimEndChars_initial (cs : List Char) : trimEndChars cs <+: cs := by
  have hsuffix : cs.reverse.dropWhile isWhite <:+ cs.reverse := List.dropWhile_suffix _
  simpa [trimEndChars] using List.reverse_prefix.2 hsuffix

theorem trimEndChars_append {front : List Char} {c : Char} (hc : isWhite c = false)
    (rest : List Char) : front ++ [c] <+: trimEndChars (front ++ [c] ++ rest) := by
  unfold trimEndChars
  rw [List.reverse_append, List.dropWhile_append]
  split
  · simp [hc]
  · simp

theorem isPrefixOf_trimEndChars {front : List Char} {c : Char} (hc : isWhite c = false)
    (cs : List Char) :
    (front ++ [c]).isPrefixOf cs = (front ++ [c]).isPrefixOf (trimEndChars cs) := by
  rw [Bool.eq_iff_iff, List.isPrefixOf_iff_prefix, List.isPrefixOf_iff_prefix]
  constructor
  · rintro ⟨rest, rfl⟩
    exact trimEndChars_append hc rest
  · exact fun h => h.trans (trimEndChars_initial cs)

theorem commented_eq_trim (line : String) : Directive.commented line =
    ((['/'] ++ ['/']).isPrefixOf (trimChars line.toList) ||
      (['/'] ++ ['*']).isPrefixOf (trimChars line.toList)) := by
  have hslash : isWhite '/' = false := by decide
  have hstar : isWhite '*' = false := by decide
  unfold trimChars
  rw [← isPrefixOf_trimEndChars hslash, ← isPrefixOf_trimEndChars hstar]
  rfl

theorem commented_of_trim_eq {a b : String} (h : trim a = trim b) :
    Directive.commented a = Directive.commented b := by
  have hchars : trimChars a.toList = trimChars b.toList := by
    simpa [trim] using congrArg String.toList h
  rw [commented_eq_trim, commented_eq_trim, hchars]

def Selected (disk : Disk) (e : FileCandidates) : Prop :=
  ∃ reported text, disk.readText e.path = .ok text ∧ e = .select e.path reported text

theorem candidate?_eq_some {path : Path} {raw : List String} {n : Nat} {c : Candidate} :
    FileCandidates.candidate? path raw n = some c ↔ ∃ line, nth? raw n = some line ∧
      Directive.live (stripTerminator line) = true ∧ c = ⟨path, n, stripTerminator line⟩ := by
  unfold FileCandidates.candidate?
  cases nth? raw n with
  | none => simp
  | some line =>
    constructor
    · intro h
      obtain ⟨hlive, hc⟩ := Option.ite_none_right_eq_some.1 h
      exact ⟨line, rfl, hlive, (Option.some.inj hc).symm⟩
    · rintro ⟨line', hline, hlive, rfl⟩
      obtain rfl := Option.some.inj hline
      exact if_pos hlive

section
variable {disk : Disk} {plan : Plan} {e e' : FileCandidates} {c : Candidate} {t u : Target}
  {loc : Location} {mode : Mode} {text : String}

theorem Selected.ascending (h : Selected disk e) : e.lines.Pairwise (· < ·) := by
  obtain ⟨reported, text, _, he⟩ := h
  rw [he, FileCandidates.lines, FileCandidates.select, List.pairwise_map, List.pairwise_filterMap]
  refine (numberSet_ascending reported).imp ?_
  intro n m hlt c hc d hd
  obtain ⟨_, _, _, rfl⟩ := candidate?_eq_some.1 hc
  obtain ⟨_, _, _, rfl⟩ := candidate?_eq_some.1 hd
  exact hlt

theorem Selected.nodup (h : Selected disk e) : e.lines.Nodup :=
  h.ascending.imp Nat.ne_of_lt

theorem Selected.candidate (h : Selected disk e) (hh : disk.Holds e.path loc mode text)
    (hc : c ∈ e.candidates) : ∃ line, nth? (rawLines text) c.line = some line ∧
      Directive.live (stripTerminator line) = true ∧ c.content = stripTerminator line := by
  obtain ⟨reported, read, ht, he⟩ := h
  obtain rfl : read = text := Except.ok.inj (ht.symm.trans hh.readText)
  rw [he, FileCandidates.select] at hc
  obtain ⟨n, _, hn⟩ := List.mem_filterMap.1 hc
  obtain ⟨line, hline, hlive, rfl⟩ := candidate?_eq_some.1 hn
  exact ⟨line, hline, hlive, rfl⟩

theorem Selected.targetsOf (h : Selected disk e) (hh : disk.Holds e.path loc mode text) :
    disk.targetsOf e = e.candidates.map (⟨·, loc⟩) := by
  rw [hh.targetsOf, targetsIn, List.filter_eq_self.2]
  intro c hc
  obtain ⟨line, hline, hlive, _⟩ := h.candidate hh hc
  simpa using ⟨line, hline, hlive⟩

theorem Disk.mem_targetsOf (h : t ∈ disk.targetsOf e) :
    ∃ mode text, disk.Holds e.path t.loc mode text ∧ t.candidate ∈ e.candidates := by
  cases ht : disk.readText e.path with
  | error cause => simp [Disk.targetsOf, ht] at h
  | ok text =>
    obtain ⟨loc, mode, hh⟩ := Disk.readText_ok ht
    rw [hh.targetsOf] at h
    obtain ⟨c, hc, rfl⟩ := List.mem_map.1 h
    exact ⟨mode, text, hh, (List.mem_filter.1 hc).1⟩

theorem Separate.same_entry (hsep : Separate disk plan) (he : e ∈ plan) (he' : e' ∈ plan)
    (ht : t ∈ disk.targetsOf e) (hu : u ∈ disk.targetsOf e') (hloc : t.loc = u.loc) : e = e' := by
  obtain ⟨mode, text, hh, _⟩ := Disk.mem_targetsOf ht
  obtain ⟨mode', text', hh', _⟩ := Disk.mem_targetsOf hu
  by_contra hne
  exact hsep.loc_ne he he' hne hh hh' hloc

theorem targets_ascending (hsep : Separate disk plan)
    (hasc : ∀ e ∈ plan, e.lines.Pairwise (· < ·)) :
    (disk.targets plan).Pairwise fun t u => t.loc = u.loc → t.candidate.line < u.candidate.line := by
  rw [Disk.targets, List.pairwise_flatMap]
  constructor
  · intro e he
    cases ht : disk.readText e.path with
    | error cause => simp [Disk.targetsOf, ht]
    | ok text =>
      obtain ⟨loc, mode, hh⟩ := Disk.readText_ok ht
      have hlines := hasc e he
      rw [FileCandidates.lines, List.pairwise_map] at hlines
      rw [hh.targetsOf, targetsIn, List.pairwise_map]
      refine (hlines.filter _).imp ?_
      exact fun hlt _ => hlt
  · refine hsep.distinct.imp ?_
    intro e e' hne t ht u hu hloc
    obtain ⟨mode, text, hh, _⟩ := Disk.mem_targetsOf ht
    obtain ⟨mode', text', hh', _⟩ := Disk.mem_targetsOf hu
    refine absurd ?_ (hne text text' hh.readText hh'.readText)
    rw [hh.leads, hh'.leads, hloc]

theorem eq_of_spot
    (hasc : (disk.targets plan).Pairwise fun t u => t.loc = u.loc →
      t.candidate.line < u.candidate.line)
    (ht : t ∈ disk.targets plan) (hu : u ∈ disk.targets plan) (h : t.spot = u.spot) : t = u := by
  have hnodup : ((disk.targets plan).map Target.spot).Nodup := by
    rw [List.Nodup, List.pairwise_map]
    refine hasc.imp fun hlt heq => ?_
    obtain ⟨hloc, hline⟩ := Prod.mk.inj heq
    have := hlt hloc
    omega
  exact List.inj_on_of_nodup_map hnodup ht hu h

end

theorem greedy_eq_filter {V : Disk → Bool} {disk : Disk} (p : Target → Bool) (todo : List Target) :
    ∀ done : List Target, (∀ front t rest, todo = front ++ t :: rest →
      V (disk.without (spots ((done ++ front).filter p ++ [t]))) = p t) →
    greedy V disk (done.filter p) todo = (done ++ todo).filter p := by
  induction todo with
  | nil =>
    intro done _
    simp [greedy]
  | cons t todo ih =>
    intro done h
    have hfirst := h [] t todo rfl
    rw [List.append_nil] at hfirst
    have hrest := ih (done ++ [t]) fun front u rest hsplit => by
      rw [← List.append_cons]
      exact h (t :: front) u rest (by rw [hsplit, List.cons_append])
    rw [List.append_cons, ← hrest]
    cases hp : p t with
    | true => rw [greedy_pass (hfirst.trans hp), List.filter_append, List.filter_singleton, hp]; rfl
    | false => rw [greedy_fail (hfirst.trans hp), List.filter_append, List.filter_singleton, hp]; simp

def Disk.linesOf (disk : Disk) (path : Path) : List (String × Nat) :=
  match disk.readText path with
  | .ok text => (rawLines text).zipIdx 1
  | .error _ => []

/-- A requirement on the file asks for the text of the candidate, and every other line with that
text is a candidate before it. -/
def Needed (script : BuildScript) (disk : Disk) (e : FileCandidates) (c : Candidate) : Prop :=
  (∃ r ∈ script.required, disk.locate r.1 = disk.locate e.path ∧ trim r.2 = trim c.content) ∧
    ∀ x ∈ disk.linesOf e.path, trim (stripTerminator x.1) = trim c.content →
      x.2 = c.line ∨ x.2 ∈ e.lines ∧ x.2 < c.line

instance (script : BuildScript) (disk : Disk) (e : FileCandidates) (c : Candidate) :
    Decidable (Needed script disk e c) := by
  unfold Needed
  infer_instance

def Stays (script : BuildScript) (disk : Disk) (plan : Plan) (t : Target) : Prop :=
  ∃ e ∈ plan, t ∈ disk.targetsOf e ∧ Needed script disk e t.candidate

instance (script : BuildScript) (disk : Disk) (plan : Plan) (t : Target) :
    Decidable (Stays script disk plan t) := by
  unfold Stays
  infer_instance

section
variable {script : BuildScript} {disk : Disk} {plan : Plan} {e : FileCandidates} {t : Target}
  {loc : Location} {mode : Mode} {text : String}

theorem Disk.Holds.mem_linesOf (h : disk.Holds e.path loc mode text) {line : String} {n : Nat} :
    (line, n) ∈ disk.linesOf e.path ↔ nth? (rawLines text) n = some line := by
  rw [Disk.linesOf, h.readText]
  exact mem_zipIdx_one

theorem stays_iff (hsep : Separate disk plan) (he : e ∈ plan) (ht : t ∈ disk.targetsOf e) :
    Stays script disk plan t ↔ Needed script disk e t.candidate := by
  constructor
  · rintro ⟨e', he', ht', hneed⟩
    rwa [hsep.same_entry he he' ht ht' rfl]
  · exact fun hneed => ⟨e, he, ht, hneed⟩

theorem supplies_of_trim_eq {wanted line line' : String}
    (h : supplies wanted line = true)
    (htrim : trim (stripTerminator line') = trim (stripTerminator line)) :
    supplies wanted line' = true := by
  rw [supplies_iff] at h ⊢
  exact ⟨htrim.trans h.1, (commented_of_trim_eq htrim).trans h.2⟩

theorem exists_last_supplying {wanted : String} {lines : List String} {n : Nat} {line : String}
    (hline : nth? lines n = some line) (hsup : supplies wanted line = true) :
    ∃ m last, nth? lines m = some last ∧ supplies wanted last = true ∧
      ∀ k other, nth? lines k = some other → supplies wanted other = true → k ≤ m := by
  let p : Nat → Prop := fun k => (nth? lines k).any (supplies wanted) = true
  have hp : ∀ k other, nth? lines k = some other → supplies wanted other = true → p k := by
    intro k other hk hother
    simp [p, hk, hother]
  have hbound : ∀ k other, nth? lines k = some other → k ≤ lines.length := by
    intro k other hk
    obtain ⟨i, rfl, hi⟩ := nth?_eq_some.1 hk
    exact (List.getElem?_eq_some_iff.1 hi).1
  have hgreatest : p (Nat.findGreatest p lines.length) :=
    Nat.findGreatest_spec (hbound n line hline) (hp n line hline hsup)
  obtain ⟨last, hlast, hsup'⟩ := (Option.any_eq_true _ _).1 hgreatest
  exact ⟨_, last, hlast, hsup', fun k other hk hother =>
    Nat.le_findGreatest (hbound k other hk) (hp k other hk hother)⟩

theorem Disk.Holds.same_text {path path' : Path} {mode' : Mode} {text' : String}
    (h : disk.Holds path loc mode text) (h' : disk.Holds path' loc mode' text') :
    mode = mode' ∧ text = text' := by
  have hleads : disk.Holds path loc mode' text' := ⟨h.leads, h'.reads, h'.content⟩
  obtain ⟨_, hmode, htext⟩ := hleads.unique h
  exact ⟨hmode, htext⟩

/-- What is not needed can go, all of it. Of the lines that meet a requirement the last one is no
candidate, or it is needed. -/
theorem met_without_unneeded (hsep : Separate disk plan) (hsel : ∀ e ∈ plan, Selected disk e)
    {r : Path × String} (hr : r ∈ script.required) (h : Met disk [] r) :
    Met disk (spots ((disk.targets plan).filter fun t => ¬ Stays script disk plan t)) r := by
  have hasc := targets_ascending hsep fun e he => (hsel e he).ascending
  obtain ⟨loc, mode, text, n₀, line₀, hh, hline₀, _, hsup₀⟩ := h
  by_cases hout : ∃ n line, nth? (rawLines text) n = some line ∧ supplies r.2 line = true ∧
      (loc, n) ∉ spots (disk.targets plan)
  · obtain ⟨n, line, hline, hsup, hnot⟩ := hout
    exact ⟨loc, mode, text, n, line, hh, hline,
      fun hmem => hnot (spots_subset List.filter_sublist.subset hmem), hsup⟩
  have hin : ∀ n line, nth? (rawLines text) n = some line → supplies r.2 line = true →
      ∃ e ∈ plan, ∃ t ∈ disk.targetsOf e, t.spot = (loc, n) := by
    intro n line hline hsup
    by_contra hno
    refine hout ⟨n, line, hline, hsup, fun hmem => hno ?_⟩
    obtain ⟨t, ht, hspot⟩ := List.mem_map.1 hmem
    obtain ⟨e, he, hte⟩ := List.mem_flatMap.1 ht
    exact ⟨e, he, t, hte, hspot⟩
  -- all lines that meet the requirement are targets, and the last of them stays
  obtain ⟨n, line, hline, hsup, hlast⟩ := exists_last_supplying hline₀ hsup₀
  obtain ⟨e, he, t, ht, hspot⟩ := hin n line hline hsup
  obtain ⟨mode', text', hh', hcand⟩ := Disk.mem_targetsOf ht
  obtain ⟨rfl, rfl⟩ := Prod.mk.inj hspot
  obtain ⟨rfl, rfl⟩ := hh.same_text hh'
  obtain ⟨line', hline', _, hcontent⟩ := (hsel e he).candidate hh' hcand
  obtain rfl : line = line' := Option.some.inj (hline.symm.trans hline')
  have hstays : Stays script disk plan t := by
    refine ⟨e, he, ht, ⟨r, hr, hh.leads.trans hh'.leads.symm, ?_⟩, ?_⟩
    · rw [hcontent, (supplies_iff.1 hsup).1]
    · rintro ⟨other, m⟩ hmem htrim
      rw [hcontent] at htrim
      have hm := hh'.mem_linesOf.1 hmem
      have hsup' := supplies_of_trim_eq hsup htrim
      obtain ⟨e', he', u, hu, huspot⟩ := hin m other hm hsup'
      obtain ⟨huloc, rfl⟩ := Prod.mk.inj huspot
      obtain rfl := hsep.same_entry he he' ht hu huloc.symm
      obtain ⟨_, _, _, hucand⟩ := Disk.mem_targetsOf hu
      rcases Nat.lt_or_eq_of_le (hlast _ _ hm hsup') with hlt | heq
      · exact .inr ⟨List.mem_map_of_mem hucand, hlt⟩
      · exact .inl heq
  refine ⟨t.loc, mode, text, t.candidate.line, line, hh, hline, fun hmem => ?_, hsup⟩
  obtain ⟨u, hu, huspot⟩ := List.mem_map.1 hmem
  obtain ⟨hu, hleaves⟩ := List.mem_filter.1 hu
  obtain rfl := eq_of_spot hasc hu (List.mem_flatMap.2 ⟨e, he, ht⟩) huspot
  simp [hstays] at hleaves

/-- A needed target cannot go when those before it are gone that are not needed. -/
theorem unmet_of_stays (hsep : Separate disk plan) (hsel : ∀ e ∈ plan, Selected disk e)
    {done todo : List Target} (hsplit : disk.targets plan = done ++ t :: todo)
    (hstays : Stays script disk plan t) :
    ∃ r ∈ script.required,
      ¬ Met disk (spots (done.filter (fun t => ¬ Stays script disk plan t) ++ [t])) r := by
  have hasc := targets_ascending hsep fun e he => (hsel e he).ascending
  obtain ⟨e, he, ht, ⟨r, hr, hsame, htrim⟩, hall⟩ := hstays
  obtain ⟨mode', text', hh', hcand⟩ := Disk.mem_targetsOf ht
  obtain ⟨own, hown, _, hcontent⟩ := (hsel e he).candidate hh' hcand
  refine ⟨r, hr, ?_⟩
  rintro ⟨loc, mode, text, n, line, hh, hline, hleft, hsup⟩
  obtain rfl : t.loc = loc := Except.ok.inj (hh'.leads.symm.trans (hsame.symm.trans hh.leads))
  obtain ⟨rfl, rfl⟩ := hh.same_text hh'
  have htext : trim (stripTerminator line) = trim t.candidate.content :=
    (supplies_iff.1 hsup).1.trans htrim
  rcases hall (line, n) (hh'.mem_linesOf.2 hline) htext with hn | ⟨hn, hlt⟩
  · exact hleft (List.mem_map.2 ⟨t, by simp, congrArg (Prod.mk t.loc) hn.symm⟩)
  · -- the line belongs to a candidate before this one, which is therefore not needed
    obtain ⟨d, hd, rfl⟩ := List.mem_map.1 hn
    have hu : ⟨d, t.loc⟩ ∈ disk.targetsOf e := by
      rw [(hsel e he).targetsOf hh']
      exact List.mem_map_of_mem hd
    have hdone : ⟨d, t.loc⟩ ∈ done := by
      have hmem : ⟨d, t.loc⟩ ∈ disk.targets plan := List.mem_flatMap.2 ⟨e, he, hu⟩
      rw [hsplit] at hmem hasc
      rcases List.mem_append.1 hmem with hmem | hmem
      · exact hmem
      · have hafter := (List.pairwise_cons.1 (List.pairwise_append.1 hasc).2.1).1
        rcases List.mem_cons.1 hmem with heq | hmem
        · have hline := congrArg (fun u => u.candidate.line) heq
          exact absurd hlt (Nat.not_lt.2 (Nat.le_of_eq hline.symm))
        · exact absurd hlt (Nat.not_lt.2 (Nat.le_of_lt (hafter _ hmem rfl)))
    have hleaves : ¬ Stays script disk plan ⟨d, t.loc⟩ := by
      rw [stays_iff hsep he hu]
      rintro ⟨_, hall'⟩
      obtain ⟨line', hline', _, hcontent'⟩ := (hsel e he).candidate hh' hd
      obtain rfl : line = line' := Option.some.inj (hline.symm.trans hline')
      have hsame' : trim (stripTerminator own) = trim d.content := by
        rw [hcontent', htext, hcontent]
      rcases hall' (own, t.candidate.line) (hh'.mem_linesOf.2 hown) hsame' with heq | ⟨_, hlt'⟩
      · exact Nat.ne_of_gt hlt heq
      · exact Nat.lt_asymm hlt hlt'
    exact hleft (List.mem_map.2 ⟨⟨d, t.loc⟩,
      List.mem_append_left _ (List.mem_filter.2 ⟨hdone, by simpa using hleaves⟩), rfl⟩)

theorem greedy_check (hsep : Separate disk plan) (hsel : ∀ e ∈ plan, Selected disk e)
    (hcheck : script.check disk = true) :
    greedy script.check disk [] (disk.targets plan) =
      (disk.targets plan).filter fun t => ¬ Stays script disk plan t := by
  have hshown : script.check (disk.showing [] []) = true := hcheck
  have hmet := BuildScript.check_showing.1 hshown
  refine greedy_eq_filter _ (disk.targets plan) [] fun done t todo hsplit => ?_
  rw [List.nil_append, Bool.eq_iff_iff, decide_eq_true_iff, Disk.without,
    BuildScript.check_showing, List.append_nil]
  constructor
  · rintro ⟨_, hall⟩ hstays
    obtain ⟨r, hr, hno⟩ := unmet_of_stays hsep hsel hsplit hstays
    exact hno (hall r hr)
  · intro hleaves
    refine ⟨hmet.1, fun r hr => ?_⟩
    obtain ⟨loc, mode, text, n, line, hh, hline, hnot, hsup⟩ :=
      met_without_unneeded hsep hsel hr (hmet.2 r hr)
    refine ⟨loc, mode, text, n, line, hh, hline, fun hmem => hnot ?_, hsup⟩
    refine spots_subset (fun u hu => ?_) hmem
    rw [hsplit, List.filter_append]
    rcases List.mem_append.1 hu with hu | hu
    · exact List.mem_append_left _ hu
    · rw [List.mem_singleton.1 hu]
      exact List.mem_append_right _ (List.mem_filter.2 ⟨by simp, by simpa using hleaves⟩)

theorem candidates_leaving (hsep : Separate disk plan) (hsel : ∀ e ∈ plan, Selected disk e) :
    ((disk.targets plan).filter fun t => ¬ Stays script disk plan t).map Target.candidate =
      plan.flatMap fun e => e.candidates.filter fun c => ¬ Needed script disk e c := by
  rw [Disk.targets, List.filter_flatMap, List.map_flatMap]
  refine List.flatMap_congr fun e he => ?_
  obtain ⟨_, text, ht, _⟩ := hsel e he
  obtain ⟨loc, mode, hh⟩ := Disk.readText_ok ht
  have htargets := (hsel e he).targetsOf hh
  rw [htargets, List.filter_map, List.map_map]
  refine (List.map_id _).trans (List.filter_congr fun c hc => ?_)
  have hmem : ⟨c, loc⟩ ∈ disk.targetsOf e := by
    rw [htargets]
    exact List.mem_map_of_mem hc
  simp [stays_iff hsep he hmem]

theorem leaving_staying_perm (script : BuildScript) (disk : Disk) (plan : Plan) :
    ((plan.flatMap fun e => e.candidates.filter fun c => ¬ Needed script disk e c) ++
      plan.flatMap fun e => e.candidates.filter fun c => Needed script disk e c).Perm
      (plan.flatMap FileCandidates.candidates) := by
  refine (List.flatMap_append_perm _ _ _).trans (List.Perm.flatMap_left _ fun e _ => ?_)
  have hsplit := List.filter_append_perm (fun c => decide (¬ Needed script disk e c)) e.candidates
  simpa using hsplit

theorem separate_singleton (h : disk.locateName e.path = disk.locate e.path) :
    Separate disk [e] where
  regular := by
    intro e' he' _ _
    rwa [List.mem_singleton.1 he']
  distinct := List.pairwise_singleton _ _

theorem Separate.perm {plan' : Plan} (h : Separate disk plan) (hperm : plan'.Perm plan) :
    Separate disk plan' where
  regular := fun e he => h.regular e (hperm.mem_iff.1 he)
  distinct := hperm.symm.pairwise h.distinct fun hne text text' ht ht' => (hne text' text ht' ht).symm

end

structure Resolves (script : BuildScript) (disk : Disk) (plan : Plan) (report : Report) : Prop where
  committed : report.committed.Perm
    (plan.flatMap fun e => e.candidates.filter fun c => ¬ Needed script disk e c)
  kept : ((report.outcomes.filter fun o => !o.isCommitted).map Outcome.candidate).Perm
    (plan.flatMap fun e => e.candidates.filter fun c => Needed script disk e c)

theorem run_resolves {script : BuildScript} {plan : Plan} {s : Session Nat}
    (hedits : script.edits = []) (hverdicts : ∀ v ∈ script.verdicts, v = true)
    (hcheck : script.check s.world.disk = true) (hsel : ∀ e ∈ plan, Selected s.world.disk e)
    (hsep : Separate s.world.disk plan) (htakes : TakesWrites s.world.disk plan)
    (ht : s.tainted = false) :
    ∃ report s', run script.toBuild plan s = (some report, s') ∧
      Resolves script s.world.disk plan report := by
  have hq := script.toBuild_quiet hedits
  have hj := script.toBuild_judges hverdicts
  have hlines : ∀ e ∈ plan, e.lines.Nodup := fun e he =>
    (hsel e he).ascending.imp fun hlt => Nat.ne_of_lt hlt
  obtain ⟨report, s', hrun⟩ := reports_of_pass ((hj s.world).trans hcheck) plan
  obtain ⟨ts, os, w, hu⟩ := run_undisturbed hq hsep ht hrun
  have hcommit := (hu.greedy hj (script.check_consistent _ _) hsep htakes hlines).1
  rw [greedy_check hsep hsel hcheck, candidates_leaving hsep hsel] at hcommit
  refine ⟨report, s', hrun, hcommit, ?_⟩
  have hall := (run_accounted hlines hrun).complete
  have hsplit := (List.filter_append_perm Outcome.isCommitted report.outcomes).map Outcome.candidate
  rw [List.map_append] at hsplit
  have hboth := (hsplit.trans hall).trans (leaving_staying_perm script s.world.disk plan).symm
  exact (List.perm_append_left_iff _).1 ((hcommit.symm.append_right _).trans hboth)

/-- A run against required lines keeps the needed candidates and commits all others, in whatever
order the entries of the plan come. -/
theorem keeps_exactly_needed {script : BuildScript} {plan : Plan} {s : Session Nat}
    (hedits : script.edits = []) (hverdicts : ∀ v ∈ script.verdicts, v = true)
    (hcheck : script.check s.world.disk = true) (hsel : ∀ e ∈ plan, Selected s.world.disk e)
    (hsep : Separate s.world.disk plan) (htakes : TakesWrites s.world.disk plan)
    (ht : s.tainted = false) :
    ∃ report s', run script.toBuild plan s = (some report, s') ∧
      ((report.outcomes.filter fun o => !o.isCommitted).map Outcome.candidate).Perm
        (plan.flatMap fun e => e.candidates.filter fun c => Needed script s.world.disk e c) ∧
      report.committed.Perm
        (plan.flatMap fun e => e.candidates.filter fun c => ¬ Needed script s.world.disk e c) ∧
      ∀ plan' : Plan, plan'.Perm plan → ∃ report' s'',
        run script.toBuild plan' s = (some report', s'') ∧
        report'.committed.Perm report.committed := by
  obtain ⟨report, s', hrun, hres⟩ := run_resolves hedits hverdicts hcheck hsel hsep htakes ht
  refine ⟨report, s', hrun, hres.kept, hres.committed, fun plan' hperm => ?_⟩
  obtain ⟨report', s'', hrun', hres'⟩ := run_resolves hedits hverdicts hcheck
    (fun e he => hsel e (hperm.mem_iff.1 he)) (hsep.perm hperm)
    (fun e he => htakes e (hperm.mem_iff.1 he)) ht
  refine ⟨report', s'', hrun', hres'.committed.trans ?_⟩
  exact (hperm.flatMap_right _).trans hres.committed.symm

def repeatedText : String :=
  "#include <x.h>\n#include <y.h>\n  #include <x.h>\n"

def repeatedLine : Disk :=
  ⟨["src"], [(["src"], .dir), (["src", "a.cc"], .file 0o644 (encode repeatedText))], []⟩

theorem keeps_exactly_needed_repeatedLine :
    ∃ report s,
      run requiresOne.toBuild [.select ⟨"a.cc"⟩ [3, 1, 2, 3] repeatedText]
        (Session.start ⟨repeatedLine, 0⟩) = (some report, s) ∧
      ((report.outcomes.filter fun o => !o.isCommitted).map Outcome.candidate).Perm
        [⟨⟨"a.cc"⟩, 3, "  #include <x.h>"⟩] ∧
      report.committed.Perm
        [⟨⟨"a.cc"⟩, 1, "#include <x.h>"⟩, ⟨⟨"a.cc"⟩, 2, "#include <y.h>"⟩] := by
  have hread : repeatedLine.readText ⟨"a.cc"⟩ = .ok repeatedText := by decide +kernel
  have hcheck : requiresOne.check repeatedLine = true := by decide +kernel
  have hsel : ∀ e ∈ [FileCandidates.select ⟨"a.cc"⟩ [3, 1, 2, 3] repeatedText],
      Selected repeatedLine e := by
    intro e he
    rw [List.mem_singleton.1 he]
    exact ⟨_, _, hread, rfl⟩
  have hsep : Separate repeatedLine [.select ⟨"a.cc"⟩ [3, 1, 2, 3] repeatedText] :=
    separate_singleton (by decide)
  have htakes : TakesWrites repeatedLine [.select ⟨"a.cc"⟩ [3, 1, 2, 3] repeatedText] := by
    intro e he _ _
    rw [List.mem_singleton.1 he]
    decide +kernel
  obtain ⟨report, s, hrun, hkept, hcommitted, _⟩ := keeps_exactly_needed rfl (by decide) hcheck hsel
    hsep htakes (s := Session.start ⟨repeatedLine, 0⟩) rfl
  refine ⟨report, s, hrun, hkept.trans (.of_eq ?_), hcommitted.trans (.of_eq ?_)⟩
  · decide +kernel
  · decide +kernel

theorem detourEntry_selected : Selected detourDisk detourEntry :=
  ⟨[1], detourText, detourDisk_holds.readText, rfl⟩

/-- Nothing is required, and yet the line is kept: the disk does not let its file be replaced. -/
theorem unneeded_line_kept :
    passing.check detourDisk = true ∧ Selected detourDisk detourEntry ∧
    Separate detourDisk [detourEntry] ∧
    (detourEntry.candidates.filter fun c => Needed passing detourDisk detourEntry c) = [] ∧
    ∃ report s, run passing.toBuild [detourEntry] (Session.start ⟨detourDisk, 0⟩) =
        (some report, s) ∧
      (report.outcomes.filter fun o => !o.isCommitted).map Outcome.candidate =
        [⟨longDetour, 1, "#include <x.h>"⟩] := by
  obtain ⟨report, s, hrun, houtcomes, _⟩ := run_detourEntry
  refine ⟨rfl, detourEntry_selected, detourDisk_separate, ?_, report, s, hrun, ?_⟩
  · simp [Needed, passing]
  · rw [houtcomes]
    rfl

end IncludeSweep
