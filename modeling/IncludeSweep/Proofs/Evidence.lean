import IncludeSweep.Proofs.Course
import IncludeSweep.Proofs.Links
import IncludeSweep.Proofs.Opening

set_option autoImplicit false

/-! # Evidence for verdicts

The builds of a run may edit the disk as they like, and a file may change or vanish at any time.
What a run reports of a line still rests on builds it has run: here is what counts as evidence, and
that the finer tiers produce it. -/

namespace IncludeSweep

open Text Draft

variable {σ : Type}

namespace Origin

/-- States a draft of the file can have: only candidates were touched. -/
structure Fits (g : Origin) (states : List LineState) : Prop where
  length : states.length = g.lines.length
  only : ∀ n state, nth? states n = some state → state ≠ .intact → n ∈ g.entry.lines

structure Shown (g : Origin) (disk : Disk) (states : List LineState) : Prop where
  fits : g.Fits states
  content : disk.readBytes g.entry.path = .ok (encode (renderLines g.lines states))

def Passed (g : Origin) (ts : List Trial) (tier : Tier) (n : Nat) : Prop :=
  ∃ t ∈ ts, t.tier = some tier ∧ t.passed = true ∧
    ∃ states, g.Shown t.disk states ∧ nth? states n = some .commentedOut

/-- A build has failed while the line was the only one commented out in its file. -/
def Failed (g : Origin) (ts : List Trial) (n : Nat) : Prop :=
  ∃ t ∈ ts, t.tier = some .sequential ∧ t.passed = false ∧
    ∃ states, g.Shown t.disk states ∧ linesIn .commentedOut 1 states = [n]

def NotLive (g : Origin) (n : Nat) : Prop :=
  nth? g.lines n = none ∨ ∃ line, nth? g.lines n = some line ∧
    (Directive.commented (stripTerminator line) = true ∨
      Directive.mentioned (stripTerminator line) = false)

def Grounds (g : Origin) (ts : List Trial) (o : Outcome) : Prop :=
  match o.resolution with
  | .committed => ∃ tier, o.tier = some tier ∧ g.Passed ts tier o.candidate.line
  | .keptBuildFailed => g.Failed ts o.candidate.line
  | .keptSkipped => g.NotLive o.candidate.line
  | .keptIoFailure => True

def Justifies (g : Origin) (ts : List Trial) (o : Outcome) : Prop :=
  o.candidate ∈ g.entry.candidates ∧ g.Grounds ts o

theorem Passed.mono {g : Origin} {ts ts' : List Trial} {tier : Tier} {n : Nat}
    (h : g.Passed ts tier n) (hsub : ts ⊆ ts') : g.Passed ts' tier n := by
  obtain ⟨t, ht, hrest⟩ := h
  exact ⟨t, hsub ht, hrest⟩

theorem Justifies.mono {g : Origin} {ts ts' : List Trial} {o : Outcome} (h : g.Justifies ts o)
    (hsub : ts ⊆ ts') : g.Justifies ts' o := by
  refine ⟨h.1, ?_⟩
  have hg := h.2
  unfold Grounds at hg ⊢
  cases hr : o.resolution with
  | committed =>
    simp only [hr] at hg
    obtain ⟨tier, ht, hp⟩ := hg
    exact ⟨tier, ht, hp.mono hsub⟩
  | keptBuildFailed =>
    simp only [hr] at hg
    obtain ⟨t, ht, hrest⟩ := hg
    exact ⟨t, hsub ht, hrest⟩
  | keptSkipped =>
    simp only [hr] at hg
    exact hg
  | keptIoFailure => trivial

theorem notLive_of_not_removable {g : Origin} {states : List LineState} {n : Nat}
    (hr : removable g.lines states n = false)
    (hs : ∀ line, nth? g.lines n = some line → nth? states n = some .intact) : g.NotLive n := by
  cases hl : nth? g.lines n with
  | none => exact .inl hl
  | some line =>
    refine .inr ⟨line, hl, ?_⟩
    have hlive : Directive.live (stripTerminator line) = false := by
      simpa [removable, hl, hs line hl] using hr
    rcases Bool.and_eq_false_iff.1 hlive with h | h
    · exact .inr h
    · exact .inl (by simpa using h)

theorem Fits.mark {g : Origin} {states : List LineState} (h : g.Fits states) {ns : List Nat}
    (hns : ∀ n ∈ ns, n ∈ g.entry.lines) : g.Fits (mark g.lines ns states).1 := by
  constructor
  · rw [length_mark, h.length]
  · intro n state hn hne
    rw [nth?_mark] at hn
    split at hn
    · rename_i hm
      exact hns n (mem_mark.1 hm).1
    · exact h.only n state hn hne

theorem Fits.settle {g : Origin} {states : List LineState} (h : g.Fits states) (r : LineState) :
    g.Fits (settle r states) := by
  constructor
  · rw [← h.length, Draft.settle, List.length_map]
  · intro n state hn hne
    rw [nth?_settle] at hn
    obtain ⟨state', hn', rfl⟩ := Option.map_eq_some_iff.1 hn
    refine h.only n state' hn' ?_
    rintro rfl
    simp at hne

end Origin

/-- Builds were run and outcomes noted, each of which the builds justify. -/
def Progress.Gains (J : List Trial → Outcome → Prop) (p p' : Progress σ) (ts : List Trial) : Prop :=
  p'.trials = p.trials ++ ts ∧ ∃ os, p'.outcomes = p.outcomes ++ os ∧ ∀ o ∈ os, J ts o

def Lasting (J : List Trial → Outcome → Prop) : Prop :=
  ∀ (ts ts' : List Trial) (o : Outcome), ts ⊆ ts' → J ts o → J ts' o

namespace Progress

variable {J J' : List Trial → Outcome → Prop} {p p' p'' : Progress σ} {ts ts' : List Trial}

theorem gains_refl (J : List Trial → Outcome → Prop) (p : Progress σ) : Gains J p p [] :=
  ⟨by simp, [], by simp⟩

theorem Gains.trans (hJ : Lasting J) (h : Gains J p p' ts) (h' : Gains J p' p'' ts') :
    Gains J p p'' (ts ++ ts') := by
  obtain ⟨htrials, os, hos, hj⟩ := h
  obtain ⟨htrials', os', hos', hj'⟩ := h'
  refine ⟨by rw [htrials', htrials, List.append_assoc], os ++ os',
    by rw [hos', hos, List.append_assoc], ?_⟩
  intro o ho
  rcases List.mem_append.1 ho with ho | ho
  · exact hJ ts _ o (List.subset_append_left ts ts') (hj o ho)
  · exact hJ ts' _ o (List.subset_append_right ts ts') (hj' o ho)

theorem Gains.imp (h : Gains J p p' ts) (hsub : ∀ ts o, J ts o → J' ts o) : Gains J' p p' ts := by
  obtain ⟨htrials, os, hos, hj⟩ := h
  exact ⟨htrials, os, hos, fun o ho => hsub ts o (hj o ho)⟩

theorem Gains.onDisk (h : Gains J p p' ts) (disk : Disk) : Gains J p (p'.withDisk disk) ts :=
  h

theorem Gains.tainted (h : Gains J p p' ts) (path : Path) : Gains J p (p'.taint path) ts :=
  h

theorem Gains.verified (hJ : Lasting J) (h : Gains J p p' ts) (build : Build σ) (tier : Tier) :
    Gains J p (p'.verify build tier).2 (ts ++ [⟨some tier, p'.disk, (p'.verify build tier).1⟩]) :=
  h.trans hJ ⟨rfl, [], by simp [verify, Session.runBuild], by simp⟩

theorem Gains.noted (h : Gains J p p' ts) (f : OpenFile) {ns : List Nat} {r : Resolution}
    {tier : Tier} (hn : ∀ c ∈ f.candidates, c.line ∈ ns → J ts ⟨c, r, some tier⟩) :
    Gains J p (f.note ns r tier p') ts := by
  obtain ⟨htrials, os, hos, hj⟩ := h
  refine ⟨htrials, os ++ f.outcomesAt ns r tier, ?_, ?_⟩
  · rw [← List.append_assoc, ← hos]
    rfl
  · intro o ho
    rcases List.mem_append.1 ho with ho | ho
    · exact hj o ho
    · obtain ⟨n, hmem, hfind⟩ := List.mem_filterMap.1 ho
      obtain ⟨c, hc, rfl⟩ := Option.map_eq_some_iff.1 hfind
      have hline : c.line = n := by simpa using List.find?_some hc
      exact hn c (List.mem_of_find?_eq_some hc) (hline ▸ hmem)

end Progress

theorem Origin.lasting (g : Origin) : Lasting g.Justifies :=
  fun _ _ _ hsub h => h.mono hsub

structure Draft.Of (d : Draft) (g : Origin) : Prop where
  path : d.path = g.entry.path
  lines : d.lines = g.lines
  fits : g.Fits d.states

namespace Draft

variable {g : Origin} {d d' : Draft} {disk disk' : Disk}

theorem replaceText_ok {text : String} (h : d.replaceText disk text = .ok (d', disk')) :
    d' = { d with digest := IncludeSweep.digest (encode text) } ∧
    (∃ bytes, disk.readBytes d.path = .ok bytes ∧ IncludeSweep.digest bytes = d.digest) ∧
    disk.replaceFile d.path (encode text) = .ok disk' := by
  unfold replaceText at h
  cases hb : disk.readBytes d.path with
  | error cause => simp [hb] at h
  | ok bytes =>
    rw [hb] at h
    by_cases hd : IncludeSweep.digest bytes = d.digest
    · cases hf : disk.replaceFile d.path (encode text) with
      | error cause => simp [hd, hf] at h
      | ok disk₁ =>
        obtain ⟨rfl, rfl⟩ : _ = d' ∧ disk₁ = disk' := by simpa [hd, hf] using h
        exact ⟨rfl, ⟨bytes, rfl, hd⟩, rfl⟩
    · simp [hd] at h

theorem readBytes_replaceFile {path : Path} {bytes old : ByteArray}
    (hread : disk.readBytes path = .ok old) (h : disk.replaceFile path bytes = .ok disk') :
    disk'.readBytes path = .ok bytes := by
  obtain ⟨x, name, mode, hr⟩ := Disk.replaced_of_replaceFile h
  obtain ⟨old', hbefore⟩ := hr.before
  exact hr.after.readBytes_iff.2 ⟨(hbefore.readBytes_iff.1 hread).1, rfl⟩

theorem flush_ok (h : d.flush disk = .ok (d', disk')) :
    d'.path = d.path ∧ d'.lines = d.lines ∧ d'.states = d.states ∧
    (∃ bytes, disk.readBytes d.path = .ok bytes ∧ IncludeSweep.digest bytes = d.digest) ∧
    disk.replaceFile d.path (encode d.render) = .ok disk' := by
  unfold flush at h
  cases hr : d.replaceText disk d.render with
  | error e => simp [hr] at h
  | ok r =>
    obtain ⟨d₁, disk₁⟩ := r
    obtain ⟨rfl, hread, hfile⟩ := replaceText_ok hr
    obtain ⟨rfl, rfl⟩ : _ = d' ∧ disk₁ = disk' := by simpa [hr] using h
    exact ⟨rfl, rfl, rfl, hread, hfile⟩

theorem comment_ok {ns applied : List Nat} (h : d.comment disk ns = .ok (applied, d', disk')) :
    applied = (mark d.lines ns d.states).2 ∧ d'.path = d.path ∧ d'.lines = d.lines ∧
    d'.states = (mark d.lines ns d.states).1 ∧
    (applied = [] → d' = d ∧ disk' = disk) ∧
    (applied ≠ [] →
      (∃ bytes, disk.readBytes d.path = .ok bytes ∧ IncludeSweep.digest bytes = d.digest) ∧
      disk.replaceFile d.path (encode (renderLines d.lines (mark d.lines ns d.states).1)) =
        .ok disk') := by
  unfold comment at h
  by_cases hm : (mark d.lines ns d.states).2 = []
  · obtain ⟨rfl, rfl, rfl⟩ : [] = applied ∧ d = d' ∧ disk = disk' := by simpa [hm] using h
    exact ⟨hm.symm, rfl, rfl, (mark_eq_self hm).symm, fun _ => ⟨rfl, rfl⟩,
      fun hne => absurd rfl hne⟩
  · cases hf : ({ d with states := (mark d.lines ns d.states).1 } : Draft).flush disk with
    | error e => simp [hm, hf] at h
    | ok r =>
      obtain ⟨d₁, disk₁⟩ := r
      obtain ⟨hpath, hlines, hstates, hread, hfile⟩ := flush_ok hf
      obtain ⟨rfl, rfl, rfl⟩ : _ = applied ∧ d₁ = d' ∧ disk₁ = disk' := by simpa [hm, hf] using h
      exact ⟨rfl, hpath, hlines, hstates, fun hnil => absurd hnil hm, fun _ => ⟨hread, hfile⟩⟩

theorem delete_ok {ls : List Nat} (h : d.delete disk = .ok (ls, d', disk')) :
    ls = d.pending ∧ d'.path = d.path ∧ d'.lines = d.lines ∧
      d'.states = settle .deleted d.states := by
  unfold delete at h
  cases hf : d.confirm.2.flush disk with
  | error e => simp [hf] at h
  | ok r =>
    obtain ⟨d₁, disk₁⟩ := r
    obtain ⟨hpath, hlines, hstates, _⟩ := flush_ok hf
    obtain ⟨rfl, rfl, rfl⟩ : _ = ls ∧ d₁ = d' ∧ disk₁ = disk' := by simpa [hf] using h
    exact ⟨rfl, hpath, hlines, hstates⟩

theorem rollback_ok {ls : List Nat} (h : d.rollback disk = .ok (ls, d', disk')) :
    d'.path = d.path ∧ d'.lines = d.lines ∧ d'.states = settle .intact d.states := by
  unfold rollback at h
  by_cases hp : d.pending = []
  · obtain ⟨rfl, rfl, rfl⟩ : [] = ls ∧ d = d' ∧ disk = disk' := by simpa [hp] using h
    refine ⟨rfl, rfl, (settle_of_not_mem fun hmem => ?_).symm⟩
    obtain ⟨i, hi⟩ := List.mem_iff_getElem?.1 hmem
    have hpending : i + 1 ∈ d.pending := mem_linesIn_one.2 (nth?_eq_some.2 ⟨i, rfl, hi⟩)
    simp [hp] at hpending
  · cases hf : ({ d with states := settle .intact d.states } : Draft).flush disk with
    | error e => simp [hp, hf] at h
    | ok r =>
      obtain ⟨d₁, disk₁⟩ := r
      obtain ⟨hpath, hlines, hstates, _⟩ := flush_ok hf
      obtain ⟨rfl, rfl, rfl⟩ : _ = ls ∧ d₁ = d' ∧ disk₁ = disk' := by simpa [hp, hf] using h
      exact ⟨hpath, hlines, hstates⟩

theorem revert_ok {s : Snapshot} (h : d.revert disk s = .ok (d', disk')) :
    d'.path = d.path ∧ d'.lines = d.lines ∧ d'.states = s.states := by
  unfold revert at h
  cases hr : d.replaceText disk s.text with
  | error e => simp [hr] at h
  | ok r =>
    obtain ⟨d₁, disk₁⟩ := r
    obtain ⟨rfl, _, _⟩ := replaceText_ok hr
    obtain ⟨rfl, rfl⟩ : _ = d' ∧ disk₁ = disk' := by simpa [hr] using h
    exact ⟨rfl, rfl, rfl⟩

end Draft

end IncludeSweep
