import IncludeSweep.Proofs.InPlace
import IncludeSweep.Proofs.Justified
import IncludeSweep.Proofs.SecondRun

set_option autoImplicit false

/-! # Plans selected from the current content

A selection keeps the reported lines that can be removed, and commenting out skips those that cannot.
Both go by the same lines, so a plan that was selected from the content its files have now is
commented out as a whole: its first build is that of all files, and no candidate is skipped. -/

namespace IncludeSweep

open Text Draft

variable {σ : Type}

theorem lines_of_candidates (path : Path) (raw : List String) (ns : List Nat) :
    (ns.filterMap (FileCandidates.candidate? path raw)).map Candidate.line =
      ns.filter (removable raw (allIntact raw)) := by
  induction ns with
  | nil => rfl
  | cons n ns ih =>
    cases hc : FileCandidates.candidate? path raw n with
    | some c =>
      obtain ⟨line, hline, hlive, rfl⟩ := candidate?_eq_some.1 hc
      have hr := removable_allIntact.2 ⟨line, hline, hlive⟩
      rw [List.filterMap_cons_some hc, List.map_cons, ih, List.filter_cons_of_pos hr]
    | none =>
      have hr : ¬ removable raw (allIntact raw) n = true := by
        intro h
        obtain ⟨line, hline, hlive⟩ := removable_allIntact.1 h
        rw [candidate?_eq_some.2 ⟨line, hline, hlive, rfl⟩] at hc
        simp at hc
      rw [List.filterMap_cons_none hc, ih, List.filter_cons_of_neg hr]

theorem mark_selected (path : Path) (reported : List Nat) (content : String) :
    (mark (rawLines content) (numberSet reported) (allIntact (rawLines content))).2 =
      (FileCandidates.select path reported content).lines := by
  have hnodup := (numberSet_ascending reported).imp Nat.ne_of_lt
  rw [mark_eq_filter hnodup, ← lines_of_candidates path]
  rfl

section
variable {disk : Disk} {path : Path} {content : String} {reported : List Nat}

theorem comment_selected (h : disk.readText path = .ok content)
    (htakes : disk.takes path = true ∨ (FileCandidates.select path reported content).lines = []) :
    ∃ d' disk', (ofText path content).comment disk (numberSet reported) =
      .ok ((FileCandidates.select path reported content).lines, d', disk') := by
  rcases htakes with htakes | hnil
  · obtain ⟨d', disk', hok⟩ := answer_succeeds (d := ofText path content) rfl
      (Disk.readBytes_of_readText h) htakes (.comment (numberSet reported))
    rw [← mark_selected path]
    exact ⟨d', disk', hok⟩
  · rw [hnil]
    rw [← mark_selected path] at hnil
    exact ⟨_, _, comment_nothing (d := ofText path content) hnil disk⟩

theorem comment_selected_refused (h : disk.readText path = .ok content)
    (hrefused : disk.takes path = false)
    (hne : (FileCandidates.select path reported content).lines ≠ []) :
    ∃ cause, (ofText path content).comment disk (numberSet reported) =
      .error (.write path cause) := by
  rw [← mark_selected path] at hne
  obtain ⟨cause, hcause⟩ := answer_refused (d := ofText path content) rfl
    (Disk.readBytes_of_readText h) hrefused
  exact ⟨cause, hcause (.comment (numberSet reported)) _ (Operation.comment_text? hne)⟩

end

section
variable {disk : Disk} {plan : Plan} {e : FileCandidates} {build : Build σ}

theorem Selected.placed (h : Selected disk e) (hne : e.candidates ≠ []) :
    ∃ x, place disk e = some x := by
  obtain ⟨_, text, ht, _⟩ := h
  obtain ⟨loc, mode, hh⟩ := Disk.readText_ok ht
  exact ⟨_, place_of_holds hne hh⟩

theorem allMarkable_of_selected (hsel : ∀ e ∈ plan, Selected disk e) :
    allMarkable (plan.filterMap (place disk)) disk.asFound = true := by
  rw [allMarkable, List.all_eq_true]
  intro x hx
  obtain ⟨e, he, hp⟩ := List.mem_filterMap.1 hx
  rw [(hsel e he).markable hp, beq_self_eq_true]

theorem Progress.Follows.trials_extend {j : Journal} {p p' : Progress σ}
    (h : p.Follows build j p') : p.trials <+: p'.trials := by
  induction h with
  | done p => exact List.prefix_rfl
  | built tier _ ih => exact (List.prefix_append _ _).trans ih
  | _ => assumption

theorem judgeAll_trials (hq : Quiet build) {xs : List Placed} {w : Layout} {p : Progress σ}
    (h : Sited disk (xs.map Prod.snd)) (hr : Ready disk (xs.map Prod.snd) w xs)
    (hwrite : Writable False disk xs) (hne : ∀ x ∈ xs, x.1.remaining ≠ [])
    (hdisk : p.disk = disk.laid w (xs.map Prod.snd)) (hm : allMarkable xs w = true) :
    ∃ passed, (judgeAll build (xs.map Prod.fst) p).2.trials = p.trials ++
      [⟨some .global, disk.laid (markAll xs w) (xs.map Prod.snd), passed⟩] := by
  rcases judgeAll_course hq h hr hwrite hne hdisk with
    ⟨_, _, he, _, _, _, hadds⟩ | ⟨_, _, _, _, he, _, _, hgrows, _, ⟨_, rfl⟩ | ⟨hnot, _⟩⟩
  · exact ⟨true, he ▸ hadds.trials⟩
  · exact ⟨false, he ▸ hgrows.trials⟩
  · exact (hnot hm).elim

theorem runPlan_trials (build : Build σ) (s : Session σ)
    (hne : plan.filterMap (place s.world.disk) ≠ []) :
    (judgeAll build ((plan.filterMap (place s.world.disk)).map Prod.fst) (s.opened plan)).2.trials
      <+: (runPlan build plan s).2.trials := by
  have hopened : (plan.filterMap (place s.world.disk)).map Prod.fst ≠ [] := by simpa using hne
  unfold runPlan
  rw [openAll_eq]
  simp only [hopened, if_false]
  exact (refineAll_follows build _ _).trials_extend

/-- The first build of a selected plan is that of all its files, be the session tainted or not. -/
theorem runPlan_begins (hq : Quiet build) {s : Session σ} (hsep : Separate s.world.disk plan)
    (htakes : TakesWrites s.world.disk plan) (hsel : ∀ e ∈ plan, Selected s.world.disk e) (hne : ∃ e ∈ plan, e.candidates ≠ []) :
    ∃ batch shown passed ts,
      (runPlan build plan s).2.trials = s.trials ++ ⟨some .global, shown, passed⟩ :: ts ∧
      Shows s.world.disk shown [] batch ∧ ∀ loc n, (loc, n) ∈ batch ↔
        ∃ e ∈ plan, n ∈ e.lines ∧ ∃ mode text, s.world.disk.Holds e.path loc mode text := by
  have h := place_sited hsep
  have hm := allMarkable_of_selected hsel
  have hlines : ∀ e ∈ plan, e.lines.Nodup := fun e he => (hsel e he).nodup
  have hshow := (follows_markAll (fromPlan_place _ hlines) (place_distinct hsep) hm
    h.follows_asFound).shows h
  have hplaced : plan.filterMap (place s.world.disk) ≠ [] := by
    obtain ⟨e, he, hcandidates⟩ := hne
    obtain ⟨x, hx⟩ := (hsel e he).placed hcandidates
    exact List.ne_nil_of_mem (List.mem_filterMap.2 ⟨e, he, hx⟩)
  have hfound := (Disk.laid_intact h fun t ht => (h.on t ht).asFound).symm
  have hwrite : Writable False s.world.disk (plan.filterMap (place s.world.disk)) :=
    fun x hx hfalse => place_writable s.world.disk plan x hx hfalse htakes
  obtain ⟨passed, hbatch⟩ := judgeAll_trials (p := s.opened plan) hq h (place_ready hsep) hwrite
    (fun _ hx => place_remaining hx) hfound hm
  obtain ⟨ts, hts⟩ := runPlan_trials build s hplaced
  refine ⟨_, _, passed, ts, ?_, hshow, ?_⟩
  · rw [← hts, hbatch, List.append_assoc]
    rfl
  · cases isBatch_all s.world.disk plan with
    | global hall => exact hall

theorem Separate.digestsTell (h : Separate disk plan) : DigestsTell disk plan := by
  refine h.distinct.imp ?_
  intro e e' hne hloc text ht _
  exact absurd hloc (hne text text ht ((Disk.readText_congr hloc).symm.trans ht))

theorem Selected.not_skipped (h : Selected disk e) {text : String}
    (ht : disk.readText e.path = .ok text) {ts : List Trial} {o : Outcome}
    (hj : (⟨e, text⟩ : Origin).Justifies ts o) : o.resolution ≠ .keptSkipped := by
  intro hskip
  obtain ⟨hc, hgrounds⟩ := hj
  obtain ⟨loc, mode, hh⟩ := Disk.readText_ok ht
  obtain ⟨line, hline, hlive, _⟩ := h.candidate hh hc
  have hnot : (⟨e, text⟩ : Origin).NotLive o.candidate.line := by
    simpa [Origin.Grounds, hskip] using hgrounds
  rcases hnot with hnone | ⟨line', hline', hdead⟩
  · exact absurd (hnone.symm.trans hline) (by simp)
  · obtain rfl := Option.some.inj (hline.symm.trans hline')
    rcases hdead with hdead | hdead <;> simp [Directive.live, hdead] at hlive

theorem runPlan_skips_nothing (build : Build σ) {s : Session σ}
    (hsep : Separate s.world.disk plan) (hsel : ∀ e ∈ plan, Selected s.world.disk e) :
    ∀ o ∈ (runPlan build plan s).2.outcomes, o.resolution ≠ .keptSkipped := by
  have hlines : ∀ e ∈ plan, e.lines.Nodup := fun e he => (hsel e he).nodup
  obtain ⟨ts, _, hevidence⟩ := runPlan_evidence build hlines hsep.digestsTell
  intro o ho
  rcases hevidence o ho with ⟨e, _, hunopened⟩ | ⟨g, hg, hj⟩
  · rw [(resolution_of_unopened hunopened).1]
    decide
  · obtain ⟨e, he, horigin⟩ := List.mem_filterMap.1 hg
    obtain ⟨rfl, _, htext⟩ := originOf_some horigin
    exact (hsel _ he).not_skipped htext hj

end

/-- Commenting out any lines of a file touches those that a selection among them keeps, or fails if
there are any and the disk refuses the write. So in a plan selected from the files as they are no
candidate is skipped, and all of them are commented out in the first build if the disk takes the
writes. -/
theorem selected_lines_get_commented :
    (∀ (disk : Disk) (path : Path) (content : String) (reported ns : List Nat),
      disk.readText path = .ok content → ns.Pairwise (· < ·) → (∀ n, n ∈ ns ↔ n ∈ reported) →
      ∃ d, Draft.read disk path = .ok d ∧
        (disk.takes path = true ∨ (FileCandidates.select path reported content).lines = [] →
          ∃ d' disk', d.comment disk ns =
            .ok ((FileCandidates.select path reported content).lines, d', disk')) ∧
        (disk.takes path = false → (FileCandidates.select path reported content).lines ≠ [] →
          ∃ cause, d.comment disk ns = .error (.write path cause))) ∧
    ∀ {σ : Type} (build : Build σ) (plan : Plan) (s : Session σ), Quiet build →
      Separate s.world.disk plan → (∀ e ∈ plan, Selected s.world.disk e) →
      (∀ t ∈ s.preflight build, t.passed = true) →
      ∃ report s', run build plan s = (some report, s') ∧
        (∀ o ∈ report.outcomes, o.resolution ≠ .keptSkipped) ∧
        (TakesWrites s.world.disk plan → (∃ e ∈ plan, e.candidates ≠ []) → ∃ batch shown passed ts,
          s'.trials = s.trials ++ s.preflight build ++ ⟨some .global, shown, passed⟩ :: ts ∧
          Shows s.world.disk shown [] batch ∧ ∀ loc n, (loc, n) ∈ batch ↔
            ∃ e ∈ plan, n ∈ e.lines ∧ ∃ mode text, s.world.disk.Holds e.path loc mode text) := by
  constructor
  · intro disk path content reported ns h hascending hmem
    rw [← numberSet_eq hascending hmem]
    exact ⟨_, read_of_readText h, comment_selected h, comment_selected_refused h⟩
  · intro σ build plan s hq hsep hsel hready
    obtain ⟨report, s', hrun⟩ := reports_of_preflight hready plan
    rcases run_checked build plan s with ⟨u, he, hdisk, _, htrials, _⟩ | ⟨hnone, _⟩
    · rw [openingDisk_of_quiet hq] at hdisk
      rw [← hdisk] at hsep hsel ⊢
      rw [← htrials]
      refine ⟨_, _, he, ?_, fun htakes => runPlan_begins hq hsep htakes hsel⟩
      intro o ho
      exact runPlan_skips_nothing build hsep hsel o ((stableSort_perm _ _).mem_iff.1 ho)
    · rw [hrun] at hnone
      simp at hnone

/-- Terminators of both kinds, a carriage return inside a line, a directive that is commented out and
no last terminator. -/
def mixedEndings : String :=
  "#include <x.h>\r\n\r#include <y.h>\n// #include <z.h>\n\nint a;\r#include <w.h>\n#include <v.h>"

def mixedFile : Disk :=
  ⟨["src"], [(["src"], .dir), (["src", "a.cc"], .file 0o644 (encode mixedEndings))], []⟩

theorem selected_lines_get_commented_mixedFile :
    (∃ d d' disk', Draft.read mixedFile ⟨"a.cc"⟩ = .ok d ∧
      d.comment mixedFile [0, 1, 2, 3, 5, 6, 9] = .ok ([1, 2, 5, 6], d', disk')) ∧
    ∃ report s', run requiresOne.toBuild [.select ⟨"a.cc"⟩ [6, 9, 2, 5, 0, 6, 1, 3] mixedEndings]
        (Session.start ⟨mixedFile, 0⟩) = (some report, s') ∧
      (∀ o ∈ report.outcomes, o.resolution ≠ .keptSkipped) ∧
      ∃ batch shown passed ts, s'.trials =
          ⟨none, mixedFile, true⟩ :: ⟨some .global, shown, passed⟩ :: ts ∧
        Shows mixedFile shown [] batch ∧ ∀ n ∈ [1, 2, 5, 6], (["src", "a.cc"], n) ∈ batch := by
  have hholds : mixedFile.Holds ⟨"a.cc"⟩ ["src", "a.cc"] 0o644 mixedEndings :=
    ⟨by decide, by decide, rfl⟩
  have hlines : (FileCandidates.select ⟨"a.cc"⟩ [6, 9, 2, 5, 0, 6, 1, 3] mixedEndings).lines =
      [1, 2, 5, 6] := by
    decide +kernel
  have hpreflight : (Session.start ⟨mixedFile, 0⟩).preflight requiresOne.toBuild =
      [⟨none, mixedFile, true⟩] := by
    decide +kernel
  have htakes : mixedFile.takes ⟨"a.cc"⟩ = true := by decide +kernel
  constructor
  · obtain ⟨d, hd, hcomment, _⟩ := selected_lines_get_commented.1 _ _ _ [6, 9, 2, 5, 0, 6, 1, 3]
      [0, 1, 2, 3, 5, 6, 9] hholds.readText (by decide) fun n => by
        simp only [List.mem_cons, List.not_mem_nil, or_false]
        omega
    obtain ⟨d', disk', hok⟩ := hcomment (.inl htakes)
    exact ⟨d, d', disk', hd, hlines ▸ hok⟩
  · have hsel : ∀ e ∈ [FileCandidates.select ⟨"a.cc"⟩ [6, 9, 2, 5, 0, 6, 1, 3] mixedEndings],
        Selected mixedFile e := by
      intro e he
      rw [List.mem_singleton.1 he]
      exact ⟨_, _, hholds.readText, rfl⟩
    obtain ⟨report, s', hrun, hskip, hfirst⟩ := selected_lines_get_commented.2 requiresOne.toBuild
      _ (Session.start ⟨mixedFile, 0⟩) (requiresOne.toBuild_quiet rfl)
      (separate_singleton (by decide)) hsel (by simp [hpreflight])
    refine ⟨report, s', hrun, hskip, ?_⟩
    obtain ⟨batch, shown, passed, ts, htrials, hshows, hbatch⟩ :=
      hfirst (fun e he _ _ => List.mem_singleton.1 he ▸ htakes) ⟨_, List.mem_singleton.2 rfl, by
        intro hnil
        simp [FileCandidates.lines, hnil] at hlines⟩
    refine ⟨batch, shown, passed, ts, ?_, hshows, ?_⟩
    · rw [htrials, hpreflight]
      rfl
    · intro n hn
      exact (hbatch _ _).2 ⟨_, List.mem_singleton.2 rfl, hlines ▸ hn, _, _, hholds⟩

/-- A line that is selected from the file as it is need not be commented out, and the batch of all
files need not be built: the disk may not let the file be replaced. -/
theorem selected_line_not_commented :
    Quiet passing.toBuild ∧ Separate detourDisk [detourEntry] ∧ Selected detourDisk detourEntry ∧
    detourEntry.lines = [1] ∧
    (∃ d cause, Draft.read detourDisk longDetour = .ok d ∧
      d.comment detourDisk [1] = .error (.write longDetour cause)) ∧
    ∃ report s, run passing.toBuild [detourEntry] (Session.start ⟨detourDisk, 0⟩) =
        (some report, s) ∧ s.trials = [⟨none, detourDisk, true⟩] := by
  obtain ⟨report, s, hrun, _, _, htrials⟩ := run_detourEntry
  have hne : (FileCandidates.select longDetour [1] detourText).lines ≠ [] := by
    rw [FileCandidates.lines, select_detourText]
    simp
  obtain ⟨cause, hcause⟩ := comment_selected_refused detourDisk_holds.readText
    detourDisk_refuses.refused hne
  exact ⟨passing.toBuild_quiet rfl, detourDisk_separate, detourEntry_selected, detourEntry_lines,
    ⟨_, cause, Draft.read_of_readText detourDisk_holds.readText, hcause⟩, report, s, hrun, htrials⟩

end IncludeSweep
