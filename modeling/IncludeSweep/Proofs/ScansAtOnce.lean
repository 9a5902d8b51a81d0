import Mathlib.Data.List.Forall2
import Mathlib.Data.List.Pairwise
import IncludeSweep.Proofs.ReportOrder
import IncludeSweep.Rehearsal.Analysis

set_option autoImplicit false

/-! # Scans at once

The scans of several files are tasks of a pool with a number of places. A task that waits may take a
free place, and a task that has one may end, so tasks start and end in many orders. What ended is
kept under the number of its file. Whatever the order, each file gets the result of its own scan, and
the scans are returned in the order of their paths; to scan the files one after the other is one of
these orders. -/

namespace IncludeSweep

variable {σ : Type}

namespace FileScan

theorem ofResult_path (file : Path) (result : ScanResult) : (ofResult file result).path = file := by
  cases result <;> rfl

/-- The same scans in the order of their paths, where scans of the same path keep their order. -/
structure Sorts (scans sorted : List FileScan) : Prop where
  perm : sorted.Perm scans
  ascending : sorted.Pairwise fun a b => a.path.le b.path = true
  stable : ∀ p : Path,
    sorted.filter (fun a => a.path.same p) = scans.filter fun a => a.path.same p

theorem inOrder_sorts (scans : List FileScan) : Sorts scans (inOrder scans) where
  perm := stableSort_perm _ scans
  ascending := by
    refine stableSort_sorted ?_ ?_ scans
    · intro a b
      exact Path.le_total a.path b.path
    · intro a b c hab hbc
      exact Path.le_trans hab hbc
  stable p := by
    refine stableSort_filter ?_ scans
    intro a b ha hb
    have hsame : a.path.same b.path = true := by
      unfold Path.same at ha hb ⊢
      rw [beq_iff_eq] at ha hb ⊢
      exact ha.trans hb.symm
    unfold Path.le
    rw [Path.order_eq_iff.2 hsame]
    rfl

theorem Sorts.unique {scans scans' sorted sorted' : List FileScan} (h : Sorts scans sorted)
    (h' : Sorts scans' sorted') (hperm : scans'.Perm scans)
    (hapart : scans.Pairwise fun a b => a.path.same b.path = false) : sorted' = sorted := by
  have : Std.Symm fun a b : FileScan => a.path.same b.path = false := by
    refine ⟨fun a b hab => ?_⟩
    unfold Path.same at hab ⊢
    rwa [beq_eq_false_iff_ne, ne_comm, ← beq_eq_false_iff_ne]
  have hsorted : sorted'.Perm sorted := h'.perm.trans (hperm.trans h.perm.symm)
  refine hsorted.eq_of_pairwise (fun a b ha hb hab hba => ?_) h'.ascending h.ascending
  -- scans that may stand in either order have the same path, and so are one scan
  have hsame : a.path.same b.path = true := by
    have hswap : b.path.order a.path = (a.path.order b.path).swap := Std.OrientedCmp.eq_swap
    rw [← Path.order_eq_iff]
    unfold Path.le at hab hba
    rw [hswap] at hba
    cases hc : a.path.order b.path <;> simp_all
  by_contra hne
  have hfalse := hapart.forall (h.perm.mem_iff.1 (hsorted.mem_iff.1 ha)) (h.perm.mem_iff.1 hb) hne
  rw [hsame] at hfalse
  exact Bool.noConfusion hfalse

theorem inOrder_eq_self {scans : List FileScan}
    (h : (scans.map path).Pairwise fun p q => p.order q = .lt) : inOrder scans = scans := by
  have hlt : scans.Pairwise fun a b => a.path.order b.path = .lt := List.pairwise_map.1 h
  have hsorts : Sorts scans scans := by
    refine ⟨.refl _, hlt.imp fun hab => ?_, fun _ => rfl⟩
    simp [Path.le, hab]
  refine hsorts.unique (inOrder_sorts scans) (.refl _) (hlt.imp fun {a b} hab => ?_)
  rw [← Bool.not_eq_true, ← Path.order_eq_iff, hab]
  decide

end FileScan

def Analysis.Reports (analysis : Analysis σ) (file : Path) (scan : FileScan) : Prop :=
  ∃ w, scan = FileScan.ofResult file (analysis file w).1

theorem Analysis.reports_answers {analysis : Analysis σ} {answers : Path → ScanResult}
    (hfixed : ∀ file w, (analysis file w).1 = answers file) {files : List Path}
    {scans : List FileScan} (h : List.Forall₂ analysis.Reports files scans) :
    scans = files.map fun file => FileScan.ofResult file (answers file) := by
  induction h with
  | nil => rfl
  | cons hscan _ ih =>
    obtain ⟨w, rfl⟩ := hscan
    rw [ih, hfixed, List.map_cons]

/-- Tasks go by the number of their file. -/
structure ScanPool (σ : Type) where
  world : World σ
  waiting : List Nat
  running : List Nat
  ended : List (Nat × ScanResult)

namespace ScanPool

def before (files : List Path) (w : World σ) : ScanPool σ :=
  ⟨w, List.range files.length, [], []⟩

/-- One task starts or ends. A pool has at least one place. -/
inductive Step (atOnce : Nat) (analysis : Analysis σ) (files : List Path) (s : ScanPool σ) :
    ScanPool σ → Prop
  | start {n : Nat} (hn : n ∈ s.waiting) (hfree : s.running.length < max 1 atOnce) :
    Step atOnce analysis files s
      { s with waiting := s.waiting.erase n, running := n :: s.running }
  | finish {n : Nat} {file : Path} (hn : n ∈ s.running) (hfile : files[n]? = some file) :
    Step atOnce analysis files s
      { s with
        world := (analysis file s.world).2
        running := s.running.erase n
        ended := s.ended ++ [(n, (analysis file s.world).1)] }

inductive After (atOnce : Nat) (analysis : Analysis σ) (files : List Path) (w : World σ) :
    Nat → ScanPool σ → Prop
  | zero : After atOnce analysis files w 0 (before files w)
  | succ {k : Nat} {s s' : ScanPool σ} (h : After atOnce analysis files w k s)
    (hs : Step atOnce analysis files s s') : After atOnce analysis files w (k + 1) s'

/-- The scans of the files, each by its number; a task without a result counts as broken off. -/
def joined (files : List Path) (s : ScanPool σ) : List FileScan :=
  files.zipIdx.map fun e => FileScan.ofResult e.1 ((s.ended.lookup e.2).getD .aborted)

def returned (files : List Path) (s : ScanPool σ) : List FileScan :=
  FileScan.inOrder (s.joined files)

def left (s : ScanPool σ) : Nat :=
  2 * s.waiting.length + s.running.length

structure Sound (analysis : Analysis σ) (files : List Path) (s : ScanPool σ) : Prop where
  tasks : (s.waiting ++ s.running ++ s.ended.map Prod.fst).Perm (List.range files.length)
  own : ∀ e ∈ s.ended, ∃ file w, files[e.1]? = some file ∧ e.2 = (analysis file w).1

section
variable {atOnce : Nat} {analysis : Analysis σ} {files : List Path} {s s' : ScanPool σ}

theorem before_sound (analysis : Analysis σ) (files : List Path) (w : World σ) :
    (before files w).Sound analysis files where
  tasks := by simp [before]
  own := by simp [before]

theorem Sound.step (h : s.Sound analysis files) (hs : Step atOnce analysis files s s') :
    s'.Sound analysis files := by
  cases hs with
  | start hn _ =>
    refine ⟨(List.Perm.append_right _ ?_).trans h.tasks, h.own⟩
    exact List.perm_middle.trans (List.Perm.append_right _ (List.perm_cons_erase hn).symm)
  | @finish n file hn hfile =>
    constructor
    · refine List.Perm.trans ?_ h.tasks
      have hmoved : (s.running.erase n ++ (s.ended.map Prod.fst ++ [n])).Perm
          (s.running ++ s.ended.map Prod.fst) := by
        rw [← List.append_assoc]
        refine (List.perm_append_singleton n _).trans ?_
        exact List.Perm.append_right _ (List.perm_cons_erase hn).symm
      simpa [List.append_assoc] using hmoved.append_left s.waiting
    · intro e he
      rcases List.mem_append.1 he with he | he
      · exact h.own e he
      · obtain rfl := List.mem_singleton.1 he
        exact ⟨file, s.world, hfile, rfl⟩

theorem Step.left_eq (hs : Step atOnce analysis files s s') : s.left = s'.left + 1 := by
  cases hs with
  | start hn _ =>
    have hlen := List.length_erase_of_mem hn
    have hpos := List.length_pos_of_mem hn
    simp only [left, List.length_cons, hlen]
    omega
  | finish hn _ =>
    have hlen := List.length_erase_of_mem hn
    have hpos := List.length_pos_of_mem hn
    simp only [left, hlen]
    omega

/-- As long as a task is left, one can start or end: a task under way can end, and without any there
is a free place. -/
theorem Sound.goes_on (h : s.Sound analysis files) (hleft : s.left ≠ 0) (atOnce : Nat) :
    ∃ s', Step atOnce analysis files s s' := by
  cases hr : s.running with
  | cons n ns =>
    have hn : n ∈ s.running := by simp [hr]
    have hrange : n ∈ List.range files.length := h.tasks.mem_iff.1 (by simp [hn])
    exact ⟨_, .finish hn (List.getElem?_eq_getElem (List.mem_range.1 hrange))⟩
  | nil =>
    cases hw : s.waiting with
    | cons n ns =>
      refine ⟨_, .start (n := n) (by simp [hw]) ?_⟩
      rw [hr, List.length_nil]
      omega
    | nil => simp [left, hr, hw] at hleft

theorem Sound.joined_reports (h : s.Sound analysis files) (hleft : s.left = 0) :
    List.Forall₂ analysis.Reports files (s.joined files) := by
  have hw : s.waiting = [] := List.length_eq_zero_iff.1 (by unfold left at hleft; omega)
  have hr : s.running = [] := List.length_eq_zero_iff.1 (by unfold left at hleft; omega)
  have htasks : (s.ended.map Prod.fst).Perm (List.range files.length) := by
    simpa [hw, hr] using h.tasks
  refine List.forall₂_iff_get.2 ⟨by simp [joined], fun n hn hn' => ?_⟩
  cases hl : s.ended.lookup n with
  | none =>
    -- a task that has neither waited nor run nor ended
    obtain ⟨e, he, rfl⟩ := List.mem_map.1 (htasks.mem_iff.2 (List.mem_range.2 hn))
    simpa using List.lookup_eq_none_iff.1 hl e he
  | some result =>
    obtain ⟨l₁, l₂, hended, _⟩ := List.lookup_eq_some_iff.1 hl
    obtain ⟨file, w, hfile, hresult⟩ := h.own (n, result) (by simp [hended])
    have hget : files[n] = file := by simpa [List.getElem?_eq_getElem hn] using hfile
    refine ⟨w, ?_⟩
    simp [joined, hl, hget, ← hresult]

end

section
variable {atOnce : Nat} {analysis : Analysis σ} {files : List Path} {w : World σ} {k : Nat}
  {s : ScanPool σ}

theorem After.sound (h : After atOnce analysis files w k s) : s.Sound analysis files := by
  induction h with
  | zero => exact before_sound analysis files w
  | succ _ hs ih => exact ih.step hs

theorem After.left_eq (h : After atOnce analysis files w k s) :
    k + s.left = 2 * files.length := by
  induction h with
  | zero => simp [left, before]
  | succ _ hs ih =>
    have hleft := hs.left_eq
    omega

theorem After.joined_reports (h : After atOnce analysis files w (2 * files.length) s) :
    List.Forall₂ analysis.Reports files (s.joined files) := by
  have hleft := h.left_eq
  exact h.sound.joined_reports (by omega)

end

theorem lookup_zip_range (results : List ScanResult) (m n : Nat) :
    ((List.range' m results.length).zip results).lookup (m + n) = results[n]? := by
  induction results generalizing m n with
  | nil => rfl
  | cons result results ih =>
    rw [List.length_cons, List.range'_succ, List.zip_cons_cons]
    cases n with
    | zero => simp
    | succ n =>
      have hne : (m + (n + 1) == m) = false := by simp
      rw [List.lookup_cons, hne, List.getElem?_cons_succ, ← ih (m + 1) n]
      simp only [Nat.add_assoc, Nat.add_comm 1 n]

/-- The pool after its first tasks ran one after the other, in the order of the files. -/
structure InTurn (analysis : Analysis σ) (files : List Path) (w : World σ) (k : Nat)
    (s : ScanPool σ) (results : List ScanResult) : Prop where
  waiting : s.waiting = List.range' k (files.length - k)
  running : s.running = []
  ended : s.ended = (List.range k).zip results
  count : results.length = k
  scans : FileScan.each analysis files w =
    (List.zipWith FileScan.ofResult (files.take k) results ++
        (FileScan.each analysis (files.drop k) s.world).1,
      (FileScan.each analysis (files.drop k) s.world).2)

theorem inTurn_before (analysis : Analysis σ) (files : List Path) (w : World σ) :
    InTurn analysis files w 0 (before files w) [] where
  waiting := List.range_eq_range'
  running := rfl
  ended := rfl
  count := rfl
  scans := by simp [before]

theorem InTurn.next (atOnce : Nat) {analysis : Analysis σ} {files : List Path} {w : World σ} {k : Nat}
    {s : ScanPool σ} {results : List ScanResult} (h : InTurn analysis files w k s results)
    (hk : k < files.length) :
    ∃ s₁ s₂ result, Step atOnce analysis files s s₁ ∧ Step atOnce analysis files s₁ s₂ ∧
      InTurn analysis files w (k + 1) s₂ (results ++ [result]) := by
  have hwaiting : s.waiting = k :: List.range' (k + 1) (files.length - (k + 1)) := by
    rw [h.waiting, show files.length - k = files.length - (k + 1) + 1 by omega, List.range'_succ]
  have hfile : files[k]? = some files[k] := List.getElem?_eq_getElem hk
  have hfree : s.running.length < max 1 atOnce := by
    rw [h.running, List.length_nil]
    omega
  -- nothing runs, so there is a place for the task whatever `atOnce` is
  refine ⟨_, _, (analysis files[k] s.world).1, .start (n := k) (by simp [hwaiting]) hfree,
    .finish (n := k) (by simp) hfile, ?_⟩
  constructor
  · simp [hwaiting]
  · simp [h.running]
  · simp [h.ended, h.count, List.range_succ, List.zip_append]
  · simp [h.count]
  · have hdrop : files.drop k = files[k] :: files.drop (k + 1) := List.drop_eq_getElem_cons hk
    have htake : files.take (k + 1) = files.take k ++ [files[k]] := (List.take_append_getElem hk).symm
    have hcount : (files.take k).length = results.length := by
      rw [List.length_take, h.count]
      omega
    rw [h.scans, hdrop, htake, List.zipWith_append hcount]
    simp [FileScan.each]

theorem after_inTurn (atOnce : Nat) (analysis : Analysis σ) (files : List Path) (w : World σ)
    {k : Nat} (hk : k ≤ files.length) :
    ∃ s results, After atOnce analysis files w (2 * k) s ∧ InTurn analysis files w k s results := by
  induction k with
  | zero => exact ⟨_, [], .zero, inTurn_before analysis files w⟩
  | succ k ih =>
    obtain ⟨s, results, hafter, h⟩ := ih (by omega)
    obtain ⟨s₁, s₂, result, hstart, hfinish, hnext⟩ := h.next atOnce hk
    exact ⟨s₂, _, (hafter.succ hstart).succ hfinish, hnext⟩

theorem InTurn.joined_eq {analysis : Analysis σ} {files : List Path} {w : World σ} {s : ScanPool σ}
    {results : List ScanResult} (h : InTurn analysis files w files.length s results) :
    FileScan.each analysis files w = (s.joined files, s.world) := by
  have hjoined : s.joined files = List.zipWith FileScan.ofResult files results := by
    refine List.ext_getElem (by simp [joined, h.count]) fun n hn hn' => ?_
    have hr : n < results.length := by simp at hn'; omega
    have hlookup := lookup_zip_range results 0 n
    rw [Nat.zero_add, h.count, ← List.range_eq_range', ← h.ended,
      List.getElem?_eq_getElem hr] at hlookup
    simp [joined, hlookup]
  rw [h.scans, hjoined]
  simp [FileScan.each]

end ScanPool

structure ScansInAnyOrder (atOnce : Nat) (analysis : Analysis σ) (files : List Path) (w : World σ) :
    Prop where
  inTurn : ∃ s, ScanPool.After atOnce analysis files w (2 * files.length) s ∧
    FileScan.all atOnce analysis files w = (some (s.returned files), s.world)
  /-- All tasks end: each has two steps to take, and until then there is a next step. -/
  ends : ∀ k s, ScanPool.After atOnce analysis files w k s → k ≤ 2 * files.length ∧
    (k < 2 * files.length → ∃ s', ScanPool.Step atOnce analysis files s s')
  own : ∀ s, ScanPool.After atOnce analysis files w (2 * files.length) s →
    ∃ scans, List.Forall₂ analysis.Reports files scans ∧ FileScan.Sorts scans (s.returned files)
  same : ∀ answers : Path → ScanResult, (∀ file w', (analysis file w').1 = answers file) →
    ∀ s, ScanPool.After atOnce analysis files w (2 * files.length) s →
      (FileScan.all atOnce analysis files w).1 = some (s.returned files) ∧
      ((files.Pairwise fun p q => p.same q = false) → ∀ files', files'.Perm files →
        ∀ w' s', ScanPool.After atOnce analysis files' w' (2 * files'.length) s' →
          s'.returned files' = s.returned files)

/-- Up to the most scans that can be kept count of, whatever their number, even none. -/
theorem scans_independent_of_order {atOnce : Nat} (hcount : atOnce ≤ FileScan.maxAtOnce)
    (analysis : Analysis σ) (files : List Path) (w : World σ) :
    ScansInAnyOrder atOnce analysis files w := by
  obtain ⟨s₀, results, hafter₀, hturn⟩ :=
    ScanPool.after_inTurn atOnce analysis files w (Nat.le_refl _)
  have hall : FileScan.all atOnce analysis files w = (some (s₀.returned files), s₀.world) := by
    unfold FileScan.all
    rw [if_neg (Nat.not_lt.2 hcount), hturn.joined_eq]
    rfl
  refine ⟨⟨s₀, hafter₀, hall⟩, fun k s hafter => ?_, fun s hafter => ?_, ?_⟩
  · have hleft := hafter.left_eq
    exact ⟨by omega, fun hk => hafter.sound.goes_on (by omega) atOnce⟩
  · exact ⟨s.joined files, hafter.joined_reports, FileScan.inOrder_sorts _⟩
  · intro answers hfixed s hafter
    have hjoined := Analysis.reports_answers hfixed hafter.joined_reports
    constructor
    · have hjoined₀ := Analysis.reports_answers hfixed hafter₀.joined_reports
      rw [hall, ScanPool.returned, ScanPool.returned, hjoined, hjoined₀]
    · intro hapart files' hperm w' s' hafter'
      have hjoined' := Analysis.reports_answers hfixed hafter'.joined_reports
      refine FileScan.Sorts.unique (FileScan.inOrder_sorts _) (FileScan.inOrder_sorts _) ?_ ?_
      · rw [hjoined, hjoined']
        exact hperm.map _
      · rw [hjoined, List.pairwise_map]
        simpa only [FileScan.ofResult_path] using hapart

def brokenScan : Analysis Unit :=
  Rehearsal.prepared
    [("b.cc", .aborted), ("a.cc", .output (Rehearsal.Flagging.warning ⟨"a.cc"⟩ 2))]

/-- Of two scans at once the second ends before the first breaks off. -/
theorem scans_independent_of_order_overtaken :
    ∃ s : ScanPool Unit,
      ScanPool.After 2 brokenScan [⟨"b.cc"⟩, ⟨"a.cc"⟩] ⟨.empty [], ()⟩ 4 s ∧
      s.ended.map Prod.fst = [1, 0] ∧
      s.returned [⟨"b.cc"⟩, ⟨"a.cc"⟩] = [⟨⟨"a.cc"⟩, [2]⟩, ⟨⟨"b.cc"⟩, []⟩] := by
  have hafter : ∃ s : ScanPool Unit,
      ScanPool.After 2 brokenScan [⟨"b.cc"⟩, ⟨"a.cc"⟩] ⟨.empty [], ()⟩ 4 s ∧
        s.ended.map Prod.fst = [1, 0] := by
    refine ⟨_, .succ (.succ (.succ (.succ .zero (.start (n := 0) ?_ ?_)) (.start (n := 1) ?_ ?_))
      (.finish (n := 1) ?_ rfl)) (.finish (n := 0) ?_ rfl), rfl⟩
    all_goals decide
  obtain ⟨s, hafter, hended⟩ := hafter
  have hall : (FileScan.all 2 brokenScan [⟨"b.cc"⟩, ⟨"a.cc"⟩] ⟨.empty [], ()⟩).1 =
      some [⟨⟨"a.cc"⟩, [2]⟩, ⟨⟨"b.cc"⟩, []⟩] := by decide +kernel
  have hsame := ((scans_independent_of_order (by decide) brokenScan [⟨"b.cc"⟩, ⟨"a.cc"⟩]
    ⟨.empty [], ()⟩).same _ (fun _ _ => rfl) s hafter).1
  exact ⟨s, hafter, hended, Option.some.inj (hsame.symm.trans hall)⟩

/-- With more scans at once than can be kept count of, no order gives any. -/
theorem uncounted_scans_not_returned :
    ¬ ScansInAnyOrder 2305843009213693952 brokenScan [⟨"b.cc"⟩, ⟨"a.cc"⟩] ⟨.empty [], ()⟩ := by
  intro h
  obtain ⟨s, _, hall⟩ := h.inTurn
  have hnone : (FileScan.all 2305843009213693952 brokenScan [⟨"b.cc"⟩, ⟨"a.cc"⟩]
    ⟨.empty [], ()⟩).1 = none := rfl
  rw [hall] at hnone
  exact Option.some_ne_none _ hnone

end IncludeSweep
