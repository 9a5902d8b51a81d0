import IncludeSweep.Proofs.InPlace

set_option autoImplicit false

/-! # Commenting out sets of lines

Whether lines are commented out by one operation or by several, in which order they are named and
how often, makes no difference: the draft and the disk come out the same. As long as nobody else
writes, the operations fail only where the disk does not take a write, and then they do nothing;
taking them back gives the draft and the file from before. -/

namespace IncludeSweep

open Text Draft

namespace Draft

theorem mark_append (lines : List String) (ns ms : List Nat) (states : List LineState) :
    mark lines (ns ++ ms) states =
      ((mark lines ms (mark lines ns states).1).1,
        (mark lines ns states).2 ++ (mark lines ms (mark lines ns states).1).2) := by
  induction ns generalizing states with
  | nil => rfl
  | cons n ns ih =>
    by_cases hr : removable lines states n = true
    · simp only [List.cons_append, mark, hr, if_true, ih]
    · simp only [List.cons_append, mark, hr, Bool.false_eq_true, if_false, ih]

section
variable (lines : List String) {ns ms : List Nat} (states : List LineState)

theorem mark_perm_of_mem_iff (h : ∀ n, n ∈ ns ↔ n ∈ ms) :
    (mark lines ns states).2.Perm (mark lines ms states).2 := by
  rw [List.perm_ext_iff_of_nodup (mark_nodup lines ns states) (mark_nodup lines ms states)]
  intro n
  rw [mem_mark, mem_mark, h]

theorem mark_states_of_mem_iff (h : ∀ n, n ∈ ns ↔ n ∈ ms) :
    (mark lines ns states).1 = (mark lines ms states).1 := by
  refine ext_nth? fun n => ?_
  rw [nth?_mark, nth?_mark]
  simp only [(mark_perm_of_mem_iff lines states h).mem_iff]

end

end Draft

theorem Disk.takes_replaceFile {d d' : Disk} {p : Path} {a : ByteArray}
    (h : d.replaceFile p a = .ok d') : d'.takes p = true := by
  obtain ⟨mode, old, name, hfile, hname, ht, rfl⟩ := Disk.replaceFile_eq_ok.1 h
  obtain ⟨x, hfinds⟩ := Disk.finds_of_fileAt hfile
  rw [Disk.takes_of_locateName hname] at ht
  rw [Disk.takes_of_locateName (hfinds.locateName_put hname a hname)]
  exact (congrArg Option.isNone (Disk.refusal?_congr rfl rfl p name)).trans ht

theorem Disk.replaceFile_twice {d d' : Disk} {p : Path} {a : ByteArray}
    (h : d.replaceFile p a = .ok d') (b : ByteArray) : d'.replaceFile p b = d.replaceFile p b := by
  have hagain := Disk.takes_replaceFile h
  obtain ⟨mode, old, name, hfile, hname, ht, rfl⟩ := Disk.replaceFile_eq_ok.1 h
  obtain ⟨x, hfinds⟩ := Disk.finds_of_fileAt hfile
  have hafter := (hfinds.replaced hname a).after
  rw [hafter.replaceFile (hfinds.locateName_put hname a hname) hagain,
    hfinds.replaceFile hname ht, Disk.put_put]

namespace Draft

/-- The file is what the draft has last written, and the draft knows it by its digest. -/
structure Current (d : Draft) (disk : Disk) : Prop where
  reads : disk.readBytes d.path = .ok (encode (renderLines d.lines d.written))
  digest : d.digest = IncludeSweep.digest (encode (renderLines d.lines d.written))

section
variable {d : Draft} {disk : Disk}

theorem Current.comment (h : d.Current disk) (htakes : disk.takes d.path = true) {ns : List Nat}
    (hne : (mark d.lines ns d.states).2 ≠ []) :
    ∃ disk', disk.replaceFile d.path (encode (renderLines d.lines (mark d.lines ns d.states).1)) =
        .ok disk' ∧
      d.comment disk ns =
        .ok ((mark d.lines ns d.states).2, d.wrote (mark d.lines ns d.states).1, disk') ∧
      (d.wrote (mark d.lines ns d.states).1).Current disk' := by
  obtain ⟨disk', hr, hok⟩ := answer_known h.digest h.reads htakes (Operation.comment_text? hne)
  exact ⟨disk', hr, hok, readBytes_replaceFile h.reads hr, rfl⟩

theorem Current.wrote_states (h : d.Current disk) (hsame : d.states = d.written) :
    d.wrote d.states = d := by
  obtain ⟨path, lines, states, written, digest⟩ := d
  have hdigest := h.digest
  change states = written at hsame
  subst hsame
  exact congrArg (Draft.mk path lines states states) hdigest.symm

theorem comment_of_mark_eq (disk : Disk) {ns ms : List Nat}
    (h : mark d.lines ns d.states = mark d.lines ms d.states) :
    d.comment disk ns = d.comment disk ms := by
  unfold comment
  rw [h]

/-- Two operations one after the other are the operation on all their lines. -/
theorem Current.comment_append (h : d.Current disk) (htakes : disk.takes d.path = true)
    (ns ms : List Nat) :
    ∃ applied d₁ disk₁ applied' d₂ disk₂,
      d.comment disk ns = .ok (applied, d₁, disk₁) ∧
      d₁.comment disk₁ ms = .ok (applied', d₂, disk₂) ∧
      d.comment disk (ns ++ ms) = .ok (applied ++ applied', d₂, disk₂) := by
  have happend := mark_append d.lines ns ms d.states
  by_cases hns : (mark d.lines ns d.states).2 = []
  · -- the first operation does nothing, so that the second starts where both start
    have hall : mark d.lines (ns ++ ms) d.states = mark d.lines ms d.states := by
      rw [happend, hns, mark_eq_self hns, List.nil_append]
    obtain ⟨d₂, disk₂, hms⟩ := answer_succeeds h.digest h.reads htakes (.comment ms)
    refine ⟨[], d, disk, _, d₂, disk₂, comment_nothing hns disk, hms, ?_⟩
    exact (comment_of_mark_eq disk hall).trans hms
  obtain ⟨disk₁, hfirst, hok, hcurrent⟩ := h.comment htakes hns
  by_cases hms : (mark d.lines ms (mark d.lines ns d.states).1).2 = []
  · -- the second operation does nothing
    have hall : mark d.lines (ns ++ ms) d.states = mark d.lines ns d.states := by
      rw [happend, hms, mark_eq_self hms, List.append_nil]
    refine ⟨_, _, disk₁, [], _, disk₁, hok, comment_nothing hms disk₁, ?_⟩
    rw [comment_of_mark_eq disk hall, hok, List.append_nil]
  · -- both write, and the single operation writes what the second one does
    obtain ⟨disk₂, hsecond, hok', _⟩ := hcurrent.comment (Disk.takes_replaceFile hfirst) hms
    have hne : (mark d.lines (ns ++ ms) d.states).2 ≠ [] := by simp [happend, hns]
    obtain ⟨disk₃, hboth, hok₃, _⟩ := h.comment htakes hne
    rw [happend] at hboth hok₃
    obtain rfl : disk₂ = disk₃ :=
      Except.ok.inj (hsecond.symm.trans ((Disk.replaceFile_twice hfirst _).trans hboth))
    exact ⟨_, _, disk₁, _, _, disk₂, hok, hok', hok₃⟩

theorem Current.comment_of_mem_iff (h : d.Current disk) (htakes : disk.takes d.path = true)
    {ns ms : List Nat} (hmem : ∀ n, n ∈ ns ↔ n ∈ ms) :
    ∃ applied applied' d' disk', d.comment disk ns = .ok (applied, d', disk') ∧
      d.comment disk ms = .ok (applied', d', disk') ∧ applied.Perm applied' := by
  have hperm := mark_perm_of_mem_iff d.lines d.states hmem
  have hstates := mark_states_of_mem_iff d.lines d.states hmem
  by_cases hns : (mark d.lines ns d.states).2 = []
  · have hms := (hns ▸ hperm).nil_eq.symm
    exact ⟨[], [], d, disk, comment_nothing hns disk, comment_nothing hms disk, .refl _⟩
  · have hms : (mark d.lines ms d.states).2 ≠ [] := fun hnil => hns (hnil ▸ hperm).eq_nil
    obtain ⟨disk₁, hr, hok, _⟩ := h.comment htakes hns
    obtain ⟨disk₂, hr', hok', _⟩ := h.comment htakes hms
    rw [hstates] at hr hok
    obtain rfl := Except.ok.inj (hr.symm.trans hr')
    exact ⟨_, _, _, disk₁, hok, hok', hperm⟩

theorem Current.rollback_comment (h : d.Current disk) (htakes : disk.takes d.path = true)
    (hpending : d.pending = []) (hwritten : d.unwritten = false) (ns : List Nat) :
    ∃ applied d₁ disk₁ back disk₂, d.comment disk ns = .ok (applied, d₁, disk₁) ∧
      d₁.rollback disk₁ = .ok (back, d, disk₂) ∧ back.Perm applied ∧
      disk₂.readBytes d.path = disk.readBytes d.path := by
  have hsame : d.states = d.written := by simpa [unwritten] using hwritten
  have hnone : .commentedOut ∉ d.states := linesIn_eq_nil.1 hpending
  by_cases hns : (mark d.lines ns d.states).2 = []
  · refine ⟨[], d, disk, [], disk, comment_nothing hns disk, ?_, .refl _, rfl⟩
    simp [rollback, hpending]
  obtain ⟨disk₁, hfirst, hok, hcurrent⟩ := h.comment htakes hns
  have hperm := linesIn_mark_perm d.lines ns hnone
  have hback : (d.wrote (mark d.lines ns d.states).1).pending ≠ [] :=
    fun hnil => hns ((List.Perm.of_eq hnil.symm).trans hperm).nil_eq.symm
  -- the rollback writes the states from before
  have hsettled : settle .intact (mark d.lines ns d.states).1 = d.states := settle_mark hnone
  have ht : Operation.rollback.text? (d.wrote (mark d.lines ns d.states).1) =
      some (renderLines d.lines d.states) := by
    simp only [Operation.text?, hback, if_false]
    exact congrArg (fun states => some (renderLines d.lines states)) hsettled
  obtain ⟨disk₂, hr, hrolled⟩ := answer_known hcurrent.digest hcurrent.reads
    (Disk.takes_replaceFile hfirst) ht
  have hdraft : Operation.rollback.drafted (d.wrote (mark d.lines ns d.states).1)
      (renderLines d.lines d.states) = d :=
    (congrArg (fun states => { d.wrote d.states with states := states, written := states })
      hsettled).trans (h.wrote_states hsame)
  rw [hdraft] at hrolled
  refine ⟨_, _, disk₁, _, disk₂, hok, hrolled, hperm, ?_⟩
  rw [h.reads, ← hsame]
  exact readBytes_replaceFile hcurrent.reads hr

end

end Draft

theorem Bench.InStep.current {b : Bench} {path : Path} {text : String} {asked : List Nat}
    (h : b.InStep path) (hs : b.Sound text asked) : b.draft.Current b.disk :=
  ⟨h.opened ▸ h.reads, hs.digest⟩

namespace Bench

def commented (b : Bench) (ns : List Nat) : Except EditError (List Nat) :=
  (b.draft.comment b.disk ns).map Prod.fst

/-- What commenting out does to a draft at work depends on the set of the lines only. -/
structure CommentsBySet (b : Bench) (path : Path) : Prop where
  /-- Nothing but a disk that refuses the write lets it fail. -/
  succeeds : b.disk.takes path = true → ∀ ns, ∃ applied, b.commented ns = .ok applied
  append : ∀ ns ms,
    b.turn (.comment (ns ++ ms)) = (b.turn (.comment ns)).turn (.comment ms) ∧
    b.commented (ns ++ ms) =
      do return (← b.commented ns) ++ (← (b.turn (.comment ns)).commented ms)
  reorder : ∀ ns ms, (∀ n, n ∈ ns ↔ n ∈ ms) → b.turn (.comment ns) = b.turn (.comment ms) ∧
    ((∃ applied applied', b.commented ns = .ok applied ∧ b.commented ms = .ok applied' ∧
      applied.Perm applied') ∨ ∃ err, b.commented ns = .error err ∧ b.commented ms = .error err)
  undo : b.draft.pending = [] → b.draft.unwritten = false → ∀ ns,
    ((b.turn (.comment ns)).turn .rollback).draft = b.draft ∧
    ((b.turn (.comment ns)).turn .rollback).disk.readBytes path = b.disk.readBytes path ∧
    ∃ back d disk,
      (b.turn (.comment ns)).draft.rollback (b.turn (.comment ns)).disk = .ok (back, d, disk) ∧
      ∀ applied, b.commented ns = .ok applied → back.Perm applied

section
variable {b : Bench} {ns applied : List Nat} {d : Draft} {disk : Disk}

theorem turn_comment_ok (h : b.draft.comment b.disk ns = .ok (applied, d, disk)) :
    b.turn (.comment ns) = { b with draft := d, disk := disk } ∧ b.commented ns = .ok applied := by
  simp [turn, operate, Draft.perform, commented, h, Except.map]

theorem turn_comment_error {err : EditError} (h : b.draft.comment b.disk ns = .error err) :
    b.turn (.comment ns) = b ∧ b.commented ns = .error err := by
  simp [turn, operate, Draft.perform, commented, h, Except.map]

theorem turn_rollback_ok {back : List Nat}
    (h : b.draft.rollback b.disk = .ok (back, d, disk)) :
    b.turn .rollback = { b with draft := d, disk := disk } := by
  simp [turn, operate, Draft.perform, h, Except.map]

theorem commentsBySet_of_takes (h : b.draft.Current b.disk)
    (htakes : b.disk.takes b.draft.path = true) : b.CommentsBySet b.draft.path where
  succeeds := by
    intro _ ns
    obtain ⟨_, _, hok⟩ := answer_succeeds h.digest h.reads htakes (.comment ns)
    exact ⟨_, (turn_comment_ok hok).2⟩
  append := by
    intro ns ms
    obtain ⟨_, _, _, _, _, _, hfirst, hsecond, hboth⟩ := h.comment_append htakes ns ms
    obtain ⟨hturn, hlines⟩ := turn_comment_ok hfirst
    rw [hturn]
    obtain ⟨hturn', hlines'⟩ := turn_comment_ok (b := { b with draft := _, disk := _ }) hsecond
    obtain ⟨hturn₂, hlines₂⟩ := turn_comment_ok hboth
    rw [hturn', hturn₂, hlines, hlines', hlines₂]
    exact ⟨rfl, rfl⟩
  reorder := by
    intro ns ms hmem
    obtain ⟨_, _, _, _, hns, hms, hperm⟩ := h.comment_of_mem_iff htakes hmem
    obtain ⟨hturn, hlines⟩ := turn_comment_ok hns
    obtain ⟨hturn', hlines'⟩ := turn_comment_ok hms
    exact ⟨hturn.trans hturn'.symm, .inl ⟨_, _, hlines, hlines', hperm⟩⟩
  undo := by
    intro hpending hwritten ns
    obtain ⟨_, _, _, back, _, hcomment, hback, hperm, hsame⟩ :=
      h.rollback_comment htakes hpending hwritten ns
    obtain ⟨hturn, hlines⟩ := turn_comment_ok hcomment
    rw [hturn, hlines, turn_rollback_ok (b := { b with draft := _, disk := _ }) hback]
    exact ⟨rfl, hsame, back, _, _, hback, fun _ he => Except.ok.inj he ▸ hperm⟩

/-- A draft on a disk that refuses the write stays as it is, whatever lines are named. -/
theorem commentsBySet_of_refused (h : b.draft.Current b.disk)
    (hrefused : b.disk.takes b.draft.path = false) : b.CommentsBySet b.draft.path := by
  obtain ⟨cause, hcause⟩ := answer_refused h.digest h.reads hrefused
  -- there is nothing to be written, or the write fails
  have hcase : ∀ ns, b.turn (.comment ns) = b ∧ b.commented ns =
      if (mark b.draft.lines ns b.draft.states).2 = [] then .ok []
      else .error (.write b.draft.path cause) := by
    intro ns
    by_cases hns : (mark b.draft.lines ns b.draft.states).2 = []
    · rw [if_pos hns]
      exact turn_comment_ok (comment_nothing hns b.disk)
    · rw [if_neg hns]
      exact turn_comment_error (hcause (.comment ns) _ (Operation.comment_text? hns))
  refine ⟨fun htrue => absurd (htrue.symm.trans hrefused) (by simp), fun ns ms => ?_,
    fun ns ms hmem => ?_, fun hpending _ ns => ?_⟩
  · rw [(hcase ns).1, (hcase ms).1, (hcase (ns ++ ms)).1, (hcase ns).2, (hcase ms).2,
      (hcase (ns ++ ms)).2, mark_append]
    refine ⟨rfl, ?_⟩
    by_cases hns : (mark b.draft.lines ns b.draft.states).2 = []
    · rw [if_pos hns, hns, mark_eq_self hns, List.nil_append]
      split <;> rfl
    · rw [if_neg hns, if_neg (by simp [hns])]
      rfl
  · have hperm := mark_perm_of_mem_iff b.draft.lines b.draft.states hmem
    rw [(hcase ns).1, (hcase ms).1, (hcase ns).2, (hcase ms).2]
    refine ⟨rfl, ?_⟩
    by_cases hns : (mark b.draft.lines ns b.draft.states).2 = []
    · exact .inl ⟨[], [], if_pos hns, if_pos (hns ▸ hperm).nil_eq.symm, .refl _⟩
    · exact .inr ⟨_, if_neg hns, if_neg fun hnil => hns (hnil ▸ hperm).eq_nil⟩
  · have hback : b.draft.rollback b.disk = .ok ([], b.draft, b.disk) := by
      simp [Draft.rollback, hpending]
    rw [(hcase ns).1, turn_rollback_ok hback, (hcase ns).2]
    refine ⟨rfl, rfl, [], _, _, hback, fun applied he => ?_⟩
    by_cases hns : (mark b.draft.lines ns b.draft.states).2 = []
    · rw [if_pos hns] at he
      exact Except.ok.inj he ▸ .refl _
    · simp [hns] at he

theorem commentsBySet (h : b.draft.Current b.disk) : b.CommentsBySet b.draft.path := by
  cases htakes : b.disk.takes b.draft.path with
  | true => exact commentsBySet_of_takes h htakes
  | false => exact commentsBySet_of_refused h htakes

end

end Bench

/-- In every history of a draft in which nobody else edits the disk. -/
theorem commenting_depends_on_set {disk : Disk} {path : Path} {text : String}
    (hopen : disk.readText path = .ok text) {ts : List Turn}
    (hquiet : ∀ disk', .outside disk' ∉ ts) :
    ∃ d, Draft.read disk path = .ok d ∧
      ((⟨disk, d, []⟩ : Bench).turns ts).CommentsBySet path := by
  have hd := Draft.read_of_readText hopen
  have hasked : ∀ t ∈ ts, ∀ n ∈ t.asked, n ∈ ts.flatMap Turn.asked :=
    fun t ht n hn => List.mem_flatMap.2 ⟨t, ht, hn⟩
  obtain ⟨hstart, hstep⟩ := Bench.start (ts.flatMap Turn.asked) hopen hd
  have hinStep := hstep.turns hstart hasked hquiet
  have hcurrent := hinStep.current (hstart.turns hasked)
  have hset := Bench.commentsBySet hcurrent
  rw [hinStep.opened] at hset
  exact ⟨_, hd, hset⟩

def deletedFirst : List Turn :=
  [.comment [1], .delete]

/-- The first line is gone from the file; of the lines named, only the second one is removable. -/
theorem commenting_depends_on_set_deletedFirst :
    twoFiles.readText ⟨"a.cc"⟩ = .ok "#include <x.h>\n#include <y.h>\nint a;\n" ∧
    (∀ disk', .outside disk' ∉ deletedFirst) ∧
    ∃ d, Draft.read twoFiles ⟨"a.cc"⟩ = .ok d ∧
      ((⟨twoFiles, d, []⟩ : Bench).turns deletedFirst).draft.pending = [] ∧
      ((⟨twoFiles, d, []⟩ : Bench).turns deletedFirst).draft.unwritten = false ∧
      (mark ((⟨twoFiles, d, []⟩ : Bench).turns deletedFirst).draft.lines [0, 2, 1, 2, 9]
        ((⟨twoFiles, d, []⟩ : Bench).turns deletedFirst).draft.states).2 = [2] ∧
      ((⟨twoFiles, d, []⟩ : Bench).turns deletedFirst).CommentsBySet ⟨"a.cc"⟩ := by
  have hopen : twoFiles.readText ⟨"a.cc"⟩ = .ok "#include <x.h>\n#include <y.h>\nint a;\n" := by
    decide +kernel
  have hquiet : ∀ disk', Turn.outside disk' ∉ deletedFirst := by simp [deletedFirst]
  have hends : ∀ d ∈ (Draft.read twoFiles ⟨"a.cc"⟩).toOption,
      ((⟨twoFiles, d, []⟩ : Bench).turns deletedFirst).draft.pending = [] ∧
      ((⟨twoFiles, d, []⟩ : Bench).turns deletedFirst).draft.unwritten = false ∧
      (mark ((⟨twoFiles, d, []⟩ : Bench).turns deletedFirst).draft.lines [0, 2, 1, 2, 9]
        ((⟨twoFiles, d, []⟩ : Bench).turns deletedFirst).draft.states).2 = [2] := by decide +kernel
  obtain ⟨d, hd, hset⟩ := commenting_depends_on_set hopen hquiet
  obtain ⟨hpending, hwritten, hmarked⟩ := hends d (by rw [hd]; rfl)
  exact ⟨hopen, hquiet, d, hd, hpending, hwritten, hmarked, hset⟩

end IncludeSweep
