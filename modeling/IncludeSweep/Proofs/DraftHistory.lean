import IncludeSweep.Proofs.OutsideEdits
import IncludeSweep.Proofs.Unrestored

set_option autoImplicit false

/-! # The history of a draft

A draft is operated in any order from the moment it was opened; snapshots are taken of it and it goes
back to them, and in between anybody may edit the disk. Through all of this the draft keeps track of
its file: its lines are those of the file as it was opened, its digest is that of what it has last
written, and its snapshots say what they showed. While nobody else writes, the file on the disk is
what the draft has last written. -/

namespace IncludeSweep

open Text Draft

def Snapshot.Shows (s : Snapshot) (lines : List String) : Prop :=
  s.text = renderLines lines s.states

theorem Operation.text_shows {d : Draft} {op : Operation} {text : String}
    (hsnap : ∀ s, op = .revert s → s.Shows d.lines) (h : op.text? d = some text) :
    text = renderLines d.lines (op.states d) := by
  cases op with
  | comment ns => exact (Option.some.inj (Option.ite_none_left_eq_some.1 h).2).symm
  | confirm => simp [text?] at h
  | delete => exact (Option.some.inj h).symm
  | rollback => exact (Option.some.inj (Option.ite_none_left_eq_some.1 h).2).symm
  | flush => exact (Option.some.inj h).symm
  | revert s => exact (Option.some.inj h).symm.trans (hsnap s rfl)

/-- An operation either changes the states alone or writes the file from the new ones. -/
theorem Draft.perform_ok {d d' : Draft} {disk disk' : Disk} {op : Operation}
    (hsnap : ∀ s, op = .revert s → s.Shows d.lines) (h : d.perform disk op = .ok (d', disk')) :
    (d' = { d with states := op.states d } ∧ disk' = disk) ∨
    (d' = d.wrote (op.states d) ∧ d.Writes disk (renderLines d.lines (op.states d)) disk') := by
  cases ht : op.text? d with
  | none =>
    rw [perform_idle disk ht] at h
    obtain ⟨rfl, rfl⟩ := Prod.mk.inj (Except.ok.inj h)
    exact .inl ⟨rfl, rfl⟩
  | some text =>
    obtain rfl := Operation.text_shows hsnap ht
    rw [perform_writing disk ht] at h
    cases hr : d.replaceText disk (renderLines d.lines (op.states d)) with
    | error e => simp [hr, Except.map] at h
    | ok r =>
      obtain ⟨d₁, disk₁⟩ := r
      obtain ⟨_, hread, hfile⟩ := replaceText_ok hr
      rw [hr] at h
      obtain ⟨rfl, rfl⟩ := Prod.mk.inj (Except.ok.inj h)
      exact .inr ⟨rfl, hread, hfile⟩

structure Touches (lines : List String) (asked : List Nat) (states : List LineState) : Prop where
  length : states.length = lines.length
  only : ∀ n state, nth? states n = some state → state ≠ .intact →
    n ∈ asked ∧ ∃ line, nth? lines n = some line ∧ Directive.live (stripTerminator line) = true

namespace Touches

variable {lines : List String} {asked : List Nat} {states : List LineState}

theorem intact (lines : List String) (asked : List Nat) :
    Touches lines asked (allIntact lines) := by
  refine ⟨by simp [allIntact], fun n state hn hne => ?_⟩
  rw [allIntact, nth?_map] at hn
  obtain ⟨_, _, rfl⟩ := Option.map_eq_some_iff.1 hn
  exact absurd rfl hne

theorem mark (h : Touches lines asked states) {ns : List Nat} (hns : ∀ n ∈ ns, n ∈ asked) :
    Touches lines asked (mark lines ns states).1 := by
  refine ⟨(length_mark lines ns states).trans h.length, fun n state hn hne => ?_⟩
  rw [nth?_mark] at hn
  split at hn
  · rename_i hm
    obtain ⟨hmem, hr⟩ := mem_mark.1 hm
    exact ⟨hns n hmem, (removable_iff.1 hr).2⟩
  · exact h.only n state hn hne

theorem settle (h : Touches lines asked states) (r : LineState) :
    Touches lines asked (settle r states) := by
  refine ⟨by simp [Draft.settle, h.length], fun n state hn hne => ?_⟩
  rw [nth?_settle] at hn
  obtain ⟨state', hn', rfl⟩ := Option.map_eq_some_iff.1 hn
  refine h.only n state' hn' ?_
  rintro rfl
  simp at hne

theorem operation {d : Draft} (h : Touches d.lines asked d.states) {op : Operation}
    (hns : ∀ ns, op = .comment ns → ∀ n ∈ ns, n ∈ asked)
    (hsnap : ∀ s, op = .revert s → Touches d.lines asked s.states) :
    Touches d.lines asked (op.states d) := by
  cases op with
  | comment ns => exact h.mark (hns ns rfl)
  | confirm => exact h.settle .deleted
  | delete => exact h.settle .deleted
  | rollback => exact h.settle .intact
  | flush => exact h
  | revert s => exact hsnap s rfl

end Touches

structure Bench where
  disk : Disk
  draft : Draft
  taken : List Snapshot
deriving DecidableEq

inductive Turn where
  | comment (lines : List Nat)
  | confirm
  | delete
  | rollback
  | flush
  | snapshot
  | revert (i : Nat)
  | outside (disk : Disk)
deriving DecidableEq

def Turn.asked : Turn → List Nat
  | comment ns => ns
  | _ => []

namespace Bench

/-- An operation that fails leaves everything as it was. -/
def operate (b : Bench) (op : Operation) : Bench :=
  match b.draft.perform b.disk op with
  | .error _ => b
  | .ok (draft, disk) => { b with draft := draft, disk := disk }

def turn (b : Bench) : Turn → Bench
  | .comment ns => b.operate (.comment ns)
  | .confirm => b.operate .confirm
  | .delete => b.operate .delete
  | .rollback => b.operate .rollback
  | .flush => b.operate .flush
  | .snapshot => { b with taken := b.taken ++ [b.draft.snapshot] }
  | .revert i =>
    match b.taken[i]? with
    | none => b
    | some s => b.operate (.revert s)
  | .outside disk => { b with disk := disk }

def turns (b : Bench) (ts : List Turn) : Bench :=
  ts.foldl turn b

/-- What a draft knows of a file that was opened with a text, and some lines of which it was asked to
comment out. -/
structure Sound (b : Bench) (text : String) (asked : List Nat) : Prop where
  lines : b.draft.lines = rawLines text
  states : Touches b.draft.lines asked b.draft.states
  written : Touches b.draft.lines asked b.draft.written
  digest : b.draft.digest = digest (encode (renderLines b.draft.lines b.draft.written))
  taken : ∀ s ∈ b.taken, s.Shows b.draft.lines ∧ Touches b.draft.lines asked s.states

structure InStep (b : Bench) (path : Path) : Prop where
  opened : b.draft.path = path
  reads : b.disk.readBytes path = .ok (encode (renderLines b.draft.lines b.draft.written))

section
variable {b : Bench} {text : String} {asked : List Nat} {path : Path}

theorem start {disk : Disk} {d : Draft} (asked : List Nat) (h : disk.readText path = .ok text)
    (hd : Draft.read disk path = .ok d) :
    (⟨disk, d, []⟩ : Bench).Sound text asked ∧ (⟨disk, d, []⟩ : Bench).InStep path := by
  have hshown : renderLines (rawLines text) (allIntact (rawLines text)) = text :=
    renderLines_allIntact text
  obtain rfl := Except.ok.inj ((Draft.read_of_readText h).symm.trans hd)
  refine ⟨⟨rfl, .intact _ _, .intact _ _, ?_, by simp⟩, rfl, ?_⟩
  · exact congrArg (fun t => IncludeSweep.digest (encode t)) hshown.symm
  · rw [Disk.readBytes_of_readText h]
    exact congrArg (fun t => Except.ok (encode t)) hshown.symm

theorem Sound.operate (h : b.Sound text asked) {op : Operation}
    (hns : ∀ ns, op = .comment ns → ∀ n ∈ ns, n ∈ asked) (hsnap : ∀ s, op = .revert s → s ∈ b.taken) :
    (b.operate op).Sound text asked := by
  unfold Bench.operate
  cases hp : b.draft.perform b.disk op with
  | error e => exact h
  | ok r =>
    obtain ⟨d, disk⟩ := r
    have hstates := h.states.operation hns fun s hs => (h.taken s (hsnap s hs)).2
    rcases perform_ok (fun s hs => (h.taken s (hsnap s hs)).1) hp with ⟨rfl, rfl⟩ | ⟨rfl, _⟩
    · exact ⟨h.lines, hstates, h.written, h.digest, h.taken⟩
    · exact ⟨h.lines, hstates, hstates, rfl, h.taken⟩

theorem InStep.operate (h : b.InStep path) {op : Operation}
    (hsnap : ∀ s, op = .revert s → s.Shows b.draft.lines) : (b.operate op).InStep path := by
  unfold Bench.operate
  cases hp : b.draft.perform b.disk op with
  | error e => exact h
  | ok r =>
    obtain ⟨d, disk⟩ := r
    rcases perform_ok hsnap hp with ⟨rfl, rfl⟩ | ⟨rfl, hw⟩
    · exact ⟨h.opened, h.reads⟩
    · exact ⟨h.opened, readBytes_replaceFile h.reads (h.opened ▸ hw.replaced)⟩

/-- What a turn can do. The draft goes back to no snapshot but those that were taken of it. -/
theorem turn_cases (b : Bench) (t : Turn) :
    (∃ op, b.turn t = b.operate op ∧ (∀ ns, op = .comment ns → ns = t.asked) ∧
      ∀ s, op = .revert s → s ∈ b.taken) ∨
    b.turn t = { b with taken := b.taken ++ [b.draft.snapshot] } ∨ b.turn t = b ∨
    ∃ disk, t = .outside disk ∧ b.turn t = { b with disk := disk } := by
  cases t with
  | comment ns => exact .inl ⟨.comment ns, rfl, by rintro _ ⟨⟩; rfl, by rintro _ ⟨⟩⟩
  | confirm => exact .inl ⟨.confirm, rfl, by rintro _ ⟨⟩, by rintro _ ⟨⟩⟩
  | delete => exact .inl ⟨.delete, rfl, by rintro _ ⟨⟩, by rintro _ ⟨⟩⟩
  | rollback => exact .inl ⟨.rollback, rfl, by rintro _ ⟨⟩, by rintro _ ⟨⟩⟩
  | flush => exact .inl ⟨.flush, rfl, by rintro _ ⟨⟩, by rintro _ ⟨⟩⟩
  | snapshot => exact .inr (.inl rfl)
  | revert i =>
    cases hi : b.taken[i]? with
    | none => exact .inr (.inr (.inl (by simp [turn, hi])))
    | some s =>
      refine .inl ⟨.revert s, by simp [turn, hi], by rintro _ ⟨⟩, ?_⟩
      rintro _ ⟨⟩
      exact List.mem_of_getElem? hi
  | outside disk => exact .inr (.inr (.inr ⟨disk, rfl, rfl⟩))

theorem Sound.turn (h : b.Sound text asked) {t : Turn} (ht : ∀ n ∈ t.asked, n ∈ asked) :
    (b.turn t).Sound text asked := by
  rcases b.turn_cases t with ⟨op, heq, hns, hsnap⟩ | heq | heq | ⟨disk, _, heq⟩
  · rw [heq]
    exact h.operate (fun ns hc => hns ns hc ▸ ht) hsnap
  · rw [heq]
    refine ⟨h.lines, h.states, h.written, h.digest, fun s hs => ?_⟩
    rcases List.mem_append.1 hs with hs | hs
    · exact h.taken s hs
    · rw [List.mem_singleton.1 hs]
      exact ⟨rfl, h.states⟩
  · rw [heq]
    exact h
  · rw [heq]
    exact ⟨h.lines, h.states, h.written, h.digest, h.taken⟩

theorem InStep.turn (h : b.InStep path) (hs : b.Sound text asked) {t : Turn}
    (ht : ∀ disk, t ≠ .outside disk) : (b.turn t).InStep path := by
  rcases b.turn_cases t with ⟨op, heq, _, hsnap⟩ | heq | heq | ⟨disk, hout, _⟩
  · rw [heq]
    exact h.operate fun s hrev => (hs.taken s (hsnap s hrev)).1
  · rw [heq]
    exact ⟨h.opened, h.reads⟩
  · rw [heq]
    exact h
  · exact absurd hout (ht disk)

theorem Sound.turns (h : b.Sound text asked) {ts : List Turn}
    (hts : ∀ t ∈ ts, ∀ n ∈ t.asked, n ∈ asked) : (b.turns ts).Sound text asked := by
  induction ts generalizing b with
  | nil => exact h
  | cons t ts ih =>
    exact ih (h.turn (hts t List.mem_cons_self)) fun t' ht' => hts t' (List.mem_cons_of_mem t ht')

theorem InStep.turns (h : b.InStep path) (hs : b.Sound text asked) {ts : List Turn}
    (hts : ∀ t ∈ ts, ∀ n ∈ t.asked, n ∈ asked) (hout : ∀ disk, .outside disk ∉ ts) :
    (b.turns ts).InStep path := by
  induction ts generalizing b with
  | nil => exact h
  | cons t ts ih =>
    have hstep : (b.turn t).InStep path := by
      refine h.turn hs fun disk heq => hout disk ?_
      rw [heq]
      exact List.mem_cons_self
    exact ih hstep (hs.turn (hts t List.mem_cons_self))
      (fun t' ht' => hts t' (List.mem_cons_of_mem t ht'))
      fun disk hmem => hout disk (List.mem_cons_of_mem t hmem)

structure OnDisk (b : Bench) (path : Path) (text : String) : Prop where
  reads : b.disk.readBytes path = .ok (encode (renderLines b.draft.lines b.draft.written))
  left : rawLines (renderLines b.draft.lines b.draft.written) =
    linesLeft b.draft.removedOnDisk (linesIn .commentedOut 1 b.draft.written) (rawLines text)
  removed : ∀ n ∈ b.draft.removedOnDisk, n ≤ (rawLines text).length ∧ 1 ≤ n
  fresh : b.draft.unwritten = false → b.disk.readBytes path = .ok (encode b.draft.render)

theorem InStep.onDisk (h : b.InStep path) (hs : b.Sound text asked) : b.OnDisk path text where
  reads := h.reads
  left := by
    have hstates := states_eq_numbered hs.written.length fun n => mem_linesIn_one.symm
    rw [rawLines_renderLines (hs.lines ▸ lined_rawLines text), ← hs.lines, ← pieces_numbered_left,
      removedOnDisk, ← hstates]
  removed := by
    intro n hn
    rw [← hs.lines, ← hs.written.length]
    exact nth?_bounds (mem_linesIn_one.1 hn)
  fresh := by
    intro hfresh
    have hsame : b.draft.states = b.draft.written := by simpa [unwritten] using hfresh
    rw [h.reads, render, hsame]

end

end Bench

/-- In every history of a draft, whatever the disk does in between, the draft tracks the file that it
was opened on; and the file on the disk is what the draft says as long as nobody else writes. -/
theorem draft_tracks_file {disk : Disk} {path : Path} {text : String}
    (hopen : disk.readText path = .ok text) (ts : List Turn) :
    ∃ d, Draft.read disk path = .ok d ∧
      String.join ((⟨disk, d, []⟩ : Bench).turns ts).draft.lines = text ∧
      ((⟨disk, d, []⟩ : Bench).turns ts).Sound text (ts.flatMap Turn.asked) ∧
      ((∀ disk', .outside disk' ∉ ts) → ((⟨disk, d, []⟩ : Bench).turns ts).OnDisk path text) := by
  have hd := Draft.read_of_readText hopen
  have hasked : ∀ t ∈ ts, ∀ n ∈ t.asked, n ∈ ts.flatMap Turn.asked :=
    fun t ht n hn => List.mem_flatMap.2 ⟨t, ht, hn⟩
  obtain ⟨hstart, hstep⟩ := Bench.start (ts.flatMap Turn.asked) hopen hd
  have hsound := hstart.turns hasked
  refine ⟨_, hd, ?_, hsound, fun hout => (hstep.turns hstart hasked hout).onDisk hsound⟩
  rw [hsound.lines, join_rawLines]

/-- The snapshot is taken while the file lags behind the states, and the draft goes back to it twice. -/
def backAndForth : List Turn :=
  [.comment [1, 3], .confirm, .snapshot, .comment [2, 1], .revert 0, .comment [2], .delete,
   .revert 0, .comment [2], .confirm]

theorem draft_tracks_file_backAndForth :
    twoFiles.readText ⟨"a.cc"⟩ = .ok "#include <x.h>\n#include <y.h>\nint a;\n" ∧
    ∃ d, Draft.read twoFiles ⟨"a.cc"⟩ = .ok d ∧
      ((⟨twoFiles, d, []⟩ : Bench).turns backAndForth).draft.deleted = [1, 2] ∧
      ((⟨twoFiles, d, []⟩ : Bench).turns backAndForth).draft.removedOnDisk = [1] ∧
      ((⟨twoFiles, d, []⟩ : Bench).turns backAndForth).Sound
        "#include <x.h>\n#include <y.h>\nint a;\n" [1, 3, 2, 1, 2, 2] ∧
      ((⟨twoFiles, d, []⟩ : Bench).turns backAndForth).OnDisk ⟨"a.cc"⟩
        "#include <x.h>\n#include <y.h>\nint a;\n" := by
  have hopen : twoFiles.readText ⟨"a.cc"⟩ = .ok "#include <x.h>\n#include <y.h>\nint a;\n" := by
    decide +kernel
  have hends : (match Draft.read twoFiles ⟨"a.cc"⟩ with
      | .error _ => ([], [])
      | .ok d => (((⟨twoFiles, d, []⟩ : Bench).turns backAndForth).draft.deleted,
          ((⟨twoFiles, d, []⟩ : Bench).turns backAndForth).draft.removedOnDisk)) =
      ([1, 2], [1]) := by decide +kernel
  have hquiet : ∀ disk', Turn.outside disk' ∉ backAndForth := by simp [backAndForth]
  obtain ⟨d, hd, _, hsound, hstep⟩ := draft_tracks_file hopen backAndForth
  rw [hd] at hends
  exact ⟨hopen, d, hd, (Prod.mk.inj hends).1, (Prod.mk.inj hends).2, hsound, hstep hquiet⟩

end IncludeSweep
