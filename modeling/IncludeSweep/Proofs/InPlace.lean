import IncludeSweep.Proofs.DraftHistory
import IncludeSweep.Proofs.Overwriting

set_option autoImplicit false

/-! # Failing operations are undone

Here the operations of a draft change the draft where it stands, one step after the other: the states
first, then the file, then what the draft knows of the file. A step that fails leaves behind what the
steps before it have changed, unless that is put back. The operations do put it back, so that what
they make of a draft and its disk is what the operations without intermediate states say. -/

namespace IncludeSweep

open Text Draft

structure Held where
  draft : Draft
  disk : Disk
deriving DecidableEq

/-- Steps on a draft in memory. An error does not take back the steps before it. -/
abbrev InPlace := ExceptT EditError (StateM Held)

namespace InPlace

variable {α β : Type}

def states : InPlace (List LineState) := do
  return (← get).draft.states

def pending : InPlace (List Nat) := do
  return (← get).draft.pending

def setStates (states : List LineState) : InPlace Unit :=
  modify fun h => { h with draft := { h.draft with states := states } }

def setState (n : Nat) (state : LineState) : InPlace Unit :=
  modify fun h => { h with draft := { h.draft with states := h.draft.states.set (n - 1) state } }

def setEach (state : LineState) : List Nat → InPlace Unit
  | [] => return
  | n :: ns => do
    setState n state
    setEach state ns

def replaceText (text : String) : InPlace Unit := do
  let h ← get
  match h.disk.readBytes h.draft.path with
  | .error cause => throw (.read h.draft.path cause)
  | .ok bytes =>
    if digest bytes ≠ h.draft.digest then throw (.modified h.draft.path)
    match h.disk.replaceFile h.draft.path (encode text) with
    | .error cause => throw (.write h.draft.path cause)
    | .ok disk =>
      modify fun h => { h with disk := disk }
      modify fun h => { h with draft := { h.draft with digest := digest (encode text) } }

def write : InPlace Unit := do
  replaceText (← get).draft.render
  modify fun h => { h with draft := { h.draft with written := h.draft.states } }

def writeOr (before : List LineState) : InPlace Unit :=
  tryCatch write fun e => do
    setStates before
    throw e

def markEach : List Nat → InPlace (List Nat)
  | [] => return []
  | n :: ns => do
    let d := (← get).draft
    if removable d.lines d.states n then
      setState n .commentedOut
      return n :: (← markEach ns)
    else markEach ns

def comment (ns : List Nat) : InPlace (List Nat) := do
  let before ← states
  let applied ← markEach ns
  if applied ≠ [] then writeOr before
  return applied

def confirm : InPlace (List Nat) := do
  let confirmed ← pending
  setEach .deleted confirmed
  return confirmed

def delete : InPlace (List Nat) := do
  let before ← states
  let confirmed ← confirm
  writeOr before
  return confirmed

def rollback : InPlace (List Nat) := do
  let before ← states
  let restored ← pending
  if restored = [] then return restored
  setEach .intact restored
  writeOr before
  return restored

def revert (s : Snapshot) : InPlace Unit := do
  replaceText s.text
  modify fun h => { h with draft := { h.draft with states := s.states, written := s.states } }

end InPlace

def Operation.inPlace : Operation → InPlace (List Nat)
  | comment ns => InPlace.comment ns
  | confirm => InPlace.confirm
  | delete => InPlace.delete
  | rollback => InPlace.rollback
  | flush => do
    InPlace.write
    return []
  | revert s => do
    InPlace.revert s
    return []

def Held.operate (h : Held) (op : Operation) : Except EditError (List Nat) × Held :=
  op.inPlace h

namespace InPlace

variable {α β : Type}

theorem pure_apply (a : α) (h : Held) : (pure a : InPlace α) h = (.ok a, h) := rfl

theorem throw_apply (e : EditError) (h : Held) : (throw e : InPlace α) h = (.error e, h) := rfl

theorem bind_apply (x : InPlace α) (f : α → InPlace β) (h : Held) :
    (x >>= f) h = match x h with
      | (.ok a, h') => f a h'
      | (.error e, h') => (.error e, h') := by
  simp only [bind, ExceptT.bind, ExceptT.mk, StateT.bind, ExceptT.bindCont]
  cases x h with
  | mk result h' => cases result <;> rfl

theorem tryCatch_apply (x : InPlace α) (f : EditError → InPlace α) (h : Held) :
    (tryCatch x f) h = match x h with
      | (.ok a, h') => (.ok a, h')
      | (.error e, h') => f e h' := by
  simp only [tryCatch, tryCatchThe, MonadExceptOf.tryCatch, ExceptT.tryCatch, ExceptT.mk, bind,
    StateT.bind]
  cases x h with
  | mk result h' => cases result <;> rfl

theorem get_apply (h : Held) : (get : InPlace Held) h = (.ok h, h) := rfl

theorem modify_apply (f : Held → Held) (h : Held) : (modify f : InPlace PUnit) h = (.ok ⟨⟩, f h) :=
  rfl

end InPlace

/-- The held draft and disk after a result that says nothing of the case of an error. -/
def Held.after {α : Type} (h : Held) : Except EditError (α × Draft × Disk) → Except EditError α × Held
  | .error e => (.error e, h)
  | .ok (a, draft, disk) => (.ok a, ⟨draft, disk⟩)

namespace InPlace

theorem states_apply (h : Held) : states h = (.ok h.draft.states, h) := rfl

theorem pending_apply (h : Held) : pending h = (.ok h.draft.pending, h) := rfl

theorem replaceText_apply (text : String) (h : Held) :
    replaceText text h = h.after ((h.draft.replaceText h.disk text).map fun r => ((), r)) := by
  unfold replaceText
  rw [bind_apply, get_apply]
  cases hb : h.disk.readBytes h.draft.path with
  | error cause => simp [hb, Draft.replaceText, throw_apply, Held.after, Except.map]
  | ok bytes =>
    by_cases hd : digest bytes = h.draft.digest
    · cases hr : h.disk.replaceFile h.draft.path (encode text) with
      | error cause => simp [hb, hd, hr, Draft.replaceText, throw_apply, Held.after, Except.map]
      | ok disk =>
        simp [hb, hd, hr, Draft.replaceText, bind_apply, modify_apply, Held.after, Except.map]
    · simp [hb, hd, Draft.replaceText, throw_apply, Held.after, Except.map]

theorem write_apply (h : Held) :
    write h = h.after ((h.draft.flush h.disk).map fun r => ((), r)) := by
  unfold write Draft.flush
  rw [bind_apply, get_apply]
  simp only [bind_apply, replaceText_apply]
  cases h.draft.replaceText h.disk h.draft.render <;> rfl

theorem writeOr_apply (d : Draft) (disk : Disk) (states : List LineState) :
    writeOr d.states ⟨{ d with states := states }, disk⟩ =
      (⟨d, disk⟩ : Held).after
        ((({ d with states := states } : Draft).flush disk).map fun r => ((), r)) := by
  unfold writeOr
  rw [tryCatch_apply, write_apply]
  cases ({ d with states := states } : Draft).flush disk <;> rfl

theorem markEach_apply (ns : List Nat) (d : Draft) (disk : Disk) :
    markEach ns ⟨d, disk⟩ =
      (.ok (mark d.lines ns d.states).2, ⟨{ d with states := (mark d.lines ns d.states).1 }, disk⟩) := by
  induction ns generalizing d with
  | nil => rfl
  | cons n ns ih =>
    unfold markEach mark
    rw [bind_apply, get_apply]
    by_cases hr : removable d.lines d.states n = true
    · simp only [hr, if_true]
      rw [bind_apply]
      simp only [setState, modify_apply]
      rw [bind_apply, ih]
      rfl
    · simp only [hr]
      exact ih d

theorem setEach_apply (state : LineState) (ns : List Nat) (d : Draft) (disk : Disk) :
    setEach state ns ⟨d, disk⟩ =
      (.ok (), ⟨{ d with states := ns.foldl (fun states n => states.set (n - 1) state) d.states },
        disk⟩) := by
  induction ns generalizing d with
  | nil => rfl
  | cons n ns ih =>
    unfold setEach
    rw [bind_apply, setState, modify_apply]
    exact ih { d with states := d.states.set (n - 1) state }

end InPlace

theorem nth?_setEach {state : LineState} {ns : List Nat} {states : List LineState}
    (h : ∀ n ∈ ns, (nth? states n).isSome) (m : Nat) :
    nth? (ns.foldl (fun states n => states.set (n - 1) state) states) m =
      if m ∈ ns then some state else nth? states m := by
  induction ns generalizing states with
  | nil => simp
  | cons n ns ih =>
    have hn := h n (by simp)
    have hset := fun k => nth?_set states n k state hn
    have hrest : ∀ k ∈ ns, (nth? (states.set (n - 1) state) k).isSome := by
      intro k hk
      rw [hset]
      split
      · rfl
      · exact h k (List.mem_cons_of_mem n hk)
    rw [List.foldl_cons, ih hrest, hset]
    by_cases hm : m ∈ ns
    · simp [hm]
    · simp [hm]

theorem setEach_pending (r : LineState) (states : List LineState) :
    (linesIn .commentedOut 1 states).foldl (fun states n => states.set (n - 1) r) states =
      settle r states := by
  refine ext_nth? fun n => ?_
  have hthere : ∀ n ∈ linesIn .commentedOut 1 states, (nth? states n).isSome := by
    intro n hn
    rw [mem_linesIn_one.1 hn]
    rfl
  rw [nth?_setEach hthere, nth?_settle]
  by_cases hn : n ∈ linesIn .commentedOut 1 states
  · simp [hn, mem_linesIn_one.1 hn]
  · rw [if_neg hn]
    have hne : nth? states n ≠ some .commentedOut := fun h => hn (mem_linesIn_one.2 h)
    cases hs : nth? states n with
    | none => rfl
    | some state =>
      have hstate : state ≠ .commentedOut := by
        rintro rfl
        exact hne hs
      simp [hstate]

namespace InPlace

theorem comment_apply (ns : List Nat) (h : Held) :
    comment ns h = h.after (h.draft.comment h.disk ns) := by
  obtain ⟨d, disk⟩ := h
  unfold comment Draft.comment
  rw [bind_apply, states_apply]
  simp only [bind_apply, markEach_apply]
  by_cases hm : (mark d.lines ns d.states).2 = []
  · simp [hm, mark_eq_self hm, pure_apply, Held.after]
  · simp only [hm, ne_eq, not_false_eq_true, if_true, if_false, bind_apply, writeOr_apply]
    cases ({ d with states := (mark d.lines ns d.states).1 } : Draft).flush disk <;> rfl

theorem confirm_apply (h : Held) :
    confirm h = (.ok h.draft.confirm.1, ⟨h.draft.confirm.2, h.disk⟩) := by
  obtain ⟨d, disk⟩ := h
  unfold confirm
  rw [bind_apply, pending_apply]
  simp only [bind_apply, setEach_apply, Draft.pending, setEach_pending]
  rfl

theorem delete_apply (h : Held) : delete h = h.after (h.draft.delete h.disk) := by
  unfold delete Draft.delete
  rw [bind_apply, states_apply]
  simp only [bind_apply, confirm_apply, Draft.confirm, writeOr_apply]
  cases ({ h.draft with states := settle .deleted h.draft.states } : Draft).flush h.disk <;> rfl

theorem rollback_apply (h : Held) : rollback h = h.after (h.draft.rollback h.disk) := by
  obtain ⟨d, disk⟩ := h
  unfold rollback Draft.rollback
  rw [bind_apply, states_apply]
  simp only [bind_apply, pending_apply]
  by_cases hp : d.pending = []
  · simp [hp, pure_apply, Held.after]
  · simp only [hp, if_false, bind_apply, setEach_apply]
    simp only [Draft.pending, setEach_pending, writeOr_apply]
    cases ({ d with states := settle .intact d.states } : Draft).flush disk <;> rfl

theorem revert_apply (s : Snapshot) (h : Held) :
    revert s h = h.after ((h.draft.revert h.disk s).map fun r => ((), r)) := by
  unfold revert Draft.revert
  rw [bind_apply, replaceText_apply]
  cases h.draft.replaceText h.disk s.text <;> rfl

end InPlace

/-- An operation in place either goes all the way or leaves no trace. -/
theorem Held.operate_eq (h : Held) (op : Operation) :
    h.operate op = h.after (h.draft.answer h.disk op) := by
  unfold operate
  cases op with
  | comment ns => exact InPlace.comment_apply ns h
  | confirm => exact InPlace.confirm_apply h
  | delete => exact InPlace.delete_apply h
  | rollback => exact InPlace.rollback_apply h
  | flush =>
    simp only [Operation.inPlace, InPlace.bind_apply, InPlace.write_apply, Draft.answer]
    cases h.draft.flush h.disk <;> rfl
  | revert s =>
    simp only [Operation.inPlace, InPlace.bind_apply, InPlace.revert_apply, Draft.answer]
    cases h.draft.revert h.disk s <;> rfl

theorem Disk.replaceFile_of_reads {disk : Disk} {path : Path} {old : ByteArray}
    (h : disk.readBytes path = .ok old) (htakes : disk.takes path = true) (bytes : ByteArray) :
    ∃ disk', disk.replaceFile path bytes = .ok disk' := by
  cases hf : disk.fileAt path with
  | error e => simp [Disk.readBytes, hf] at h
  | ok file =>
    obtain ⟨loc, hfinds⟩ := Disk.finds_of_fileAt hf
    obtain ⟨name, hname⟩ := hfinds.named
    exact ⟨_, hfinds.replaceFile hname htakes bytes⟩

namespace Draft

variable {d : Draft} {disk : Disk} {op : Operation} {text : String}

/-- An operation that has to write succeeds on every disk on which the file is the one known to the
draft, if the disk takes the write. What it makes of the draft does not depend on the disk. -/
theorem answer_known {known : ByteArray} (hd : d.digest = IncludeSweep.digest known)
    (hb : disk.readBytes d.path = .ok known) (htakes : disk.takes d.path = true)
    (ht : op.text? d = some text) :
    ∃ disk', disk.replaceFile d.path (encode text) = .ok disk' ∧
      d.answer disk op = .ok (op.lines d, op.drafted d text, disk') := by
  obtain ⟨disk', hr⟩ := Disk.replaceFile_of_reads hb htakes (encode text)
  refine ⟨disk', hr, ?_⟩
  rw [answer_writing disk ht]
  simp [replaceText, hb, hd, hr, Except.map]

theorem answer_refused {known : ByteArray} (hd : d.digest = IncludeSweep.digest known)
    (hb : disk.readBytes d.path = .ok known) (hrefused : disk.takes d.path = false) :
    ∃ cause, ∀ op text, op.text? d = some text → d.answer disk op = .error (.write d.path cause) := by
  obtain ⟨cause, hcause⟩ := Disk.replaceFile_of_not_takes hrefused
  refine ⟨cause, fun op text ht => ?_⟩
  rw [answer_writing disk ht]
  simp [replaceText, hb, hd, hcause, Except.map]

theorem answer_succeeds {known : ByteArray} (hd : d.digest = IncludeSweep.digest known)
    (hb : disk.readBytes d.path = .ok known) (htakes : disk.takes d.path = true) (op : Operation) :
    ∃ d' disk', d.answer disk op = .ok (op.lines d, d', disk') := by
  cases ht : op.text? d with
  | none => exact ⟨_, _, answer_idle disk ht⟩
  | some text =>
    obtain ⟨disk', _, hok⟩ := answer_known hd hb htakes ht
    exact ⟨_, disk', hok⟩

theorem text?_of_error {err : EditError} (h : d.answer disk op = .error err) :
    ∃ text, op.text? d = some text := by
  cases ht : op.text? d with
  | some text => exact ⟨text, rfl⟩
  | none =>
    rw [answer_idle disk ht] at h
    simp at h

end Draft

theorem Held.operate_refused {h : Held} {known : ByteArray} {op : Operation} {text : String}
    (hd : h.draft.digest = digest known) (hb : h.disk.readBytes h.draft.path = .ok known)
    (hrefused : h.disk.takes h.draft.path = false) (ht : op.text? h.draft = some text) :
    ∃ cause, h.operate op = (.error (.write h.draft.path cause), h) := by
  obtain ⟨cause, hcause⟩ := Draft.answer_refused hd hb hrefused
  refine ⟨cause, ?_⟩
  rw [Held.operate_eq, hcause op text ht]
  rfl

theorem Operation.comment_text? {d : Draft} {ns : List Nat}
    (h : (mark d.lines ns d.states).2 ≠ []) :
    (Operation.comment ns).text? d = some (renderLines d.lines (mark d.lines ns d.states).1) :=
  if_neg h

/-- An operation that fails, on whatever draft and on whatever disk, has changed neither of them.
Whenever the file has again the content that the draft has last read or written, the same operation
succeeds if the disk takes the write, with the lines and the draft that it would have given in the
first place; and if the disk refuses, it fails for that, and again without a trace. -/
theorem failing_operation_leaves_no_trace {disk : Disk} {before : List Action} {i : Nat} {e : Editor}
    (he : ((⟨disk, []⟩ : Desk).acts before).editors[i]? = some e) {now : Disk} {op : Operation}
    {err : EditError} {left : Held}
    (hfail : (⟨e.draft, now⟩ : Held).operate op = (.error err, left)) :
    left = ⟨e.draft, now⟩ ∧ e.draft.answer now op = .error err ∧
    ∃ text, op.text? e.draft = some text ∧
      ∀ later : Disk, later.readBytes e.draft.path = .ok e.known →
        (later.takes e.draft.path = true →
          ∃ disk', later.replaceFile e.draft.path (encode text) = .ok disk' ∧
            e.draft.answer later op = .ok (op.lines e.draft, op.drafted e.draft text, disk') ∧
            (⟨e.draft, later⟩ : Held).operate op =
              (.ok (op.lines e.draft), ⟨op.drafted e.draft text, disk'⟩)) ∧
        (later.takes e.draft.path = false →
          ∃ cause, (⟨e.draft, later⟩ : Held).operate op =
            (.error (.write e.draft.path cause), ⟨e.draft, later⟩)) := by
  have hstart : (⟨disk, []⟩ : Desk).Informed := by simp [Desk.Informed]
  have hknown := hstart.acts before e (List.mem_of_getElem? he)
  rw [Held.operate_eq] at hfail
  cases ha : e.draft.answer now op with
  | ok r => simp [ha, Held.after] at hfail
  | error err' =>
    obtain ⟨rfl, rfl⟩ : err' = err ∧ ⟨e.draft, now⟩ = left := by simpa [ha, Held.after] using hfail
    obtain ⟨text, ht⟩ := Draft.text?_of_error ha
    refine ⟨rfl, rfl, text, ht, fun later hlater => ⟨fun htakes => ?_, fun hrefused => ?_⟩⟩
    · obtain ⟨disk', hr, hok⟩ := Draft.answer_known hknown hlater htakes ht
      refine ⟨disk', hr, hok, ?_⟩
      rw [Held.operate_eq, hok]
      rfl
    · exact Held.operate_refused (h := ⟨e.draft, later⟩) hknown hlater hrefused ht

/-- The first line is confirmed, but the file still shows it commented out. -/
def confirmedFirst : List Action :=
  [.opens ⟨"a.cc"⟩, .performs 0 (.comment [1]), .performs 0 .confirm]

/-- Somebody puts the file back to what it was at first, and later to what the draft had written. -/
theorem failing_operation_leaves_no_trace_confirmedFirst :
    ∃ e, ((⟨twoFiles, []⟩ : Desk).acts confirmedFirst).editors[0]? = some e ∧
      (⟨e.draft, twoFiles⟩ : Held).operate (.comment [2]) =
        (.error (.modified ⟨"a.cc"⟩), ⟨e.draft, twoFiles⟩) ∧
      ∃ text disk', (Operation.comment [2]).text? e.draft = some text ∧
        (⟨e.draft, ((⟨twoFiles, []⟩ : Desk).acts confirmedFirst).disk⟩ : Held).operate (.comment [2]) =
          (.ok [2], ⟨(Operation.comment [2]).drafted e.draft text, disk'⟩) := by
  have hcase : ∃ e ∈ ((⟨twoFiles, []⟩ : Desk).acts confirmedFirst).editors[0]?,
      (⟨e.draft, twoFiles⟩ : Held).operate (.comment [2]) =
        (.error (.modified ⟨"a.cc"⟩), ⟨e.draft, twoFiles⟩) ∧
      ((⟨twoFiles, []⟩ : Desk).acts confirmedFirst).disk.readBytes e.draft.path = .ok e.known ∧
      ((⟨twoFiles, []⟩ : Desk).acts confirmedFirst).disk.takes e.draft.path = true ∧
      (Operation.comment [2]).lines e.draft = [2] := by decide +kernel
  obtain ⟨e, he, hfail, hback, htakes, hlines⟩ := hcase
  obtain ⟨_, _, text, ht, hagain⟩ := failing_operation_leaves_no_trace he hfail
  obtain ⟨disk', _, _, hok⟩ := (hagain _ hback).1 htakes
  rw [hlines] at hok
  exact ⟨e, he, hfail, text, disk', ht, hok⟩

/-- The file has the bytes that the draft has read all the time, and the operation fails whenever it
is tried. -/
theorem refused_write_fails_again :
    ∃ e, ((⟨detourDisk, []⟩ : Desk).acts [.opens longDetour]).editors[0]? = some e ∧
      detourDisk.readBytes e.draft.path = .ok e.known ∧
      (Operation.comment [1]).lines e.draft = [1] ∧
      ∃ cause, (⟨e.draft, detourDisk⟩ : Held).operate (.comment [1]) =
        (.error (.write longDetour cause), ⟨e.draft, detourDisk⟩) := by
  have hread := Disk.readBytes_of_readText detourDisk_holds.readText
  have hopen := Desk.act_opens (t := ⟨detourDisk, []⟩) detourDisk_holds.readText
  refine ⟨⟨.ofText longDetour detourText, encode detourText⟩, ?_, hread, mark_detourText, ?_⟩
  · rw [Desk.acts, List.foldl_cons, List.foldl_nil, hopen]
    exact List.getElem?_cons_zero
  · have hne : (mark (rawLines detourText) [1] (allIntact (rawLines detourText))).2 ≠ [] := by
      simp [mark_detourText]
    exact Held.operate_refused (h := ⟨.ofText longDetour detourText, detourDisk⟩) rfl hread
      detourDisk_refuses.refused (Operation.comment_text? hne)

end IncludeSweep
