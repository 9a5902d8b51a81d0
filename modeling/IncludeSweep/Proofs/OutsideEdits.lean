import IncludeSweep.Proofs.Opening
import IncludeSweep.Proofs.Writes

set_option autoImplicit false

/-! # Outside edits are never overwritten

Several drafts, some of them of one file, are operated in any order, and in between anybody may edit
the disk. Beside each draft stands the content that it has last read or written. A draft knows this
content by its digest only; as far as digests tell the contents at hand apart, it replaces its file
only while the file has this very content. -/

namespace IncludeSweep

open Text Draft

inductive Operation where
  | comment (lines : List Nat)
  | confirm
  | delete
  | rollback
  | flush
  | revert (snapshot : Snapshot)
deriving DecidableEq

/-- The text that an operation has to write, if it has to write one. -/
def Operation.text? (d : Draft) : Operation → Option String
  | comment ns =>
    if (mark d.lines ns d.states).2 = [] then none
    else some (renderLines d.lines (mark d.lines ns d.states).1)
  | confirm => none
  | delete => some (renderLines d.lines (settle .deleted d.states))
  | rollback =>
    if d.pending = [] then none else some (renderLines d.lines (settle .intact d.states))
  | flush => some d.render
  | revert s => some s.text

def Operation.states (d : Draft) : Operation → List LineState
  | comment ns => (mark d.lines ns d.states).1
  | confirm => settle .deleted d.states
  | delete => settle .deleted d.states
  | rollback => settle .intact d.states
  | flush => d.states
  | revert s => s.states

def Operation.lines (d : Draft) : Operation → List Nat
  | comment ns => (mark d.lines ns d.states).2
  | confirm => d.pending
  | delete => d.pending
  | rollback => d.pending
  | flush => []
  | revert _ => []

def Operation.drafted (op : Operation) (d : Draft) (text : String) : Draft :=
  { d with states := op.states d, written := op.states d, digest := digest (encode text) }

namespace Draft

variable {d : Draft} {disk : Disk} {op : Operation} {text : String}

def perform (d : Draft) (disk : Disk) : Operation → Except EditError (Draft × Disk)
  | .comment ns => (d.comment disk ns).map Prod.snd
  | .confirm => .ok (d.confirm.2, disk)
  | .delete => (d.delete disk).map Prod.snd
  | .rollback => (d.rollback disk).map Prod.snd
  | .flush => d.flush disk
  | .revert s => d.revert disk s

def answer (d : Draft) (disk : Disk) : Operation → Except EditError (List Nat × Draft × Disk)
  | .comment ns => d.comment disk ns
  | .confirm => .ok (d.confirm.1, d.confirm.2, disk)
  | .delete => d.delete disk
  | .rollback => d.rollback disk
  | .flush => (d.flush disk).map fun r => ([], r)
  | .revert s => (d.revert disk s).map fun r => ([], r)

theorem perform_eq_answer (d : Draft) (disk : Disk) (op : Operation) :
    d.perform disk op = (d.answer disk op).map Prod.snd := by
  cases op with
  | flush => cases hf : d.flush disk <;> simp [perform, answer, hf, Except.map]
  | revert s => cases hr : d.revert disk s <;> simp [perform, answer, hr, Except.map]
  | _ => rfl

theorem flush_eq (d : Draft) (disk : Disk) (states : List LineState) :
    ({ d with states := states } : Draft).flush disk =
      (d.replaceText disk (renderLines d.lines states)).map fun r => (d.wrote states, r.2) := by
  unfold flush replaceText
  cases disk.readBytes d.path with
  | error cause => rfl
  | ok bytes =>
    by_cases hd : IncludeSweep.digest bytes = d.digest
    · cases hr : disk.replaceFile d.path (encode (renderLines d.lines states)) with
      | error cause => simp [hd, Draft.render, hr, Except.map]
      | ok disk' => simp [hd, Draft.render, hr, Except.map, Draft.wrote]
    · simp [hd, Except.map]

theorem answer_idle (disk : Disk) (h : op.text? d = none) :
    d.answer disk op = .ok (op.lines d, { d with states := op.states d }, disk) := by
  cases op with
  | comment ns =>
    have hm : (mark d.lines ns d.states).2 = [] := by simpa [Operation.text?] using h
    simp [answer, comment, hm, Operation.lines, Operation.states, mark_eq_self hm]
  | confirm => rfl
  | rollback =>
    have hp : d.pending = [] := by simpa [Operation.text?] using h
    have hsettled := settle_of_not_mem (r := .intact) (linesIn_eq_nil.1 hp)
    simp [answer, rollback, hp, Operation.lines, Operation.states, hsettled]
  | _ => simp [Operation.text?] at h

/-- Every other operation makes one write, and then knows what it has written. -/
theorem answer_writing (disk : Disk) (h : op.text? d = some text) :
    d.answer disk op =
      (d.replaceText disk text).map fun r => (op.lines d, op.drafted d text, r.2) := by
  cases op with
  | comment ns =>
    by_cases hm : (mark d.lines ns d.states).2 = []
    · simp [Operation.text?, hm] at h
    · obtain rfl : _ = text := by simpa [Operation.text?, hm] using h
      simp only [answer, comment, hm, if_false, flush_eq]
      cases d.replaceText disk (renderLines d.lines (mark d.lines ns d.states).1) <;> rfl
  | confirm => simp [Operation.text?] at h
  | delete =>
    obtain rfl : _ = text := by simpa [Operation.text?] using h
    simp only [answer, delete, confirm, flush_eq]
    cases d.replaceText disk (renderLines d.lines (settle .deleted d.states)) <;> rfl
  | rollback =>
    by_cases hp : d.pending = []
    · simp [Operation.text?, hp] at h
    · obtain rfl : _ = text := by simpa [Operation.text?, hp] using h
      simp only [answer, rollback, hp, if_false, flush_eq]
      cases d.replaceText disk (renderLines d.lines (settle .intact d.states)) <;> rfl
  | flush =>
    obtain rfl : _ = text := by simpa [Operation.text?] using h
    simp only [answer, flush_eq d disk d.states]
    change _ = (d.replaceText disk (renderLines d.lines d.states)).map _
    cases d.replaceText disk (renderLines d.lines d.states) <;> rfl
  | revert s =>
    obtain rfl : _ = text := by simpa [Operation.text?] using h
    simp only [answer, revert]
    cases hr : d.replaceText disk s.text with
    | error e => rfl
    | ok r =>
      obtain ⟨d', disk'⟩ := r
      obtain ⟨rfl, _⟩ := replaceText_ok hr
      rfl

theorem perform_idle (disk : Disk) (h : op.text? d = none) :
    d.perform disk op = .ok ({ d with states := op.states d }, disk) := by
  rw [perform_eq_answer, answer_idle disk h]
  rfl

theorem perform_writing (disk : Disk) (h : op.text? d = some text) :
    d.perform disk op = (d.replaceText disk text).map fun r => (op.drafted d text, r.2) := by
  rw [perform_eq_answer, answer_writing disk h]
  cases d.replaceText disk text <;> rfl

theorem replaceText_known {bytes : ByteArray} (hb : disk.readBytes d.path = .ok bytes)
    (hd : IncludeSweep.digest bytes = d.digest) (text : String) :
    (∃ d' disk', d.replaceText disk text = .ok (d', disk') ∧
      disk.replaceFile d.path (encode text) = .ok disk') ∨
    ∃ cause, d.replaceText disk text = .error (.write d.path cause) := by
  cases hr : disk.replaceFile d.path (encode text) with
  | ok disk' =>
    refine .inl ⟨{ d with digest := IncludeSweep.digest (encode text) }, disk', ?_, rfl⟩
    simp [replaceText, hb, hd, hr]
  | error cause => exact .inr ⟨cause, by simp [replaceText, hb, hd, hr]⟩

theorem replaceText_refused
    (h : ∀ bytes, disk.readBytes d.path = .ok bytes → IncludeSweep.digest bytes ≠ d.digest)
    (text : String) :
    ∃ err, d.replaceText disk text = .error err ∧
      (err = .modified d.path ∨ ∃ cause, err = .read d.path cause) := by
  cases hb : disk.readBytes d.path with
  | error cause => exact ⟨_, by simp [replaceText, hb], .inr ⟨cause, rfl⟩⟩
  | ok bytes => exact ⟨_, by simp [replaceText, hb, h bytes hb], .inl rfl⟩

theorem read_digest {path : Path} {bytes : ByteArray} (h : Draft.read disk path = .ok d)
    (hb : disk.readBytes path = .ok bytes) : d.digest = IncludeSweep.digest bytes := by
  unfold Draft.read Disk.readText at h
  rw [hb] at h
  cases ht : decode bytes with
  | none => simp [ht] at h
  | some text =>
    obtain rfl : _ = d := by simpa [ht] using h
    exact congrArg IncludeSweep.digest (encode_of_decode ht)

end Draft

/-- A draft, and the content that it has last read or written. -/
structure Editor where
  draft : Draft
  known : ByteArray
deriving DecidableEq

structure Desk where
  disk : Disk
  editors : List Editor
deriving DecidableEq

inductive Action where
  | outside (disk : Disk)
  | opens (path : Path)
  | performs (i : Nat) (op : Operation)
deriving DecidableEq

namespace Desk

def act (t : Desk) : Action → Desk
  | .outside disk => { t with disk := disk }
  | .opens path =>
    match t.disk.readBytes path, Draft.read t.disk path with
    | .ok bytes, .ok draft => { t with editors := t.editors ++ [⟨draft, bytes⟩] }
    | _, _ => t
  | .performs i op =>
    match t.editors[i]? with
    | none => t
    | some e =>
      match e.draft.perform t.disk op with
      | .error _ => t
      | .ok (draft, disk) =>
        let known := match op.text? e.draft with
          | none => e.known
          | some text => encode text
        ⟨disk, t.editors.set i ⟨draft, known⟩⟩

theorem act_opens {t : Desk} {path : Path} {text : String}
    (h : t.disk.readText path = .ok text) : t.act (.opens path) =
      { t with editors := t.editors ++ [⟨.ofText path text, encode text⟩] } := by
  simp only [act, Disk.readBytes_of_readText h, Draft.read_of_readText h]

def acts (t : Desk) (actions : List Action) : Desk :=
  actions.foldl act t

def contents (t : Desk) : List ByteArray :=
  t.editors.flatMap fun e =>
    match t.disk.readBytes e.draft.path with
    | .ok bytes => [e.known, bytes]
    | .error _ => [e.known]

def involved : Desk → List Action → List ByteArray
  | t, [] => t.contents
  | t, a :: actions => t.contents ++ (t.act a).involved actions

theorem contents_involved (t : Desk) (actions after : List Action) {bytes : ByteArray}
    (h : bytes ∈ (t.acts actions).contents) : bytes ∈ t.involved (actions ++ after) := by
  induction actions generalizing t with
  | nil =>
    cases after with
    | nil => exact h
    | cons a after => exact List.mem_append_left _ h
  | cons a actions ih => exact List.mem_append_right _ (ih (t.act a) h)

def Informed (t : Desk) : Prop :=
  ∀ e ∈ t.editors, e.draft.digest = digest e.known

theorem Informed.set {t : Desk} (h : t.Informed) {e : Editor} (he : e.draft.digest = digest e.known)
    (disk : Disk) (i : Nat) : Informed ⟨disk, t.editors.set i e⟩ := by
  intro e' hmem
  rcases List.mem_or_eq_of_mem_set hmem with hmem | rfl
  · exact h e' hmem
  · exact he

section
variable {t : Desk} {i : Nat} {e : Editor} {op : Operation}

theorem act_idle (he : t.editors[i]? = some e) (h : op.text? e.draft = none) :
    ∃ d, e.draft.perform t.disk op = .ok (d, t.disk) ∧ d.digest = e.draft.digest ∧
      t.act (.performs i op) = ⟨t.disk, t.editors.set i ⟨d, e.known⟩⟩ := by
  have hd := perform_idle t.disk h
  exact ⟨_, hd, rfl, by simp [act, he, hd, h]⟩

theorem act_refused (he : t.editors[i]? = some e) {err : EditError}
    (h : e.draft.perform t.disk op = .error err) : t.act (.performs i op) = t := by
  simp [act, he, h]

theorem act_written (he : t.editors[i]? = some e) {text : String} (h : op.text? e.draft = some text)
    {d' : Draft} {disk' : Disk} (hr : e.draft.replaceText t.disk text = .ok (d', disk')) :
    ∃ d, e.draft.perform t.disk op = .ok (d, disk') ∧ d.digest = digest (encode text) ∧
      t.act (.performs i op) = ⟨disk', t.editors.set i ⟨d, encode text⟩⟩ := by
  have hd := perform_writing t.disk h
  rw [hr] at hd
  change _ = Except.ok (op.drafted e.draft text, disk') at hd
  exact ⟨_, hd, rfl, by simp [act, he, hd, h]⟩

theorem Informed.act (h : t.Informed) (a : Action) : (t.act a).Informed := by
  cases a with
  | outside disk => exact h
  | opens path =>
    cases hb : t.disk.readBytes path with
    | error cause => simpa [Desk.act, hb] using h
    | ok bytes =>
      cases hd : Draft.read t.disk path with
      | error err => simpa [Desk.act, hb, hd] using h
      | ok d =>
        intro e he
        have he' : e ∈ t.editors ++ [⟨d, bytes⟩] := by simpa [Desk.act, hb, hd] using he
        rcases List.mem_append.1 he' with he' | he'
        · exact h e he'
        · rw [List.mem_singleton.1 he']
          exact Draft.read_digest hd hb
  | performs i op =>
    cases he : t.editors[i]? with
    | none => simpa [Desk.act, he] using h
    | some e =>
      have hknown := h e (List.mem_of_getElem? he)
      cases htext : op.text? e.draft with
      | none =>
        obtain ⟨d, _, hdigest, hact⟩ := act_idle he htext
        rw [hact]
        exact h.set (hdigest.trans hknown) _ i
      | some text =>
        cases hr : e.draft.replaceText t.disk text with
        | ok r =>
          obtain ⟨d, _, hdigest, hact⟩ := act_written he htext hr
          rw [hact]
          exact h.set hdigest _ i
        | error err =>
          have hd := perform_writing t.disk htext
          rw [hr] at hd
          rw [act_refused he hd]
          exact h

end

theorem Informed.acts {t : Desk} (h : t.Informed) (actions : List Action) :
    (t.acts actions).Informed := by
  induction actions generalizing t with
  | nil => exact h
  | cons a actions ih => exact ih (h.act a)

/-- What an operation does to the disk, given what the draft knows and what its file holds. -/
structure Guarded (t : Desk) (i : Nat) (e : Editor) (op : Operation) : Prop where
  idle : op.text? e.draft = none →
    (∃ d, e.draft.perform t.disk op = .ok (d, t.disk)) ∧ (t.act (.performs i op)).disk = t.disk
  /-- Whatever changes the disk replaces the known content. -/
  replaced : (t.act (.performs i op)).disk ≠ t.disk →
    t.disk.readBytes e.draft.path = .ok e.known
  written : ∀ text, op.text? e.draft = some text → t.disk.readBytes e.draft.path = .ok e.known →
    (∃ d disk', e.draft.perform t.disk op = .ok (d, disk') ∧
      t.disk.replaceFile e.draft.path (encode text) = .ok disk' ∧
      disk'.readBytes e.draft.path = .ok (encode text) ∧
      t.act (.performs i op) = ⟨disk', t.editors.set i ⟨d, encode text⟩⟩) ∨
    ∃ cause, e.draft.perform t.disk op = .error (.write e.draft.path cause) ∧
      t.act (.performs i op) = t
  refused : ∀ text, op.text? e.draft = some text → t.disk.readBytes e.draft.path ≠ .ok e.known →
    ∃ err, e.draft.perform t.disk op = .error err ∧
      (err = .modified e.draft.path ∨ ∃ cause, err = .read e.draft.path cause) ∧
      t.act (.performs i op) = t

section
variable {t : Desk} {i : Nat} {e : Editor} {op : Operation} {text : String}

theorem Informed.writes (h : t.Informed) (he : t.editors[i]? = some e)
    (htext : op.text? e.draft = some text) (hb : t.disk.readBytes e.draft.path = .ok e.known) :
    (∃ d disk', e.draft.perform t.disk op = .ok (d, disk') ∧
      t.disk.replaceFile e.draft.path (encode text) = .ok disk' ∧
      disk'.readBytes e.draft.path = .ok (encode text) ∧
      t.act (.performs i op) = ⟨disk', t.editors.set i ⟨d, encode text⟩⟩) ∨
    ∃ cause, e.draft.perform t.disk op = .error (.write e.draft.path cause) ∧
      t.act (.performs i op) = t := by
  have hknown := h e (List.mem_of_getElem? he)
  rcases replaceText_known hb hknown.symm text with ⟨d', disk', hr, hfile⟩ | ⟨cause, hr⟩
  · obtain ⟨d, hd, _, hact⟩ := act_written he htext hr
    exact .inl ⟨d, disk', hd, hfile, readBytes_replaceFile hb hfile, hact⟩
  · have hd := perform_writing t.disk htext
    rw [hr] at hd
    exact .inr ⟨cause, hd, act_refused he hd⟩

theorem Informed.refuses (h : t.Informed) (he : t.editors[i]? = some e)
    (htells : ∀ bytes, t.disk.readBytes e.draft.path = .ok bytes → digest bytes = digest e.known →
      bytes = e.known)
    (htext : op.text? e.draft = some text) (hb : t.disk.readBytes e.draft.path ≠ .ok e.known) :
    ∃ err, e.draft.perform t.disk op = .error err ∧
      (err = .modified e.draft.path ∨ ∃ cause, err = .read e.draft.path cause) ∧
      t.act (.performs i op) = t := by
  have hknown := h e (List.mem_of_getElem? he)
  have hunknown : ∀ bytes, t.disk.readBytes e.draft.path = .ok bytes →
      digest bytes ≠ e.draft.digest := by
    intro bytes hbytes hd
    rw [htells bytes hbytes (hd.trans hknown)] at hbytes
    exact hb hbytes
  obtain ⟨err, hr, herr⟩ := replaceText_refused hunknown text
  have hd := perform_writing t.disk htext
  rw [hr] at hd
  exact ⟨err, hd, herr, act_refused he hd⟩

theorem Informed.guarded (h : t.Informed) (he : t.editors[i]? = some e) (op : Operation)
    (htells : ∀ bytes, t.disk.readBytes e.draft.path = .ok bytes → digest bytes = digest e.known →
      bytes = e.known) : t.Guarded i e op where
  idle := by
    intro htext
    obtain ⟨d, hd, _, hact⟩ := act_idle he htext
    exact ⟨⟨d, hd⟩, by rw [hact]⟩
  replaced := by
    intro hne
    by_contra hb
    cases htext : op.text? e.draft with
    | none =>
      obtain ⟨d, _, _, hact⟩ := act_idle he htext
      exact hne (by rw [hact])
    | some text =>
      obtain ⟨_, _, _, hact⟩ := h.refuses he htells htext hb
      exact hne (by rw [hact])
  written := fun _ htext hb => h.writes he htext hb
  refused := fun _ htext hb => h.refuses he htells htext hb

end

end Desk

/-- In every interleaving of drafts being opened and operated with edits from outside, a draft only
ever replaces the content that it has last read or written itself. Of the digest no more is asked
than that it tells apart the contents that occur. -/
theorem outside_edits_survive {disk : Disk} {before after : List Action} {i : Nat} {op : Operation}
    (htells : ∀ b ∈ (⟨disk, []⟩ : Desk).involved (before ++ .performs i op :: after),
      ∀ b' ∈ (⟨disk, []⟩ : Desk).involved (before ++ .performs i op :: after),
      digest b = digest b' → b = b')
    {e : Editor} (he : ((⟨disk, []⟩ : Desk).acts before).editors[i]? = some e) :
    ((⟨disk, []⟩ : Desk).acts before).Guarded i e op := by
  have hstart : (⟨disk, []⟩ : Desk).Informed := by simp [Desk.Informed]
  have hmem := List.mem_of_getElem? he
  generalize ht : (⟨disk, []⟩ : Desk).acts before = t at he hmem ⊢
  refine (ht ▸ hstart.acts before).guarded he op fun bytes hb hd => ?_
  have hinvolved : ∀ b, b ∈ t.contents → b ∈ (⟨disk, []⟩ : Desk).involved
      (before ++ .performs i op :: after) :=
    fun b hb => Desk.contents_involved _ _ _ (ht ▸ hb)
  have hboth : [e.known, bytes] ⊆ t.contents := by
    intro b hb'
    refine List.mem_flatMap.2 ⟨e, hmem, ?_⟩
    rw [hb]
    exact hb'
  exact htells bytes (hinvolved bytes (hboth (by simp))) e.known
    (hinvolved e.known (hboth (by simp))) hd

/-- Two drafts of one file, the first of which has commented out a line. -/
def sharedFile : List Action :=
  [.opens ⟨"a.cc"⟩, .opens ⟨"a.cc"⟩, .performs 0 (.comment [1])]

def emptied : List Action :=
  [.outside ⟨["src"], [(["src"], .dir), (["src", "a.cc"], .file 0o644 (encode "int a;\n"))], []⟩,
   .performs 0 .rollback]

theorem sharedFile_digests :
    ∀ b ∈ (⟨twoFiles, []⟩ : Desk).involved (sharedFile ++ .performs 1 (.comment [2]) :: emptied),
    ∀ b' ∈ (⟨twoFiles, []⟩ : Desk).involved (sharedFile ++ .performs 1 (.comment [2]) :: emptied),
      digest b = digest b' → b = b' := by
  have honly : ∀ b ∈ (⟨twoFiles, []⟩ : Desk).involved
      (sharedFile ++ .performs 1 (.comment [2]) :: emptied),
      b = encode "#include <x.h>\n#include <y.h>\nint a;\n" ∨
        b = encode "// #include <x.h>\n#include <y.h>\nint a;\n" ∨ b = encode "int a;\n" := by
    decide +kernel
  have hdigests : ([encode "#include <x.h>\n#include <y.h>\nint a;\n",
      encode "// #include <x.h>\n#include <y.h>\nint a;\n", encode "int a;\n"].map digest).Nodup := by
    decide +kernel
  refine fun b hb b' hb' => List.inj_on_of_nodup_map hdigests ?_ ?_
  · simpa using honly b hb
  · simpa using honly b' hb'

/-- The second draft would put the commented line back. -/
theorem outside_edits_survive_sharedFile :
    ∃ e, ((⟨twoFiles, []⟩ : Desk).acts sharedFile).editors[1]? = some e ∧
      ((⟨twoFiles, []⟩ : Desk).acts sharedFile).Guarded 1 e (.comment [2]) ∧
      ((⟨twoFiles, []⟩ : Desk).acts sharedFile).act (.performs 1 (.comment [2])) =
        (⟨twoFiles, []⟩ : Desk).acts sharedFile := by
  have hopen : (((⟨twoFiles, []⟩ : Desk).acts sharedFile).editors[1]?).isSome = true := by
    decide +kernel
  have hsame : ((⟨twoFiles, []⟩ : Desk).acts sharedFile).act (.performs 1 (.comment [2])) =
      (⟨twoFiles, []⟩ : Desk).acts sharedFile := by decide +kernel
  obtain ⟨e, he⟩ := Option.isSome_iff_exists.1 hopen
  exact ⟨e, he, outside_edits_survive sharedFile_digests he, hsame⟩

end IncludeSweep
