import Mathlib.Logic.Function.Basic
import IncludeSweep.Proofs.Rendering
import IncludeSweep.Proofs.Replacement

set_option autoImplicit false

/-! # Disks laid out by line states

A run changes a disk only by rewriting the files of its plan, each from its lines and their states.
So every disk of an undisturbed run is the disk at its start with each of these files laid out under
some states. The draft operations are stated here on such disks: on files that the disk lets be
replaced none of them fails, and each moves from one layout to another. -/

namespace IncludeSweep

open Text

/-- A file as a run finds it when it opens it. -/
structure Site where
  loc : Location
  mode : Mode
  lines : List String

def Site.entry (s : Site) (states : List LineState) : Entry :=
  .file s.mode (encode (renderLines s.lines states))

structure Site.On (s : Site) (disk : Disk) : Prop where
  lined : Lined s.lines
  reads : ownerReads s.mode = true
  content : disk.get? s.loc = some (s.entry (allIntact s.lines))

theorem Site.On.of_text {s : Site} {disk : Disk} {mode : Mode} {text : String} (h : s.On disk)
    (hget : disk.get? s.loc = some (.file mode (encode text))) :
    s.mode = mode ∧ s.lines = rawLines text := by
  have hentry := Option.some.inj (h.content.symm.trans hget)
  injection hentry with hmode hbytes
  have htext := congrArg decode hbytes
  rw [decode_encode, decode_encode, Option.some.injEq] at htext
  refine ⟨hmode, ?_⟩
  rw [← htext, rawLines_renderLines h.lined, pieces_allIntact]

/-- The states of the lines of the file at a location. -/
abbrev Layout := Location → List LineState

def Disk.laid (disk : Disk) (w : Layout) : List Site → Disk
  | [] => disk
  | s :: sites => (disk.laid w sites).put s.loc (s.entry (w s.loc))

def Disk.relaid (disk : Disk) (sites : List Site) (w : Layout) (loc : Location)
    (states : List LineState) : Disk :=
  disk.laid (Function.update w loc states) sites

structure Sited (disk : Disk) (sites : List Site) : Prop where
  distinct : (sites.map Site.loc).Nodup
  on : ∀ s ∈ sites, s.On disk

namespace Sited

variable {disk : Disk} {s : Site} {sites : List Site}

theorem tail (h : Sited disk (s :: sites)) : Sited disk sites :=
  ⟨(List.nodup_cons.1 h.distinct).2, fun t ht => h.on t (List.mem_cons_of_mem s ht)⟩

theorem head_ne (h : Sited disk (s :: sites)) {t : Site} (ht : t ∈ sites) : t.loc ≠ s.loc := by
  intro he
  apply (List.nodup_cons.1 h.distinct).1
  rw [← he]
  exact List.mem_map_of_mem ht

theorem loc_ne_nil (h : Sited disk sites) (hs : s ∈ sites) : s.loc ≠ [] :=
  Disk.ne_nil_of_file (h.on s hs).content

end Sited

namespace Disk

variable {disk : Disk} {sites : List Site} {s : Site}

theorem laid_congr {w w' : Layout} (h : ∀ s ∈ sites, w s.loc = w' s.loc) :
    disk.laid w sites = disk.laid w' sites := by
  induction sites with
  | nil => rfl
  | cons s sites ih =>
    unfold laid
    rw [h s (by simp), ih fun t ht => h t (List.mem_cons_of_mem s ht)]

theorem get?_laid_other (h : Sited disk sites) (w : Layout) {loc : Location}
    (hloc : ∀ s ∈ sites, s.loc ≠ loc) : (disk.laid w sites).get? loc = disk.get? loc := by
  induction sites with
  | nil => rfl
  | cons s sites ih =>
    unfold laid
    have hne : loc ≠ s.loc := Ne.symm (hloc s (by simp))
    rw [get?_put _ _ _ _ (h.loc_ne_nil (by simp)), if_neg hne]
    exact ih h.tail fun t ht => hloc t (List.mem_cons_of_mem s ht)

theorem get?_laid (h : Sited disk sites) (w : Layout) (hs : s ∈ sites) :
    (disk.laid w sites).get? s.loc = some (s.entry (w s.loc)) := by
  induction sites with
  | nil => simp at hs
  | cons t sites ih =>
    unfold laid
    rw [get?_put _ _ _ _ (h.loc_ne_nil (by simp))]
    rcases List.mem_cons.1 hs with rfl | hs
    · simp
    · rw [if_neg (h.head_ne hs), ih h.tail hs]

theorem alike_laid (h : Sited disk sites) (w : Layout) : Alike disk (disk.laid w sites) := by
  induction sites with
  | nil => exact alike_refl disk
  | cons s sites ih =>
    have hs := (h.on s (by simp)).content
    have hfile : (disk.laid w sites).get? s.loc = some (s.entry (allIntact s.lines)) := by
      rw [get?_laid_other h.tail w fun t ht => h.head_ne ht, hs]
    exact (ih h.tail).trans (alike_put_file hfile _ _)

/-- Rewriting the file of a site changes the layout at that site. -/
theorem put_laid (h : Sited disk sites) (w : Layout) (hs : s ∈ sites) (states : List LineState) :
    (disk.laid w sites).put s.loc (s.entry states) =
      disk.laid (Function.update w s.loc states) sites := by
  induction sites with
  | nil => simp at hs
  | cons t sites ih =>
    unfold laid
    rcases List.mem_cons.1 hs with rfl | hs
    · rw [put_put, Function.update_self]
      congr 1
      apply laid_congr
      intro u hu
      rw [Function.update_of_ne (h.head_ne hu)]
    · have hne : s.loc ≠ t.loc := h.head_ne hs
      have ht : (disk.laid w sites).get? t.loc = some (t.entry (allIntact t.lines)) := by
        rw [get?_laid_other h.tail w fun u hu => h.head_ne hu]
        exact (h.on t (by simp)).content
      rw [put_comm ht (get?_laid h.tail w hs) (h.loc_ne_nil (by simp))
        (h.tail.loc_ne_nil hs) (Ne.symm hne), ih h.tail hs, Function.update_of_ne (Ne.symm hne)]

theorem laid_intact (h : Sited disk sites) {w : Layout}
    (hw : ∀ s ∈ sites, w s.loc = allIntact s.lines) : disk.laid w sites = disk := by
  induction sites with
  | nil => rfl
  | cons s sites ih =>
    unfold laid
    rw [ih h.tail fun t ht => hw t (List.mem_cons_of_mem s ht), hw s (by simp)]
    exact put_get? (h.on s (by simp)).content (h.loc_ne_nil (by simp))

end Disk

def Draft.wrote (d : Draft) (states : List LineState) : Draft :=
  { d with
    states := states
    written := states
    digest := IncludeSweep.digest (encode (renderLines d.lines states)) }

/-- The draft is one of the file of the site, and its digest is that of what it last wrote. -/
structure Draft.At (d : Draft) (disk : Disk) (s : Site) : Prop where
  leads : disk.locate d.path = .ok s.loc
  names : disk.locateName d.path = .ok s.loc
  lines : d.lines = s.lines
  digest : d.digest = IncludeSweep.digest (encode (renderLines s.lines d.written))

namespace Draft

variable {disk : Disk} {sites : List Site} {s : Site} {d : Draft} {w : Layout}

theorem At.wrote (h : d.At disk s) (states : List LineState) : (d.wrote states).At disk s :=
  ⟨h.leads, h.names, h.lines, by rw [← h.lines]; rfl⟩

theorem At.withStates (h : d.At disk s) (states : List LineState) :
    ({ d with states := states } : Draft).At disk s :=
  ⟨h.leads, h.names, h.lines, h.digest⟩

/-- A replacement succeeds on every layout in which the file has the digest that the draft knows. -/
theorem replaceText_onto (h : Sited disk sites) (hs : s ∈ sites) (hd : d.At disk s)
    (ht : disk.takes d.path = true) (w : Layout) (states : List LineState) :
    d.replaceText (disk.laid w sites) (renderLines s.lines states) =
      if IncludeSweep.digest (encode (renderLines s.lines (w s.loc))) = d.digest then
        .ok ({ d with digest := IncludeSweep.digest (encode (renderLines s.lines states)) },
          disk.relaid sites w s.loc states)
      else .error (.modified d.path) := by
  have halike := Disk.alike_laid h w
  have hleads := (Disk.locate_alike halike d.path).trans hd.leads
  have hnames := (Disk.locateName_alike halike d.path).trans hd.names
  have hfile : (disk.laid w sites).fileAt d.path =
      .ok (s.mode, encode (renderLines s.lines (w s.loc))) := by
    unfold Disk.fileAt
    rw [hleads]
    simp only [Disk.get?_laid h w hs, Site.entry]
  have hread : (disk.laid w sites).readBytes d.path =
      .ok (encode (renderLines s.lines (w s.loc))) := by
    unfold Disk.readBytes
    rw [hfile]
    simp [(h.on s hs).reads]
  have hput : (disk.laid w sites).replaceFile d.path (encode (renderLines s.lines states)) =
      .ok (disk.relaid sites w s.loc states) := by
    exact Disk.replaceFile_eq_ok.2 ⟨s.mode, _, s.loc, hfile, hnames,
      (Disk.takes_alike halike d.path).trans ht, Disk.put_laid h w hs states⟩
  unfold replaceText
  rw [hread]
  simp [hput]

theorem flush_onto (h : Sited disk sites) (hs : s ∈ sites) (hd : d.At disk s)
    (ht : disk.takes d.path = true) (w : Layout) :
    d.flush (disk.laid w sites) =
      if IncludeSweep.digest (encode (renderLines s.lines (w s.loc))) = d.digest then
        .ok (d.wrote d.states, disk.relaid sites w s.loc d.states)
      else .error (.modified d.path) := by
  unfold flush render
  rw [hd.lines, replaceText_onto h hs hd ht]
  by_cases hsame : IncludeSweep.digest (encode (renderLines s.lines (w s.loc))) = d.digest
  · simp [hsame, wrote, hd.lines]
  · simp [hsame]

theorem flush_laid (h : Sited disk sites) (hs : s ∈ sites) (hd : d.At disk s)
    (ht : disk.takes d.path = true) :
    d.flush (disk.relaid sites w s.loc d.written) =
      .ok (d.wrote d.states, disk.relaid sites w s.loc d.states) := by
  rw [Disk.relaid, flush_onto h hs hd ht, Function.update_self, if_pos hd.digest.symm,
    Disk.relaid, Function.update_idem, Disk.relaid]

theorem comment_onto (h : Sited disk sites) (hs : s ∈ sites) (hd : d.At disk s)
    (ht : disk.takes d.path = true) (w : Layout) {ns : List Nat} (hne : (mark d.lines ns d.states).2 ≠ []) :
    d.comment (disk.laid w sites) ns =
      if IncludeSweep.digest (encode (renderLines s.lines (w s.loc))) = d.digest then
        .ok ((mark d.lines ns d.states).2, d.wrote (mark d.lines ns d.states).1,
          disk.relaid sites w s.loc (mark d.lines ns d.states).1)
      else .error (.modified d.path) := by
  have hf := flush_onto h hs (hd.withStates (mark d.lines ns d.states).1) ht w
  unfold comment
  simp only [hne, if_false, hf]
  by_cases hsame : IncludeSweep.digest (encode (renderLines s.lines (w s.loc))) = d.digest
  · simp only [hsame, if_true]
    rfl
  · simp only [hsame, if_false]

theorem comment_laid (h : Sited disk sites) (hs : s ∈ sites) (hd : d.At disk s)
    (ht : disk.takes d.path = true) {ns : List Nat} (hne : (mark d.lines ns d.states).2 ≠ []) :
    d.comment (disk.relaid sites w s.loc d.written) ns =
      .ok ((mark d.lines ns d.states).2, d.wrote (mark d.lines ns d.states).1,
        disk.relaid sites w s.loc (mark d.lines ns d.states).1) := by
  rw [Disk.relaid, comment_onto h hs hd ht _ hne, Function.update_self, if_pos hd.digest.symm,
    Disk.relaid, Function.update_idem, Disk.relaid]

theorem comment_nothing {ns : List Nat} (hnil : (mark d.lines ns d.states).2 = []) (disk : Disk) :
    d.comment disk ns = .ok ([], d, disk) := by
  unfold comment
  simp only [hnil, if_true]

theorem delete_laid (h : Sited disk sites) (hs : s ∈ sites) (hd : d.At disk s)
    (ht : disk.takes d.path = true) :
    d.delete (disk.relaid sites w s.loc d.written) =
      .ok (d.pending, d.wrote (settle .deleted d.states),
        disk.relaid sites w s.loc (settle .deleted d.states)) := by
  have hf := flush_laid (w := w) h hs (hd.withStates (settle .deleted d.states)) ht
  unfold delete confirm
  simp only [hf]
  rfl

theorem rollback_laid (h : Sited disk sites) (hs : s ∈ sites) (hd : d.At disk s)
    (ht : disk.takes d.path = true) (hne : d.pending ≠ []) :
    d.rollback (disk.relaid sites w s.loc d.written) =
      .ok (d.pending, d.wrote (settle .intact d.states),
        disk.relaid sites w s.loc (settle .intact d.states)) := by
  have hf := flush_laid (w := w) h hs (hd.withStates (settle .intact d.states)) ht
  unfold rollback
  simp only [hne, if_false, hf]
  rfl

theorem revert_onto (h : Sited disk sites) (hs : s ∈ sites) (hd : d.At disk s)
    (ht : disk.takes d.path = true) (w : Layout) {snap : Snapshot} (htext : snap.text = renderLines s.lines snap.states) :
    d.revert (disk.laid w sites) snap =
      if IncludeSweep.digest (encode (renderLines s.lines (w s.loc))) = d.digest then
        .ok (d.wrote snap.states, disk.relaid sites w s.loc snap.states)
      else .error (.modified d.path) := by
  unfold revert
  rw [htext, replaceText_onto h hs hd ht]
  by_cases hsame : IncludeSweep.digest (encode (renderLines s.lines (w s.loc))) = d.digest
  · simp [hsame, wrote, hd.lines]
  · simp [hsame]

theorem replaceText_of_not_takes (h : disk.takes d.path = false) (text : String) :
    ∃ e, d.replaceText disk text = .error e := by
  obtain ⟨cause, hcause⟩ := Disk.replaceFile_of_not_takes h
  unfold replaceText
  split
  · exact ⟨_, rfl⟩
  · split
    · exact ⟨_, rfl⟩
    · rw [hcause]
      exact ⟨_, rfl⟩

theorem comment_of_not_takes (h : disk.takes d.path = false) {ns : List Nat}
    (hne : (mark d.lines ns d.states).2 ≠ []) : ∃ e, d.comment disk ns = .error e := by
  obtain ⟨e, he⟩ := replaceText_of_not_takes (d := { d with states := (mark d.lines ns d.states).1 }) h
    (renderLines d.lines (mark d.lines ns d.states).1)
  exact ⟨e, by simp [comment, hne, flush, render, he]⟩

theorem revert_of_not_takes (h : disk.takes d.path = false) (snap : Snapshot) :
    ∃ e, d.revert disk snap = .error e := by
  obtain ⟨e, he⟩ := replaceText_of_not_takes h snap.text
  exact ⟨e, by simp [revert, he]⟩

end Draft

end IncludeSweep
