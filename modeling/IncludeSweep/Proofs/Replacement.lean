import IncludeSweep.Disk.Resolve

set_option autoImplicit false

/-! # Replacing a file

Entries put at locations that hold something already: such writes to different locations commute, a
later one to the same location wins. A path is resolved by looking at directories and links only, so
that replacing one regular file by another leads every path to where it led before. -/

namespace IncludeSweep

/-- An entry without the content of a file: all that the resolution of paths looks at. -/
def Entry.outline : Entry → Entry
  | .file _ _ => .file 0 ByteArray.empty
  | e => e

namespace Disk

theorem putEntry_putEntry (loc : Location) (a b : Entry) (xs : List (Location × Entry)) :
    putEntry loc b (putEntry loc a xs) = putEntry loc b xs := by
  induction xs with
  | nil => simp [putEntry]
  | cons x xs ih =>
    by_cases h : x.1 = loc
    · simp [putEntry, h]
    · simp [putEntry, h, ih]

theorem putEntry_lookup (loc : Location) (e : Entry) (xs : List (Location × Entry))
    (h : xs.lookup loc = some e) : putEntry loc e xs = xs := by
  induction xs with
  | nil => simp at h
  | cons x xs ih =>
    obtain ⟨k, v⟩ := x
    by_cases hk : k = loc
    · subst hk
      have hv : v = e := by simpa using h
      simp [putEntry, hv]
    · have hb : (loc == k) = false := by simpa using Ne.symm hk
      have ht : xs.lookup loc = some e := by simpa [List.lookup_cons, hb] using h
      simp [putEntry, hk, ih ht]

theorem putEntry_comm (l m : Location) (a b : Entry) (xs : List (Location × Entry)) (hne : l ≠ m)
    (hl : xs.lookup l ≠ none) (hm : xs.lookup m ≠ none) :
    putEntry m b (putEntry l a xs) = putEntry l a (putEntry m b xs) := by
  induction xs with
  | nil => simp at hl
  | cons x xs ih =>
    obtain ⟨k, v⟩ := x
    by_cases hkl : k = l
    · subst hkl
      simp [putEntry, hne]
    · by_cases hkm : k = m
      · subst hkm
        simp [putEntry, Ne.symm hne]
      · have hbl : (l == k) = false := by simpa using Ne.symm hkl
        have hbm : (m == k) = false := by simpa using Ne.symm hkm
        have hl' : xs.lookup l ≠ none := by simpa [List.lookup_cons, hbl] using hl
        have hm' : xs.lookup m ≠ none := by simpa [List.lookup_cons, hbm] using hm
        simp [putEntry, hkl, hkm, ih hl' hm']

theorem put_put (d : Disk) (loc : Location) (a b : Entry) :
    (d.put loc a).put loc b = d.put loc b := by
  simp [put, putEntry_putEntry]

theorem lookup_of_get? {d : Disk} {loc : Location} {e : Entry} (h : d.get? loc = some e)
    (hloc : loc ≠ []) : d.entries.lookup loc = some e := by
  simpa [get?, hloc] using h

theorem put_get? {d : Disk} {loc : Location} {e : Entry} (h : d.get? loc = some e)
    (hloc : loc ≠ []) : d.put loc e = d := by
  unfold put
  rw [putEntry_lookup loc e d.entries (lookup_of_get? h hloc)]

theorem put_comm {d : Disk} {l m : Location} {x y : Entry} (hx : d.get? l = some x)
    (hy : d.get? m = some y) (hl : l ≠ []) (hm : m ≠ []) (hne : l ≠ m) (a b : Entry) :
    (d.put l a).put m b = (d.put m b).put l a := by
  have hlx := lookup_of_get? hx hl
  have hmy := lookup_of_get? hy hm
  unfold put
  simp only [Disk.mk.injEq, true_and, and_true]
  exact putEntry_comm l m a b d.entries hne (by simp [hlx]) (by simp [hmy])

theorem ne_nil_of_file {d : Disk} {loc : Location} {mode : Mode} {bytes : ByteArray}
    (h : d.get? loc = some (.file mode bytes)) : loc ≠ [] := by
  rintro rfl
  simp [get?] at h

/-- Two disks have the same directories, links and files, whatever is in the files, and refuse the
same writes. -/
structure Alike (d d' : Disk) : Prop where
  cwd : d'.cwd = d.cwd
  refusals : d'.refusals = d.refusals
  outline : ∀ loc, (d'.get? loc).map Entry.outline = (d.get? loc).map Entry.outline

theorem Alike.dir_iff {d d' : Disk} (h : Alike d d') (loc : Location) :
    d'.get? loc = some .dir ↔ d.get? loc = some .dir := by
  have hl := h.outline loc
  cases hd : d.get? loc with
  | none =>
    rw [hd] at hl
    simp at hl
    simp [hl]
  | some e =>
    rw [hd] at hl
    obtain ⟨e', he', ho⟩ := Option.map_eq_some_iff.1 hl
    rw [he']
    cases e <;> cases e' <;> simp_all [Entry.outline]

theorem walkWith_alike {d d' : Disk} (h : Alike d d') (last : LastStep)
    {f g : Location → Path → List String → Except SystemError Location}
    (hfg : ∀ loc target rest, f loc target rest = g loc target rest)
    (segments : List String) (loc : Location) :
    walkWith d' last f loc segments = walkWith d last g loc segments := by
  induction segments generalizing loc with
  | nil => rfl
  | cons segment rest ih =>
    have hl := h.outline (loc ++ [segment])
    unfold walkWith
    simp only [ne_eq, h.dir_iff loc, ih]
    cases hd : d.get? (loc ++ [segment]) with
    | none =>
      rw [hd] at hl
      have hd' : d'.get? (loc ++ [segment]) = none := by simpa using hl
      rw [hd']
    | some e =>
      rw [hd] at hl
      obtain ⟨e', he', ho⟩ := Option.map_eq_some_iff.1 hl
      rw [he']
      cases e <;> cases e' <;> simp_all [Entry.outline]

theorem walk_alike {d d' : Disk} (h : Alike d d') (last : LastStep) (links : Nat)
    (loc : Location) (segments : List String) :
    walk d' last links loc segments = walk d last links loc segments := by
  induction links generalizing loc segments with
  | zero => exact walkWith_alike h last (fun _ _ _ => rfl) segments loc
  | succ links ih =>
    exact walkWith_alike h last (fun _ _ _ => ih _ _) segments loc

theorem resolve_alike {d d' : Disk} (h : Alike d d') (last : LastStep) (p : Path) :
    d'.resolve last p = d.resolve last p := by
  unfold resolve
  rw [h.cwd, walk_alike h]

theorem locate_alike {d d' : Disk} (h : Alike d d') (p : Path) : d'.locate p = d.locate p :=
  resolve_alike h .follow p

theorem locateName_alike {d d' : Disk} (h : Alike d d') (p : Path) :
    d'.locateName p = d.locateName p :=
  resolve_alike h .stay p

theorem alike_refl (d : Disk) : Alike d d :=
  ⟨rfl, rfl, fun _ => rfl⟩

theorem Alike.trans {d d' d'' : Disk} (h : Alike d d') (h' : Alike d' d'') : Alike d d'' :=
  ⟨h'.cwd.trans h.cwd, h'.refusals.trans h.refusals,
    fun loc => (h'.outline loc).trans (h.outline loc)⟩

theorem alike_put_file {d : Disk} {loc : Location} {mode : Mode} {bytes : ByteArray}
    (h : d.get? loc = some (.file mode bytes)) (mode' : Mode) (bytes' : ByteArray) :
    Alike d (d.put loc (.file mode' bytes')) := by
  refine ⟨rfl, rfl, fun l => ?_⟩
  rw [get?_put d loc l _ (ne_nil_of_file h)]
  by_cases hl : l = loc
  · subst hl
    simp [h, Entry.outline]
  · simp [hl]

def takes (d : Disk) (p : Path) : Bool :=
  match d.locateName p with
  | .error _ => false
  | .ok name => (d.refusal? p name).isNone

theorem takes_of_locateName {d : Disk} {p : Path} {name : Location}
    (h : d.locateName p = .ok name) : d.takes p = (d.refusal? p name).isNone := by
  simp only [takes, h]

theorem refusal?_congr {d d' : Disk} (hcwd : d'.cwd = d.cwd) (hrefusals : d'.refusals = d.refusals)
    (p : Path) (name : Location) : d'.refusal? p name = d.refusal? p name := by
  have hscratch : d'.scratchPath p = d.scratchPath p := by
    unfold scratchPath
    rw [hcwd]
  unfold refusal?
  rw [hscratch, hrefusals]

theorem takes_alike {d d' : Disk} (h : Alike d d') (p : Path) : d'.takes p = d.takes p := by
  simp only [takes, locateName_alike h, refusal?_congr h.cwd h.refusals]

/-- A file is replaced at its name and keeps its mode, unless the disk refuses. -/
theorem replaceFile_eq_ok {d d' : Disk} {p : Path} {bytes : ByteArray} :
    d.replaceFile p bytes = .ok d' ↔
      ∃ mode old name, d.fileAt p = .ok (mode, old) ∧ d.locateName p = .ok name ∧
        d.takes p = true ∧ d.put name (.file mode bytes) = d' := by
  unfold replaceFile
  cases hf : d.fileAt p with
  | error e => simp
  | ok file =>
    obtain ⟨mode, old⟩ := file
    cases hn : d.locateName p with
    | error e => simp
    | ok name =>
      rw [takes_of_locateName hn]
      cases hr : d.refusal? p name with
      | some cause => simp [hr]
      | none => simp [hr]

/-- Why a write is refused does not depend on what is to be written. -/
theorem replaceFile_of_not_takes {d : Disk} {p : Path} (h : d.takes p = false) :
    ∃ cause, ∀ bytes, d.replaceFile p bytes = .error cause := by
  unfold replaceFile
  cases hf : d.fileAt p with
  | error e => exact ⟨e, fun _ => rfl⟩
  | ok file =>
    cases hn : d.locateName p with
    | error e => exact ⟨e, fun _ => rfl⟩
    | ok name =>
      rw [takes_of_locateName hn] at h
      cases hr : d.refusal? p name with
      | none => simp [hr] at h
      | some cause => exact ⟨cause, fun _ => by simp only [hr]⟩

end Disk

end IncludeSweep
