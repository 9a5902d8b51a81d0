import IncludeSweep.Proofs.Showing

set_option autoImplicit false

/-! # What a plan may take out

The targets of a plan are its applicable candidates, each with the location of its file. Assumptions
on a verdict are made on the disks without some of them. -/

namespace IncludeSweep

open Text Draft

variable {σ : Type}

instance (lines : List String) (n : Nat) : Decidable (Applicable lines n) :=
  decidable_of_iff ((nth? lines n).any (fun line => Directive.live (stripTerminator line)) = true)
    (by simp [Applicable, Option.any_eq_true])

structure Target where
  candidate : Candidate
  loc : Location
deriving DecidableEq

def Target.spot (t : Target) : Spot :=
  (t.loc, t.candidate.line)

def spots (ts : List Target) : List Spot :=
  ts.map Target.spot

def targetsIn (loc : Location) (lines : List String) (candidates : List Candidate) : List Target :=
  (candidates.filter fun c => Applicable lines c.line).map (⟨·, loc⟩)

def Disk.targetsOf (disk : Disk) (e : FileCandidates) : List Target :=
  match disk.locate e.path, disk.readText e.path with
  | .ok loc, .ok text => targetsIn loc (rawLines text) e.candidates
  | _, _ => []

def Disk.targets (disk : Disk) (plan : Plan) : List Target :=
  plan.flatMap disk.targetsOf

def Judges (build : Build σ) (V : Disk → Bool) : Prop :=
  ∀ w, (build w).1 = V w.disk

theorem Judges.given {build : Build σ} {V : Disk → Bool} (hj : Judges build V) {t : Trial}
    (ht : t.Given build) : t.passed = V t.disk := by
  obtain ⟨outside, hpassed⟩ := ht
  rw [hpassed, hj]

/-- The verdict takes targets that are commented out for gone, and goes on passing when some that are
gone come back. -/
structure Consistent (V : Disk → Bool) (disk : Disk) (plan : Plan) : Prop where
  commented : ∀ gone batch, gone ++ batch ⊆ spots (disk.targets plan) →
    V (disk.showing gone batch) = V (disk.without (gone ++ batch))
  fewer : ∀ gone less, gone ⊆ spots (disk.targets plan) → less ⊆ gone →
    V (disk.without gone) = true → V (disk.without less) = true

@[simp] theorem spots_append (ts ts' : List Target) : spots (ts ++ ts') = spots ts ++ spots ts' :=
  List.map_append

theorem spots_subset {ts ts' : List Target} (h : ts ⊆ ts') : spots ts ⊆ spots ts' :=
  List.map_subset _ h

section
variable {loc : Location} {lines : List String} {c : Candidate} {cs : List Candidate}

theorem targetsIn_cons (h : Applicable lines c.line) :
    targetsIn loc lines (c :: cs) = ⟨c, loc⟩ :: targetsIn loc lines cs := by
  simp [targetsIn, h]

theorem targetsIn_cons_of_not (h : ¬ Applicable lines c.line) :
    targetsIn loc lines (c :: cs) = targetsIn loc lines cs := by
  simp [targetsIn, h]

theorem candidates_targetsIn : (targetsIn loc lines cs).map Target.candidate =
    cs.filter fun c => Applicable lines c.line := by
  unfold targetsIn
  rw [List.map_map]
  exact List.map_id _

theorem spots_targetsIn : spots (targetsIn loc lines cs) =
    ((cs.filter fun c => Applicable lines c.line).map Candidate.line).map (loc, ·) := by
  rw [spots, targetsIn, List.map_map, List.map_map]
  rfl

theorem targetsIn_applicable :
    targetsIn loc lines (cs.filter fun c => Applicable lines c.line) = targetsIn loc lines cs := by
  simp [targetsIn]

end

def Placed.targets (x : Placed) : List Target :=
  targetsIn x.2.loc x.2.lines x.1.candidates

section
variable {disk : Disk}

theorem Placed.loc_of_target {x : Placed} {t : Target} (h : t ∈ x.targets) : t.loc = x.2.loc := by
  obtain ⟨c, _, rfl⟩ := List.mem_map.1 h
  rfl

theorem Disk.Holds.targetsOf {e : FileCandidates} {loc : Location} {mode : Mode} {text : String}
    (h : disk.Holds e.path loc mode text) :
    disk.targetsOf e = targetsIn loc (rawLines text) e.candidates := by
  simp [Disk.targetsOf, h.leads, h.readText]

theorem targets_eq (disk : Disk) (plan : Plan) :
    disk.targets plan = (plan.filterMap (place disk)).flatMap Placed.targets := by
  induction plan with
  | nil => rfl
  | cons e plan ih =>
    rw [Disk.targets, List.flatMap_cons, ← Disk.targets, ih]
    cases hx : place disk e with
    | some x =>
      obtain ⟨text, loc, mode, _, hh, rfl⟩ := place_some hx
      rw [List.filterMap_cons_some hx, List.flatMap_cons, hh.targetsOf]
      rfl
    | none =>
      rw [List.filterMap_cons_none hx]
      have hnone : disk.targetsOf e = [] := by
        cases ht : disk.readText e.path with
        | error cause => simp [Disk.targetsOf, ht]
        | ok text =>
          obtain ⟨loc, mode, hh⟩ := Disk.readText_ok ht
          rw [hh.targetsOf]
          by_contra hne
          have hcs : e.candidates ≠ [] := fun hnil => hne (by simp [hnil, targetsIn])
          simp [place_of_holds hcs hh] at hx
      rw [hnone, List.nil_append]

end

end IncludeSweep
