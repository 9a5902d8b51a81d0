import IncludeSweep.Proofs.PlanTrace

set_option autoImplicit false

/-! # What a report says of the files it leaves

A report names the committed lines and the files that could not be restored. Both are true of what
the run has last written to each file, whatever the builds have done to the disk: a file that is not
listed was left without its committed lines and otherwise as it was opened, and one that is listed
was left with some more of its candidates commented out. Where the disk does not let a file be
replaced there may be none of these: a file in which nothing can be commented out is written when it
is put back, and listed as that fails. -/

namespace IncludeSweep

open Text Draft

variable {σ : Type}

def linesLeft (gone marked : List Nat) (lines : List String) : List String :=
  ((lines.zipIdx 1).filter fun x => !gone.contains x.2).map fun x =>
    if x.2 ∈ marked then "// " ++ x.1 else x.1

theorem pieces_numbered_left (gone marked : List Nat) (lines : List String) :
    pieces lines (numbered (fun n => if n ∈ gone then .deleted
      else if n ∈ marked then .commentedOut else .intact) lines) = linesLeft gone marked lines := by
  unfold numbered linesLeft
  generalize 1 = k
  induction lines generalizing k with
  | nil => rfl
  | cons line lines ih =>
    rw [List.zipIdx_cons, List.map_cons]
    by_cases hk : k ∈ gone
    · simp [hk, pieces, ih]
    · by_cases hm : k ∈ marked
      · simp [hk, hm, pieces, ih, commentMark]
      · simp [hk, hm, pieces, ih]

theorem nth?_bounds {α : Type} {xs : List α} {n : Nat} {x : α} (h : nth? xs n = some x) :
    n ≤ xs.length ∧ 1 ≤ n := by
  obtain ⟨i, rfl, hi⟩ := nth?_eq_some.1 h
  have hlt := (List.getElem?_eq_some_iff.1 hi).1
  omega

theorem exists_nth? {α β : Type} {xs : List α} {ys : List β} (hlen : xs.length = ys.length) {n : Nat}
    {y : β} (h : nth? ys n = some y) : ∃ x, nth? xs n = some x := by
  obtain ⟨i, rfl, hi⟩ := nth?_eq_some.1 h
  have hlt := (List.getElem?_eq_some_iff.1 hi).1
  exact ⟨_, nth?_eq_some.2 ⟨i, rfl, List.getElem?_eq_getElem (hlen ▸ hlt)⟩⟩

theorem states_eq_numbered {lines : List String} {states : List LineState}
    (hlen : states.length = lines.length) {gone : List Nat}
    (hgone : ∀ n, nth? states n = some .deleted ↔ n ∈ gone) :
    states = numbered (fun n => if n ∈ gone then .deleted
      else if n ∈ linesIn .commentedOut 1 states then .commentedOut else .intact) lines := by
  apply ext_nth?
  intro n
  have hmarked : n ∈ linesIn .commentedOut 1 states ↔ _ := mem_linesIn_one
  rw [nth?_numbered]
  cases hl : nth? lines n with
  | none =>
    cases hs : nth? states n with
    | none => rfl
    | some state =>
      obtain ⟨line, hline⟩ := exists_nth? hlen.symm hs
      simp [hline] at hl
  | some line =>
    obtain ⟨state, hs⟩ := exists_nth? hlen hl
    simp only [← hgone n, hmarked, hs, Option.map_some]
    cases state <;> simp

end IncludeSweep
