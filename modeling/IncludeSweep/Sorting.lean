set_option autoImplicit false

/-! # Sorted lists

A stable sort by insertion, and sets of line numbers kept as strictly ascending lists. -/

namespace IncludeSweep

def orderedInsert {α : Type} (le : α → α → Bool) (a : α) : List α → List α
  | [] => [a]
  | b :: bs => if le a b then a :: b :: bs else b :: orderedInsert le a bs

/-- Elements that are equal under `le` keep their order. -/
def stableSort {α : Type} (le : α → α → Bool) : List α → List α
  | [] => []
  | a :: as => orderedInsert le a (stableSort le as)

theorem orderedInsert_perm {α : Type} (le : α → α → Bool) (a : α) (bs : List α) :
    (orderedInsert le a bs).Perm (a :: bs) := by
  induction bs with
  | nil => exact .refl _
  | cons b bs ih =>
    unfold orderedInsert
    split
    · exact .refl _
    · exact (ih.cons b).trans (.swap a b bs)

theorem stableSort_perm {α : Type} (le : α → α → Bool) (as : List α) :
    (stableSort le as).Perm as := by
  induction as with
  | nil => exact .refl _
  | cons a as ih => exact (orderedInsert_perm le a _).trans (ih.cons a)

theorem orderedInsert_sorted {α : Type} {le : α → α → Bool}
    (htotal : ∀ a b, le a b = true ∨ le b a = true)
    (htrans : ∀ a b c, le a b = true → le b c = true → le a c = true) (a : α) {bs : List α}
    (h : bs.Pairwise fun x y => le x y = true) :
    (orderedInsert le a bs).Pairwise fun x y => le x y = true := by
  induction bs with
  | nil => simp [orderedInsert]
  | cons b bs ih =>
    obtain ⟨hb, hbs⟩ := List.pairwise_cons.1 h
    unfold orderedInsert
    split
    · rename_i hab
      refine List.pairwise_cons.2 ⟨fun x hx => ?_, h⟩
      rcases List.mem_cons.1 hx with rfl | hx
      · exact hab
      · exact htrans a b x hab (hb x hx)
    · rename_i hab
      refine List.pairwise_cons.2 ⟨fun x hx => ?_, ih hbs⟩
      rcases List.mem_cons.1 ((orderedInsert_perm le a bs).mem_iff.1 hx) with rfl | hx
      · exact (htotal x b).resolve_left hab
      · exact hb x hx

theorem stableSort_sorted {α : Type} {le : α → α → Bool}
    (htotal : ∀ a b, le a b = true ∨ le b a = true)
    (htrans : ∀ a b c, le a b = true → le b c = true → le a c = true) (as : List α) :
    (stableSort le as).Pairwise fun x y => le x y = true := by
  induction as with
  | nil => exact .nil
  | cons a as ih => exact orderedInsert_sorted htotal htrans a ih

theorem orderedInsert_filter {α : Type} {le : α → α → Bool} {p : α → Bool}
    (htie : ∀ a b, p a = true → p b = true → le a b = true) (a : α) (bs : List α) :
    (orderedInsert le a bs).filter p = (a :: bs).filter p := by
  induction bs with
  | nil => rfl
  | cons b bs ih =>
    unfold orderedInsert
    split
    · rfl
    · rename_i hab
      rw [List.filter_cons, ih]
      by_cases ha : p a = true
      · have hb : p b ≠ true := fun hb => hab (htie a b ha hb)
        simp [ha, hb]
      · simp [ha, List.filter_cons]

theorem stableSort_filter {α : Type} {le : α → α → Bool} {p : α → Bool}
    (htie : ∀ a b, p a = true → p b = true → le a b = true) (as : List α) :
    (stableSort le as).filter p = as.filter p := by
  induction as with
  | nil => rfl
  | cons a as ih =>
    rw [stableSort, orderedInsert_filter htie, List.filter_cons, List.filter_cons, ih]

def insertNumber (n : Nat) : List Nat → List Nat
  | [] => [n]
  | m :: ms => if n < m then n :: m :: ms else if n = m then m :: ms else m :: insertNumber n ms

def numberSet (ns : List Nat) : List Nat :=
  ns.foldr insertNumber []

theorem mem_insertNumber {n m : Nat} {ms : List Nat} :
    m ∈ insertNumber n ms ↔ m = n ∨ m ∈ ms := by
  induction ms with
  | nil => simp [insertNumber]
  | cons k ms ih =>
    unfold insertNumber
    split
    · simp
    · split
      · rename_i hk
        simp [hk]
      · rw [List.mem_cons, ih, List.mem_cons, or_left_comm]

theorem insertNumber_ascending (n : Nat) {ms : List Nat} (h : ms.Pairwise (· < ·)) :
    (insertNumber n ms).Pairwise (· < ·) := by
  induction ms with
  | nil => simp [insertNumber]
  | cons k ms ih =>
    obtain ⟨hk, hms⟩ := List.pairwise_cons.1 h
    unfold insertNumber
    split
    · rename_i hlt
      refine List.pairwise_cons.2 ⟨fun m hm => ?_, h⟩
      rcases List.mem_cons.1 hm with rfl | hm
      · exact hlt
      · exact Nat.lt_trans hlt (hk m hm)
    · split
      · exact h
      · refine List.pairwise_cons.2 ⟨fun m hm => ?_, ih hms⟩
        rcases mem_insertNumber.1 hm with rfl | hm
        · omega
        · exact hk m hm

theorem numberSet_ascending (ns : List Nat) : (numberSet ns).Pairwise (· < ·) := by
  induction ns with
  | nil => exact .nil
  | cons n ns ih => exact insertNumber_ascending n ih

theorem mem_numberSet {n : Nat} {ns : List Nat} : n ∈ numberSet ns ↔ n ∈ ns := by
  induction ns with
  | nil => exact Iff.rfl
  | cons m ns ih =>
    change n ∈ insertNumber m (numberSet ns) ↔ _
    rw [mem_insertNumber, ih, List.mem_cons]

theorem numberSet_eq {ns ms : List Nat} (h : ms.Pairwise (· < ·)) (hmem : ∀ n, n ∈ ms ↔ n ∈ ns) :
    numberSet ns = ms := by
  have hset := numberSet_ascending ns
  have hperm : (numberSet ns).Perm ms := by
    rw [List.perm_ext_iff_of_nodup (hset.imp Nat.ne_of_lt) (h.imp Nat.ne_of_lt)]
    intro n
    rw [mem_numberSet, hmem]
  refine hperm.eq_of_pairwise ?_ hset h
  intro a b _ _ hab hba
  omega

end IncludeSweep
