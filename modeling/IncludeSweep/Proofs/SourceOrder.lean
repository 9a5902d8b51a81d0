import Mathlib.Data.List.Nodup
import IncludeSweep.Proofs.ReportOrder
import IncludeSweep.Sources

set_option autoImplicit false

/-! # The order of sources

The path of an entry of a directory has one component more than that of the directory. Since each
directory is gone through in the order of its names, the sources of a target come in strictly
ascending order of their paths, and no two of them are the same. -/

namespace IncludeSweep

def ProperName (name : String) : Prop :=
  name ≠ "" ∧ '/' ∉ name.toList

instance (name : String) : Decidable (ProperName name) :=
  inferInstanceAs (Decidable (_ ∧ _))

/-- A disk on which no location occurs twice, and every name on the way to an entry is one that a
directory can hold. -/
structure Tree extends Disk where
  distinct : (entries.map Prod.fst).Nodup
  named : ∀ x ∈ entries, ∀ name ∈ x.1, ProperName name

namespace Path

/-- A slash at the end of a path leaves an empty segment, which gives way to the name. -/
theorem segments_child {p : Path} (hp : p.text ≠ "") {name : String} (hname : ProperName name) :
    ∃ before, before ≠ [] ∧ (p.child name).segments = before ++ [name] ∧
      (p.segments = before ∨ p.segments = before ++ [""]) := by
  have hlast : name.toList.splitOn '/' = [name.toList] := List.splitOn_eq_singleton hname.2
  unfold child segments
  rw [if_neg hp]
  split
  · rename_i hslash
    obtain ⟨init, hinit⟩ := List.getLast?_eq_some_iff.1 hslash
    refine ⟨(init.splitOn '/').map String.ofList, by simp, ?_, .inr ?_⟩
    · simp [hinit, List.splitOn_append_cons_self, hlast]
    · simp [hinit, List.splitOn_append_cons_self]
  · refine ⟨(p.text.toList.splitOn '/').map String.ofList, by simp, ?_, .inl rfl⟩
    simp [List.splitOn_append_cons_self, hlast]

theorem isAbsolute_child {p : Path} (hp : p.text ≠ "") (name : String) :
    (p.child name).isAbsolute = p.isAbsolute := by
  have hne : p.text.toList ≠ [] := fun h => hp (String.toList_inj.1 (by simpa using h))
  unfold child isAbsolute
  rw [if_neg hp]
  split
  · simp [List.head?_append_of_ne_nil _ hne]
  · simp [List.head?_append_of_ne_nil _ hne]

theorem components_child {p : Path} (hp : p.text ≠ "") {name : String} (hname : ProperName name)
    (hdots : Sources.isHidden name = false) :
    (p.child name).components = p.components ++ [.name name] := by
  obtain ⟨before, hbefore, hchild, hown⟩ := segments_child hp hname
  have hnamed : segmentComponent name = some (.name name) := by
    have hdot : name ≠ "." := by rintro rfl; simp [Sources.isHidden] at hdots
    have hdotdot : name ≠ ".." := by rintro rfl; simp [Sources.isHidden] at hdots
    simp [segmentComponent, hname.1, hdot, hdotdot]
  have hhead : (p.child name).segments.head? = p.segments.head? := by
    rcases hown with hown | hown
    · rw [hchild, hown, List.head?_append_of_ne_nil _ hbefore]
    · rw [hchild, hown, List.head?_append_of_ne_nil _ hbefore, List.head?_append_of_ne_nil _ hbefore]
  have hparts : (p.child name).segments.filterMap segmentComponent =
      p.segments.filterMap segmentComponent ++ [.name name] := by
    rcases hown with hown | hown
    · simp [hchild, hown, hnamed]
    · have hblank : segmentComponent "" = none := rfl
      simp [hchild, hown, hnamed, hblank]
  unfold components
  rw [isAbsolute_child hp, hhead, hparts]
  split
  · rfl
  · split
    · rfl
    · rfl

theorem child_text_ne {p : Path} {name : String} (hname : ProperName name) :
    (p.child name).text ≠ "" := by
  unfold child
  split
  · exact hname.1
  · split
    · simp [hname.1]
    · simp

theorem orderComponents_append {a b : Component} (h : a.order b = .lt)
    (before as bs : List Component) :
    orderComponents (before ++ a :: as) (before ++ b :: bs) = .lt := by
  induction before with
  | nil => simp [orderComponents, h]
  | cons c before ih =>
    have hself : c.order c = .eq := Std.ReflCmp.compare_self
    simp [orderComponents, hself, ih]

end Path

namespace Tree

theorem child_name (tree : Tree) {dir : Location} {name : String}
    (hn : name ∈ tree.children dir) : ProperName name := by
  obtain ⟨x, hx, hlast⟩ := List.mem_filterMap.1 hn
  split at hlast
  · exact tree.named x hx name (List.mem_of_getLast? hlast)
  · simp at hlast

theorem children_nodup (tree : Tree) (dir : Location) : (tree.children dir).Nodup := by
  have hkeys : tree.children dir = (tree.entries.map Prod.fst).filterMap fun loc =>
      if loc.dropLast = dir then loc.getLast? else none := by
    rw [List.filterMap_map]
    rfl
  rw [hkeys]
  refine tree.distinct.filterMap fun loc loc' name hloc hloc' => ?_
  -- both locations are the directory with the name behind it
  have hspelled : ∀ l : Location, (name ∈ if l.dropLast = dir then l.getLast? else none) →
      l = dir ++ [name] := by
    intro l hl
    split at hl
    · rename_i hdir
      obtain ⟨init, rfl⟩ := List.getLast?_eq_some_iff.1 hl
      simpa using hdir
    · simp at hl
  rw [hspelled loc hloc, hspelled loc' hloc']

end Tree

namespace Sources

theorem namesInOrder_ascending {names : List String} (h : names.Nodup) :
    (namesInOrder names).Pairwise fun s t => compare s t = .lt := by
  have htotal : ∀ s t : String, (compare s t).isLE = true ∨ (compare t s).isLE = true := by
    intro s t
    have hswap : compare t s = (compare s t).swap := Std.OrientedCmp.eq_swap
    rw [hswap]
    cases compare s t <;> simp
  have hsorted : (namesInOrder names).Pairwise fun s t => (compare s t).isLE = true :=
    stableSort_sorted htotal (fun _ _ _ => Std.TransCmp.isLE_trans) names
  have hne : (namesInOrder names).Nodup := (stableSort_perm _ names).nodup_iff.2 h
  refine (hsorted.and hne).imp ?_
  rintro s t ⟨hle, hst⟩
  cases hc : compare s t with
  | lt => rfl
  | eq => exact absurd (Std.LawfulEqCmp.compare_eq_iff_eq.1 hc) hst
  | gt => simp [hc] at hle

section
variable (disk : Disk) (settings : Settings) (excluded : Option Location)

def under (depth : Nat) (dir : Location) (path : Path) (name : String) : List Path :=
  if isHidden name || isExcluded disk excluded dir name then []
  else
    match disk.get? (dir ++ [name]) with
    | some .dir => below disk settings excluded depth (dir ++ [name]) (path.child name)
    | some (.file _ _) => if hasExtension settings name then [path.child name] else []
    | _ => []

theorem below_succ (depth : Nat) (dir : Location) (path : Path) :
    below disk settings excluded (depth + 1) dir path =
      (namesInOrder (disk.children dir)).flatMap (under disk settings excluded depth dir path) :=
  rfl

end

section
variable {disk : Disk} {settings : Settings} {excluded : Option Location}

variable {depth : Nat} {dir : Location} {path : Path} {name : String} {q : Path}

theorem mem_under_iff : q ∈ under disk settings excluded depth dir path name ↔
    isHidden name = false ∧ isExcluded disk excluded dir name = false ∧
      (disk.get? (dir ++ [name]) = some .dir ∧
          q ∈ below disk settings excluded depth (dir ++ [name]) (path.child name) ∨
        (∃ mode bytes, disk.get? (dir ++ [name]) = some (.file mode bytes)) ∧
          hasExtension settings name = true ∧ q = path.child name) := by
  unfold under
  by_cases hskip : (isHidden name || isExcluded disk excluded dir name) = true
  · rw [if_pos hskip]
    constructor
    · simp
    · rintro ⟨hshown, hout, -⟩
      simp [hshown, hout] at hskip
  · rw [if_neg hskip]
    have hpassed : isHidden name = false ∧ isExcluded disk excluded dir name = false := by
      simpa using hskip
    cases he : disk.get? (dir ++ [name]) with
    | none => simp
    | some e => cases e <;> simp [hpassed]

theorem mem_under (h : q ∈ under disk settings excluded depth dir path name) :
    isHidden name = false ∧ (q = path.child name ∨
      q ∈ below disk settings excluded depth (dir ++ [name]) (path.child name)) := by
  obtain ⟨hshown, -, ⟨-, hbelow⟩ | ⟨-, -, rfl⟩⟩ := mem_under_iff.1 h
  · exact ⟨hshown, .inr hbelow⟩
  · exact ⟨hshown, .inl rfl⟩

theorem below_components (tree : Tree) (hp : path.text ≠ "")
    (hq : q ∈ below tree.toDisk settings excluded depth dir path) :
    ∃ rest, q.components = path.components ++ rest := by
  induction depth generalizing dir path with
  | zero => simp [below] at hq
  | succ depth ih =>
    rw [below_succ] at hq
    obtain ⟨name, hmem, hunder⟩ := List.mem_flatMap.1 hq
    have hname : ProperName name := tree.child_name ((stableSort_perm _ _).mem_iff.1 hmem)
    obtain ⟨hshown, rfl | hbelow⟩ := mem_under hunder
    · exact ⟨_, Path.components_child hp hname hshown⟩
    · obtain ⟨rest, hrest⟩ := ih (Path.child_text_ne hname) hbelow
      rw [hrest, Path.components_child hp hname hshown, List.append_assoc]
      exact ⟨_, rfl⟩

theorem under_components (tree : Tree) (hp : path.text ≠ "") (hname : ProperName name)
    (hq : q ∈ under tree.toDisk settings excluded depth dir path name) :
    ∃ rest, q.components = path.components ++ .name name :: rest := by
  obtain ⟨hshown, rfl | hbelow⟩ := mem_under hq
  · exact ⟨[], Path.components_child hp hname hshown⟩
  · obtain ⟨rest, hrest⟩ := below_components tree (Path.child_text_ne hname) hbelow
    rw [hrest, Path.components_child hp hname hshown, List.append_assoc]
    exact ⟨rest, rfl⟩

theorem below_ascending (tree : Tree) (hp : path.text ≠ "") :
    (below tree.toDisk settings excluded depth dir path).Pairwise fun p q => p.order q = .lt := by
  induction depth generalizing dir path with
  | zero => simp [below]
  | succ depth ih =>
    have hproper : ∀ name ∈ namesInOrder (tree.children dir), ProperName name :=
      fun name hmem => tree.child_name ((stableSort_perm _ _).mem_iff.1 hmem)
    rw [below_succ, List.pairwise_flatMap]
    constructor
    · intro name hmem
      unfold under
      split
      · exact .nil
      · split
        · exact ih (Path.child_text_ne (hproper name hmem))
        · split
          · exact List.pairwise_singleton _ _
          · exact .nil
        · exact .nil
    · -- paths under two names differ first where the names stand
      refine (namesInOrder_ascending (tree.children_nodup dir)).imp_of_mem ?_
      intro s t hs ht hst p hpu q hqu
      obtain ⟨rest, hrest⟩ := under_components tree hp (hproper s hs) hpu
      obtain ⟨rest', hrest'⟩ := under_components tree hp (hproper t ht) hqu
      have hlt : (Component.name s).order (.name t) = .lt := hst
      rw [Path.order, hrest, hrest']
      exact Path.orderComponents_append hlt _ _ _

theorem collect_ascending (tree : Tree) {target : Path} {files : List Path}
    (h : collect tree.toDisk settings target = .ok files) :
    files.Pairwise fun p q => p.order q = .lt := by
  unfold collect at h
  split at h
  · simp at h
  · split at h
    · obtain rfl := Except.ok.inj h
      exact List.pairwise_singleton _ _
    · cases hl : tree.locate target with
      | error cause => simp [hl] at h
      | ok dir =>
        rw [hl] at h
        obtain rfl := Except.ok.inj h
        refine below_ascending tree fun hempty => ?_
        simp [Disk.locate, Disk.resolve, hempty] at hl

end

end Sources

end IncludeSweep
