import IncludeSweep.Proofs.Links
import IncludeSweep.Proofs.ScansAtOnce
import IncludeSweep.Proofs.SourceOrder

set_option autoImplicit false

/-! # The sources below a directory

Going through a directory finds exactly the files that a description of single files admits: real
directories lead to them, no name on the way is hidden, their extension is configured, and they lie
outside the build directory. Whole directories are passed over on the way; this loses no such file,
since a file below a directory that is passed over is not admitted either. -/

namespace IncludeSweep

theorem Path.nameExtension_eq_some {name extension : String} :
    nameExtension name = some extension ↔
      ∃ stem, name = stem ++ "." ++ extension ∧ stem ≠ "" ∧ '.' ∉ extension.toList := by
  unfold nameExtension
  constructor
  · intro h
    have hsplit := List.takeWhile_append_dropWhile (p := (· != '.')) (l := name.toList.reverse)
    have hfirst := List.head?_dropWhile_not (· != '.') name.toList.reverse
    have hplain := List.all_eq_true.1 (List.all_takeWhile (p := (· != '.')) (l := name.toList.reverse))
    cases hdrop : name.toList.reverse.dropWhile (· != '.') with
    | nil => simp [hdrop] at h
    | cons c cs =>
      cases cs with
      | nil => simp [hdrop] at h
      | cons c' cs =>
        rw [hdrop] at hsplit hfirst
        obtain rfl : c = '.' := by simpa using hfirst
        simp only [hdrop, Option.some.injEq] at h
        subst h
        refine ⟨String.ofList (c' :: cs).reverse, ?_, by simp, fun hdot => ?_⟩
        · rw [← String.toList_inj]
          simpa using congrArg List.reverse hsplit.symm
        · simpa using hplain '.' (by simpa using hdot)
  · rintro ⟨stem, rfl, hstem, hdot⟩
    have hplain : ∀ c ∈ extension.toList.reverse, (c != '.') = true := by
      intro c hc
      rw [bne_iff_ne]
      rintro rfl
      exact hdot (List.mem_reverse.1 hc)
    have hne : stem.toList.reverse ≠ [] := by simpa using hstem
    obtain ⟨c, cs, hc⟩ := List.exists_cons_of_ne_nil hne
    simp [hc, List.dropWhile_append_of_pos hplain, List.takeWhile_append_of_pos hplain]

theorem Sources.hasExtension_iff {settings : Settings} {name : String} :
    hasExtension settings name = true ↔
      ∃ stem extension, name = stem ++ "." ++ extension ∧ stem ≠ "" ∧ '.' ∉ extension.toList ∧
        ∃ e ∈ settings.extensions, Text.sameIgnoringCase e extension = true := by
  unfold hasExtension
  constructor
  · intro h
    cases he : Path.nameExtension name with
    | none => simp [he] at h
    | some extension =>
      obtain ⟨stem, hname, hstem, hdot⟩ := Path.nameExtension_eq_some.1 he
      rw [he] at h
      exact ⟨stem, extension, hname, hstem, hdot, List.any_eq_true.1 h⟩
  · rintro ⟨stem, extension, hname, hstem, hdot, haccepts⟩
    rw [Path.nameExtension_eq_some.2 ⟨stem, hname, hstem, hdot⟩]
    exact List.any_eq_true.2 haccepts

/-- A tree whose names are not too long for a directory either. -/
structure StoredTree extends Tree where
  fits : ∀ x ∈ entries, ∀ name ∈ x.1, name.utf8ByteSize ≤ Disk.maxName

namespace Disk

theorem get?_below {d : Disk} {dir : Location} {name : String} {e : Entry}
    (h : d.get? (dir ++ [name]) = some e) : (dir ++ [name], e) ∈ d.entries := by
  unfold get? at h
  rw [if_neg (by simp)] at h
  obtain ⟨l₁, l₂, hentries, _⟩ := List.lookup_eq_some_iff.1 h
  simp [hentries]

theorem mem_children {d : Disk} {dir : Location} {name : String} :
    name ∈ d.children dir ↔ ∃ e, d.get? (dir ++ [name]) = some e := by
  unfold children
  rw [List.mem_filterMap]
  constructor
  · rintro ⟨⟨loc, e⟩, hx, hlast⟩
    split at hlast
    · rename_i hdir
      obtain ⟨init, hinit⟩ := List.getLast?_eq_some_iff.1 hlast
      have hloc : loc = dir ++ [name] := by
        rw [← hdir, hinit, List.dropLast_concat]
        exact hinit
      refine Option.ne_none_iff_exists'.1 fun hnone => ?_
      unfold get? at hnone
      rw [if_neg (by simp)] at hnone
      have hne := List.lookup_eq_none_iff.1 hnone (loc, e) hx
      simp [hloc] at hne
    · simp at hlast
  · rintro ⟨e, he⟩
    exact ⟨_, get?_below he, by simp⟩

theorem length_le_depth {d : Disk} {x : Location × Entry} (hx : x ∈ d.entries) :
    x.1.length ≤ d.depth := by
  unfold depth
  generalize d.entries = xs at hx
  induction xs with
  | nil => simp at hx
  | cons y ys ih =>
    rw [List.foldr_cons]
    rcases List.mem_cons.1 hx with rfl | hx
    · exact Nat.le_max_left _ _
    · exact Nat.le_trans (ih hx) (Nat.le_max_right _ _)

end Disk

theorem StoredTree.isName (tree : StoredTree) {dir : Location} {name : String} {e : Entry}
    (he : tree.get? (dir ++ [name]) = some e) (hshown : Sources.isHidden name = false) :
    Disk.IsName name := by
  have hx := Disk.get?_below he
  have hmem : name ∈ dir ++ [name] := by simp
  refine ⟨?_, ?_, Nat.not_lt.2 (tree.fits _ hx name hmem)⟩
  · rintro (rfl | rfl)
    · exact (tree.named _ hx "" hmem).1 rfl
    · simp [Sources.isHidden] at hshown
  · rintro rfl
    simp [Sources.isHidden] at hshown

namespace Sources

/-- A file is found below a directory: no entry on the way to it is passed over. -/
inductive Found (disk : Disk) (settings : Settings) (excluded : Option Location) :
    Location → List String → Prop
  | file {dir : Location} {name : String} {mode : Mode} {bytes : ByteArray}
    (hshown : isHidden name = false) (hout : isExcluded disk excluded dir name = false)
    (he : disk.get? (dir ++ [name]) = some (.file mode bytes))
    (hext : hasExtension settings name = true) : Found disk settings excluded dir [name]
  | dir {dir : Location} {name : String} {rest : List String} (hshown : isHidden name = false)
    (hout : isExcluded disk excluded dir name = false)
    (he : disk.get? (dir ++ [name]) = some .dir)
    (h : Found disk settings excluded (dir ++ [name]) rest) :
    Found disk settings excluded dir (name :: rest)

section
variable {disk : Disk} {settings : Settings} {excluded : Option Location}

theorem mem_below_iff {depth : Nat} {dir : Location} {path q : Path} :
    q ∈ below disk settings excluded depth dir path ↔
      ∃ r, Found disk settings excluded dir r ∧ r.length ≤ depth ∧ q = r.foldl Path.child path := by
  induction depth generalizing dir path with
  | zero =>
    constructor
    · intro h
      simp [below] at h
    · rintro ⟨r, hr, hlen, -⟩
      cases hr <;> simp at hlen
  | succ depth ih =>
    rw [below_succ, List.mem_flatMap]
    constructor
    · rintro ⟨name, -, hq⟩
      obtain ⟨hshown, hout, ⟨he, hbelow⟩ | ⟨⟨mode, bytes, he⟩, hext, rfl⟩⟩ := mem_under_iff.1 hq
      · obtain ⟨r, hr, hlen, rfl⟩ := ih.1 hbelow
        exact ⟨name :: r, .dir hshown hout he hr, by simpa using hlen, rfl⟩
      · exact ⟨[name], .file hshown hout he hext, by simp, rfl⟩
    · rintro ⟨r, hr, hlen, rfl⟩
      have hlisted : ∀ {name e}, disk.get? (dir ++ [name]) = some e →
          name ∈ namesInOrder (disk.children dir) := fun he =>
        (stableSort_perm _ _).mem_iff.2 (Disk.mem_children.2 ⟨_, he⟩)
      cases hr with
      | file hshown hout he hext =>
        exact ⟨_, hlisted he, mem_under_iff.2 ⟨hshown, hout, .inr ⟨⟨_, _, he⟩, hext, rfl⟩⟩⟩
      | dir hshown hout he h =>
        have hbelow := ih.2 ⟨_, h, by simpa using hlen, rfl⟩
        exact ⟨_, hlisted he, mem_under_iff.2 ⟨hshown, hout, .inl ⟨he, hbelow⟩⟩⟩

theorem Found.length_le {dir : Location} {r : List String}
    (h : Found disk settings excluded dir r) : r.length ≤ disk.depth := by
  have hdeep : dir.length + r.length ≤ disk.depth := by
    induction h with
    | file _ _ he _ => simpa using Disk.length_le_depth (Disk.get?_below he)
    | dir _ _ _ _ ih =>
      simp only [List.length_append, List.length_cons, List.length_nil] at ih ⊢
      omega
  omega

theorem isExcluded_iff (tree : StoredTree) {dir : Location} (hdir : tree.get? dir = some .dir)
    {name : String} (hshown : isHidden name = false) {e : Entry}
    (he : tree.get? (dir ++ [name]) = some e) (hlink : ∀ target, e ≠ .link target) :
    isExcluded tree.toDisk excluded dir name = true ↔ ∃ base ∈ excluded, base <+: dir ++ [name] := by
  have hleads : Disk.Leads tree.toDisk .follow Disk.maxLinks dir [name] (dir ++ [name]) :=
    .name hdir (tree.isName he hshown) he hlink (.done _ _)
  unfold isExcluded
  rw [Disk.walk_of_leads hleads]
  cases excluded with
  | none => simp
  | some base => simp

end

structure SourceAt (disk : Disk) (settings : Settings) (dir : Location) (r : List String) : Prop where
  file : ∃ mode bytes, disk.get? (dir ++ r) = some (.file mode bytes)
  through : ∀ front, front <+: r → front ≠ r → disk.get? (dir ++ front) = some .dir
  shown : ∀ name ∈ r, name.toList.head? ≠ some '.'
  extension : ∃ stem extension, r.getLast? = some (stem ++ "." ++ extension) ∧ stem ≠ "" ∧
    '.' ∉ extension.toList ∧ ∃ e ∈ settings.extensions, Text.sameIgnoringCase e extension = true

section
variable {disk : Disk} {settings : Settings} {excluded : Option Location}

theorem isHidden_eq_false {name : String} :
    isHidden name = false ↔ name.toList.head? ≠ some '.' := by
  simp [isHidden]

theorem SourceAt.of_file {dir : Location} {name : String} {mode : Mode} {bytes : ByteArray}
    (hdir : disk.get? dir = some .dir) (hshown : isHidden name = false)
    (he : disk.get? (dir ++ [name]) = some (.file mode bytes))
    (hext : hasExtension settings name = true) : SourceAt disk settings dir [name] := by
  obtain ⟨stem, extension, hname, hstem⟩ := hasExtension_iff.1 hext
  refine ⟨⟨mode, bytes, he⟩, fun front hfront hne => ?_, ?_, stem, extension, by simp [hname], hstem⟩
  · rcases List.prefix_cons_iff.1 hfront with rfl | ⟨t, rfl, ht⟩
    · simpa using hdir
    · exact absurd (by simp [List.prefix_nil.1 ht]) hne
  · simpa using isHidden_eq_false.1 hshown

theorem SourceAt.of_dir {dir : Location} {name : String} {rest : List String}
    (hdir : disk.get? dir = some .dir) (hshown : isHidden name = false)
    (h : SourceAt disk settings (dir ++ [name]) rest) : SourceAt disk settings dir (name :: rest) := by
  obtain ⟨stem, extension, hlast, hstem⟩ := h.extension
  refine ⟨by simpa using h.file, fun front hfront hne => ?_, ?_, stem, extension, ?_, hstem⟩
  · rcases List.prefix_cons_iff.1 hfront with rfl | ⟨t, rfl, ht⟩
    · simpa using hdir
    · simpa using h.through t ht fun heq => hne (by rw [heq])
  · exact List.forall_mem_cons.2 ⟨isHidden_eq_false.1 hshown, h.shown⟩
  · simp [List.getLast?_cons, hlast]

theorem Found.sourceAt (tree : StoredTree) {dir : Location} {r : List String}
    (h : Found tree.toDisk settings excluded dir r) (hdir : tree.get? dir = some .dir) :
    SourceAt tree.toDisk settings dir r ∧ ∀ base ∈ excluded, ¬ base <+: dir ++ r := by
  induction h with
  | @file dir name mode bytes hshown hout he hext =>
    refine ⟨.of_file hdir hshown he hext, fun base hbase hunder => ?_⟩
    have hin := (isExcluded_iff tree hdir hshown he (by simp)).2 ⟨base, hbase, hunder⟩
    rw [hout] at hin
    exact Bool.noConfusion hin
  | dir hshown _ he _ ih =>
    obtain ⟨hsource, houtside⟩ := ih he
    refine ⟨.of_dir hdir hshown hsource, ?_⟩
    simpa using houtside

theorem SourceAt.head {dir : Location} {name : String} {rest : List String}
    (h : SourceAt disk settings dir (name :: rest)) (hrest : rest ≠ []) :
    disk.get? (dir ++ [name]) = some .dir ∧ SourceAt disk settings (dir ++ [name]) rest := by
  obtain ⟨stem, extension, hlast, hstem⟩ := h.extension
  refine ⟨h.through [name] (by simp) (by simpa using hrest.symm), by simpa using h.file,
    fun front hfront hne => ?_, fun t ht => h.shown t (List.mem_cons_of_mem _ ht), stem, extension,
    ?_, hstem⟩
  · simpa using h.through (name :: front) (List.cons_prefix_cons.2 ⟨rfl, hfront⟩) (by simpa using hne)
  · rwa [List.getLast?_cons_of_ne_nil hrest] at hlast

theorem SourceAt.found (tree : StoredTree) {dir : Location} {r : List String}
    (h : SourceAt tree.toDisk settings dir r) (houtside : ∀ base ∈ excluded, ¬ base <+: dir ++ r) :
    Found tree.toDisk settings excluded dir r := by
  induction r generalizing dir with
  | nil =>
    obtain ⟨_, _, hlast, _⟩ := h.extension
    simp at hlast
  | cons name rest ih =>
    have hdir : tree.get? dir = some .dir := by simpa using h.through [] (by simp) (by simp)
    have hshown : isHidden name = false := isHidden_eq_false.2 (h.shown name (by simp))
    -- if this entry were in the build directory, so would be the file
    have hpassed : ∀ {e}, tree.get? (dir ++ [name]) = some e → (∀ target, e ≠ .link target) →
        isExcluded tree.toDisk excluded dir name = false := by
      intro e he hlink
      rw [← Bool.not_eq_true, isExcluded_iff tree hdir hshown he hlink]
      rintro ⟨base, hbase, hunder⟩
      refine houtside base hbase (hunder.trans ?_)
      simp
    by_cases hrest : rest = []
    · subst hrest
      obtain ⟨mode, bytes, he⟩ := h.file
      obtain ⟨stem, extension, hlast, hstem⟩ := h.extension
      have hext : hasExtension settings name = true :=
        hasExtension_iff.2 ⟨stem, extension, by simpa using hlast, hstem⟩
      exact .file hshown (hpassed he (by simp)) he hext
    · obtain ⟨he, hbelow⟩ := h.head hrest
      refine .dir hshown (hpassed he (by simp)) he (ih hbelow ?_)
      simpa using houtside

theorem mem_excludedFrom {buildDir : Path} {dir base : Location} :
    base ∈ excludedFrom disk buildDir dir ↔ disk.locate buildDir = .ok base ∧ ¬ base <+: dir := by
  unfold excludedFrom
  cases hb : disk.locate buildDir with
  | error cause => simp
  | ok base' =>
    simp only [Except.ok.injEq]
    split
    · rename_i hin
      constructor
      · simp
      · rintro ⟨rfl, hout⟩
        exact absurd (List.isPrefixOf_iff_prefix.1 hin) hout
    · rename_i hout
      rw [Option.mem_some_iff]
      constructor
      · rintro rfl
        exact ⟨rfl, fun hin => hout (List.isPrefixOf_iff_prefix.2 hin)⟩
      · exact And.left

end

end Sources

namespace Disk

section
variable {d : Disk} {links : Nat} {loc x y : Location} {segments : List String}

theorem Leads.beyond {rest : List String} (h : Leads d .follow links loc segments x)
    (hrest : ∀ links, Leads d .follow links x rest y) :
    Leads d .follow links loc (segments ++ rest) y := by
  induction h with
  | done links => exact hrest links
  | here hdir hs _ ih => exact .here hdir hs (ih hrest)
  | parent hdir _ ih => exact .parent hdir (ih hrest)
  | name hdir hs he hlink _ ih => exact .name hdir hs he hlink (ih hrest)
  | missing _ _ _ hlast => simp at hlast
  | stay _ _ _ hlast => simp at hlast
  | link hdir hs he _ _ ih =>
    have hgo := ih hrest
    rw [List.append_assoc] at hgo
    exact .link hdir hs he (by simp) hgo

/-- A slash at the end of a path asks for a directory and leads no further. -/
theorem Leads.before_blank (h : Leads d .follow links loc (segments ++ [""]) x) :
    Leads d .follow links loc segments x := by
  -- only the rule for an empty segment can have been the last one, since no name is empty
  generalize hall : segments ++ [""] = all at h
  induction h generalizing segments with
  | done => simp at hall
  | @here links loc x segment rest hdir hs h ih =>
    cases segments with
    | nil =>
      obtain ⟨-, rfl⟩ := List.cons.inj hall
      exact h
    | cons s segments =>
      obtain ⟨rfl, rfl⟩ := List.cons.inj hall
      exact .here hdir hs (ih rfl)
  | @parent links loc x rest hdir h ih =>
    cases segments with
    | nil => simp at hall
    | cons s segments =>
      obtain ⟨rfl, rfl⟩ := List.cons.inj hall
      exact .parent hdir (ih rfl)
  | name hdir hs he hlink h ih =>
    cases segments with
    | nil => exact absurd (.inl (List.cons.inj hall).1.symm) hs.notHere
    | cons s segments =>
      obtain ⟨rfl, rfl⟩ := List.cons.inj hall
      exact .name hdir hs he hlink (ih rfl)
  | missing _ _ _ hlast => simp at hlast
  | stay _ _ _ hlast => simp at hlast
  | link hdir hs he _ h ih =>
    cases segments with
    | nil => exact absurd (.inl (List.cons.inj hall).1.symm) hs.notHere
    | cons s segments =>
      obtain ⟨rfl, rfl⟩ := List.cons.inj hall
      exact .link hdir hs he (by simp) (ih (List.append_assoc _ _ _))

end

def Reaches (d : Disk) (p : Path) (x : Location) : Prop :=
  p.text ≠ "" ∧ Leads d .follow maxLinks (if p.isAbsolute then [] else d.cwd) p.segments x

theorem Reaches.child {d : Disk} {p : Path} {x : Location} (h : d.Reaches p x) {name : String}
    (hproper : ProperName name) (hgo : ∀ links, Leads d .follow links x [name] (x ++ [name])) :
    d.Reaches (p.child name) (x ++ [name]) := by
  obtain ⟨hp, hleads⟩ := h
  obtain ⟨before, -, hchild, hown⟩ := Path.segments_child hp hproper
  have hbefore : Leads d .follow maxLinks (if p.isAbsolute then [] else d.cwd) before x := by
    rcases hown with hown | hown
    · rwa [hown] at hleads
    · rw [hown] at hleads
      exact hleads.before_blank
  refine ⟨Path.child_text_ne hproper, ?_⟩
  rw [Path.isAbsolute_child hp, hchild]
  exact hbefore.beyond hgo

theorem Reaches.locate {d : Disk} {p : Path} {x : Location} (h : d.Reaches p x) (hu : Usable p) :
    d.locate p = .ok x :=
  resolve_eq_ok.2 ⟨hu, h.2⟩

end Disk

theorem Sources.Found.reaches (tree : StoredTree) {settings : Settings}
    {excluded : Option Location} {dir : Location} {r : List String}
    (h : Found tree.toDisk settings excluded dir r) (hdir : tree.get? dir = some .dir) {path : Path}
    (hpath : tree.Reaches path dir) : tree.Reaches (r.foldl Path.child path) (dir ++ r) := by
  have hstep : ∀ {dir : Location} {name : String} {e : Entry} {path : Path},
      tree.get? dir = some .dir → tree.Reaches path dir → isHidden name = false →
      tree.get? (dir ++ [name]) = some e → (∀ target, e ≠ .link target) →
      tree.Reaches (path.child name) (dir ++ [name]) := by
    intro dir name e path hdir hpath hshown he hlink
    refine hpath.child (tree.named _ (Disk.get?_below he) name (by simp)) fun links => ?_
    exact .name hdir (tree.isName he hshown) he hlink (.done _ _)
  induction h generalizing path with
  | file hshown _ he _ => exact hstep hdir hpath hshown he (by simp)
  | dir hshown _ he _ ih => simpa using ih he (hstep hdir hpath hshown he (by simp))

/-- The sources of a directory: exactly the admitted files below it, each once and at its own
location, in an order in which sorting finds nothing to do. -/
theorem sources_exact_and_ascending (tree : StoredTree) (settings : Settings)
    {target : Path} {dir : Location} (htarget : tree.locate target = .ok dir)
    (hdir : tree.get? dir = some .dir) :
    ∃ files, Sources.collect tree.toDisk settings target = .ok files ∧
      (∀ q, q ∈ files ↔ ∃ r, q = r.foldl Path.child target ∧
        Sources.SourceAt tree.toDisk settings dir r ∧
        ∀ base, tree.locate settings.buildDir = .ok base → ¬ base <+: dir → ¬ base <+: dir ++ r) ∧
      (∀ r, Sources.SourceAt tree.toDisk settings dir r → Disk.Usable (r.foldl Path.child target) →
        tree.locate (r.foldl Path.child target) = .ok (dir ++ r)) ∧
      files.Nodup ∧
      (files.Pairwise fun p q => p.order q = .lt) ∧
      ∀ scans : List FileScan, scans.map FileScan.path = files → FileScan.inOrder scans = scans := by
  have hreaches : tree.Reaches target dir := by
    obtain ⟨hu, hleads⟩ := Disk.resolve_eq_ok.1 htarget
    exact ⟨hu.nonempty, hleads⟩
  have hcollect : Sources.collect tree.toDisk settings target = .ok (Sources.below tree.toDisk settings
      (Sources.excludedFrom tree.toDisk settings.buildDir dir) tree.depth dir target) := by
    simp [Sources.collect, Disk.contains, Disk.isFile, Disk.find?, htarget, hdir]
  have hascending := Sources.collect_ascending tree.toTree hcollect
  refine ⟨_, hcollect, fun q => ?_, fun r hsource => ?_, hascending.imp ?_, hascending, ?_⟩
  · rw [Sources.mem_below_iff]
    constructor
    · rintro ⟨r, hr, -, rfl⟩
      obtain ⟨hsource, houtside⟩ := hr.sourceAt tree hdir
      refine ⟨r, rfl, hsource, fun base hbase hout => ?_⟩
      exact houtside base (Sources.mem_excludedFrom.2 ⟨hbase, hout⟩)
    · rintro ⟨r, rfl, hsource, houtside⟩
      have hr := hsource.found tree fun base hbase =>
        houtside base (Sources.mem_excludedFrom.1 hbase).1 (Sources.mem_excludedFrom.1 hbase).2
      exact ⟨r, hr, hr.length_le, rfl⟩
  · have hr : Sources.Found tree.toDisk settings none dir r := hsource.found tree (by simp)
    exact (hr.reaches tree hdir hreaches).locate
  · rintro p q hlt rfl
    have hself : p.order p = .eq := Std.ReflCmp.compare_self
    rw [hself] at hlt
    exact Ordering.noConfusion hlt
  · intro scans hscans
    refine FileScan.inOrder_eq_self ?_
    rwa [hscans]

/-- Names that share a beginning, a hidden directory, a link, and a build directory among the sources
that is reached by a link. -/
def layeredSources : StoredTree where
  cwd := ["w"]
  entries := [
    (["w"], .dir),
    (["w", "out"], .link ⟨"src/gen"⟩),
    (["w", "src"], .dir),
    (["w", "src", "a.cc"], .file 0o644 ⟨#[]⟩),
    (["w", "src", "a-b"], .dir),
    (["w", "src", "a-b", "y.cc"], .file 0o644 ⟨#[]⟩),
    (["w", "src", "a"], .dir),
    (["w", "src", "a", "x.CC"], .file 0o644 ⟨#[]⟩),
    (["w", "src", "l.cc"], .link ⟨"a.cc"⟩),
    (["w", "src", ".git"], .dir),
    (["w", "src", ".git", "z.cc"], .file 0o644 ⟨#[]⟩),
    (["w", "src", "gen"], .dir),
    (["w", "src", "gen", "g.cc"], .file 0o644 ⟨#[]⟩)]
  refusals := []
  distinct := by decide +kernel
  named := by decide +kernel
  fits := by decide +kernel

theorem sources_exact_and_ascending_layered :
    layeredSources.locate ⟨"src"⟩ = .ok ["w", "src"] ∧
      Sources.collect layeredSources.toDisk { Settings.initial 1 with buildDir := ⟨"out"⟩ } ⟨"src"⟩ =
        .ok [⟨"src/a/x.CC"⟩, ⟨"src/a-b/y.cc"⟩, ⟨"src/a.cc"⟩] ∧
      ∃ r, ⟨"src/a/x.CC"⟩ = r.foldl Path.child ⟨"src"⟩ ∧
        Sources.SourceAt layeredSources.toDisk { Settings.initial 1 with buildDir := ⟨"out"⟩ } ["w", "src"] r ∧
        ¬ ["w", "src", "gen"] <+: ["w", "src"] ++ r := by
  have htarget : layeredSources.locate ⟨"src"⟩ = .ok ["w", "src"] := by decide +kernel
  have hcollect : Sources.collect layeredSources.toDisk { Settings.initial 1 with buildDir := ⟨"out"⟩ }
      ⟨"src"⟩ = .ok [⟨"src/a/x.CC"⟩, ⟨"src/a-b/y.cc"⟩, ⟨"src/a.cc"⟩] := by decide +kernel
  obtain ⟨files, hfiles, hexact, -⟩ := sources_exact_and_ascending layeredSources
    { Settings.initial 1 with buildDir := ⟨"out"⟩ } htarget (by decide +kernel)
  obtain rfl := Except.ok.inj (hfiles.symm.trans hcollect)
  obtain ⟨r, hr, hsource, houtside⟩ := (hexact ⟨"src/a/x.CC"⟩).1 (by simp)
  have hbuild : layeredSources.locate ⟨"out"⟩ = .ok ["w", "src", "gen"] := by decide +kernel
  exact ⟨htarget, hcollect, r, hr, hsource, houtside _ hbuild (by decide)⟩

end IncludeSweep
