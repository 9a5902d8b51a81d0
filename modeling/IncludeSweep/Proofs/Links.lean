import IncludeSweep.Proofs.Replacement

set_option autoImplicit false

/-! # Writing where links lead

Replacing the file at a path puts a regular file at the name itself, so a link there gives way. What
this does to another path: it leads where it led before, unless it led to the same file. For this
the resolution of paths is first put into the form of a relation, with one rule for each kind of
segment. -/

namespace IncludeSweep.Disk

structure IsName (segment : String) : Prop where
  notHere : ¬ (segment = "" ∨ segment = ".")
  notParent : segment ≠ ".."
  fits : ¬ maxName < segment.utf8ByteSize

/-- Segments lead from a location to another, through at most the given number of links. -/
inductive Leads (d : Disk) (last : LastStep) : Nat → Location → List String → Location → Prop
  | done (links : Nat) (loc : Location) : Leads d last links loc [] loc
  | here {links : Nat} {loc x : Location} {segment : String} {rest : List String}
      (hdir : d.get? loc = some .dir) (hs : segment = "" ∨ segment = ".")
      (h : Leads d last links loc rest x) : Leads d last links loc (segment :: rest) x
  | parent {links : Nat} {loc x : Location} {rest : List String} (hdir : d.get? loc = some .dir)
      (h : Leads d last links loc.dropLast rest x) : Leads d last links loc (".." :: rest) x
  | name {links : Nat} {loc x : Location} {segment : String} {rest : List String} {e : Entry}
      (hdir : d.get? loc = some .dir) (hs : IsName segment)
      (he : d.get? (loc ++ [segment]) = some e)
      (hlink : ∀ target, e ≠ .link target) (h : Leads d last links (loc ++ [segment]) rest x) :
      Leads d last links loc (segment :: rest) x
  | missing {links : Nat} {loc : Location} {segment : String} (hdir : d.get? loc = some .dir)
      (hs : IsName segment) (he : d.get? (loc ++ [segment]) = none) (hlast : last = .reach) :
      Leads d last links loc [segment] (loc ++ [segment])
  | stay {links : Nat} {loc : Location} {segment : String} {target : Path}
      (hdir : d.get? loc = some .dir) (hs : IsName segment)
      (he : d.get? (loc ++ [segment]) = some (.link target)) (hlast : last = .stay) :
      Leads d last links loc [segment] (loc ++ [segment])
  | link {links : Nat} {loc x : Location} {segment : String} {rest : List String} {target : Path}
      (hdir : d.get? loc = some .dir) (hs : IsName segment)
      (he : d.get? (loc ++ [segment]) = some (.link target)) (hlast : ¬ (rest = [] ∧ last = .stay))
      (h : Leads d last links (if target.isAbsolute then [] else loc) (target.segments ++ rest) x) :
      Leads d last (links + 1) loc (segment :: rest) x

section
variable {d : Disk} {last : LastStep}

theorem walkWith_leads {links : Nat}
    {onLink : Location → Path → List String → Except SystemError Location}
    (hlink : ∀ {loc x : Location} {segment : String} {rest : List String} {target : Path},
      d.get? loc = some .dir → IsName segment → d.get? (loc ++ [segment]) = some (.link target) →
      ¬ (rest = [] ∧ last = .stay) → onLink loc target rest = .ok x →
      Leads d last links loc (segment :: rest) x)
    (segments : List String) :
    ∀ {loc x : Location}, walkWith d last onLink loc segments = .ok x →
      Leads d last links loc segments x := by
  induction segments with
  | nil =>
    intro loc x h
    obtain rfl := Except.ok.inj h
    exact .done links loc
  | cons segment rest ih =>
    intro loc x h
    unfold walkWith at h
    by_cases hdir : d.get? loc = some .dir
    · rw [if_neg (not_not_intro hdir)] at h
      by_cases hhere : segment = "" ∨ segment = "."
      · rw [if_pos hhere] at h
        exact .here hdir hhere (ih h)
      rw [if_neg hhere] at h
      by_cases hparent : segment = ".."
      · rw [if_pos hparent] at h
        subst hparent
        exact .parent hdir (ih h)
      rw [if_neg hparent] at h
      by_cases hlong : maxName < segment.utf8ByteSize
      · rw [if_pos hlong] at h
        simp at h
      rw [if_neg hlong] at h
      have hs : IsName segment := ⟨hhere, hparent, hlong⟩
      cases he : d.get? (loc ++ [segment]) with
      | none =>
        rw [he] at h
        by_cases hend : rest = [] ∧ last = .reach
        · simp only [hend, and_self, if_true] at h
          obtain rfl := Except.ok.inj h
          rw [hend.1]
          exact .missing hdir hs he hend.2
        · simp [hend] at h
      | some e =>
        rw [he] at h
        cases e with
        | file mode bytes => exact .name hdir hs he (by simp) (ih h)
        | dir => exact .name hdir hs he (by simp) (ih h)
        | link target =>
          by_cases hend : rest = [] ∧ last = .stay
          · simp only [hend, and_self, if_true] at h
            obtain rfl := Except.ok.inj h
            rw [hend.1]
            exact .stay hdir hs he hend.2
          · simp only [hend, if_false] at h
            exact hlink hdir hs he hend h
    · rw [if_pos hdir] at h
      simp at h

theorem leads_of_walk {links : Nat} {loc x : Location} {segments : List String}
    (h : walk d last links loc segments = .ok x) : Leads d last links loc segments x := by
  induction links generalizing loc segments x with
  | zero => exact walkWith_leads (fun _ _ _ _ h => by simp at h) segments h
  | succ links ih =>
    exact walkWith_leads (fun hdir hs he hlast h => .link hdir hs he hlast (ih h)) segments h

theorem walk_of_leads {links : Nat} {loc x : Location} {segments : List String}
    (h : Leads d last links loc segments x) : walk d last links loc segments = .ok x := by
  induction h with
  | done links => cases links <;> rfl
  | @here links loc x segment rest hdir hs _ ih =>
    rw [← ih]
    cases links <;> simp [walk, walkWith, hdir, hs]
  | @parent links loc x rest hdir _ ih =>
    rw [← ih]
    cases links <;> simp [walk, walkWith, hdir]
  | @name links loc x segment rest e hdir hs he hlink _ ih =>
    rw [← ih]
    cases e with
    | file mode bytes =>
      cases links <;> simp [walk, walkWith, hdir, hs.notHere, hs.notParent, hs.fits, he]
    | dir => cases links <;> simp [walk, walkWith, hdir, hs.notHere, hs.notParent, hs.fits, he]
    | link target => exact absurd rfl (hlink target)
  | @missing links loc segment hdir hs he hlast =>
    cases links <;> simp [walk, walkWith, hdir, hs.notHere, hs.notParent, hs.fits, he, hlast]
  | @stay links loc segment target hdir hs he hlast =>
    cases links <;> simp [walk, walkWith, hdir, hs.notHere, hs.notParent, hs.fits, he, hlast]
  | @link links loc x segment rest target hdir hs he hlast _ ih =>
    rw [← ih]
    simp [walk, walkWith, hdir, hs.notHere, hs.notParent, hs.fits, he, hlast]

theorem Leads.dir {links : Nat} {loc x : Location} {segments : List String}
    (h : Leads d last links loc segments x) (hne : segments ≠ []) : d.get? loc = some .dir := by
  cases h with
  | done => exact absurd rfl hne
  | here hdir _ _ => exact hdir
  | parent hdir _ => exact hdir
  | name hdir _ _ _ _ => exact hdir
  | missing hdir _ _ _ => exact hdir
  | stay hdir _ _ _ => exact hdir
  | link hdir _ _ _ _ => exact hdir

/-! What a path does behind its first segment, for each kind of segment. -/

section
variable {links : Nat} {loc x : Location} {segment : String} {rest : List String}

theorem Leads.of_here (h : Leads d last links loc (segment :: rest) x)
    (hs : segment = "" ∨ segment = ".") : Leads d last links loc rest x := by
  cases h with
  | here _ _ h => exact h
  | parent => simp at hs
  | name _ hn _ _ _ => exact absurd hs hn.notHere
  | missing _ hn _ _ => exact absurd hs hn.notHere
  | stay _ hn _ _ => exact absurd hs hn.notHere
  | link _ hn _ _ _ => exact absurd hs hn.notHere

theorem Leads.of_parent (h : Leads d last links loc (".." :: rest) x) :
    Leads d last links loc.dropLast rest x := by
  cases h with
  | here _ hs _ => simp at hs
  | parent _ h => exact h
  | name _ hn _ _ _ => exact absurd rfl hn.notParent
  | missing _ hn _ _ => exact absurd rfl hn.notParent
  | stay _ hn _ _ => exact absurd rfl hn.notParent
  | link _ hn _ _ _ => exact absurd rfl hn.notParent

theorem Leads.of_name {e : Entry} (h : Leads d last links loc (segment :: rest) x)
    (hn : IsName segment) (he : d.get? (loc ++ [segment]) = some e)
    (hlink : ∀ target, e ≠ .link target) : Leads d last links (loc ++ [segment]) rest x := by
  cases h with
  | here _ hs _ => exact absurd hs hn.notHere
  | parent => exact absurd rfl hn.notParent
  | name _ _ _ _ h => exact h
  | missing _ _ he' _ => simp [he] at he'
  | stay _ _ he' _ => exact absurd (Option.some.inj (he.symm.trans he')) (hlink _)
  | link _ _ he' _ _ => exact absurd (Option.some.inj (he.symm.trans he')) (hlink _)

theorem Leads.of_link {target : Path} (h : Leads d last links loc (segment :: rest) x)
    (hn : IsName segment) (he : d.get? (loc ++ [segment]) = some (.link target))
    (hlast : ¬ (rest = [] ∧ last = .stay)) :
    ∃ links', links = links' + 1 ∧
      Leads d last links' (if target.isAbsolute then [] else loc) (target.segments ++ rest) x := by
  cases h with
  | here _ hs _ => exact absurd hs hn.notHere
  | parent => exact absurd rfl hn.notParent
  | name _ _ he' hlink _ => exact absurd (Option.some.inj (he'.symm.trans he)) (hlink _)
  | missing _ _ he' _ => simp [he] at he'
  | stay _ _ _ hstay => exact absurd ⟨rfl, hstay⟩ hlast
  | link _ _ he' _ h =>
    obtain rfl := Entry.link.inj (Option.some.inj (he.symm.trans he'))
    exact ⟨_, rfl, h⟩

end

/-- Where segments lead does not depend on how many links may be followed. -/
theorem Leads.unique {links links' : Nat} {loc x y : Location} {segments : List String}
    (h : Leads d .follow links loc segments x) (h' : Leads d .follow links' loc segments y) :
    x = y := by
  induction h generalizing links' with
  | done =>
    cases h'
    rfl
  | here _ hs _ ih => exact ih (h'.of_here hs)
  | parent _ _ ih => exact ih h'.of_parent
  | name _ hs he hlink _ ih => exact ih (h'.of_name hs he hlink)
  | missing _ _ _ hlast => simp at hlast
  | stay _ _ _ hlast => simp at hlast
  | link _ hs he hlast _ ih =>
    obtain ⟨_, _, h'⟩ := h'.of_link hs he hlast
    exact ih h'

theorem Leads.not_beyond {links links' : Nat} {loc x y : Location} {segments rest : List String}
    (h : Leads d .follow links loc segments x) (hx : d.get? x ≠ some .dir) (hrest : rest ≠ []) :
    ¬ Leads d last links' loc (segments ++ rest) y := by
  induction h generalizing links' with
  | done => exact fun h' => hx (h'.dir hrest)
  | here _ hs _ ih => exact fun h' => ih hx (h'.of_here hs)
  | parent _ _ ih => exact fun h' => ih hx h'.of_parent
  | name _ hs he hlink _ ih => exact fun h' => ih hx (h'.of_name hs he hlink)
  | missing _ _ _ hlast => simp at hlast
  | stay _ _ _ hlast => simp at hlast
  | link _ hs he _ _ ih =>
    intro h'
    rw [List.cons_append] at h'
    obtain ⟨_, _, h'⟩ := h'.of_link hs he (by simp [hrest])
    rw [← List.append_assoc] at h'
    exact ih hx h'

theorem Leads.follow_of_stay {links : Nat} {loc x : Location} {segments : List String}
    (h : Leads d .stay links loc segments x) (hx : ∀ target, d.get? x ≠ some (.link target)) :
    Leads d .follow links loc segments x := by
  induction h with
  | done links loc => exact .done links loc
  | here hdir hs _ ih => exact .here hdir hs (ih hx)
  | parent hdir _ ih => exact .parent hdir (ih hx)
  | name hdir hs he hlink _ ih => exact .name hdir hs he hlink (ih hx)
  | missing _ _ _ hlast => simp at hlast
  | stay _ _ he _ => exact absurd he (hx _)
  | link hdir hs he _ _ ih => exact .link hdir hs he (by simp) (ih hx)

structure LinkAt (d : Disk) (loc x : Location) : Prop where
  leads : ∃ parent segment target links, loc = parent ++ [segment] ∧
    d.get? loc = some (.link target) ∧
    Leads d .follow links (if target.isAbsolute then [] else parent) target.segments x

theorem Leads.linkAt {links links' : Nat} {loc x y : Location} {segments : List String}
    {target : Path}
    (h : Leads d .stay links loc segments y) (h' : Leads d .follow links' loc segments x)
    (hy : d.get? y = some (.link target)) (hx : d.get? x ≠ some (.link target)) : LinkAt d y x := by
  induction h generalizing links' with
  | done =>
    cases h'
    exact absurd hy hx
  | here _ hs _ ih => exact ih (h'.of_here hs) hy
  | parent _ _ ih => exact ih h'.of_parent hy
  | name _ hs he hlink _ ih => exact ih (h'.of_name hs he hlink) hy
  | missing _ _ _ hlast => simp at hlast
  | @stay links loc segment target' _ hs he _ =>
    obtain ⟨links, _, h'⟩ := h'.of_link hs he (by simp)
    rw [List.append_nil] at h'
    exact ⟨loc, segment, target', links, rfl, he, h'⟩
  | link _ hs he _ _ ih =>
    obtain ⟨_, _, h'⟩ := h'.of_link hs he (by simp)
    exact ih h' hy

end

section
variable {d : Disk} {name x : Location} {mode : Mode} {bytes : ByteArray}

theorem LinkAt.ne_nil (hl : LinkAt d name x) : name ≠ [] := by
  obtain ⟨parent, segment, _, _, rfl, _⟩ := hl.leads
  simp

theorem LinkAt.get?_dir (hl : LinkAt d name x) {loc : Location} (h : d.get? loc = some .dir) :
    (d.put name (.file mode bytes)).get? loc = some .dir := by
  rw [get?_put d name loc _ hl.ne_nil, if_neg, h]
  rintro rfl
  obtain ⟨_, _, target, _, _, he, _⟩ := hl.leads
  simp [he] at h

/-- The link is the last segment of every path that meets it, and they all lead to one file. -/
theorem LinkAt.met (hl : LinkAt d name x) (hx : d.get? x ≠ some .dir) {last : LastStep}
    {links : Nat} {loc y : Location} {segment : String} {rest : List String} {target : Path}
    (hname : loc ++ [segment] = name) (he : d.get? (loc ++ [segment]) = some (.link target))
    (h : Leads d last links (if target.isAbsolute then [] else loc) (target.segments ++ rest) y) :
    rest = [] ∧ ∃ links', Leads d .follow links' (if target.isAbsolute then [] else loc)
      target.segments x := by
  obtain ⟨parent, segment', target', links', rfl, he', h'⟩ := hl.leads
  obtain ⟨rfl, hseg⟩ := List.append_inj' hname rfl
  rw [hname] at he
  obtain rfl := Entry.link.inj (Option.some.inj (he'.symm.trans he))
  refine ⟨?_, links', h'⟩
  by_cases hne : rest = []
  · exact hne
  · exact absurd h (h'.not_beyond hx hne)

/-- After the replacement a path leads where it did, or to the new file if it led where the link
did. -/
theorem Leads.replaced (hl : LinkAt d name x) (hx : d.get? x ≠ some .dir) {links : Nat}
    {loc y : Location} {segments : List String} (h : Leads d .follow links loc segments y) :
    Leads (d.put name (.file mode bytes)) .follow links loc segments y ∨
      (Leads (d.put name (.file mode bytes)) .follow links loc segments name ∧ y = x) := by
  have hget := fun loc => get?_put d name loc (.file mode bytes) hl.ne_nil
  induction h with
  | done links loc => exact .inl (.done links loc)
  | here hdir hs _ ih =>
    exact ih.imp (.here (hl.get?_dir hdir) hs) fun h => ⟨.here (hl.get?_dir hdir) hs h.1, h.2⟩
  | parent hdir _ ih =>
    exact ih.imp (.parent (hl.get?_dir hdir)) fun h => ⟨.parent (hl.get?_dir hdir) h.1, h.2⟩
  | @name links loc y segment rest e hdir hs he hlink _ ih =>
    have hne : loc ++ [segment] ≠ name := by
      rintro rfl
      obtain ⟨_, _, target, _, _, he', _⟩ := hl.leads
      exact hlink target (Option.some.inj (he.symm.trans he'))
    have he' := (hget (loc ++ [segment])).trans ((if_neg hne).trans he)
    exact ih.imp (.name (hl.get?_dir hdir) hs he' hlink)
      fun h => ⟨.name (hl.get?_dir hdir) hs he' hlink h.1, h.2⟩
  | missing _ _ _ hlast => simp at hlast
  | stay _ _ _ hlast => simp at hlast
  | @link links loc y segment rest target hdir hs he hlast h ih =>
    by_cases hname : loc ++ [segment] = name
    · obtain ⟨rfl, _, h'⟩ := hl.met hx hname he h
      rw [List.append_nil] at h
      subst hname
      exact .inr ⟨.name (hl.get?_dir hdir) hs ((hget _).trans (if_pos rfl)) (by simp) (.done _ _),
        h.unique h'⟩
    · have he' := (hget (loc ++ [segment])).trans ((if_neg hname).trans he)
      exact ih.imp (.link (hl.get?_dir hdir) hs he' hlast)
        fun h => ⟨.link (hl.get?_dir hdir) hs he' hlast h.1, h.2⟩

theorem Leads.reaches (hl : LinkAt d name x) (hx : d.get? x ≠ some .dir) {links : Nat}
    {loc y : Location} {segments : List String} (h : Leads d .stay links loc segments y)
    (hy : y = name) : Leads (d.put name (.file mode bytes)) .follow links loc segments y := by
  have hget := fun loc => get?_put d name loc (.file mode bytes) hl.ne_nil
  induction h with
  | done links loc => exact .done links loc
  | here hdir hs _ ih => exact .here (hl.get?_dir hdir) hs (ih hy)
  | parent hdir _ ih => exact .parent (hl.get?_dir hdir) (ih hy)
  | @name links loc y segment rest e hdir hs he hlink _ ih =>
    have hne : loc ++ [segment] ≠ name := by
      rintro rfl
      obtain ⟨_, _, target, _, _, he', _⟩ := hl.leads
      exact hlink target (Option.some.inj (he.symm.trans he'))
    exact .name (hl.get?_dir hdir) hs ((hget _).trans ((if_neg hne).trans he)) hlink (ih hy)
  | missing _ _ _ hlast => simp at hlast
  | stay hdir hs _ _ =>
    exact .name (hl.get?_dir hdir) hs ((hget _).trans (if_pos hy)) (by simp) (.done _ _)
  | @link links loc y segment rest target hdir hs he hlast h ih =>
    have hne : loc ++ [segment] ≠ name := fun hname => hlast ⟨(hl.met hx hname he h).1, rfl⟩
    exact .link (hl.get?_dir hdir) hs ((hget _).trans ((if_neg hne).trans he)) (by simp) (ih hy)

end

structure Usable (p : Path) : Prop where
  noNul : p.text.toList.contains '\x00' = false
  nonempty : p.text ≠ ""
  fits : ¬ maxPath ≤ p.text.utf8ByteSize

theorem resolve_eq_ok {d : Disk} {last : LastStep} {p : Path} {x : Location} :
    d.resolve last p = .ok x ↔
      Usable p ∧ Leads d last maxLinks (if p.isAbsolute then [] else d.cwd) p.segments x := by
  constructor
  · intro h
    unfold resolve at h
    by_cases hnul : p.text.toList.contains '\x00' = true
    · rw [if_pos hnul] at h
      simp at h
    rw [if_neg hnul] at h
    by_cases hne : p.text = ""
    · rw [if_pos hne] at h
      simp at h
    rw [if_neg hne] at h
    by_cases hlong : maxPath ≤ p.text.utf8ByteSize
    · rw [if_pos hlong] at h
      simp at h
    rw [if_neg hlong] at h
    exact ⟨⟨by simpa using hnul, hne, hlong⟩, leads_of_walk h⟩
  · rintro ⟨hu, h⟩
    unfold resolve
    rw [hu.noNul, if_neg (by simp), if_neg hu.nonempty, if_neg hu.fits]
    exact walk_of_leads h

structure Finds (d : Disk) (p : Path) (loc : Location) (mode : Mode) (bytes : ByteArray) :
    Prop where
  leads : d.locate p = .ok loc
  entry : d.get? loc = some (.file mode bytes)

theorem finds_of_fileAt {d : Disk} {p : Path} {mode : Mode} {bytes : ByteArray}
    (h : d.fileAt p = .ok (mode, bytes)) : ∃ loc, d.Finds p loc mode bytes := by
  unfold fileAt at h
  cases hl : d.locate p with
  | error e => simp [hl] at h
  | ok loc =>
    rw [hl] at h
    cases hg : d.get? loc with
    | none => simp [hg] at h
    | some e =>
      cases e with
      | dir => simp [hg] at h
      | link target => simp [hg] at h
      | file mode' bytes' =>
        obtain ⟨rfl, rfl⟩ : mode' = mode ∧ bytes' = bytes := by simpa [hg] using h
        exact ⟨loc, hl, hg⟩

theorem Finds.fileAt {d : Disk} {p : Path} {loc : Location} {mode : Mode} {bytes : ByteArray}
    (h : d.Finds p loc mode bytes) : d.fileAt p = .ok (mode, bytes) := by
  simp [Disk.fileAt, h.leads, h.entry]

theorem Finds.readBytes_iff {d : Disk} {p : Path} {loc : Location} {mode : Mode}
    {bytes read : ByteArray} (h : d.Finds p loc mode bytes) :
    d.readBytes p = .ok read ↔ ownerReads mode = true ∧ bytes = read := by
  unfold readBytes
  rw [h.fileAt]
  by_cases hm : ownerReads mode = true <;> simp [hm]

/-- The file at a path was replaced: the path now leads to the new file, and so may paths that led
to the same file as it did; all others lead to the files they led to. -/
structure Replaced (d d' : Disk) (p : Path) (x name : Location) (mode : Mode) (bytes : ByteArray) :
    Prop where
  before : ∃ old, d.Finds p x mode old
  after : d'.Finds p name mode bytes
  others : ∀ {q : Path} {y : Location} {mode' : Mode} {bytes' : ByteArray},
    d.Finds q y mode' bytes' →
    (d'.Finds q y mode' bytes' ∧ y ≠ name) ∨ (d'.Finds q name mode bytes ∧ y = x)

theorem replaced_link {d : Disk} {p : Path} {x name : Location} {mode : Mode} {old : ByteArray}
    {target : Path} (hx : d.Finds p x mode old) (hn : d.locateName p = .ok name)
    (htarget : d.get? name = some (.link target)) (bytes : ByteArray) :
    Replaced d (d.put name (.file mode bytes)) p x name mode bytes := by
  obtain ⟨hu, hfollow⟩ := resolve_eq_ok.1 hx.leads
  obtain ⟨_, hstay⟩ := resolve_eq_ok.1 hn
  have hl := hstay.linkAt hfollow htarget (by simp [hx.entry])
  have hdir : d.get? x ≠ some .dir := by simp [hx.entry]
  have hnew : (d.put name (.file mode bytes)).get? name = some (.file mode bytes) := by
    rw [get?_put d name name _ hl.ne_nil, if_pos rfl]
  refine ⟨⟨old, hx⟩, ⟨resolve_eq_ok.2 ⟨hu, hstay.reaches hl hdir rfl⟩, hnew⟩, ?_⟩
  intro q y mode' bytes' hq
  have hne : y ≠ name := by
    rintro rfl
    have he := hq.entry
    simp [htarget] at he
  obtain ⟨huq, hleads⟩ := resolve_eq_ok.1 hq.leads
  rcases hleads.replaced hl hdir with h | ⟨h, rfl⟩
  · refine .inl ⟨⟨resolve_eq_ok.2 ⟨huq, h⟩, ?_⟩, hne⟩
    rw [get?_put d name y _ hl.ne_nil, if_neg hne, hq.entry]
  · exact .inr ⟨⟨resolve_eq_ok.2 ⟨huq, h⟩, hnew⟩, rfl⟩

theorem replaced_file {d : Disk} {p : Path} {x name : Location} {mode : Mode} {old : ByteArray}
    (hx : d.Finds p x mode old) (hn : d.locateName p = .ok name)
    (hno : ∀ target, d.get? name ≠ some (.link target)) (bytes : ByteArray) :
    Replaced d (d.put name (.file mode bytes)) p x name mode bytes := by
  obtain ⟨_, hfollow⟩ := resolve_eq_ok.1 hx.leads
  obtain ⟨_, hstay⟩ := resolve_eq_ok.1 hn
  obtain rfl := hfollow.unique (hstay.follow_of_stay hno)
  have hput := fun y => get?_put d x y (.file mode bytes) (ne_nil_of_file hx.entry)
  have hsame := fun q => locate_alike (alike_put_file hx.entry mode bytes) q
  refine ⟨⟨old, hx⟩, ⟨(hsame p).trans hx.leads, (hput x).trans (if_pos rfl)⟩, ?_⟩
  intro q y mode' bytes' hq
  by_cases hy : y = x
  · subst hy
    exact .inr ⟨⟨(hsame q).trans hq.leads, (hput y).trans (if_pos rfl)⟩, rfl⟩
  · exact .inl ⟨⟨(hsame q).trans hq.leads, (hput y).trans ((if_neg hy).trans hq.entry)⟩, hy⟩

theorem replaced_of_replaceFile {d d' : Disk} {p : Path} {bytes : ByteArray}
    (h : d.replaceFile p bytes = .ok d') :
    ∃ x name mode, Replaced d d' p x name mode bytes := by
  obtain ⟨mode, old, name, hf, hn, _, rfl⟩ := replaceFile_eq_ok.1 h
  obtain ⟨x, hx⟩ := finds_of_fileAt hf
  by_cases hlink : ∃ target, d.get? name = some (.link target)
  · obtain ⟨target, htarget⟩ := hlink
    exact ⟨x, name, mode, replaced_link hx hn htarget bytes⟩
  · exact ⟨x, name, mode, replaced_file hx hn (fun target ht => hlink ⟨target, ht⟩) bytes⟩

/-- Paths to different files are never made to lead to the same one. -/
theorem Replaced.separate {d d' : Disk} {p q q' : Path} {x name y y' : Location}
    {mode mode₁ mode₂ : Mode}
    {bytes bytes₁ bytes₂ : ByteArray} (h : Replaced d d' p x name mode bytes)
    (hq : d.Finds q y mode₁ bytes₁) (hq' : d.Finds q' y' mode₂ bytes₂)
    (hsame : d'.locate q = d'.locate q') : y = y' := by
  rcases h.others hq with ⟨h₁, hne₁⟩ | ⟨h₁, rfl⟩ <;> rcases h.others hq' with ⟨h₂, hne₂⟩ | ⟨h₂, rfl⟩
  · exact Except.ok.inj (h₁.leads.symm.trans (hsame.trans h₂.leads))
  · exact absurd (Except.ok.inj (h₁.leads.symm.trans (hsame.trans h₂.leads))) hne₁
  · exact absurd (Except.ok.inj (h₂.leads.symm.trans (hsame.symm.trans h₁.leads))) hne₂
  · rfl

end IncludeSweep.Disk
