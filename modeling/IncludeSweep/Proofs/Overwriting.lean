import IncludeSweep.Proofs.Links
import IncludeSweep.Proofs.PlanTrace

set_option autoImplicit false

/-! # Files that are written over and over

The files of a plan are written many times in a run, some of them through links. Only the first
write to a linked path takes the link away; the names of all paths stay where they are, and every
path shows what was last written to it. So the disk at any point of a run without outside edits can
be told from the disk at its beginning and the journal. -/

namespace IncludeSweep

open Text

namespace Disk

section
variable {d : Disk} {p : Path} {x name : Location} {mode : Mode} {old bytes : ByteArray}

theorem Leads.named {links : Nat} {loc : Location} {segments : List String}
    (h : Leads d .follow links loc segments x) : ∃ y, Leads d .stay links loc segments y := by
  induction h with
  | done links loc => exact ⟨loc, .done links loc⟩
  | here hdir hs _ ih => exact ih.imp fun _ => .here hdir hs
  | parent hdir _ ih => exact ih.imp fun _ => .parent hdir
  | name hdir hs he hlink _ ih => exact ih.imp fun _ => .name hdir hs he hlink
  | missing _ _ _ hlast => simp at hlast
  | stay _ _ _ hlast => simp at hlast
  | @link links loc x segment rest target hdir hs he _ _ ih =>
    by_cases hrest : rest = []
    · subst hrest
      exact ⟨_, .stay hdir hs he rfl⟩
    · exact ih.imp fun _ => .link hdir hs he fun h => hrest h.1

theorem Leads.stay_put (hl : LinkAt d name x) (hx : d.get? x ≠ some .dir) {links : Nat}
    {loc y : Location} {segments : List String} (h : Leads d .stay links loc segments y) :
    Leads (d.put name (.file mode bytes)) .stay links loc segments y := by
  have hget := fun loc => get?_put d name loc (.file mode bytes) hl.ne_nil
  induction h with
  | done links loc => exact .done links loc
  | here hdir hs _ ih => exact .here (hl.get?_dir hdir) hs ih
  | parent hdir _ ih => exact .parent (hl.get?_dir hdir) ih
  | @name links loc y segment rest e hdir hs he hlink _ ih =>
    have hne : loc ++ [segment] ≠ name := by
      rintro rfl
      obtain ⟨_, _, target, _, _, he', _⟩ := hl.leads
      exact hlink target (Option.some.inj (he.symm.trans he'))
    exact .name (hl.get?_dir hdir) hs ((hget _).trans ((if_neg hne).trans he)) hlink ih
  | missing _ _ _ hlast => simp at hlast
  | @stay links loc segment target hdir hs he _ =>
    by_cases hname : loc ++ [segment] = name
    · exact .name (hl.get?_dir hdir) hs ((hget _).trans (if_pos hname)) (by simp) (.done _ _)
    · exact .stay (hl.get?_dir hdir) hs ((hget _).trans ((if_neg hname).trans he)) rfl
  | @link links loc y segment rest target hdir hs he hlast h ih =>
    have hne : loc ++ [segment] ≠ name := fun hname => hlast ⟨(hl.met hx hname he h).1, rfl⟩
    exact .link (hl.get?_dir hdir) hs ((hget _).trans ((if_neg hne).trans he)) hlast ih

theorem LinkAt.unique {y : Location} (h : LinkAt d name x) (h' : LinkAt d name y) : x = y := by
  obtain ⟨_, _, _, _, hname, he, hleads⟩ := h.leads
  obtain ⟨_, _, _, _, rfl, he', hleads'⟩ := h'.leads
  obtain ⟨rfl, _⟩ := List.append_inj' hname rfl
  obtain rfl := Entry.link.inj (Option.some.inj (he.symm.trans he'))
  exact hleads.unique hleads'

namespace Finds

theorem named (h : d.Finds p x mode old) : ∃ name, d.locateName p = .ok name := by
  obtain ⟨hu, hleads⟩ := resolve_eq_ok.1 h.leads
  obtain ⟨name, hstay⟩ := hleads.named
  exact ⟨name, resolve_eq_ok.2 ⟨hu, hstay⟩⟩

theorem name_ne_nil (h : d.Finds p x mode old) (hn : d.locateName p = .ok name) : name ≠ [] := by
  obtain ⟨_, hfollow⟩ := resolve_eq_ok.1 h.leads
  obtain ⟨_, hstay⟩ := resolve_eq_ok.1 hn
  rintro rfl
  -- the root is no link, so the path would lead to it
  obtain rfl := hfollow.unique (hstay.follow_of_stay (by simp [get?]))
  exact ne_nil_of_file h.entry rfl

theorem replaceFile (h : d.Finds p x mode old) (hn : d.locateName p = .ok name)
    (ht : d.takes p = true) (bytes : ByteArray) :
    d.replaceFile p bytes = .ok (d.put name (.file mode bytes)) :=
  replaceFile_eq_ok.2 ⟨mode, old, name, h.fileAt, hn, ht, rfl⟩

theorem replaceFile_ok (h : d.Finds p x mode old) (hn : d.locateName p = .ok name) {d' : Disk}
    (hw : d.replaceFile p bytes = .ok d') :
    d.takes p = true ∧ d.put name (.file mode bytes) = d' := by
  obtain ⟨mode', old', name', hfile, hname, ht, rfl⟩ := replaceFile_eq_ok.1 hw
  obtain ⟨rfl, _⟩ := Prod.mk.inj (Except.ok.inj (hfile.symm.trans h.fileAt))
  obtain rfl := Except.ok.inj (hname.symm.trans hn)
  exact ⟨ht, rfl⟩

theorem link_or_eq (h : d.Finds p x mode old) (hn : d.locateName p = .ok name) :
    (∃ target, d.get? name = some (.link target) ∧ LinkAt d name x) ∨ name = x := by
  obtain ⟨_, hfollow⟩ := resolve_eq_ok.1 h.leads
  obtain ⟨_, hstay⟩ := resolve_eq_ok.1 hn
  by_cases hlink : ∃ target, d.get? name = some (.link target)
  · obtain ⟨target, htarget⟩ := hlink
    exact .inl ⟨target, htarget, hstay.linkAt hfollow htarget (by simp [h.entry])⟩
  · exact .inr ((hstay.follow_of_stay fun target ht => hlink ⟨target, ht⟩).unique hfollow)

theorem eq_of_name (h : d.Finds p x mode old) (hn : d.locateName p = .ok name) {q : Path}
    {y : Location} {mode' : Mode} {old' : ByteArray} (h' : d.Finds q y mode' old')
    (hq : d.locateName q = .ok name) : x = y := by
  rcases h.link_or_eq hn with ⟨target, hlink, hl⟩ | rfl
  · rcases h'.link_or_eq hq with ⟨_, _, hl'⟩ | rfl
    · exact hl.unique hl'
    · exact absurd h'.entry (by simp [hlink])
  · rcases h'.link_or_eq hq with ⟨_, hlink, _⟩ | rfl
    · exact absurd h.entry (by simp [hlink])
    · rfl

theorem replaced (h : d.Finds p x mode old) (hn : d.locateName p = .ok name) (bytes : ByteArray) :
    Replaced d (d.put name (.file mode bytes)) p x name mode bytes := by
  rcases h.link_or_eq hn with ⟨target, htarget, _⟩ | rfl
  · exact replaced_link h hn htarget bytes
  · exact replaced_file h hn (by simp [h.entry]) bytes

theorem locateName_put (h : d.Finds p x mode old) (hn : d.locateName p = .ok name)
    (bytes : ByteArray) {q : Path} {y : Location} (hq : d.locateName q = .ok y) :
    (d.put name (.file mode bytes)).locateName q = .ok y := by
  rcases h.link_or_eq hn with ⟨_, _, hl⟩ | rfl
  · obtain ⟨hu, hleads⟩ := resolve_eq_ok.1 hq
    exact resolve_eq_ok.2 ⟨hu, hleads.stay_put hl (by simp [h.entry])⟩
  · exact (locateName_alike (alike_put_file h.entry mode bytes) q).trans hq

end Finds

end

end Disk

variable {σ : Type} {gs : List Origin} {g : Origin} {j j' : Journal} {d d' d'' : Disk}

def WroteTo (path : Path) (j : Journal) : Prop :=
  ∃ text, .wrote path text ∈ j

theorem wroteTo_append {path : Path} :
    WroteTo path (j ++ j') ↔ WroteTo path j ∨ WroteTo path j' := by
  simp only [WroteTo, List.mem_append, exists_or]

theorem wroteTo_single {path q : Path} {text : String} :
    WroteTo path [.wrote q text] ↔ path = q := by
  simp [WroteTo]

/-- Where a file was when it was opened, and where the name of its path is. -/
structure Origin.Lies (g : Origin) (d : Disk) (x name : Location) (mode : Mode) : Prop where
  holds : d.Holds g.entry.path x mode g.text
  named : d.locateName g.entry.path = .ok name

theorem Disk.Holds.finds {path : Path} {loc : Location} {mode : Mode} {text : String}
    (h : d.Holds path loc mode text) : d.Finds path loc mode (encode text) :=
  ⟨h.leads, h.content⟩

theorem originOf_lies {e : FileCandidates} (h : originOf d e = some g) :
    ∃ x name mode, g.Lies d x name mode := by
  obtain ⟨rfl, _, ht⟩ := originOf_some h
  obtain ⟨x, mode, hx⟩ := Disk.readText_ok ht
  obtain ⟨name, hn⟩ := hx.finds.named
  exact ⟨x, name, mode, hx, hn⟩

/-- The second disk is the first one after the writes of the journal: each file shows what was last
written to it, at the name of its path, and nothing else has changed. -/
structure Overlaid (d : Disk) (gs : List Origin) (j : Journal) (d' : Disk) : Prop where
  cwd : d'.cwd = d.cwd
  refusals : d'.refusals = d.refusals
  shows : ∀ g ∈ gs, ∀ {x name : Location} {mode : Mode}, g.Lies d x name mode →
    ∃ loc, d'.Finds g.entry.path loc mode (encode (lastWritten g.entry.path g.text j)) ∧
      d'.locateName g.entry.path = .ok name ∧ (WroteTo g.entry.path j → loc = name)
  apart : ∀ g ∈ gs, ∀ g' ∈ gs, g.entry.path ≠ g'.entry.path →
    d'.locate g.entry.path ≠ d'.locate g'.entry.path
  others : ∀ loc, (∀ g ∈ gs, WroteTo g.entry.path j → d.locateName g.entry.path ≠ .ok loc) →
    d'.get? loc = d.get? loc
  taken : ∀ g ∈ gs, WroteTo g.entry.path j → d.takes g.entry.path = true

namespace Overlaid

/-- What the disk refuses to replace it refuses all the time. -/
theorem takes (h : Overlaid d gs j d') (hg : g ∈ gs) {x name : Location} {mode : Mode}
    (hl : g.Lies d x name mode) : d'.takes g.entry.path = d.takes g.entry.path := by
  obtain ⟨_, _, hname, _⟩ := h.shows g hg hl
  rw [Disk.takes_of_locateName hname, Disk.takes_of_locateName hl.named,
    Disk.refusal?_congr h.cwd h.refusals]

theorem text_of_refused (h : Overlaid d gs j d') (hg : g ∈ gs)
    (hrefused : d.takes g.entry.path = false) : lastWritten g.entry.path g.text j = g.text := by
  refine lastWritten_unwritten fun text ht => ?_
  have htaken := h.taken g hg ⟨text, ht⟩
  simp [hrefused] at htaken

theorem unwritten (h : Overlaid d gs j d') (hj : ∀ path, ¬ WroteTo path j') :
    Overlaid d gs (j ++ j') d' where
  cwd := h.cwd
  refusals := h.refusals
  shows := by
    intro g hg x name mode hl
    have hlast : lastWritten g.entry.path g.text (j ++ j') = lastWritten g.entry.path g.text j := by
      rw [lastWritten_append]
      exact lastWritten_unwritten fun text ht => hj _ ⟨text, ht⟩
    simpa only [hlast, wroteTo_append, hj, or_false] using h.shows g hg hl
  apart := h.apart
  others := by
    intro loc hloc
    refine h.others loc fun g hg hw => hloc g hg (wroteTo_append.2 (.inl hw))
  taken := fun g hg hw => h.taken g hg ((wroteTo_append.1 hw).resolve_right (hj _))

theorem wrote (h : Overlaid d gs j d') (hlies : ∀ g ∈ gs, ∃ x name mode, g.Lies d x name mode)
    (hg : g ∈ gs) {text : String} (hw : d'.replaceFile g.entry.path (encode text) = .ok d'') :
    Overlaid d gs (j ++ [.wrote g.entry.path text]) d'' := by
  obtain ⟨x, name, mode, hl⟩ := hlies g hg
  obtain ⟨loc, hfinds, hname, _⟩ := h.shows g hg hl
  obtain ⟨htakes, rfl⟩ := hfinds.replaceFile_ok hname hw
  rw [h.takes hg hl] at htakes
  have hreplaced := hfinds.replaced hname (encode text)
  refine ⟨h.cwd, h.refusals, fun g' hg' x' name' mode' hl' => ?_,
    fun g₁ hg₁ g₂ hg₂ hne heq => ?_, fun loc' hloc => ?_, fun g' hg' hwrote => ?_⟩
  · obtain ⟨loc', hfinds', hname', hat⟩ := h.shows g' hg' hl'
    have hnamed := hfinds.locateName_put hname (encode text) hname'
    by_cases hpath : g'.entry.path = g.entry.path
    · -- the two lie at one place, since they have one path
      rw [hpath] at hfinds' hname' hnamed ⊢
      obtain rfl := Except.ok.inj (hname'.symm.trans hname)
      obtain rfl := Except.ok.inj (hfinds'.leads.symm.trans hfinds.leads)
      obtain ⟨rfl, _⟩ := Entry.file.inj (Option.some.inj (hfinds'.entry.symm.trans hfinds.entry))
      exact ⟨name', by simpa [lastWritten] using hreplaced.after, hnamed, fun _ => rfl⟩
    · have hlast : lastWritten g'.entry.path g'.text (j ++ [.wrote g.entry.path text]) =
          lastWritten g'.entry.path g'.text j := by
        rw [lastWritten_append]
        exact lastWritten_unwritten fun t ht => hpath (wroteTo_single.1 ⟨t, ht⟩)
      rcases hreplaced.others hfinds' with ⟨hstill, _⟩ | ⟨_, rfl⟩
      · refine ⟨loc', hlast ▸ hstill, hnamed, fun hwrote => hat ?_⟩
        exact (wroteTo_append.1 hwrote).resolve_right fun hnow => hpath (wroteTo_single.1 hnow)
      · exact absurd (hfinds'.leads.trans hfinds.leads.symm) (h.apart g' hg' g hg hpath)
  · obtain ⟨_, _, _, hl₁⟩ := hlies g₁ hg₁
    obtain ⟨_, _, _, hl₂⟩ := hlies g₂ hg₂
    obtain ⟨_, hfinds₁, _⟩ := h.shows g₁ hg₁ hl₁
    obtain ⟨_, hfinds₂, _⟩ := h.shows g₂ hg₂ hl₂
    obtain rfl := hreplaced.separate hfinds₁ hfinds₂ heq
    exact h.apart g₁ hg₁ g₂ hg₂ hne (hfinds₁.leads.trans hfinds₂.leads.symm)
  · have hne : loc' ≠ name := by
      rintro rfl
      exact hloc g hg (wroteTo_append.2 (.inr (wroteTo_single.2 rfl))) hl.named
    rw [Disk.get?_put d' name loc' _ (hfinds.name_ne_nil hname), if_neg hne]
    exact h.others loc' fun g' hg' hwrote => hloc g' hg' (wroteTo_append.2 (.inl hwrote))
  · rcases wroteTo_append.1 hwrote with hbefore | hnow
    · exact h.taken g' hg' hbefore
    · rwa [wroteTo_single.1 hnow]

theorem follows {build : Build σ} (hq : Quiet build)
    (hlies : ∀ g ∈ gs, ∃ x name mode, g.Lies d x name mode) {p p' : Progress σ}
    (hf : p.Follows build j' p') (h : Overlaid d gs j p.disk) (hj : Within (pathsOf gs) j') :
    Overlaid d gs (j ++ j') p'.disk := by
  have hidle : ∀ {j : Journal} {deed : Deed} {disk : Disk}, (∀ path text, deed ≠ .wrote path text) →
      Overlaid d gs j disk → Overlaid d gs (j ++ [deed]) disk := by
    intro j deed disk hdeed h
    refine h.unwritten fun path hw => ?_
    obtain ⟨text, ht⟩ := hw
    exact hdeed path text (List.mem_singleton.1 ht).symm
  induction hf generalizing j with
  | done p => rwa [List.append_nil]
  | built tier _ ih =>
    rw [List.append_cons]
    refine ih (hidle (by simp) ?_) (List.forall_mem_cons.1 hj).2
    rwa [Progress.verify_disk hq]
  | @wrote p p' j' path text disk hw _ ih =>
    obtain ⟨hown, hrest⟩ := List.forall_mem_cons.1 hj
    obtain ⟨g, hg, rfl⟩ := List.mem_map.1 (hown path rfl)
    rw [List.append_cons]
    exact ih (h.wrote hlies hg hw) hrest
  | stuck _ ih =>
    rw [List.append_cons]
    exact ih (hidle (by simp) h) (List.forall_mem_cons.1 hj).2
  | unfinished _ ih =>
    rw [List.append_cons]
    exact ih (hidle (by simp) h) (List.forall_mem_cons.1 hj).2
  | noted path _ ih =>
    rw [List.append_cons]
    exact ih (hidle (by simp) h) (List.forall_mem_cons.1 hj).2

end Overlaid

theorem lies_of_mem {plan : Plan} (hg : g ∈ plan.filterMap (originOf d)) :
    ∃ x name mode, g.Lies d x name mode := by
  obtain ⟨_, _, ho⟩ := List.mem_filterMap.1 hg
  exact originOf_lies ho

theorem LeadApart.overlaid {plan : Plan} (h : LeadApart d plan) :
    Overlaid d (plan.filterMap (originOf d)) [] d where
  cwd := rfl
  refusals := rfl
  shows := fun g _ x _ _ hl => ⟨x, hl.holds.finds, hl.named, by simp [WroteTo]⟩
  apart := by
    intro g hg g' hg' hne
    obtain ⟨e, he, ho⟩ := List.mem_filterMap.1 hg
    obtain ⟨e', he', ho'⟩ := List.mem_filterMap.1 hg'
    obtain ⟨rfl, _, ht⟩ := originOf_some ho
    obtain ⟨rfl, _, ht'⟩ := originOf_some ho'
    exact h.locate_ne he he' (fun heq => hne (congrArg FileCandidates.path heq)) ht ht'
  others := fun _ _ => rfl
  taken := by simp [WroteTo]

theorem LeadApart.name_ne {plan : Plan} (h : LeadApart d plan) {e : FileCandidates} (he : e ∈ plan)
    {x name : Location} {mode : Mode} {bytes : ByteArray} (hx : d.Finds e.path x mode bytes)
    (hn : d.locateName e.path = .ok name) (hg : g ∈ plan.filterMap (originOf d))
    (hne : g.entry.path ≠ e.path) : d.locateName g.entry.path ≠ .ok name := by
  intro hname
  obtain ⟨e', he', ho⟩ := List.mem_filterMap.1 hg
  obtain ⟨y, _, mode', hl⟩ := originOf_lies ho
  obtain ⟨rfl, _, ht⟩ := originOf_some ho
  obtain rfl := hx.eq_of_name hn hl.holds.finds hname
  have hholds : d.Holds e.path x mode' g.text := ⟨hx.leads, hl.holds.reads, hl.holds.content⟩
  exact h.locate_ne he' he (fun heq => hne (congrArg FileCandidates.path heq)) ht hholds.readText
    (hl.holds.leads.trans hx.leads.symm)

/-- At every point of a run without outside edits the disk is told by what the run has done. -/
theorem LeadApart.follows {plan : Plan} {build : Build σ} {s : Session σ} {p : Progress σ}
    (h : LeadApart s.world.disk plan) (hq : Quiet build) (hf : (s.opened plan).Follows build j p)
    (hj : Within (pathsOf (plan.filterMap (originOf s.world.disk))) j) :
    Overlaid s.world.disk (plan.filterMap (originOf s.world.disk)) j p.disk :=
  Overlaid.follows hq (fun _ hg => lies_of_mem hg) hf h.overlaid hj

end IncludeSweep
