import Mathlib.Data.List.Dedup
import IncludeSweep.Proofs.OneBatch

set_option autoImplicit false

/-! # Disks with lines taken out

The disk with some lines deleted and others commented out, as a function of the disk it starts from.
Every disk of an undisturbed run is of this form, and so is every disk of a second run, seen from the
first one: the lines that the first run has left are then numbered anew. -/

namespace IncludeSweep

open Text Draft

def Entry.under (state : Nat → LineState) : Entry → Entry
  | .file mode bytes =>
    match decode bytes with
    | some text => .file mode (encode (renderLines (rawLines text) (numbered state (rawLines text))))
    | none => .file mode bytes
  | e => e

def Disk.rewrite (disk : Disk) (loc : Location) (state : Nat → LineState) : Disk :=
  match disk.get? loc with
  | some (.file mode bytes) => disk.put loc (Entry.under state (.file mode bytes))
  | _ => disk

/-- The disk with the lines at some spots deleted and those at others commented out. -/
def Disk.showing (disk : Disk) (gone batch : List Spot) : Disk :=
  ((gone ++ batch).map Prod.fst).dedup.foldr
    (fun loc d => d.rewrite loc (stateUnder gone batch loc)) disk

def Disk.without (disk : Disk) (gone : List Spot) : Disk :=
  disk.showing gone []

theorem Entry.under_text (state : Nat → LineState) (mode : Mode) (text : String) :
    Entry.under state (.file mode (encode text)) =
      .file mode (encode (renderLines (rawLines text) (numbered state (rawLines text)))) := by
  simp [Entry.under, decode_encode]

theorem Entry.under_intact (e : Entry) : e.under (fun _ => .intact) = e := by
  cases e with
  | file mode bytes =>
    cases hd : decode bytes with
    | none => simp [Entry.under, hd]
    | some text =>
      rw [← encode_of_decode hd, Entry.under_text, numbered_intact, renderLines_allIntact]
  | link target => rfl
  | dir => rfl

theorem stateUnder_elsewhere {gone batch : List Spot} {loc : Location}
    (h : loc ∉ (gone ++ batch).map Prod.fst) : stateUnder gone batch loc = fun _ => .intact := by
  funext n
  have hn : (loc, n) ∉ gone ++ batch := fun hm => h (List.mem_map.2 ⟨_, hm, rfl⟩)
  rw [List.mem_append, not_or] at hn
  simp [stateUnder, hn.1, hn.2]

namespace Disk

variable {disk : Disk}

theorem get?_rewrite (disk : Disk) (loc l : Location) (state : Nat → LineState) :
    (disk.rewrite loc state).get? l =
      if l = loc then (disk.get? loc).map (Entry.under state) else disk.get? l := by
  unfold rewrite
  cases hg : disk.get? loc with
  | none =>
    by_cases hl : l = loc
    · simp [hl, hg]
    · simp [hl]
  | some e =>
    cases e with
    | file mode bytes =>
      rw [get?_put _ _ _ _ (ne_nil_of_file hg)]
      rfl
    | link target =>
      by_cases hl : l = loc
      · simp [hl, hg, Entry.under]
      · simp [hl]
    | dir =>
      by_cases hl : l = loc
      · simp [hl, hg, Entry.under]
      · simp [hl]

theorem alike_rewrite (disk : Disk) (loc : Location) (state : Nat → LineState) :
    Alike disk (disk.rewrite loc state) := by
  unfold rewrite
  split
  · rename_i mode bytes hg
    cases hd : decode bytes with
    | none =>
      simp only [Entry.under, hd]
      exact alike_put_file hg _ _
    | some text =>
      simp only [Entry.under, hd]
      exact alike_put_file hg _ _
  · exact alike_refl disk

theorem alike_showing (disk : Disk) (gone batch : List Spot) :
    Alike disk (disk.showing gone batch) := by
  unfold showing
  induction ((gone ++ batch).map Prod.fst).dedup with
  | nil => exact alike_refl disk
  | cons loc locs ih => exact ih.trans (alike_rewrite _ _ _)

theorem get?_showing (disk : Disk) (gone batch : List Spot) (l : Location) :
    (disk.showing gone batch).get? l =
      (disk.get? l).map (Entry.under (stateUnder gone batch l)) := by
  have hfold : ∀ locs : List Location, locs.Nodup →
      (locs.foldr (fun loc d => d.rewrite loc (stateUnder gone batch loc)) disk).get? l =
        if l ∈ locs then (disk.get? l).map (Entry.under (stateUnder gone batch l))
        else disk.get? l := by
    intro locs
    induction locs with
    | nil => simp
    | cons loc locs ih =>
      intro hn
      obtain ⟨hnot, hn'⟩ := List.nodup_cons.1 hn
      rw [List.foldr_cons, get?_rewrite]
      by_cases hl : l = loc
      · subst hl
        rw [ih hn']
        simp [hnot]
      · rw [if_neg hl, ih hn']
        simp [hl]
  unfold showing
  rw [hfold _ (List.nodup_dedup _)]
  by_cases hl : l ∈ ((gone ++ batch).map Prod.fst).dedup
  · rw [if_pos hl]
  · rw [if_neg hl, stateUnder_elsewhere (mt List.mem_dedup.2 hl), funext Entry.under_intact]
    simp

variable {sites : List Site} {s : Site} {w w' : Layout} {gone batch : List Spot}

theorem laid_congr_text
    (h : ∀ s ∈ sites, renderLines s.lines (w s.loc) = renderLines s.lines (w' s.loc)) :
    disk.laid w sites = disk.laid w' sites := by
  induction sites with
  | nil => rfl
  | cons s sites ih =>
    unfold laid
    rw [ih fun t ht => h t (List.mem_cons_of_mem s ht), Site.entry, Site.entry, h s (by simp)]

/-- Rewriting the file of a site numbers the lines that the layout has left. -/
theorem rewrite_laid (h : Sited disk sites) (hs : s ∈ sites) {state : Nat → LineState}
    {states : List LineState}
    (hr : renderLines s.lines states =
      renderLines (pieces s.lines (w s.loc)) (numbered state (pieces s.lines (w s.loc)))) :
    (disk.laid w sites).rewrite s.loc state = disk.laid (Function.update w s.loc states) sites := by
  have hget := get?_laid h w hs
  unfold rewrite
  rw [hget]
  simp only [Site.entry, Entry.under_text]
  rw [rawLines_renderLines (h.on s hs).lined, ← hr]
  exact put_laid h w hs states

theorem rewriteAll_laid (h : Sited disk sites) {state : Location → Nat → LineState}
    (hr : ∀ s ∈ sites, renderLines s.lines (w' s.loc) =
      renderLines (pieces s.lines (w s.loc)) (numbered (state s.loc) (pieces s.lines (w s.loc))))
    (locs : List Location) (hn : locs.Nodup) (hin : ∀ loc ∈ locs, ∃ s ∈ sites, s.loc = loc) :
    locs.foldr (fun loc d => d.rewrite loc (state loc)) (disk.laid w sites) =
      disk.laid (fun loc => if loc ∈ locs then w' loc else w loc) sites := by
  induction locs with
  | nil => simp
  | cons loc locs ih =>
    obtain ⟨hnot, hn'⟩ := List.nodup_cons.1 hn
    obtain ⟨s, hs, rfl⟩ := hin loc (by simp)
    have hfirst : renderLines s.lines (w' s.loc) =
        renderLines (pieces s.lines (if s.loc ∈ locs then w' s.loc else w s.loc))
          (numbered (state s.loc) (pieces s.lines (if s.loc ∈ locs then w' s.loc else w s.loc))) := by
      rw [if_neg hnot]
      exact hr s hs
    rw [List.foldr_cons, ih hn' fun l hl => hin l (List.mem_cons_of_mem _ hl),
      rewrite_laid h hs hfirst]
    congr 1
    funext l
    by_cases hl : l = s.loc
    · simp [hl]
    · simp [hl]

theorem showing_laid (h : Sited disk sites)
    (hin : ∀ p ∈ gone ++ batch, ∃ s ∈ sites, s.loc = p.1)
    (hr : ∀ s ∈ sites, renderLines s.lines (w' s.loc) = renderLines (pieces s.lines (w s.loc))
      (numbered (stateUnder gone batch s.loc) (pieces s.lines (w s.loc)))) :
    (disk.laid w sites).showing gone batch = disk.laid w' sites := by
  unfold showing
  rw [rewriteAll_laid h hr _ (List.nodup_dedup _)]
  · apply laid_congr_text
    intro s hs
    by_cases hl : s.loc ∈ (gone ++ batch).map Prod.fst
    · simp only [List.mem_dedup, hl, if_true]
    · simp only [List.mem_dedup, hl, if_false]
      rw [hr s hs, stateUnder_elsewhere hl, numbered_intact, renderLines_eq_join,
        renderLines_eq_join, pieces_allIntact]
  · intro loc hloc
    obtain ⟨p, hp, rfl⟩ := List.mem_map.1 (List.mem_dedup.1 hloc)
    exact hin p hp

end Disk

section
variable {disk : Disk} {sites : List Site} {w : Layout} {gone batch : List Spot}

theorem Follows.laid (hf : Follows w sites gone batch) (h : Sited disk sites) :
    disk.laid w sites = disk.showing gone batch := by
  have hfound := Disk.laid_intact h fun t ht => (h.on t ht).asFound
  rw [← Disk.showing_laid (w := disk.asFound) h hf.inside, hfound]
  intro s hs
  rw [(h.on s hs).asFound, pieces_allIntact, hf.states s hs]

def Disk.laying (disk : Disk) (gone batch : List Spot) : Layout := fun loc =>
  match disk.get? loc with
  | some (.file _ bytes) =>
    match decode bytes with
    | some text => numbered (stateUnder gone batch loc) (rawLines text)
    | none => []
  | _ => []

theorem follows_laying (h : Sited disk sites)
    (hin : ∀ p ∈ gone ++ batch, ∃ s ∈ sites, s.loc = p.1) :
    Follows (disk.laying gone batch) sites gone batch := by
  refine ⟨fun s hs => ?_, hin⟩
  unfold Disk.laying
  rw [(h.on s hs).content]
  simp only [Site.entry, decode_encode]
  rw [rawLines_renderLines (h.on s hs).lined, pieces_allIntact]

end

end IncludeSweep
