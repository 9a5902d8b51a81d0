import IncludeSweep.Proofs.Links

set_option autoImplicit false

/-! # Paths with the same components

Two paths that have the same components lead to the same location, if they lead anywhere. One of them
may lead nowhere: a slash behind the name of a file is no component, but asks for a directory. -/

namespace IncludeSweep

open IncludeSweep.Path

namespace Path

theorem segmentComponent_eq_none {segment : String} :
    segmentComponent segment = none ↔ segment = "" ∨ segment = "." := by
  grind [segmentComponent]

theorem segmentComponent_inj {s t : String} {c : Component} (hs : segmentComponent s = some c)
    (ht : segmentComponent t = some c) : s = t := by
  grind [segmentComponent]

end Path

namespace Disk

variable {d : Disk}

theorem IsName.segmentComponent {segment : String} (h : IsName segment) :
    segmentComponent segment = some (.name segment) := by
  have hhere := h.notHere
  have hparent := h.notParent
  grind [Path.segmentComponent]

theorem Leads.past_blanks {last : LastStep} {links : Nat} {loc x : Location}
    {blanks rest : List String} (hb : ∀ s ∈ blanks, segmentComponent s = none)
    (h : Leads d last links loc (blanks ++ rest) x) : Leads d last links loc rest x := by
  induction blanks with
  | nil => exact h
  | cons b blanks ih =>
    exact ih (fun s hs => hb s (List.mem_cons_of_mem b hs))
      (h.of_here (segmentComponent_eq_none.1 (hb b List.mem_cons_self)))

theorem Leads.next {last : LastStep} {links : Nat} {loc x : Location} {segment : String}
    {rest segs : List String} {c : Component} (hc : segmentComponent segment = some c)
    (hsame : (segment :: rest).filterMap segmentComponent = segs.filterMap segmentComponent)
    (h : Leads d last links loc segs x) :
    ∃ rest', Leads d last links loc (segment :: rest') x ∧
      rest.filterMap segmentComponent = rest'.filterMap segmentComponent := by
  rw [List.filterMap_cons_some hc] at hsame
  obtain ⟨blanks, segment', rest', rfl, hb, hc', hrest⟩ := List.filterMap_eq_cons_iff.1 hsame.symm
  obtain rfl := segmentComponent_inj hc hc'
  exact ⟨rest', h.past_blanks hb, hrest.symm⟩

end Disk

end IncludeSweep
