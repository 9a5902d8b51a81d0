import IncludeSweep.Proofs.Evidence

set_option autoImplicit false

/-! # What the operations of a draft write

An operation of a draft makes one write or none, and it makes the write only over the file that the
draft knows. After the write the draft is the one that `Draft.wrote` describes: what it has written
are its states. -/

namespace IncludeSweep

open Text

namespace Draft

variable {d d' : Draft} {disk disk' : Disk}

/-- The draft has replaced its file by a text: the file had the digest known to the draft. -/
structure Writes (d : Draft) (disk : Disk) (text : String) (disk' : Disk) : Prop where
  known : ∃ bytes, disk.readBytes d.path = .ok bytes ∧ IncludeSweep.digest bytes = d.digest
  replaced : disk.replaceFile d.path (encode text) = .ok disk'

theorem flush_wrote (h : d.flush disk = .ok (d', disk')) :
    d' = d.wrote d.states ∧ d.Writes disk (renderLines d.lines d.states) disk' := by
  unfold flush at h
  cases hr : d.replaceText disk d.render with
  | error e => simp [hr] at h
  | ok r =>
    obtain ⟨d₁, disk₁⟩ := r
    obtain ⟨rfl, hread, hfile⟩ := replaceText_ok hr
    obtain ⟨rfl, rfl⟩ : _ = d' ∧ disk₁ = disk' := by simpa [hr] using h
    exact ⟨rfl, hread, hfile⟩

theorem flush_changed {states : List LineState}
    (h : ({ d with states := states } : Draft).flush disk = .ok (d', disk')) :
    d' = d.wrote states ∧ d.Writes disk (renderLines d.lines states) disk' := by
  obtain ⟨rfl, hw⟩ := flush_wrote h
  exact ⟨rfl, hw.known, hw.replaced⟩

theorem comment_nothing_ok {ns : List Nat} (h : d.comment disk ns = .ok ([], d', disk')) :
    (mark d.lines ns d.states).2 = [] ∧ d' = d ∧ disk' = disk := by
  obtain ⟨hm, _, _, _, hnone, _⟩ := comment_ok h
  exact ⟨hm.symm, hnone rfl⟩

theorem comment_wrote {ns applied : List Nat} (h : d.comment disk ns = .ok (applied, d', disk'))
    (ha : applied ≠ []) :
    applied = (mark d.lines ns d.states).2 ∧ d' = d.wrote (mark d.lines ns d.states).1 ∧
      d.Writes disk (renderLines d.lines (mark d.lines ns d.states).1) disk' := by
  have hm := (comment_ok h).1
  have hne : (mark d.lines ns d.states).2 ≠ [] := hm ▸ ha
  simp only [comment, hne, if_false] at h
  cases hf : ({ d with states := (mark d.lines ns d.states).1 } : Draft).flush disk with
  | error e => simp [hf] at h
  | ok r =>
    obtain ⟨d₁, disk₁⟩ := r
    obtain ⟨-, rfl, rfl⟩ : _ = applied ∧ d₁ = d' ∧ disk₁ = disk' := by simpa [hf] using h
    exact ⟨hm, flush_changed hf⟩

theorem delete_wrote {ls : List Nat} (h : d.delete disk = .ok (ls, d', disk')) :
    ls = d.pending ∧ d' = d.wrote (settle .deleted d.states) ∧
      d.Writes disk (renderLines d.lines (settle .deleted d.states)) disk' := by
  unfold delete at h
  cases hf : d.confirm.2.flush disk with
  | error e => simp [hf] at h
  | ok r =>
    obtain ⟨d₁, disk₁⟩ := r
    obtain ⟨rfl, rfl, rfl⟩ : _ = ls ∧ d₁ = d' ∧ disk₁ = disk' := by simpa [hf] using h
    exact ⟨rfl, flush_changed hf⟩

theorem rollback_wrote {ls : List Nat} (h : d.rollback disk = .ok (ls, d', disk'))
    (hp : d.pending ≠ []) :
    ls = d.pending ∧ d' = d.wrote (settle .intact d.states) ∧
      d.Writes disk (renderLines d.lines (settle .intact d.states)) disk' := by
  unfold rollback at h
  rw [if_neg hp] at h
  cases hf : ({ d with states := settle .intact d.states } : Draft).flush disk with
  | error e => simp [hf] at h
  | ok r =>
    obtain ⟨d₁, disk₁⟩ := r
    obtain ⟨rfl, rfl, rfl⟩ : _ = ls ∧ d₁ = d' ∧ disk₁ = disk' := by simpa [hf] using h
    exact ⟨rfl, flush_changed hf⟩

theorem revert_wrote {s : Snapshot} (h : d.revert disk s = .ok (d', disk')) :
    d' = { d with
      states := s.states
      written := s.states
      digest := IncludeSweep.digest (encode s.text) } ∧ d.Writes disk s.text disk' := by
  unfold revert at h
  cases hr : d.replaceText disk s.text with
  | error e => simp [hr] at h
  | ok r =>
    obtain ⟨d₁, disk₁⟩ := r
    obtain ⟨rfl, hread, hfile⟩ := replaceText_ok hr
    obtain ⟨rfl, rfl⟩ : _ = d' ∧ disk₁ = disk' := by simpa [hr] using h
    exact ⟨rfl, hread, hfile⟩

end Draft

end IncludeSweep
