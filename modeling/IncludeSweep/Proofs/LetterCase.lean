import IncludeSweep.Text.Case

set_option autoImplicit false

/-! # Letter case

Lower case is settled: what it gives it does not change again, and has no ASCII capital left. A text
is held against one in lower case by its ASCII letters alone, so a capital outside ASCII matches
nothing. -/

namespace IncludeSweep.Text

namespace CaseRun

theorem covers_iff {run : CaseRun} {n : Nat} : run.covers n = true ↔
    run.first ≤ n ∧ n ≤ run.last ∧ (n - run.first) % run.step = 0 := by
  simp [covers, and_assoc]

/-- The lower cases of `r` lie below or above what `s` covers, or the ones are odd and the others
even. -/
def clears (r s : CaseRun) : Bool :=
  Nat.blt (r.lower + (r.last - r.first)) s.first || Nat.blt s.last r.lower ||
    (Nat.beq s.step 2 && (Nat.beq r.step 2 || Nat.beq r.first r.last) &&
      Nat.beq ((r.lower + s.first) % 2) 1)

theorem clears_iff {r s : CaseRun} : r.clears s = true ↔
    r.lower + (r.last - r.first) < s.first ∨ s.last < r.lower ∨
      s.step = 2 ∧ (r.step = 2 ∨ r.first = r.last) ∧ (r.lower + s.first) % 2 = 1 := by
  simp [clears, Nat.blt_eq, or_assoc, and_assoc]

theorem not_covers_of_clears {r s : CaseRun} (h : r.clears s = true) {n : Nat}
    (hn : r.covers n = true) : s.covers (r.lower + (n - r.first)) = false := by
  rw [Bool.eq_false_iff, Ne, covers_iff]
  rintro ⟨hfirst, hlast, hstep⟩
  obtain ⟨hfirst', hlast', hstep'⟩ := covers_iff.1 hn
  rcases clears_iff.1 h with hbelow | habove | ⟨htwo, heven, hodd⟩
  · omega
  · omega
  · rw [htwo] at hstep
    rcases heven with htwo' | hone
    · rw [htwo'] at hstep'
      omega
    · omega

/-- The capital I with dot above, which no run of the mapping covers. -/
def dotted : CaseRun := ⟨0x130, 0x130, 1, 0x69⟩

def isProper (r : CaseRun) : Bool :=
  Nat.blt (r.lower + (r.last - r.first)) 0xD800 ||
    (Nat.blt 0xDFFF r.lower && Nat.blt (r.lower + (r.last - r.first)) 0x110000)

theorem toNat_lower {r : CaseRun} (h : r.isProper = true) {n : Nat} (hn : r.covers n = true) :
    (Char.ofNat (r.lower + (n - r.first))).toNat = r.lower + (n - r.first) := by
  obtain ⟨hfirst, hlast, _⟩ := covers_iff.1 hn
  have hproper : r.lower + (r.last - r.first) < 0xD800 ∨
      0xDFFF < r.lower ∧ r.lower + (r.last - r.first) < 0x110000 := by
    simpa [isProper, Nat.blt_eq] using h
  have hvalid : (r.lower + (n - r.first)).isValidChar := by
    unfold Nat.isValidChar
    omega
  unfold Char.ofNat
  rw [dif_pos hvalid]
  rfl

end CaseRun

theorem lowercaseRuns_settled :
    (lowercaseRuns.all fun r => r.isProper && (CaseRun.dotted :: lowercaseRuns).all r.clears) =
      true := by
  decide +kernel

theorem lowercaseChar_eq_self {c : Char} (hdotted : c.toNat ≠ 0x130)
    (h : ∀ run ∈ lowercaseRuns, run.covers c.toNat = false) : lowercaseChar c = [c] := by
  have hnone : lowercaseRuns.find? (fun run => run.covers c.toNat) = none := by
    rw [List.find?_eq_none]
    intro run hrun
    simp [h run hrun]
  simp [lowercaseChar, hdotted, hnone]

/-- What lower case gives it does not change again. -/
theorem lowercaseChar_lowered {c d : Char} (h : d ∈ lowercaseChar c) : lowercaseChar d = [d] := by
  by_cases hdotted : c.toNat = 0x130
  · have hd : d = 'i' ∨ d = Char.ofNat 0x307 := by simpa [lowercaseChar, hdotted] using h
    rcases hd with rfl | rfl
    · decide +kernel
    · decide +kernel
  · cases hfind : lowercaseRuns.find? (fun run => run.covers c.toNat) with
    | none =>
      obtain rfl : d = c := by simpa [lowercaseChar, hdotted, hfind] using h
      simp [lowercaseChar, hdotted, hfind]
    | some run =>
      have hd : d = Char.ofNat (run.lower + (c.toNat - run.first)) := by
        simpa [lowercaseChar, hdotted, hfind] using h
      have hcovers : run.covers c.toNat = true := by simpa using List.find?_some hfind
      have hrun := List.all_eq_true.1 lowercaseRuns_settled run (List.mem_of_find?_eq_some hfind)
      rw [Bool.and_eq_true_iff, List.all_eq_true] at hrun
      have hcode : d.toNat = run.lower + (c.toNat - run.first) := by
        rw [hd]
        exact CaseRun.toNat_lower hrun.1 hcovers
      -- no run covers the lower case, and it is not the one character beside the runs
      have hclear : ∀ s ∈ CaseRun.dotted :: lowercaseRuns, s.covers d.toNat = false := by
        intro s hs
        rw [hcode]
        exact CaseRun.not_covers_of_clears (hrun.2 s hs) hcovers
      refine lowercaseChar_eq_self ?_ fun s hs => hclear s (List.mem_cons_of_mem _ hs)
      intro heq
      have hself : CaseRun.dotted.covers 0x130 = true := by decide
      rw [← heq, hclear _ List.mem_cons_self] at hself
      simp at hself

def ForeignCapital (c : Char) : Prop :=
  128 ≤ c.toNat ∧ lowercaseChar c ≠ [c]

theorem toLower_eq_self {c : Char} (h : c.toNat < 0x41 ∨ 0x5A < c.toNat) : c.toLower = c := by
  unfold Char.toLower
  refine dif_neg ?_
  rintro ⟨hfirst, hlast⟩
  have hfirst' : 0x41 ≤ c.toNat := UInt32.le_iff_toNat_le.1 hfirst
  have hlast' : c.toNat ≤ 0x5A := UInt32.le_iff_toNat_le.1 hlast
  omega

theorem lowercaseChar_capital {c : Char} (hfirst : 0x41 ≤ c.toNat) (hlast : c.toNat ≤ 0x5A) :
    lowercaseChar c = [c.toLower] := by
  have hall : ∀ n < 26,
      lowercaseChar (Char.ofNat (0x41 + n)) = [(Char.ofNat (0x41 + n)).toLower] := by
    decide +kernel
  have hc : c = Char.ofNat (0x41 + (c.toNat - 0x41)) := by
    rw [Nat.add_sub_cancel' hfirst, Char.ofNat_toNat]
  rw [hc]
  exact hall _ (by omega)

theorem lowercaseRuns_ascii : ∀ run ∈ lowercaseRuns,
    0x41 ≤ run.first ∧ run.last ≤ 0x5A ∨ 128 ≤ run.first := by
  decide +kernel

theorem lowercaseChar_ascii {c : Char} (h : c.toNat < 128) : lowercaseChar c = [c.toLower] := by
  by_cases hcapital : 0x41 ≤ c.toNat ∧ c.toNat ≤ 0x5A
  · exact lowercaseChar_capital hcapital.1 hcapital.2
  · rw [toLower_eq_self (by omega)]
    refine lowercaseChar_eq_self (by omega) fun run hrun => ?_
    rw [Bool.eq_false_iff, Ne, CaseRun.covers_iff]
    rintro ⟨hfirst, hlast, _⟩
    have hrange := lowercaseRuns_ascii run hrun
    omega

theorem lowercaseChar_of_not_foreign {c : Char} (h : ¬ ForeignCapital c) :
    lowercaseChar c = [c.toLower] := by
  by_cases hascii : c.toNat < 128
  · exact lowercaseChar_ascii hascii
  · have hself : lowercaseChar c = [c] :=
      Decidable.byContradiction fun hne => h ⟨by omega, hne⟩
    rw [toLower_eq_self (by omega), hself]

theorem toLower_of_lowered {c : Char} (h : lowercaseChar c = [c]) : c.toLower = c := by
  have hplain : ¬ ForeignCapital c := fun hc => hc.2 h
  simpa [h] using (lowercaseChar_of_not_foreign hplain).symm

theorem lowercaseChar_ne_nil (c : Char) : lowercaseChar c ≠ [] := by
  unfold lowercaseChar
  split
  · simp
  · split <;> simp

theorem lowercaseFrom_eq_nil {before cs : List Char} : lowercaseFrom before cs = [] ↔ cs = [] := by
  cases cs with
  | nil => simp [lowercaseFrom]
  | cons c cs =>
    by_cases hsigma : c = 'Σ'
    · simp [lowercaseFrom, hsigma]
    · simp [lowercaseFrom, hsigma, lowercaseChar_ne_nil]

theorem lowered_of_mem_lowercaseFrom {before cs : List Char} {d : Char}
    (h : d ∈ lowercaseFrom before cs) : lowercaseChar d = [d] := by
  induction cs generalizing before with
  | nil => simp [lowercaseFrom] at h
  | cons c cs ih =>
    rw [lowercaseFrom, List.mem_append] at h
    rcases h with h | h
    · split at h
      · -- either sigma is a small letter
        have hd : d = 'ς' ∨ d = 'σ' := by
          rw [List.mem_singleton, lowercaseSigma] at h
          split at h
          · exact .inl h
          · exact .inr h
        rcases hd with rfl | rfl
        · decide +kernel
        · decide +kernel
      · exact lowercaseChar_lowered h
    · exact ih h

theorem lowercaseFrom_eq_map {before cs : List Char} (h : ∀ c ∈ cs, ¬ ForeignCapital c) :
    lowercaseFrom before cs = cs.map Char.toLower := by
  have hsigma : ForeignCapital 'Σ' := ⟨by decide, by decide +kernel⟩
  induction cs generalizing before with
  | nil => rfl
  | cons c cs ih =>
    have hc : c ≠ 'Σ' := by
      rintro rfl
      exact h _ List.mem_cons_self hsigma
    rw [lowercaseFrom, if_neg hc, lowercaseChar_of_not_foreign (h c List.mem_cons_self),
      ih fun d hd => h d (List.mem_cons_of_mem _ hd)]
    rfl

theorem sameIgnoringCase_lowercase {t x : String} : sameIgnoringCase (lowercase t) x = true ↔
    lowercaseFrom [] t.toList = x.toList.map Char.toLower := by
  have hlower : (lowercaseFrom [] t.toList).map Char.toLower = lowercaseFrom [] t.toList := by
    have hfixed : ∀ d ∈ lowercaseFrom [] t.toList, d.toLower = id d := fun _ hd =>
      toLower_of_lowered (lowered_of_mem_lowercaseFrom hd)
    rw [List.map_congr_left hfixed, List.map_id]
  unfold sameIgnoringCase lowercase
  rw [beq_iff_eq, String.toList_ofList, hlower]

/-- A text matches one in lower case if it has no foreign capital, and case is all that sets the two
apart. -/
theorem matches_lowercase_iff {t x : String} : sameIgnoringCase (lowercase t) x = true ↔
    (∀ c ∈ x.toList, ¬ ForeignCapital c) ∧ lowercase x = lowercase t := by
  rw [sameIgnoringCase_lowercase]
  constructor
  · intro h
    have hplain : ∀ c ∈ x.toList, ¬ ForeignCapital c := by
      rintro c hc ⟨hlarge, hchanged⟩
      have hmem : c.toLower ∈ lowercaseFrom [] t.toList := by
        rw [h]
        exact List.mem_map_of_mem hc
      rw [toLower_eq_self (by omega)] at hmem
      exact hchanged (lowered_of_mem_lowercaseFrom hmem)
    refine ⟨hplain, ?_⟩
    unfold lowercase
    rw [lowercaseFrom_eq_map hplain, h]
  · rintro ⟨hplain, h⟩
    have hchars : lowercaseFrom [] x.toList = lowercaseFrom [] t.toList := by
      simpa [lowercase] using congrArg String.toList h
    rw [← hchars, lowercaseFrom_eq_map hplain]

end IncludeSweep.Text
