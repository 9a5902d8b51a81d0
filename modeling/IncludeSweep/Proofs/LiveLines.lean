import IncludeSweep.Proofs.FinalContent
import IncludeSweep.Proofs.Safety
import IncludeSweep.Proofs.Targets

set_option autoImplicit false

/-! # The required lines on a disk with lines taken out

A rehearsal build asks for lines that are live. A line that was commented out is as good as none, so
its verdict depends on which lines are left as they were, and more of them never do harm. -/

namespace IncludeSweep

open Text Draft

def LineState.piece? : LineState → String → Option String
  | .intact, line => some line
  | .commentedOut, line => some (commentMark ++ line)
  | .deleted, _ => none

theorem pieces_numbered (state : Nat → LineState) (lines : List String) :
    pieces lines (numbered state lines) =
      (lines.zipIdx 1).filterMap fun x => (state x.2).piece? x.1 := by
  unfold numbered
  generalize 1 = k
  induction lines generalizing k with
  | nil => rfl
  | cons line lines ih =>
    rw [List.zipIdx_cons, List.map_cons]
    cases hs : state k with
    | intact => simp [hs, pieces, LineState.piece?, ih]
    | commentedOut => simp [hs, pieces, LineState.piece?, ih]
    | deleted => simp [hs, pieces, LineState.piece?, ih]

theorem mem_zipIdx_one {lines : List String} {line : String} {n : Nat} :
    (line, n) ∈ lines.zipIdx 1 ↔ nth? lines n = some line := by
  rw [List.mem_zipIdx_iff_le_and_getElem?_sub, nth?_eq_some]
  constructor
  · rintro ⟨hle, hline⟩
    exact ⟨n - 1, by omega, hline⟩
  · rintro ⟨i, rfl, hline⟩
    exact ⟨by omega, hline⟩

theorem Disk.holds_showing {disk : Disk} {gone batch : List Spot} {path : Path} {loc : Location}
    {mode : Mode} {text : String} :
    (disk.showing gone batch).Holds path loc mode text ↔
      ∃ before, disk.Holds path loc mode before ∧ text = renderLines (rawLines before)
        (numbered (stateUnder gone batch loc) (rawLines before)) := by
  have hleads := Disk.locate_alike (Disk.alike_showing disk gone batch) path
  constructor
  · rintro ⟨hl, hr, hc⟩
    rw [Disk.get?_showing, Option.map_eq_some_iff] at hc
    obtain ⟨entry, hget, hentry⟩ := hc
    cases entry with
    | link target => simp [Entry.under] at hentry
    | dir => simp [Entry.under] at hentry
    | file mode' bytes =>
      cases hd : decode bytes with
      | none =>
        simp only [Entry.under, hd] at hentry
        injection hentry with _ hbytes
        rw [hbytes, decode_encode] at hd
        simp at hd
      | some before =>
        rw [← encode_of_decode hd, Entry.under_text] at hentry
        injection hentry with hmode hbytes
        have htext := congrArg decode hbytes
        rw [decode_encode, decode_encode, Option.some.injEq] at htext
        subst hmode
        exact ⟨before, ⟨hleads ▸ hl, hr, by rw [hget, encode_of_decode hd]⟩, htext.symm⟩
  · rintro ⟨before, hh, rfl⟩
    refine ⟨hleads.trans hh.leads, hh.reads, ?_⟩
    rw [Disk.get?_showing, hh.content, Option.map_some, Entry.under_text]

namespace Rehearsal

/-- The line is the wanted one up to white space, and no comment. -/
def supplies (wanted line : String) : Bool :=
  trim (stripTerminator line) == trim wanted && !Directive.commented (stripTerminator line)

theorem supplies_iff {wanted line : String} : supplies wanted line = true ↔
    trim (stripTerminator line) = trim wanted ∧
      Directive.commented (stripTerminator line) = false := by
  rw [supplies, Bool.and_eq_true, beq_iff_eq, Bool.not_eq_true']

theorem supplies_commentMark (wanted line : String) :
    supplies wanted (commentMark ++ line) = false := by
  simp [supplies, commented_commentMark]

theorem hasLiveLine_eq_any (wanted text : String) :
    hasLiveLine wanted text = (rawLines text).any (supplies wanted) := by
  rw [hasLiveLine, Text.lines, List.any_map]
  refine congrArg (List.any _) (funext fun line => ?_)
  rw [supplies, Function.comp_apply]

theorem hasLiveLine_numbered {wanted text : String} {state : Nat → LineState} :
    hasLiveLine wanted (renderLines (rawLines text) (numbered state (rawLines text))) = true ↔
      ∃ n line, nth? (rawLines text) n = some line ∧ state n = .intact ∧
        supplies wanted line = true := by
  rw [hasLiveLine_eq_any, rawLines_renderLines (lined_rawLines text), pieces_numbered,
    List.any_filterMap, List.any_eq_true]
  constructor
  · rintro ⟨⟨line, n⟩, hmem, hsome⟩
    cases hs : state n with
    | intact => exact ⟨n, line, mem_zipIdx_one.1 hmem, hs, by simpa [hs, LineState.piece?] using hsome⟩
    | commentedOut => simp [hs, LineState.piece?, supplies_commentMark] at hsome
    | deleted => simp [hs, LineState.piece?] at hsome
  · rintro ⟨n, line, hline, hs, hlive⟩
    exact ⟨(line, n), mem_zipIdx_one.2 hline, by simp [hs, LineState.piece?, hlive]⟩

def Met (disk : Disk) (gone : List Spot) (requirement : Path × String) : Prop :=
  ∃ loc mode text n line, disk.Holds requirement.1 loc mode text ∧
    nth? (rawLines text) n = some line ∧ (loc, n) ∉ gone ∧ supplies requirement.2 line = true

namespace BuildScript

theorem check_eq_true {script : BuildScript} {disk : Disk} :
    script.check disk = true ↔ script.broken = false ∧ ∀ r ∈ script.required,
      ∃ loc mode text, disk.Holds r.1 loc mode text ∧ hasLiveLine r.2 text = true := by
  unfold check
  rw [Bool.and_eq_true, Bool.not_eq_true', List.all_eq_true]
  refine and_congr_right fun _ => forall₂_congr fun r _ => ?_
  cases ht : disk.readText r.1 with
  | ok text =>
    obtain ⟨loc, mode, hh⟩ := Disk.readText_ok ht
    constructor
    · exact fun hlive => ⟨loc, mode, text, hh, hlive⟩
    · rintro ⟨loc', mode', text', hh', hlive⟩
      obtain ⟨_, _, rfl⟩ := hh.unique hh'
      exact hlive
  | error cause =>
    refine iff_of_false Bool.false_ne_true ?_
    rintro ⟨loc, mode, text, hh, _⟩
    simp [hh.readText] at ht

theorem check_showing {script : BuildScript} {disk : Disk} {gone batch : List Spot} :
    script.check (disk.showing gone batch) = true ↔
      script.broken = false ∧ ∀ r ∈ script.required, Met disk (gone ++ batch) r := by
  have hintact : ∀ loc n, stateUnder gone batch loc n = .intact ↔ (loc, n) ∉ gone ++ batch := by
    intro loc n
    by_cases hb : (loc, n) ∈ batch <;> by_cases hg : (loc, n) ∈ gone <;> simp [stateUnder, hb, hg]
  rw [check_eq_true]
  refine and_congr_right fun _ => forall₂_congr fun r _ => ?_
  constructor
  · rintro ⟨loc, mode, text, hh, hlive⟩
    obtain ⟨before, hh', rfl⟩ := Disk.holds_showing.1 hh
    obtain ⟨n, line, hline, hs, hsup⟩ := hasLiveLine_numbered.1 hlive
    exact ⟨loc, mode, before, n, line, hh', hline, (hintact loc n).1 hs, hsup⟩
  · rintro ⟨loc, mode, text, n, line, hh, hline, hleft, hsup⟩
    exact ⟨loc, mode, _, Disk.holds_showing.2 ⟨text, hh, rfl⟩,
      hasLiveLine_numbered.2 ⟨n, line, hline, (hintact loc n).2 hleft, hsup⟩⟩

theorem check_consistent (script : BuildScript) (disk : Disk) (plan : Plan) :
    Consistent script.check disk plan where
  commented := by
    intro gone batch _
    rw [Disk.without, Bool.eq_iff_iff, check_showing, check_showing, List.append_nil]
  fewer := by
    intro gone less _ hsub hpass
    rw [Disk.without, check_showing, List.append_nil] at hpass ⊢
    refine ⟨hpass.1, fun r hr => ?_⟩
    obtain ⟨loc, mode, text, n, line, hh, hline, hleft, hlive⟩ := hpass.2 r hr
    exact ⟨loc, mode, text, n, line, hh, hline, fun hmem => hleft (hsub hmem), hlive⟩

theorem toBuild_judges (script : BuildScript) (h : ∀ v ∈ script.verdicts, v = true) :
    Judges script.toBuild script.check := by
  intro w
  have hgiven : script.verdicts[w.outside]?.getD true = true := by
    cases hv : script.verdicts[w.outside]? with
    | none => rfl
    | some v => exact h v (List.mem_of_getElem? hv)
  simp [toBuild, buildAt, hgiven]

end BuildScript

end Rehearsal

end IncludeSweep
