import Mathlib.Data.List.Infix
import IncludeSweep.Proofs.WarningLines
import IncludeSweep.Rehearsal.Analysis

set_option autoImplicit false

/-! # Flagged lines

A warning carries its path as it is, with nothing to mark where the path ends. Reading it back is
safe all the same: unless the path itself contains what joins a path to a message, no shorter path
fits the line. So a scan finds exactly the lines that were flagged. -/

namespace IncludeSweep

namespace Diagnostic

open Text

/-- Nowhere in the path is there what would end it. -/
def Seamless (path : Path) : Prop :=
  ∀ line column, IsRun isDigit line → IsRun isDigit column →
    ¬ seam line column <:+: path.text.toList

theorem suffix_of_run {p : Char → Bool} {run rest cs : List Char} {c : Char}
    (hrun : ∀ c ∈ run, p c = true) (hc : p c = false) (h : c :: cs <:+ run ++ rest) :
    c :: cs <:+ rest := by
  induction run with
  | nil => exact h
  | cons d run ih =>
    rcases List.suffix_cons_iff.1 h with heq | h
    · obtain ⟨rfl, _⟩ := List.cons.inj heq
      rw [hrun c List.mem_cons_self] at hc
      exact absurd hc (by decide)
    · exact ih (fun x hx => hrun x (List.mem_cons_of_mem d hx)) h

theorem colon_in_seam {line column cs : List Char} (hline : IsRun isDigit line)
    (hcolumn : IsRun isDigit column) (h : ':' :: cs <:+ seam line column) :
    ':' :: cs = seam line column ∨ cs = column ++ ": warning: ".toList ∨ cs.head? = some ' ' := by
  have hcolon : isDigit ':' = false := by decide
  have hseam : seam line column = ':' :: (line ++ ':' :: (column ++ ": warning: ".toList)) := by
    simpa only [List.append_nil] using seam_append line column []
  rw [hseam] at h ⊢
  rcases List.suffix_cons_iff.1 h with heq | h
  · exact .inl heq
  rcases List.suffix_cons_iff.1 (suffix_of_run hline.2 hcolon h) with heq | h
  · exact .inr (.inl (List.cons.inj heq).2)
  have htails : ∀ t ∈ ": warning: ".toList.tails, t.head? = some ':' →
      t.tail.head? = some ' ' := by
    decide
  exact .inr (.inr (htails _ ((List.mem_tails _ _).2 (suffix_of_run hcolumn.2 hcolon h)) rfl))

/-- Of two seams, the one that begins first has ended when the other begins: it has no colon left
that digits could follow. -/
theorem seam_within {line column line' column' before rest rest' : List Char}
    (hline : IsRun isDigit line) (hcolumn : IsRun isDigit column) (hline' : IsRun isDigit line')
    (hcolumn' : IsRun isDigit column') (hne : before ≠ [])
    (h : seam line column ++ rest = before ++ (seam line' column' ++ rest')) :
    seam line column <+: before := by
  have hcolon : isDigit ':' = false := by decide
  have hblank : isDigit ' ' ≠ true := by decide
  rcases List.append_eq_append_iff.1 h with ⟨more, hbefore, _⟩ | ⟨across, hseam, hrest⟩
  · exact ⟨more, hbefore.symm⟩
  cases across with
  | nil => exact ⟨[], by rw [hseam, List.append_nil, List.append_nil]⟩
  | cons c across =>
    exfalso
    rw [seam_append, List.cons_append] at hrest
    obtain ⟨rfl, hafter⟩ := List.cons.inj hrest
    rcases colon_in_seam hline hcolumn ⟨before, hseam.symm⟩ with hall | rfl | hhead
    · rw [← hall] at hseam
      exact hne (List.self_eq_append_left.1 hseam)
    -- both runs of digits end at a colon; one seam goes on with a blank there, the other with a digit
    · rw [List.append_assoc] at hafter
      have hdrop := congrArg (List.dropWhile isDigit) hafter
      change _ = List.dropWhile isDigit (column ++ ':' :: (" warning: ".toList ++ rest)) at hdrop
      rw [dropWhile_run hline'.2 hcolon, dropWhile_run hcolumn.2 hcolon] at hdrop
      exact hblank (hcolumn'.first (List.cons.inj hdrop).2)
    · obtain ⟨more, rfl⟩ := List.head?_eq_some_iff.1 hhead
      exact hblank (hline'.first hafter)

theorem Seamless.shortest {path : Path} (h : Seamless path) {w : Warning}
    (hpath : w.path = path.text.toList) {cs : List Char} (hw : Spells w cs) : Shortest w cs := by
  refine ⟨hw, ?_⟩
  obtain ⟨_, rest, ⟨hline, column, close, hcolumn, _, rfl⟩, rfl⟩ := hw
  rintro w' ⟨_, rest', ⟨hline', column', close', hcolumn', _, rfl⟩, hcs⟩
  by_contra hlt
  rcases List.append_eq_append_iff.1 hcs with ⟨more, hmore, _⟩ | ⟨more, hmore, hrest⟩
  · rw [hmore, List.length_append] at hlt
    omega
  · have hne : more ≠ [] := by
      rintro rfl
      rw [hmore, List.append_nil] at hlt
      omega
    have hwithin := seam_within hline' hcolumn' hline hcolumn hne hrest
    refine h _ _ hline' hcolumn' (hwithin.isInfix.trans ?_)
    rw [← hpath, hmore]
    exact List.suffix_append _ _ |>.isInfix

def startsSeam (cs : List Char) : Bool :=
  match readColonDigits cs with
  | none => false
  | some (_, cs) =>
    match readColonDigits cs with
    | none => false
    | some (_, cs) => ": warning: ".toList.isPrefixOf cs

theorem startsSeam_iff {cs : List Char} : startsSeam cs = true ↔
    ∃ line column, IsRun isDigit line ∧ IsRun isDigit column ∧ seam line column <+: cs := by
  unfold startsSeam
  constructor
  · intro h
    split at h
    · simp at h
    rename_i line rest hfirst
    split at h
    · simp at h
    rename_i column rest' hsecond
    obtain ⟨more, rfl⟩ := List.isPrefixOf_iff_prefix.1 h
    obtain ⟨hline, rfl⟩ := readColonDigits_some hfirst
    obtain ⟨hcolumn, rfl⟩ := readColonDigits_some hsecond
    refine ⟨line, column, hline, hcolumn, more, ?_⟩
    rw [seam_append, List.cons_append, List.cons_append]
  · rintro ⟨line, column, hline, hcolumn, rest, rfl⟩
    simp only [readColonDigits_line hline, readColonDigits_column hcolumn]
    exact List.isPrefixOf_iff_prefix.2 (List.prefix_append _ _)

theorem seamless_iff {path : Path} :
    (∀ cs ∈ path.text.toList.tails, startsSeam cs = false) ↔ Seamless path := by
  constructor
  · rintro h line column hline hcolumn ⟨front, back, htext⟩
    have hmem : seam line column ++ back ∈ path.text.toList.tails := by
      rw [List.mem_tails, ← htext, List.append_assoc]
      exact List.suffix_append _ _
    have hstarts := startsSeam_iff.2 ⟨line, column, hline, hcolumn, List.prefix_append _ back⟩
    rw [h _ hmem] at hstarts
    exact absurd hstarts (by decide)
  · intro h cs hcs
    rw [Bool.eq_false_iff]
    intro hstarts
    obtain ⟨line, column, hline, hcolumn, hseam⟩ := startsSeam_iff.1 hstarts
    exact h line column hline hcolumn
      (hseam.isInfix.trans ((List.mem_tails _ _).1 hcs).isInfix)

instance (path : Path) : Decidable (Seamless path) :=
  decidable_of_iff _ seamless_iff

end Diagnostic

namespace Rehearsal.Flagging

open Text Diagnostic

section
variable {file : Path} {n : Nat}

theorem isDigit_of_ascii {c : Char} (h : c.isDigit = true) : isDigit c = true := by
  have hrange : 0x30 ≤ c.toNat ∧ c.toNat ≤ 0x39 := by
    simpa [Char.isDigit, UInt32.le_iff_toNat_le] using h
  simp [isDigit, inRanges, digitRanges, hrange]

theorem numeral_toDigits (h : n < 2 ^ 64) : Numeral (Nat.toDigits 10 n) n :=
  ⟨⟨Nat.toDigits_ne_nil, fun _ hc => Nat.isDigit_of_mem_toDigits (by decide) (by decide) hc⟩,
    Nat.ofDigitChars_ten_toDigits, h⟩

def parts (file : Path) (n : Nat) : Warning :=
  ⟨file.text.toList, Nat.toDigits 10 n, "included header fake.h is not used directly".toList,
    "misc-include-cleaner".toList⟩

def body (file : Path) (n : Nat) : List Char :=
  file.text.toList ++ (seam (Nat.toDigits 10 n) ['1'] ++
    ((parts file n).message ++ " [".toList ++ (parts file n).check ++ [']']))

theorem toList_warning (file : Path) (n : Nat) :
    (warning file n).toList = body file n ++ ['\n'] := by
  have hend : ":1: warning: included header fake.h is not used directly [misc-include-cleaner]\n" =
      ":1" ++ (": warning: " ++ ("included header fake.h is not used directly" ++ (" [" ++
        ("misc-include-cleaner" ++ "]\n")))) := by
    simp
  have hone : ":1".toList = [':', '1'] := by decide
  have hclose : "]\n".toList = [']', '\n'] := by decide
  have hcolon : ":".toList = [':'] := by decide
  simp only [warning, body, parts, seam, hend, hone, hclose, hcolon, String.toList_append,
    Nat.toString_eq_repr, Nat.toList_repr, List.append_assoc, List.cons_append, List.nil_append]

theorem spells_parts (hne : file.text ≠ "") (h : n < 2 ^ 64) :
    Spells (parts file n) (body file n) := by
  have hcheck : IsRun isCheckChar "misc-include-cleaner".toList := by decide +kernel
  have hone : IsRun isDigit ['1'] := by decide
  have hline : IsRun isDigit (Nat.toDigits 10 n) :=
    ⟨Nat.toDigits_ne_nil, fun c hc => isDigit_of_ascii ((numeral_toDigits h).1.2 c hc)⟩
  exact ⟨by simpa [parts] using hne, _,
    ⟨hline, ['1'], _, hone, ⟨hcheck, [], by simp, rfl⟩, rfl⟩, rfl⟩

theorem denotes_body (hne : file.text ≠ "") (hseam : Seamless file) (h : n < 2 ^ 64) :
    Denotes (body file n) ⟨file, n, .unusedInclude⟩ := by
  have hmessage : "included header fake.h is not used directly" =
      "included header " ++ "fake.h" ++ " is not used directly" := by
    simp
  refine ⟨parts file n, hseam.shortest rfl (spells_parts hne h), ?_, numeral_toDigits h,
    .unused rfl "fake.h".toList ?_⟩
  · simp [parts]
  · rw [parts, hmessage, String.toList_append, String.toList_append]

theorem splitsInto_body (hnewline : '\n' ∉ file.text.toList) (h : n < 2 ^ 64) :
    SplitsInto (body file n ++ ['\n']) [body file n] := by
  have hdigits : '\n' ∉ Nat.toDigits 10 n := by
    intro hmem
    exact absurd ((numeral_toDigits h).1.2 _ hmem) (by decide)
  refine .newline ?_ ?_ .nil
  · simp [body, parts, seam, hnewline, hdigits]
  · rintro ⟨front, hfront⟩
    simp only [body, ← List.append_assoc] at hfront
    exact absurd (List.append_inj_right' hfront rfl) (by decide)

theorem parse_warning (hne : file.text ≠ "") (hnewline : '\n' ∉ file.text.toList)
    (hseam : Seamless file) (h : n < 2 ^ 64) :
    parse (warning file n) = [⟨file, n, .unusedInclude⟩] := by
  refine parse_eq_iff.2 ⟨_, toList_warning file n ▸ splitsInto_body hnewline h, ?_⟩
  exact .found (denotes_body hne hseam h) .nil

theorem parse_warnings (hne : file.text ≠ "") (hnewline : '\n' ∉ file.text.toList)
    (hseam : Seamless file) {ns : List Nat} (h : ∀ n ∈ ns, n < 2 ^ 64) :
    parse (String.join (ns.map (warning file))) = ns.map fun n => ⟨file, n, .unusedInclude⟩ := by
  induction ns with
  | nil => rfl
  | cons n ns ih =>
    have hwarning : warning file n = String.ofList (body file n) ++ "\n" := by
      rw [← String.toList_inj, toList_warning, String.toList_append, String.toList_ofList]
      rfl
    have hfirst := parse_warning hne hnewline hseam (h n List.mem_cons_self)
    rw [hwarning] at hfirst
    rw [List.map_cons, String.join_cons, hwarning, parse_append, hfirst,
      ih fun m hm => h m (List.mem_cons_of_mem n hm)]
    rfl

end

theorem reportedLines_warnings {file : Path} (hne : file.text ≠ "")
    (hnewline : '\n' ∉ file.text.toList) (hseam : Seamless file) {ns : List Nat}
    (h : ∀ n ∈ ns, n < 2 ^ 64) :
    reportedLines file (String.join (ns.map (warning file))) = numberSet ns := by
  have hrefers : ∀ d ∈ ns.map fun n => (⟨file, n, .unusedInclude⟩ : Diagnostic),
      refersTo file d = true := by
    intro d hd
    obtain ⟨n, _, rfl⟩ := List.mem_map.1 hd
    cases hname : file.fileName <;> simp [refersTo, hname]
  unfold reportedLines
  rw [parse_warnings hne hnewline hseam h, List.filter_eq_self.2 hrefers, List.map_map]
  exact congrArg numberSet (List.map_id ns)

inductive Call where
  | flag (path : Path) (lines : List UInt64)
  | fail (path : Path)
deriving DecidableEq, Repr

def call (f : Flagging) : Call → Flagging
  | .flag path lines => f.flag path (lines.map UInt64.toNat)
  | .fail path => f.fail path

def ofCalls (calls : List Call) : Flagging :=
  calls.foldl call empty

/-- Some call has flagged the line for the file, under whichever path. -/
def FlaggedBy (calls : List Call) (file : Path) (n : Nat) : Prop :=
  ∃ path lines, Call.flag path lines ∈ calls ∧ path.same file = true ∧ n ∈ lines.map UInt64.toNat

section
variable {calls : List Call} {file : Path}

theorem mem_linesOf_call {f : Flagging} {c : Call} {n : Nat} :
    n ∈ (f.call c).linesOf file ↔ n ∈ f.linesOf file ∨ FlaggedBy [c] file n := by
  cases c with
  | flag path lines =>
    cases hsame : path.same file <;>
      simp [call, Flagging.flag, linesOf, FlaggedBy, hsame, List.filter_append]
  | fail path => simp [call, Flagging.fail, linesOf, FlaggedBy]

theorem mem_linesOf_calls {f : Flagging} {n : Nat} :
    n ∈ (calls.foldl call f).linesOf file ↔ n ∈ f.linesOf file ∨ FlaggedBy calls file n := by
  induction calls generalizing f with
  | nil => simp [FlaggedBy]
  | cons c calls ih =>
    rw [List.foldl_cons, ih, mem_linesOf_call, or_assoc]
    simp only [FlaggedBy, List.mem_cons, List.not_mem_nil, or_false, or_and_right, exists_or]

theorem mem_failing_calls {f : Flagging} {path : Path} :
    path ∈ (calls.foldl call f).failing ↔ path ∈ f.failing ∨ Call.fail path ∈ calls := by
  induction calls generalizing f with
  | nil => simp
  | cons c calls ih =>
    rw [List.foldl_cons, ih, List.mem_cons]
    cases c <;> simp [call, Flagging.flag, Flagging.fail, or_assoc]

theorem mem_linesOf_ofCalls {n : Nat} :
    n ∈ (ofCalls calls).linesOf file ↔ FlaggedBy calls file n := by
  rw [ofCalls, mem_linesOf_calls]
  exact or_iff_right List.not_mem_nil

theorem fails_ofCalls : ((ofCalls calls).failing.any fun path => path.same file) = true ↔
    ∃ path, Call.fail path ∈ calls ∧ path.same file = true := by
  simp [ofCalls, mem_failing_calls, empty]

theorem FlaggedBy.fits {n : Nat} (h : FlaggedBy calls file n) : n < 2 ^ 64 := by
  obtain ⟨_, _, _, _, hn⟩ := h
  obtain ⟨line, _, rfl⟩ := List.mem_map.1 hn
  exact line.toNat_lt

end

end Rehearsal.Flagging

open Rehearsal Flagging in
/-- Whatever has been flagged, and under whichever paths, the output for a file reports exactly the
lines flagged for it, and so does its scan; a file on which the analysis fails has none. -/
theorem scan_finds_flagged_lines {σ : Type} (calls : List Call) (file : Path)
    (hne : file.text ≠ "") (hnewline : '\n' ∉ file.text.toList)
    (hseam : Diagnostic.Seamless file) (w : World σ) :
    ((∀ path, Call.fail path ∈ calls → path.same file = false) →
      ∃ output lines, (ofCalls calls).result file = .output output ∧
        Diagnostic.reportedLines file output = lines ∧ lines.Pairwise (· < ·) ∧
        (∀ n, n ∈ lines ↔ FlaggedBy calls file n) ∧
        FileScan.ofResult file ((ofCalls calls).toAnalysis file w).1 = ⟨file, lines⟩) ∧
    ((∃ path, Call.fail path ∈ calls ∧ path.same file = true) →
      FileScan.ofResult file ((ofCalls calls).toAnalysis file w).1 = ⟨file, []⟩) := by
  constructor
  · intro hfail
    have hfits : ∀ n ∈ (ofCalls calls).linesOf file, n < 2 ^ 64 :=
      fun n hn => (mem_linesOf_ofCalls.1 hn).fits
    have hlines := reportedLines_warnings hne hnewline hseam hfits
    have hresult : (ofCalls calls).result file =
        .output (String.join (((ofCalls calls).linesOf file).map (warning file))) := by
      refine if_neg ?_
      rw [fails_ofCalls]
      rintro ⟨path, hmem, hsame⟩
      rw [hfail path hmem] at hsame
      exact absurd hsame (by decide)
    refine ⟨_, _, hresult, hlines, numberSet_ascending _, ?_, ?_⟩
    · intro n
      rw [mem_numberSet, mem_linesOf_ofCalls]
    · change FileScan.ofResult file ((ofCalls calls).result file) = _
      rw [hresult, ← hlines]
      rfl
  · intro hfail
    have hresult : (ofCalls calls).result file =
        .failed (.launch ("no analysis for " ++ file.text)) := if_pos (fails_ofCalls.2 hfail)
    change FileScan.ofResult file ((ofCalls calls).result file) = _
    rw [hresult]
    rfl

/-- A path that reads like the start of a warning. -/
def colonPath : Path :=
  ⟨"a:1: warning: b:2"⟩

def colonCalls : List Rehearsal.Flagging.Call :=
  [.flag ⟨"a:1: warning: b:2/."⟩ [7, 0], .fail ⟨"a:1"⟩, .flag colonPath [18446744073709551615, 7]]

open Rehearsal Flagging in
theorem scan_finds_flagged_lines_colonPath :
    FileScan.ofResult colonPath
      ((ofCalls colonCalls).toAnalysis colonPath (⟨⟨[], [], []⟩, ()⟩ : World Unit)).1 =
        ⟨colonPath, [0, 7, 18446744073709551615]⟩ ∧
    FileScan.ofResult ⟨"a:1/"⟩
      ((ofCalls colonCalls).toAnalysis ⟨"a:1/"⟩ (⟨⟨[], [], []⟩, ()⟩ : World Unit)).1 = ⟨⟨"a:1/"⟩, []⟩ := by
  have hseam : Diagnostic.Seamless colonPath := by decide +kernel
  have hfail : ∀ path, Call.fail path ∈ colonCalls → path.same colonPath = false := by
    intro path hmem
    obtain rfl : path = ⟨"a:1"⟩ := by simpa [colonCalls] using hmem
    decide +kernel
  constructor
  · obtain ⟨output, lines, _, _, hascending, hmem, hscan⟩ := (scan_finds_flagged_lines colonCalls
      colonPath (by decide) (by decide) hseam (⟨⟨[], [], []⟩, ()⟩ : World Unit)).1 hfail
    have hsame : (⟨"a:1: warning: b:2/."⟩ : Path).same colonPath = true := by decide +kernel
    have hflagged : ∀ n, n ∈ lines ↔ n ∈ [7, 0, 18446744073709551615, 7] := by
      intro n
      have hself : colonPath.same colonPath = true := by decide +kernel
      rw [hmem]
      simp only [FlaggedBy, colonCalls, List.mem_cons, Call.flag.injEq, reduceCtorEq,
        List.not_mem_nil, or_false, false_or, List.mem_map, or_and_right, exists_or, existsAndEq,
        and_true, UInt64.reduceToNat, true_and, UInt64.toNat_zero, hsame, hself]
      omega
    rw [hscan, ← numberSet_eq hascending hflagged]
    decide
  · exact (scan_finds_flagged_lines colonCalls ⟨"a:1/"⟩ (by decide) (by decide)
      (by decide +kernel) _).2 ⟨⟨"a:1"⟩, by decide, by decide +kernel⟩

end IncludeSweep
