import IncludeSweep.Proofs.WarningLines
import IncludeSweep.Tool.Toolchain

set_option autoImplicit false

/-! # Scans by a program

An analysis program that fails may still have reported something, so a scan goes by what the program
has written. The way it ended is looked at in one place only: a program that fails and has written
nothing but white space counts as a failed scan. That changes nothing, for such an output has no
diagnostic in it. -/

namespace IncludeSweep

variable {σ : Type}

namespace Diagnostic

open Text

theorem Denotes.colon {cs : List Char} {d : Diagnostic} (h : Denotes cs d) : ':' ∈ cs := by
  obtain ⟨w, ⟨⟨_, rest, ⟨_, column, more, _, _, rfl⟩, rfl⟩, _⟩, _⟩ := h
  rw [seam_append]
  simp

theorem colon_of_mem_parse {output : String} {d : Diagnostic} (h : d ∈ parse output) :
    ':' ∈ output.toList := by
  rw [parse_eq] at h
  obtain ⟨_, hline, hd⟩ := List.mem_filterMap.1 h
  obtain ⟨raw, hraw, rfl⟩ := List.mem_map.1 hline
  obtain ⟨ending, hending, _⟩ := exists_terminator raw
  rw [← flatten_splitAfterNewline output.toList]
  refine List.mem_flatten.2 ⟨raw, hraw, ?_⟩
  rw [hending]
  exact List.mem_append_left _ (ofLine_eq_some.1 hd).colon

theorem parse_eq_nil_of_isBlank {output : String} (h : isBlank output = true) :
    parse output = [] := by
  have hcolon : isWhite ':' = false := by decide
  refine List.eq_nil_iff_forall_not_mem.2 fun d hd => ?_
  rw [List.all_eq_true.1 h ':' (colon_of_mem_parse hd)] at hcolon
  simp at hcolon

end Diagnostic

namespace Ending

def ended (ending : Ending) : Bool :=
  match ending.status with
  | .exited _ | .killed _ => true
  | .lost _ | .unending => false

def exitCode (ending : Ending) : Int :=
  match ending.status with
  | .exited code => code.toNat
  | _ => -1

end Ending

namespace Command

section
variable (c : Command) (host : Host σ) (w : World σ)

structure Ends (ending : Ending) : Prop where
  spelled : hasNul c.words = false
  started : (host.start c.words c.timeout w).1 = .ok ending
  ended : ending.ended = true

def CannotStart : Prop :=
  hasNul c.words = true ∨ ∃ cause, (host.start c.words c.timeout w).1 = .error cause

def TimesOut : Prop :=
  ∃ ending, (host.start c.words c.timeout w).1 = .ok ending ∧ ending.status = .unending

end

section
variable {c : Command} {host : Host σ} {w : World σ} {ending : Ending} {output : Output}

theorem CannotStart.not_ends (h : c.CannotStart host w) : ¬ c.Ends host w ending := by
  intro hends
  rcases h with hnul | ⟨cause, hcause⟩
  · simp [hends.spelled] at hnul
  · simp [hends.started] at hcause

theorem TimesOut.not_ends (h : c.TimesOut host w) : ¬ c.Ends host w ending := by
  intro hends
  obtain ⟨running, hrunning, hstatus⟩ := h
  obtain rfl : ending = running := Except.ok.inj (hends.started.symm.trans hrunning)
  have hended := hends.ended
  simp [Ending.ended, hstatus] at hended

theorem finish_eq_ok : c.finish ending = .ok output ↔
    ending.ended = true ∧ output = c.output ending ending.exitCode := by
  unfold finish Ending.ended Ending.exitCode
  cases ending.status with
  | exited code => simp [eq_comm]
  | killed signal => simp [eq_comm]
  | lost cause => simp
  | unending => simp

/-- There is an output exactly of a program that ends, and it is what the program has written. -/
theorem execute_eq_ok (hc : c.words ≠ []) : (c.execute host w).1 = .ok output ↔
    ∃ ending, c.Ends host w ending ∧ output = c.output ending ending.exitCode := by
  unfold execute
  rw [if_neg hc]
  cases hnul : hasNul c.words with
  | true =>
    have hnone : ∀ ending, ¬ c.Ends host w ending := fun _ => CannotStart.not_ends (.inl hnul)
    simp [hnone]
  | false =>
    cases hstarted : (host.start c.words c.timeout w).1 with
    | error cause =>
      have hnone : ∀ ending, ¬ c.Ends host w ending := fun _ =>
        CannotStart.not_ends (.inr ⟨cause, hstarted⟩)
      simp [hnone, hstarted]
    | ok ending =>
      have hends : ∀ e, c.Ends host w e ↔ e = ending ∧ ending.ended = true := by
        intro e
        constructor
        · intro h
          obtain rfl : e = ending := Except.ok.inj (h.started.symm.trans hstarted)
          exact ⟨rfl, h.ended⟩
        · rintro ⟨rfl, h⟩
          exact ⟨hnul, hstarted, h⟩
      simp [hends, hstarted, finish_eq_ok, and_assoc]

end

end Command

namespace FileScan

theorem ofResult_error (file : Path) (e : CommandError) :
    ofResult file (scanResultOf (.error e)) = ⟨file, []⟩ := by
  cases e <;> rfl

theorem ofResult_ok (file : Path) (output : Output) :
    ofResult file (scanResultOf (.ok output)) =
      ⟨file, Diagnostic.reportedLines file output.stdout⟩ := by
  simp only [scanResultOf]
  split
  · rename_i h
    have hparse := Diagnostic.parse_eq_nil_of_isBlank (Bool.and_eq_true_iff.1 h).2
    simp [ofResult, Diagnostic.reportedLines, hparse, numberSet]
  · rfl

theorem noOutput_blank {result : Except CommandError Output} {code : Int} {stderr : String}
    (h : scanResultOf result = .failed (.noOutput code stderr)) :
    ∃ output, result = .ok output ∧ Text.isBlank output.stdout = true := by
  cases result with
  | error e => cases e <;> simp [scanResultOf] at h
  | ok output =>
    simp only [scanResultOf] at h
    split at h
    · rename_i hblank
      exact ⟨output, rfl, (Bool.and_eq_true_iff.1 hblank).2⟩
    · simp at h

end FileScan

section
variable {host : Host σ} {p : ScanParameters} {file : Path} {w : World σ} {ending : Ending}

theorem forAnalysis_words_ne (p : ScanParameters) (file : Path) :
    (Command.forAnalysis p file).words ≠ [] := by
  simp [Command.forAnalysis]

theorem scan_of_ends (h : (Command.forAnalysis p file).Ends host w ending) :
    FileScan.ofResult file (commandAnalysis host p file w).1 =
      ⟨file, Diagnostic.reportedLines file (Text.decodeLossy ending.stdout)⟩ := by
  have hexecute := (Command.execute_eq_ok (forAnalysis_words_ne p file)).2 ⟨ending, h, rfl⟩
  change FileScan.ofResult file (scanResultOf ((Command.forAnalysis p file).execute host w).1) = _
  rw [hexecute, FileScan.ofResult_ok]
  rfl

theorem scan_of_not_ends (h : ∀ ending, ¬ (Command.forAnalysis p file).Ends host w ending) :
    FileScan.ofResult file (commandAnalysis host p file w).1 = ⟨file, []⟩ := by
  change FileScan.ofResult file (scanResultOf ((Command.forAnalysis p file).execute host w).1) = _
  cases hexecute : ((Command.forAnalysis p file).execute host w).1 with
  | error e => exact FileScan.ofResult_error file e
  | ok output =>
    obtain ⟨ending, hends, _⟩ := (Command.execute_eq_ok (forAnalysis_words_ne p file)).1 hexecute
    exact absurd hends (h ending)

theorem ends_of_noOutput {code : Int} {stderr : String}
    (h : (commandAnalysis host p file w).1 = .failed (.noOutput code stderr)) :
    ∃ ending, (Command.forAnalysis p file).Ends host w ending ∧
      Diagnostic.parse (Text.decodeLossy ending.stdout) = [] := by
  obtain ⟨output, hexecute, hblank⟩ := FileScan.noOutput_blank h
  obtain ⟨ending, hends, rfl⟩ :=
    (Command.execute_eq_ok (forAnalysis_words_ne p file)).1 hexecute
  exact ⟨ending, hends, Diagnostic.parse_eq_nil_of_isBlank hblank⟩

end

namespace Host

def Writes (host : Host σ) (words : List String) (limit : Nat) (w : World σ)
    (stdout : ByteArray) : Prop :=
  ∃ ending, (host.start words limit w).1 = .ok ending ∧ ending.ended = true ∧
    ending.stdout = stdout

/-- Programs do the same and write the same on both hosts, but may end with another status and
another error output. -/
structure SameOutput (host host' : Host σ) : Prop where
  after : ∀ words limit w, (host'.start words limit w).2 = (host.start words limit w).2
  writes : ∀ words limit w stdout,
    host'.Writes words limit w stdout ↔ host.Writes words limit w stdout

end Host

theorem Command.ends_iff_writes {c : Command} {host : Host σ} {w : World σ} {stdout : ByteArray} :
    (∃ ending, c.Ends host w ending ∧ ending.stdout = stdout) ↔
      hasNul c.words = false ∧ host.Writes c.words c.timeout w stdout := by
  constructor
  · rintro ⟨ending, h, hstdout⟩
    exact ⟨h.spelled, ending, h.started, h.ended, hstdout⟩
  · rintro ⟨hnul, ending, hstarted, hended, hstdout⟩
    exact ⟨ending, ⟨hnul, hstarted, hended⟩, hstdout⟩

section
variable {host host' : Host σ}

theorem Command.execute_world (c : Command) (host : Host σ) (w : World σ) :
    (c.execute host w).2 = if c.words = [] ∨ hasNul c.words = true then w
      else (host.start c.words c.timeout w).2 := by
  unfold execute
  by_cases hc : c.words = []
  · simp [hc]
  · by_cases hnul : hasNul c.words = true
    · simp [hc, hnul]
    · cases hstarted : (host.start c.words c.timeout w).1 <;> simp [hc, hnul, hstarted]

theorem Host.SameOutput.scan_eq (h : host.SameOutput host') (p : ScanParameters) (file : Path)
    (w : World σ) : FileScan.ofResult file (commandAnalysis host' p file w).1 =
      FileScan.ofResult file (commandAnalysis host p file w).1 := by
  have hends : ∀ stdout,
      (∃ ending, (Command.forAnalysis p file).Ends host' w ending ∧ ending.stdout = stdout) ↔
        ∃ ending, (Command.forAnalysis p file).Ends host w ending ∧ ending.stdout = stdout := by
    intro stdout
    rw [Command.ends_iff_writes, Command.ends_iff_writes, h.writes]
  by_cases hended : ∃ ending, (Command.forAnalysis p file).Ends host w ending
  · obtain ⟨ending, hending⟩ := hended
    obtain ⟨ending', hending', hstdout⟩ := (hends ending.stdout).2 ⟨ending, hending, rfl⟩
    rw [scan_of_ends hending, scan_of_ends hending', hstdout]
  · rw [not_exists] at hended
    rw [scan_of_not_ends hended]
    refine scan_of_not_ends fun ending' hending' => ?_
    obtain ⟨ending, hending, _⟩ := (hends ending'.stdout).1 ⟨ending', hending', rfl⟩
    exact hended ending hending

theorem Host.SameOutput.world_eq (h : host.SameOutput host') (p : ScanParameters) (file : Path)
    (w : World σ) : (commandAnalysis host' p file w).2 = (commandAnalysis host p file w).2 := by
  change ((Command.forAnalysis p file).execute host' w).2 =
    ((Command.forAnalysis p file).execute host w).2
  rw [Command.execute_world, Command.execute_world, h.after]

theorem FileScan.each_congr {analysis analysis' : Analysis σ}
    (hscan : ∀ file w, ofResult file (analysis' file w).1 = ofResult file (analysis file w).1)
    (hworld : ∀ file w, (analysis' file w).2 = (analysis file w).2) (files : List Path)
    (w : World σ) : each analysis' files w = each analysis files w := by
  induction files generalizing w with
  | nil => rfl
  | cons file files ih => simp only [each, hscan, hworld, ih]

end

/-- A program that ends gives the scan of what it has written, however it ends: it is a failed scan
only if there was nothing to report. One that cannot be started or is stopped gives an empty scan.
So no scan of any files changes with the exit status or the error output of the program. -/
theorem scan_ignores_exit_status (host : Host σ) (p : ScanParameters) :
    (∀ file w ending, (Command.forAnalysis p file).Ends host w ending →
      FileScan.ofResult file (commandAnalysis host p file w).1 =
        ⟨file, Diagnostic.reportedLines file (Text.decodeLossy ending.stdout)⟩) ∧
    (∀ file w code stderr, (commandAnalysis host p file w).1 = .failed (.noOutput code stderr) →
      ∃ ending, (Command.forAnalysis p file).Ends host w ending ∧
        Diagnostic.parse (Text.decodeLossy ending.stdout) = []) ∧
    (∀ file w, (Command.forAnalysis p file).CannotStart host w ∨
        (Command.forAnalysis p file).TimesOut host w →
      FileScan.ofResult file (commandAnalysis host p file w).1 = ⟨file, []⟩) ∧
    (∀ host', host.SameOutput host' → ∀ atOnce files w,
      FileScan.all atOnce (commandAnalysis host' p) files w =
        FileScan.all atOnce (commandAnalysis host p) files w) := by
  refine ⟨fun _ _ _ => scan_of_ends, fun _ _ _ _ => ends_of_noOutput, ?_, ?_⟩
  · rintro file w (h | h)
    · exact scan_of_not_ends fun _ => h.not_ends
    · exact scan_of_not_ends fun _ => h.not_ends
  · intro host' h atOnce files w
    have heach := FileScan.each_congr (h.scan_eq p) (h.world_eq p) files w
    simp only [FileScan.all, heach]

def unevenEnding (status : ExitStatus) (file : Option String) : Ending :=
  if file = some "stuck.cc" then ⟨ByteArray.empty, ByteArray.empty, .unending⟩
  else if file = some "blank.cc" then ⟨"\u2003\r\n".toUTF8, "no such flag".toUTF8, status⟩
  else
    ⟨⟨#[0xC3, 0x0A]⟩ ++
      "a.cc:3:1: warning: duplicate include [readability-duplicate-include]\n".toUTF8,
      ByteArray.empty, status⟩

/-- A host with one program, which ends with the given status where it ends. It is not started
without a limit. -/
def unevenTool (status : ExitStatus) : Host Unit where
  start words limit w :=
    (if words.head? = some "clang-tidy" ∧ limit ≠ 0 then .ok (unevenEnding status words.getLast?)
      else .error .notFound, w)
  ends words w ending h := by simp at h

theorem unevenTool_sameOutput (signal : Nat) (code : UInt8) :
    (unevenTool (.killed signal)).SameOutput (unevenTool (.exited code)) where
  after _ _ _ := rfl
  writes words limit w stdout := by
    simp only [Host.Writes, unevenTool, unevenEnding]
    split_ifs <;> simp [Ending.ended]

def unevenParameters (tool : String) : ScanParameters :=
  ⟨⟨tool⟩, ⟨"build"⟩, ["-v"], 5⟩

def unevenAnalysis (tool : String) (file : Path) : ScanResult :=
  (commandAnalysis (unevenTool (.killed 11)) (unevenParameters tool) file ⟨⟨[], [], []⟩, ()⟩).1

theorem scan_ignores_exit_status_unevenTool :
    FileScan.ofResult ⟨"a.cc"⟩ (unevenAnalysis "clang-tidy" ⟨"a.cc"⟩) = ⟨⟨"a.cc"⟩, [3]⟩ ∧
    unevenAnalysis "clang-tidy" ⟨"blank.cc"⟩ = .failed (.noOutput (-1) "no such flag") ∧
    Diagnostic.parse (Text.decodeLossy "\u2003\r\n".toUTF8) = [] ∧
    FileScan.ofResult ⟨"stuck.cc"⟩ (unevenAnalysis "clang-tidy" ⟨"stuck.cc"⟩) =
      ⟨⟨"stuck.cc"⟩, []⟩ ∧
    FileScan.ofResult ⟨"a.cc"⟩ (unevenAnalysis "tidy" ⟨"a.cc"⟩) = ⟨⟨"a.cc"⟩, []⟩ ∧
    FileScan.all 4 (commandAnalysis (unevenTool (.exited 0)) (unevenParameters "clang-tidy"))
        [⟨"blank.cc"⟩, ⟨"a.cc"⟩] ⟨⟨[], [], []⟩, ()⟩ =
      FileScan.all 4 (commandAnalysis (unevenTool (.killed 11)) (unevenParameters "clang-tidy"))
        [⟨"blank.cc"⟩, ⟨"a.cc"⟩] ⟨⟨[], [], []⟩, ()⟩ := by
  obtain ⟨hends, hnothing, hempty, hsame⟩ :=
    scan_ignores_exit_status (unevenTool (.killed 11)) (unevenParameters "clang-tidy")
  have hblank : unevenAnalysis "clang-tidy" ⟨"blank.cc"⟩ =
      .failed (.noOutput (-1) "no such flag") := by
    decide +kernel
  refine ⟨?_, hblank, ?_, ?_, ?_, hsame _ (unevenTool_sameOutput 11 0) 4 _ _⟩
  · have hended : (Command.forAnalysis (unevenParameters "clang-tidy") ⟨"a.cc"⟩).Ends
        (unevenTool (.killed 11)) ⟨⟨[], [], []⟩, ()⟩ (unevenEnding (.killed 11) (some "a.cc")) :=
      ⟨by decide +kernel, rfl, by decide +kernel⟩
    refine (hends _ _ _ hended).trans ?_
    decide +kernel
  · obtain ⟨ending, hended, hparse⟩ := hnothing _ _ _ _ hblank
    have hstarted : ((unevenTool (.killed 11)).start
        (Command.forAnalysis (unevenParameters "clang-tidy") ⟨"blank.cc"⟩).words 5
        ⟨⟨[], [], []⟩, ()⟩).1 = .ok (unevenEnding (.killed 11) (some "blank.cc")) := rfl
    obtain rfl := Except.ok.inj (hended.started.symm.trans hstarted)
    exact hparse
  · exact hempty _ _ (.inr ⟨_, rfl, rfl⟩)
  · exact (scan_ignores_exit_status _ (unevenParameters "tidy")).2.2.1 _ _
      (.inl (.inr ⟨.notFound, rfl⟩))

end IncludeSweep
