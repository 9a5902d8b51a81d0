import Mathlib.Algebra.Group.Nat.Defs
import Mathlib.Data.List.TakeWhile
import IncludeSweep.Diagnostic
import IncludeSweep.Proofs.Rendering

set_option autoImplicit false

/-! # The grammar of warnings

What an output reports, said without a reader: how a text falls into lines, how a warning is
spelled, which of several spellings of one line counts, and what a warning says. The reader of
diagnostics accepts exactly that. -/

namespace IncludeSweep

namespace Text

def IsRun (p : Char → Bool) (cs : List Char) : Prop :=
  cs ≠ [] ∧ ∀ c ∈ cs, p c = true

instance (p : Char → Bool) (cs : List Char) : Decidable (IsRun p cs) :=
  decidable_of_iff (cs ≠ [] ∧ cs.all p = true) (by rw [IsRun, List.all_eq_true])

theorem IsRun.reverse {p : Char → Bool} {cs : List Char} (h : IsRun p cs) : IsRun p cs.reverse :=
  ⟨by simpa using h.1, fun c hc => h.2 c (List.mem_reverse.1 hc)⟩

section
variable {p : Char → Bool} {cs rest : List Char} {c : Char}

theorem takeWhile_run (h : ∀ c ∈ cs, p c = true) (hc : p c = false) :
    (cs ++ c :: rest).takeWhile p = cs := by
  rw [List.takeWhile_append_of_pos h, List.takeWhile_cons_of_neg (by simp [hc]), List.append_nil]

theorem dropWhile_run (h : ∀ c ∈ cs, p c = true) (hc : p c = false) :
    (cs ++ c :: rest).dropWhile p = c :: rest := by
  rw [List.dropWhile_append_of_pos h, List.dropWhile_cons_of_neg (by simp [hc])]

theorem dropWhile_eq_iff : cs.dropWhile p = rest ↔ ∃ front, (∀ c ∈ front, p c = true) ∧
    cs = front ++ rest ∧ ∀ c, rest.head? = some c → p c = false := by
  constructor
  · rintro rfl
    refine ⟨cs.takeWhile p, fun _ hc => List.mem_takeWhile_imp hc,
      List.takeWhile_append_dropWhile.symm, fun c hc => ?_⟩
    simpa [hc] using List.head?_dropWhile_not p cs
  · rintro ⟨front, hfront, rfl, hrest⟩
    cases rest with
    | nil => simpa using hfront
    | cons c rest => exact dropWhile_run hfront (hrest c rfl)

theorem IsRun.first {more : List Char} (h : IsRun p cs) (heq : cs ++ rest = c :: more) :
    p c = true := by
  obtain ⟨d, ds, rfl⟩ := List.exists_cons_of_ne_nil h.1
  obtain ⟨rfl, _⟩ := List.cons.inj heq
  exact h.2 _ List.mem_cons_self

theorem isRun_takeWhile (h : cs.takeWhile p ≠ []) : IsRun p (cs.takeWhile p) :=
  ⟨h, fun _ hc => List.mem_takeWhile_imp hc⟩

end

/-- The lines that characters fall into: each ends at its first newline, which a carriage return may
precede, or where the characters end. -/
inductive SplitsInto : List Char → List (List Char) → Prop
  | nil : SplitsInto [] []
  | last {body : List Char} (hne : body ≠ []) (h : '\n' ∉ body) : SplitsInto body [body]
  | newline {body rest : List Char} {lines : List (List Char)} (h : '\n' ∉ body)
      (hreturn : ¬ ['\r'] <:+ body) (tail : SplitsInto rest lines) :
      SplitsInto (body ++ '\n' :: rest) (body :: lines)
  | returnNewline {body rest : List Char} {lines : List (List Char)} (h : '\n' ∉ body)
      (tail : SplitsInto rest lines) :
      SplitsInto (body ++ '\r' :: '\n' :: rest) (body :: lines)

theorem dropTerminator_last {body : List Char} (h : '\n' ∉ body) : dropTerminator body = body := by
  rcases body.eq_nil_or_concat with rfl | ⟨front, c, rfl⟩
  · rfl
  · have hc : c ≠ '\n' := by
      rintro rfl
      simp at h
    simp [dropTerminator, hc]

theorem dropTerminator_newline {body : List Char} (h : ¬ ['\r'] <:+ body) :
    dropTerminator (body ++ ['\n']) = body := by
  rcases body.eq_nil_or_concat with rfl | ⟨front, c, rfl⟩
  · rfl
  · have hc : c ≠ '\r' := by
      rintro rfl
      exact h ⟨front, List.concat_eq_append.symm⟩
    simp [dropTerminator, hc]

theorem dropTerminator_returnNewline (body : List Char) :
    dropTerminator (body ++ ['\r', '\n']) = body := by
  simp [dropTerminator]

theorem exists_terminator (cs : List Char) : ∃ ending, cs = dropTerminator cs ++ ending ∧
    (ending = [] ∨ ending = ['\n'] ∨ ending = ['\r', '\n']) := by
  unfold dropTerminator
  split
  · rename_i rest h
    exact ⟨['\r', '\n'], by simpa using congrArg List.reverse h, .inr (.inr rfl)⟩
  · rename_i rest _ h
    exact ⟨['\n'], by simpa using congrArg List.reverse h, .inr (.inl rfl)⟩
  · exact ⟨[], by simp, .inl rfl⟩

theorem SplitsInto.eq {cs : List Char} {lines : List (List Char)} (h : SplitsInto cs lines) :
    (splitAfterNewline cs).map dropTerminator = lines := by
  induction h with
  | nil => rfl
  | last hne h => rw [splitAfterNewline_last _ hne h, List.map_singleton, dropTerminator_last h]
  | newline h hreturn _ ih =>
    rw [splitAfterNewline_line _ _ h, List.map_cons, dropTerminator_newline hreturn, ih]
  | @returnNewline body rest _ h _ ih =>
    have hbody : '\n' ∉ body ++ ['\r'] := by simpa using h
    have hsplit := splitAfterNewline_line _ rest hbody
    rw [List.append_assoc, List.append_assoc] at hsplit
    change splitAfterNewline (body ++ '\r' :: '\n' :: rest) = _ at hsplit
    rw [hsplit, List.map_cons, ih]
    exact congrArg (· :: _) (dropTerminator_returnNewline body)

theorem splitsInto_lines (cs : List Char) :
    SplitsInto cs ((splitAfterNewline cs).map dropTerminator) := by
  suffices h : ∃ lines, SplitsInto cs lines by
    obtain ⟨lines, hlines⟩ := h
    rwa [hlines.eq]
  -- what follows the first newline is shorter
  induction hn : cs.length using Nat.strong_induction_on generalizing cs with
  | _ n ih =>
    by_cases hmem : '\n' ∈ cs
    · obtain ⟨body, rest, rfl, hbody⟩ := List.eq_append_cons_of_mem hmem
      have hlt : rest.length < n := by
        simp only [List.length_append, List.length_cons] at hn
        omega
      obtain ⟨lines, hlines⟩ := ih _ hlt rest rfl
      by_cases hreturn : ['\r'] <:+ body
      · obtain ⟨front, rfl⟩ := hreturn
        rw [List.append_assoc]
        exact ⟨_, .returnNewline (fun h => hbody (List.mem_append_left _ h)) hlines⟩
      · exact ⟨_, .newline hbody hreturn hlines⟩
    · by_cases hnil : cs = []
      · subst hnil
        exact ⟨_, .nil⟩
      · exact ⟨_, .last hnil hmem⟩

theorem splitAfterNewline_append (front back : List Char) :
    splitAfterNewline (front ++ '\n' :: back) =
      splitAfterNewline (front ++ ['\n']) ++ splitAfterNewline back := by
  induction front with
  | nil => rfl
  | cons c front ih =>
    simp only [List.cons_append, splitAfterNewline, ih]
    cases hsplit : splitAfterNewline (front ++ ['\n']) with
    | nil =>
      have hflatten := flatten_splitAfterNewline (front ++ ['\n'])
      rw [hsplit] at hflatten
      simp at hflatten
    | cons line lines => split <;> rfl

def Numeral (cs : List Char) (n : Nat) : Prop :=
  IsRun Char.isDigit cs ∧ Nat.ofDigitChars 10 cs 0 = n ∧ n < 2 ^ 64

theorem readDigits_eq_some {cs : List Char} {n : Nat} : readDigits cs = some n ↔ Numeral cs n := by
  have hvalue : digitsValue 0 cs = Nat.ofDigitChars 10 cs 0 := rfl
  have hbound : numberBound = 2 ^ 64 := rfl
  have hdigits : cs.all isAsciiDigit = true ↔ ∀ c ∈ cs, c.isDigit = true := List.all_eq_true
  unfold readDigits
  rw [hvalue, hbound]
  constructor
  · intro h
    split at h
    · rename_i hread
      obtain rfl := Option.some.inj h
      exact ⟨⟨hread.1, hdigits.1 hread.2.1⟩, rfl, hread.2.2⟩
    · simp at h
  · rintro ⟨hrun, rfl, hlt⟩
    rw [if_pos ⟨hrun.1, hdigits.2 hrun.2, hlt⟩]

end Text

namespace Diagnostic

open Text

def Closes (message check cs : List Char) : Prop :=
  IsRun isCheckChar check ∧ ∃ blank, (∀ c ∈ blank, isWhite c = true) ∧
    cs = message ++ " [".toList ++ check ++ ']' :: blank

def seam (line column : List Char) : List Char :=
  ':' :: line ++ ':' :: column ++ ": warning: ".toList

theorem seam_append (line column rest : List Char) : seam line column ++ rest =
    ':' :: (line ++ ':' :: (column ++ (": warning: ".toList ++ rest))) := by
  simp only [seam, List.append_assoc, List.cons_append]

/-- Behind the path stands `:line:column: warning: message`. -/
def Trails (line message check cs : List Char) : Prop :=
  IsRun isDigit line ∧ ∃ column rest, IsRun isDigit column ∧ Closes message check rest ∧
    cs = seam line column ++ rest

def Spells (w : Warning) (cs : List Char) : Prop :=
  w.path ≠ [] ∧ ∃ rest, Trails w.line w.message w.check rest ∧ cs = w.path ++ rest

/-- The warning of a line is the one with the shortest path. -/
def Shortest (w : Warning) (cs : List Char) : Prop :=
  Spells w cs ∧ ∀ w', Spells w' cs → w.path.length ≤ w'.path.length

inductive Means : Warning → DiagnosticKind → Prop
  | unused {w : Warning} (hcheck : w.check = "misc-include-cleaner".toList) (header : List Char)
      (hmessage : w.message =
        "included header ".toList ++ header ++ " is not used directly".toList) :
      Means w .unusedInclude
  | duplicate {w : Warning} (hcheck : w.check = "readability-duplicate-include".toList)
      (more : List Char) (hmessage : w.message = "duplicate include".toList ++ more) :
      Means w .duplicateInclude

def Denotes (cs : List Char) (d : Diagnostic) : Prop :=
  ∃ w, Shortest w cs ∧ d.path = ⟨String.ofList w.path⟩ ∧ Numeral w.line d.line ∧ Means w d.kind

/-- Every line that denotes a diagnostic contributes it, in order, and no other line anything. -/
inductive Reports : List (List Char) → List Diagnostic → Prop
  | nil : Reports [] []
  | found {cs : List Char} {lines : List (List Char)} {d : Diagnostic} {ds : List Diagnostic}
      (h : Denotes cs d) (rest : Reports lines ds) : Reports (cs :: lines) (d :: ds)
  | passed {cs : List Char} {lines : List (List Char)} {ds : List Diagnostic}
      (h : ∀ d, ¬ Denotes cs d) (rest : Reports lines ds) : Reports (cs :: lines) ds

theorem readCheck_eq_some {message check cs : List Char} :
    readCheck cs = some (message, check) ↔ Closes message check cs := by
  constructor
  · intro h
    have hcs := List.takeWhile_append_dropWhile (p := isWhite) (l := cs.reverse)
    unfold readCheck at h
    split at h
    · rename_i rest hrest
      rw [hrest] at hcs
      split at h
      · simp at h
      · rename_i hne
        split at h
        · rename_i back hback
          have hsplit := List.takeWhile_append_dropWhile (p := isCheckChar) (l := rest)
          rw [hback] at hsplit
          simp only [Option.some.injEq, Prod.mk.injEq] at h
          obtain ⟨rfl, rfl⟩ := h
          refine ⟨(isRun_takeWhile hne).reverse, (cs.reverse.takeWhile isWhite).reverse, ?_, ?_⟩
          · intro c hc
            exact List.mem_takeWhile_imp (List.mem_reverse.1 hc)
          · rw [← hsplit] at hcs
            have := congrArg List.reverse hcs
            simpa using this.symm
        · simp at h
    · simp at h
  · rintro ⟨hcheck, blank, hblank, rfl⟩
    have hbracket : isWhite ']' = false := by decide
    have hopen : isCheckChar '[' = false := by decide +kernel
    have hreverse : (message ++ " [".toList ++ check ++ ']' :: blank).reverse =
        blank.reverse ++ ']' :: (check.reverse ++ '[' :: ' ' :: message.reverse) := by
      simp
    have hwhite : ∀ c ∈ blank.reverse, isWhite c = true :=
      fun c hc => hblank c (List.mem_reverse.1 hc)
    unfold readCheck
    rw [hreverse, dropWhile_run hwhite hbracket]
    simp only [takeWhile_run hcheck.reverse.2 hopen, dropWhile_run hcheck.reverse.2 hopen,
      hcheck.reverse.1, if_false, List.reverse_reverse]

theorem readColonDigits_run {digits : List Char} (h : IsRun isDigit digits) (rest : List Char) :
    readColonDigits (':' :: digits ++ ':' :: rest) = some (digits, ':' :: rest) := by
  have hcolon : isDigit ':' = false := by decide
  rw [List.cons_append]
  simp only [readColonDigits, takeWhile_run h.2 hcolon, dropWhile_run h.2 hcolon, h.1,
    if_false]

theorem readColonDigits_line {line : List Char} (h : IsRun isDigit line) (column rest : List Char) :
    readColonDigits (seam line column ++ rest) =
      some (line, ':' :: (column ++ (": warning: ".toList ++ rest))) := by
  rw [seam_append]
  exact readColonDigits_run h _

theorem readColonDigits_column {column : List Char} (h : IsRun isDigit column)
    (rest : List Char) : readColonDigits (':' :: (column ++ (": warning: ".toList ++ rest))) =
      some (column, ": warning: ".toList ++ rest) :=
  readColonDigits_run h (" warning: ".toList ++ rest)

theorem readColonDigits_some {digits rest cs : List Char}
    (h : readColonDigits cs = some (digits, rest)) :
    IsRun isDigit digits ∧ cs = ':' :: digits ++ rest := by
  unfold readColonDigits at h
  split at h
  · rename_i cs
    split at h
    · simp at h
    · rename_i hne
      simp only [Option.some.injEq, Prod.mk.injEq] at h
      obtain ⟨rfl, rfl⟩ := h
      refine ⟨isRun_takeWhile hne, ?_⟩
      rw [List.cons_append, List.takeWhile_append_dropWhile]
  · simp at h

theorem readTail_eq_some {line message check cs : List Char} :
    readTail cs = some (line, message, check) ↔ Trails line message check cs := by
  constructor
  · intro h
    unfold readTail at h
    split at h
    · simp at h
    rename_i first rest hfirst
    split at h
    · simp at h
    rename_i column rest' hsecond
    split at h
    · simp at h
    rename_i rest'' hstart
    split at h
    · simp at h
    rename_i m k hcheck
    simp only [Option.some.injEq, Prod.mk.injEq] at h
    obtain ⟨rfl, rfl, rfl⟩ := h
    obtain ⟨hline, rfl⟩ := readColonDigits_some hfirst
    obtain ⟨hcolumn, rfl⟩ := readColonDigits_some hsecond
    obtain rfl := eq_append_of_dropStart? hstart
    refine ⟨hline, column, rest'', hcolumn, readCheck_eq_some.1 hcheck, ?_⟩
    rw [seam_append, List.cons_append, List.cons_append]
  · rintro ⟨hline, column, rest, hcolumn, hcloses, rfl⟩
    simp only [readTail, readColonDigits_line hline, readColonDigits_column hcolumn,
      dropStart?_append, readCheck_eq_some.2 hcloses]

theorem Trails.ne_nil {line message check cs : List Char} (h : Trails line message check cs) :
    cs ≠ [] := by
  obtain ⟨_, _, _, _, _, rfl⟩ := h
  simp [seam]

/-- The search goes on from `before`, and stops where a tail begins for the first time. -/
theorem readWarningFrom_eq_some {before cs : List Char} {w : Warning} :
    readWarningFrom before cs = some w ↔ ∃ more rest, cs = more ++ rest ∧
      w.path = before.reverse ++ more ∧ Trails w.line w.message w.check rest ∧
      ∀ more' rest' line message check, cs = more' ++ rest' →
        Trails line message check rest' → more.length ≤ more'.length := by
  induction cs generalizing before with
  | nil =>
    refine iff_of_false (by simp [readWarningFrom]) ?_
    rintro ⟨more, rest, hcs, _, htrails, _⟩
    exact htrails.ne_nil (List.append_eq_nil_iff.1 hcs.symm).2
  | cons c cs ih =>
    unfold readWarningFrom
    cases hread : readTail (c :: cs) with
    | some tail =>
      obtain ⟨line, message, check⟩ := tail
      have htrails := readTail_eq_some.1 hread
      constructor
      · intro h
        obtain rfl := Option.some.inj h
        exact ⟨[], c :: cs, rfl, by simp, htrails, by simp⟩
      · rintro ⟨more, rest, hcs, hpath, hw, hshort⟩
        obtain rfl := List.eq_nil_of_length_eq_zero
          (Nat.le_zero.1 (hshort [] _ _ _ _ rfl htrails))
        obtain rfl := hcs
        have hsame := hread.symm.trans (readTail_eq_some.2 hw)
        simp only [Option.some.injEq, Prod.mk.injEq] at hsame
        obtain ⟨rfl, rfl, rfl⟩ := hsame
        rw [List.append_nil] at hpath
        rw [← hpath]
    | none =>
      have hnot : ∀ line message check, ¬ Trails line message check (c :: cs) := by
        intro line message check h
        rw [readTail_eq_some.2 h] at hread
        simp at hread
      rw [ih]
      constructor
      · rintro ⟨more, rest, rfl, hpath, hw, hshort⟩
        refine ⟨c :: more, rest, rfl, by simpa using hpath, hw, ?_⟩
        intro more' rest' line message check hcs h
        cases more' with
        | nil => exact absurd (hcs ▸ h) (hnot line message check)
        | cons d more' =>
          exact Nat.succ_le_succ (hshort more' rest' _ _ _ (List.cons.inj hcs).2 h)
      · rintro ⟨more, rest, hcs, hpath, hw, hshort⟩
        cases more with
        | nil =>
          obtain rfl := hcs
          exact absurd hw (hnot _ _ _)
        | cons d more =>
          obtain ⟨rfl, rfl⟩ := List.cons.inj hcs
          refine ⟨more, rest, rfl, by simpa using hpath, hw, ?_⟩
          intro more' rest' line message check hcs' h
          exact Nat.le_of_succ_le_succ (hshort (c :: more') rest' _ _ _ (hcs' ▸ rfl) h)

theorem readWarning_eq_some {cs : List Char} {w : Warning} :
    readWarning cs = some w ↔ Shortest w cs := by
  cases cs with
  | nil =>
    refine iff_of_false (by simp [readWarning]) ?_
    rintro ⟨⟨hne, rest, _, hcs⟩, _⟩
    exact hne (List.append_eq_nil_iff.1 hcs.symm).1
  | cons c cs =>
    change readWarningFrom [c] cs = some w ↔ _
    rw [readWarningFrom_eq_some]
    constructor
    · rintro ⟨more, rest, rfl, hpath, hw, hshort⟩
      change w.path = c :: more at hpath
      refine ⟨⟨by simp [hpath], rest, hw, by rw [hpath]; rfl⟩, ?_⟩
      rintro w' ⟨hne, rest', hw', hcs⟩
      obtain ⟨d, more', hpath'⟩ := List.exists_cons_of_ne_nil hne
      rw [hpath'] at hcs
      rw [hpath, hpath']
      exact Nat.succ_le_succ (hshort more' rest' _ _ _ (List.cons.inj hcs).2 hw')
    · rintro ⟨⟨hne, rest, hw, hcs⟩, hshort⟩
      obtain ⟨d, more, hpath⟩ := List.exists_cons_of_ne_nil hne
      rw [hpath] at hcs
      obtain ⟨rfl, rfl⟩ := List.cons.inj hcs
      refine ⟨more, rest, rfl, hpath, hw, ?_⟩
      intro more' rest' line message check hcs' h
      have hle := hshort ⟨c :: more', line, message, check⟩ ⟨by simp, rest', h, by rw [hcs']; rfl⟩
      rw [hpath] at hle
      exact Nat.le_of_succ_le_succ hle

theorem isUnusedMessage_iff {message : List Char} : isUnusedMessage message = true ↔
    ∃ header, message = unusedStart ++ header ++ unusedEnd := by
  unfold isUnusedMessage
  constructor
  · intro h
    split at h
    · simp at h
    · rename_i rest hrest
      obtain ⟨header, rfl⟩ := List.isSuffixOf_iff_suffix.1 h
      exact ⟨header, by rw [eq_append_of_dropStart? hrest, List.append_assoc]⟩
  · rintro ⟨header, rfl⟩
    rw [List.append_assoc, dropStart?_append]
    exact List.isSuffixOf_iff_suffix.2 (List.suffix_append _ _)

theorem isDuplicateMessage_iff {message : List Char} : isDuplicateMessage message = true ↔
    ∃ more, message = "duplicate include".toList ++ more := by
  unfold isDuplicateMessage
  rw [List.isPrefixOf_iff_prefix]
  exact exists_congr fun more => eq_comm

theorem kind?_eq_some {w : Warning} {kind : DiagnosticKind} : w.kind? = some kind ↔ Means w kind := by
  unfold Warning.kind?
  constructor
  · intro h
    split at h
    · rename_i hcheck
      split at h
      · rename_i hmessage
        obtain rfl := Option.some.inj h
        obtain ⟨header, hheader⟩ := isUnusedMessage_iff.1 hmessage
        exact .unused hcheck header hheader
      · simp at h
    · split at h
      · rename_i hcheck
        split at h
        · rename_i hmessage
          obtain rfl := Option.some.inj h
          obtain ⟨more, hmore⟩ := isDuplicateMessage_iff.1 hmessage
          exact .duplicate hcheck more hmore
        · simp at h
      · simp at h
  · rintro (⟨hcheck, header, hmessage⟩ | ⟨hcheck, more, hmessage⟩)
    · change w.check = unusedCheck at hcheck
      rw [if_pos hcheck, if_pos (isUnusedMessage_iff.2 ⟨header, hmessage⟩)]
    · change w.check = duplicateCheck at hcheck
      have hne : duplicateCheck ≠ unusedCheck := by decide
      rw [if_neg (hcheck ▸ hne), if_pos hcheck, if_pos (isDuplicateMessage_iff.2 ⟨more, hmessage⟩)]

theorem ofLine_eq_some {cs : List Char} {d : Diagnostic} :
    ofLine (String.ofList cs) = some d ↔ Denotes cs d := by
  unfold ofLine
  rw [String.toList_ofList]
  constructor
  · intro h
    split at h
    · simp at h
    · rename_i w hw
      split at h
      · rename_i n kind hn hkind
        obtain rfl := Option.some.inj h
        exact ⟨w, readWarning_eq_some.1 hw, rfl, readDigits_eq_some.1 hn, kind?_eq_some.1 hkind⟩
      · simp at h
  · rintro ⟨w, hw, hpath, hline, hkind⟩
    simp only [readWarning_eq_some.2 hw, readDigits_eq_some.2 hline, kind?_eq_some.2 hkind, ← hpath]

theorem ofLine_eq_none {cs : List Char} :
    ofLine (String.ofList cs) = none ↔ ∀ d, ¬ Denotes cs d := by
  simp only [Option.eq_none_iff_forall_ne_some, Ne, ofLine_eq_some]

theorem parse_eq (output : String) : parse output =
    ((splitAfterNewline output.toList).map dropTerminator).filterMap
      fun cs => ofLine (String.ofList cs) := by
  have hstrip : stripTerminator ∘ String.ofList = String.ofList ∘ dropTerminator := by
    funext cs
    simp only [Function.comp_apply, stripTerminator, String.toList_ofList]
  unfold parse lines rawLines
  rw [List.map_map, hstrip, List.filterMap_map, List.filterMap_map]
  rfl

theorem reports_iff {lines : List (List Char)} {ds : List Diagnostic} :
    Reports lines ds ↔ lines.filterMap (fun cs => ofLine (String.ofList cs)) = ds := by
  constructor
  · intro h
    induction h with
    | nil => rfl
    | found h _ ih => rw [List.filterMap_cons, ofLine_eq_some.2 h, ih]
    | passed h _ ih => rw [List.filterMap_cons, ofLine_eq_none.2 h, ih]
  · rintro rfl
    induction lines with
    | nil => exact .nil
    | cons cs lines ih =>
      rw [List.filterMap_cons]
      cases hline : ofLine (String.ofList cs) with
      | some d => exact .found (ofLine_eq_some.1 hline) ih
      | none => exact .passed (ofLine_eq_none.1 hline) ih

theorem parse_eq_iff {output : String} {ds : List Diagnostic} :
    parse output = ds ↔ ∃ lines, SplitsInto output.toList lines ∧ Reports lines ds := by
  rw [parse_eq]
  constructor
  · intro h
    exact ⟨_, splitsInto_lines output.toList, reports_iff.2 h⟩
  · rintro ⟨lines, hsplits, hreports⟩
    rw [hsplits.eq]
    exact reports_iff.1 hreports

theorem parse_append (front back : String) :
    parse (front ++ "\n" ++ back) = parse (front ++ "\n") ++ parse back := by
  have hsplit := splitAfterNewline_append front.toList back.toList
  rw [parse_eq, parse_eq, parse_eq, ← List.filterMap_append, ← List.map_append]
  simp only [String.toList_append]
  rw [List.append_assoc]
  exact congrArg (fun ls => (List.map dropTerminator ls).filterMap _) hsplit

end Diagnostic

/-- Reading an output gives the diagnostics of its lines and nothing else, and what stands before a
newline and what stands behind it can be read apart. -/
theorem parse_reads_exactly_the_grammar :
    (∀ (output : String) (ds : List Diagnostic), Diagnostic.parse output = ds ↔
      ∃ lines, Text.SplitsInto output.toList lines ∧ Diagnostic.Reports lines ds) ∧
    ∀ front back : String, Diagnostic.parse (front ++ "\n" ++ back) =
      Diagnostic.parse (front ++ "\n") ++ Diagnostic.parse back :=
  ⟨fun _ _ => Diagnostic.parse_eq_iff, Diagnostic.parse_append⟩

example : Diagnostic.parse
    "a:1: 2:3:4: warning: duplicate include [x] [readability-duplicate-include] \t" =
      [⟨⟨"a:1: 2"⟩, 3, .duplicateInclude⟩] := by
  decide +kernel

end IncludeSweep
