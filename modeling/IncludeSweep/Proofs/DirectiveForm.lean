import IncludeSweep.Candidate
import IncludeSweep.Proofs.WarningLines

set_option autoImplicit false

/-! # The form of directives

Which lines hold an include directive and which start with a comment, said by how such a line is put
together. Both forms end in a character that is not white space, so the white space at the end of a
line, and with it the terminator, is never part of them. -/

namespace IncludeSweep

namespace Text

theorem endsWord_iff {cs : List Char} :
    endsWord cs = true ↔ ∀ c, cs.head? = some c → isWord c = false := by
  cases cs <;> simp [endsWord]

theorem endsWord_append {cs more : List Char} (h : endsWord more = true) :
    endsWord (cs ++ more) = endsWord cs := by
  cases cs with
  | nil => exact h
  | cons c cs => rfl

theorem dropStart?_eq_some {start cs rest : List Char} :
    dropStart? start cs = some rest ↔ cs = start ++ rest :=
  ⟨eq_append_of_dropStart?, fun h => h ▸ dropStart?_append start rest⟩

theorem trimStartChars_eq_append {start rest cs : List Char} {c : Char}
    (hstart : start.head? = some c) (hc : isWhite c = false) :
    trimStartChars cs = start ++ rest ↔
      ∃ blanks, (∀ d ∈ blanks, isWhite d = true) ∧ cs = blanks ++ (start ++ rest) := by
  have hhead : ∀ d, (start ++ rest).head? = some d → isWhite d = false := by
    intro d hd
    rw [List.head?_append, hstart] at hd
    exact Option.some.inj hd ▸ hc
  unfold trimStartChars
  rw [dropWhile_eq_iff]
  exact exists_congr fun _ => and_congr_right fun _ => and_iff_left hhead

/-- What ends in a visible character does not reach into the white space at the end. -/
theorem visible_before_white {front rest cs ending : List Char} {c : Char}
    (hc : isWhite c = false) (hending : ∀ d ∈ ending, isWhite d = true)
    (h : cs ++ ending = front ++ c :: rest) :
    ∃ more, cs = front ++ c :: more ∧ rest = more ++ ending := by
  have hout : c ∉ ending := by
    intro hmem
    rw [hending c hmem] at hc
    simp at hc
  rcases List.append_eq_append_iff.1 h with ⟨more, _, hmore⟩ | ⟨more, hcs, hmore⟩
  · exact absurd (hmore ▸ by simp) hout
  · cases more with
    | nil =>
      rw [List.nil_append] at hmore
      exact absurd (hmore ▸ List.mem_cons_self) hout
    | cons d more =>
      obtain ⟨rfl, hrest⟩ := List.cons.inj hmore
      exact ⟨more, hcs, hrest⟩

theorem terminator_white {ending : List Char}
    (h : ending = [] ∨ ending = ['\n'] ∨ ending = ['\r', '\n']) :
    (∀ c ∈ ending, isWhite c = true) ∧ endsWord ending = true := by
  have hnewline : isWhite '\n' = true ∧ isWord '\n' = false := by decide +kernel
  have hreturn : isWhite '\r' = true ∧ isWord '\r' = false := by decide +kernel
  rcases h with rfl | rfl | rfl
  · simp [endsWord]
  · simp [endsWord, hnewline]
  · simp [endsWord, hnewline, hreturn]

end Text

namespace Directive

open Text

/-- White space or none, then a keyword that no word character continues. -/
def Keyed (cs : List Char) : Prop :=
  ∃ blanks keyword after, (∀ c ∈ blanks, isWhite c = true) ∧ cs = blanks ++ (keyword ++ after) ∧
    (keyword = "include".toList ∨ keyword = "include_next".toList) ∧
    ∀ c, after.head? = some c → isWord c = false

def Mentions (cs : List Char) : Prop :=
  ∃ before after, cs = before ++ '#' :: after ∧ Keyed after

def OpensComment (cs : List Char) : Prop :=
  ∃ blanks mark after, (∀ c ∈ blanks, isWhite c = true) ∧ cs = blanks ++ (mark ++ after) ∧
    (mark = "//".toList ∨ mark = "/*".toList)

theorem include_next_eq : "include_next".toList = "include".toList ++ "_next".toList := by
  simp

/-- The shorter keyword does not end where the longer one goes on. -/
theorem not_endsWord_next (rest : List Char) : endsWord ("_next".toList ++ rest) = false := by
  have hword : isWord '_' = true := by decide +kernel
  simp [endsWord, hword]

theorem trimStartChars_include {cs rest : List Char} :
    trimStartChars cs = "include".toList ++ rest ↔
      ∃ blanks, (∀ c ∈ blanks, isWhite c = true) ∧ cs = blanks ++ ("include".toList ++ rest) :=
  trimStartChars_eq_append (c := 'i') (by simp) (by decide)

theorem isKeyword_iff {cs : List Char} : isKeyword cs = true ↔ Keyed cs := by
  unfold isKeyword
  constructor
  · intro h
    split at h
    · simp at h
    · rename_i rest hinclude
      obtain ⟨blanks, hblanks, rfl⟩ := trimStartChars_include.1 (dropStart?_eq_some.1 hinclude)
      rcases Bool.or_eq_true_iff.1 h with hends | hnext
      · exact ⟨blanks, _, rest, hblanks, rfl, .inl rfl, endsWord_iff.1 hends⟩
      · split at hnext
        · simp at hnext
        · rename_i after hafter
          refine ⟨blanks, _, after, hblanks, ?_, .inr rfl, endsWord_iff.1 hnext⟩
          rw [dropStart?_eq_some.1 hafter, include_next_eq, List.append_assoc "include".toList]
  · rintro ⟨blanks, keyword, after, hblanks, rfl, rfl | rfl, hends⟩
    · rw [trimStartChars_include.2 ⟨blanks, hblanks, rfl⟩, dropStart?_append]
      simp only [endsWord_iff.2 hends, Bool.true_or]
    · rw [include_next_eq, List.append_assoc "include".toList,
        trimStartChars_include.2 ⟨blanks, hblanks, rfl⟩, dropStart?_append]
      simp only [not_endsWord_next, dropStart?_append, endsWord_iff.2 hends, Bool.false_or]

theorem mentions_cons {c : Char} {cs : List Char} :
    Mentions (c :: cs) ↔ (c = '#' ∧ Keyed cs) ∨ Mentions cs := by
  constructor
  · rintro ⟨before, after, h, hkeyed⟩
    cases before with
    | nil =>
      obtain ⟨rfl, rfl⟩ := List.cons.inj h
      exact .inl ⟨rfl, hkeyed⟩
    | cons d before =>
      obtain ⟨rfl, rfl⟩ := List.cons.inj h
      exact .inr ⟨before, after, rfl, hkeyed⟩
  · rintro (⟨rfl, hkeyed⟩ | ⟨before, after, rfl, hkeyed⟩)
    · exact ⟨[], cs, rfl, hkeyed⟩
    · exact ⟨c :: before, after, rfl, hkeyed⟩

theorem mentionedIn_iff {cs : List Char} : mentionedIn cs = true ↔ Mentions cs := by
  induction cs with
  | nil => simp [mentionedIn, Mentions]
  | cons c cs ih =>
    rw [mentions_cons, ← ih, ← isKeyword_iff]
    simp [mentionedIn]

theorem commented_iff {line : String} : commented line = true ↔ OpensComment line.toList := by
  have hslash : isWhite '/' = false := by decide
  have hstart : ∀ {mark : List Char}, mark.head? = some '/' →
      (mark.isPrefixOf (trimStartChars line.toList) = true ↔ ∃ after blanks,
        (∀ c ∈ blanks, isWhite c = true) ∧ line.toList = blanks ++ (mark ++ after)) := by
    intro mark hmark
    simp only [List.isPrefixOf_iff_prefix, ← trimStartChars_eq_append hmark hslash]
    exact exists_congr fun _ => eq_comm
  unfold commented
  rw [Bool.or_eq_true_iff, hstart (by simp), hstart (by simp)]
  constructor
  · rintro (⟨after, blanks, hblanks, hline⟩ | ⟨after, blanks, hblanks, hline⟩)
    · exact ⟨blanks, _, after, hblanks, hline, .inl rfl⟩
    · exact ⟨blanks, _, after, hblanks, hline, .inr rfl⟩
  · rintro ⟨blanks, mark, after, hblanks, hline, rfl | rfl⟩
    · exact .inl ⟨after, blanks, hblanks, hline⟩
    · exact .inr ⟨after, blanks, hblanks, hline⟩

section
variable (cs : List Char) {ending : List Char}

theorem mentions_append (hwhite : ∀ c ∈ ending, isWhite c = true) (hends : endsWord ending = true) :
    Mentions (cs ++ ending) ↔ Mentions cs := by
  constructor
  · rintro ⟨before, _, h, blanks, keyword, after, hblanks, rfl, hkeyword, hafter⟩
    obtain ⟨stem, c, rfl, hc⟩ : ∃ stem c, keyword = stem ++ [c] ∧ isWhite c = false := by
      rcases hkeyword with rfl | rfl
      · exact ⟨"includ".toList, 'e', by simp, by decide⟩
      · exact ⟨"include_nex".toList, 't', by simp, by decide⟩
    have hlast : cs ++ ending = (before ++ '#' :: (blanks ++ stem)) ++ c :: after := by
      simpa using h
    obtain ⟨more, rfl, rfl⟩ := visible_before_white hc hwhite hlast
    refine ⟨before, blanks ++ (stem ++ [c] ++ more), by simp, blanks, _, more, hblanks, rfl,
      hkeyword, ?_⟩
    rwa [← endsWord_iff, endsWord_append hends, endsWord_iff] at hafter
  · rintro ⟨before, _, rfl, blanks, keyword, after, hblanks, rfl, hkeyword, hafter⟩
    refine ⟨before, blanks ++ (keyword ++ (after ++ ending)), by simp, blanks, keyword, _, hblanks,
      rfl, hkeyword, ?_⟩
    rwa [← endsWord_iff, endsWord_append hends, endsWord_iff]

theorem opensComment_append (hwhite : ∀ c ∈ ending, isWhite c = true) :
    OpensComment (cs ++ ending) ↔ OpensComment cs := by
  constructor
  · rintro ⟨blanks, mark, after, hblanks, h, hmark⟩
    obtain ⟨c, rfl, hc⟩ : ∃ c, mark = ['/', c] ∧ isWhite c = false := by
      rcases hmark with rfl | rfl
      · exact ⟨'/', by simp, by decide⟩
      · exact ⟨'*', by simp, by decide⟩
    have hlast : cs ++ ending = (blanks ++ ['/']) ++ c :: after := by simpa using h
    obtain ⟨more, rfl, rfl⟩ := visible_before_white hc hwhite hlast
    exact ⟨blanks, _, more, hblanks, by simp, hmark⟩
  · rintro ⟨blanks, mark, after, hblanks, rfl, hmark⟩
    exact ⟨blanks, mark, after ++ ending, hblanks, by simp, hmark⟩

end

theorem mentioned_iff {line : String} : mentioned line = true ↔ Mentions line.toList :=
  mentionedIn_iff

theorem live_iff {line : String} :
    live line = true ↔ Mentions line.toList ∧ ¬ OpensComment line.toList := by
  rw [← mentioned_iff, ← commented_iff]
  simp [live]

theorem forms_stripTerminator (line : String) :
    (Mentions (stripTerminator line).toList ↔ Mentions line.toList) ∧
      (OpensComment (stripTerminator line).toList ↔ OpensComment line.toList) := by
  obtain ⟨ending, hline, hending⟩ := exists_terminator line.toList
  obtain ⟨hwhite, hends⟩ := terminator_white hending
  have hstrip : (stripTerminator line).toList = dropTerminator line.toList := by
    simp [stripTerminator]
  have hmentions := mentions_append (dropTerminator line.toList) hwhite hends
  have hopens := opensComment_append (dropTerminator line.toList) hwhite
  rw [← hline, ← hstrip] at hmentions hopens
  exact ⟨hmentions.symm, hopens.symm⟩

end Directive

/-- A directive is recognised exactly where its form stands, and is live unless the line opens with
a comment. So no line is live behind the mark of a comment, and the terminator of a line never
matters. -/
theorem directives_recognised_by_form (line : String) :
    (Directive.mentioned line = true ↔ Directive.Mentions line.toList) ∧
    (Directive.live line = true ↔
      Directive.Mentions line.toList ∧ ¬ Directive.OpensComment line.toList) ∧
    Directive.live ("// " ++ line) = false ∧
    Directive.mentioned (Text.stripTerminator line) = Directive.mentioned line ∧
    Directive.live (Text.stripTerminator line) = Directive.live line := by
  obtain ⟨hmentions, hcomment⟩ := Directive.forms_stripTerminator line
  refine ⟨Directive.mentioned_iff, Directive.live_iff, ?_, ?_, ?_⟩
  · rw [Bool.eq_false_iff, Ne, Directive.live_iff]
    rintro ⟨_, hopens⟩
    exact hopens ⟨[], "//".toList, ' ' :: line.toList, by simp, by simp, .inl rfl⟩
  · rw [Bool.eq_iff_iff, Directive.mentioned_iff, Directive.mentioned_iff, hmentions]
  · rw [Bool.eq_iff_iff, Directive.live_iff, Directive.live_iff, hmentions, hcomment]

example : Directive.live "#include_nex # \t include_next<a>\r\n" = true := by
  decide +kernel

example : Directive.mentioned "#include_nex #include_next2 #in clude #included" = false := by
  decide +kernel

end IncludeSweep
