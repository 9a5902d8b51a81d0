import Mathlib.Data.List.Forall2
import IncludeSweep.Proofs.LetterCase
import IncludeSweep.Proofs.WarningLines
import IncludeSweep.Settings

set_option autoImplicit false

/-! # Configured extensions

Extensions are configured as a list with commas, and put into lower case when the list is read. When
a name is held against them, only ASCII letters are taken in either case. So an extension with a
capital letter outside ASCII is configured, but matches no name that is written like it. -/

namespace IncludeSweep

namespace Text

theorem trimEndChars_eq_iff {cs u : List Char} : trimEndChars cs = u ↔
    ∃ back, (∀ c ∈ back, isWhite c = true) ∧ cs = u ++ back ∧
      ∀ c, u.getLast? = some c → isWhite c = false := by
  unfold trimEndChars
  rw [List.reverse_eq_iff, dropWhile_eq_iff]
  constructor
  · rintro ⟨front, hfront, hcs, hlast⟩
    refine ⟨front.reverse, fun c hc => hfront c (List.mem_reverse.1 hc), ?_, by simpa using hlast⟩
    simpa using congrArg List.reverse hcs
  · rintro ⟨back, hback, rfl, hlast⟩
    exact ⟨back.reverse, fun c hc => hback c (List.mem_reverse.1 hc), by simp, by simpa using hlast⟩

theorem trimChars_eq_iff {cs u : List Char} : trimChars cs = u ↔
    ∃ front back, (∀ c ∈ front, isWhite c = true) ∧ (∀ c ∈ back, isWhite c = true) ∧
      cs = front ++ u ++ back ∧ (∀ c, u.head? = some c → isWhite c = false) ∧
      ∀ c, u.getLast? = some c → isWhite c = false := by
  unfold trimChars trimStartChars
  constructor
  · intro h
    obtain ⟨front, hfront, hcs, hhead⟩ := dropWhile_eq_iff.1 (rfl : cs.dropWhile isWhite = _)
    obtain ⟨back, hback, hrest, hlast⟩ := trimEndChars_eq_iff.1 h
    refine ⟨front, back, hfront, hback, ?_, fun c hc => hhead c ?_, hlast⟩
    · rw [List.append_assoc, ← hrest, ← hcs]
    · rw [hrest, List.head?_append, hc]
      rfl
  · rintro ⟨front, back, hfront, hback, rfl, hhead, hlast⟩
    cases u with
    | nil =>
      have hall : (front ++ [] ++ back).dropWhile isWhite = [] := by
        rw [List.dropWhile_eq_nil_iff]
        intro c hc
        rcases List.mem_append.1 hc with hc | hc
        · exact hfront c (by simpa using hc)
        · exact hback c hc
      rw [hall]
      rfl
    | cons d u =>
      have hdrop : (front ++ d :: u ++ back).dropWhile isWhite = d :: u ++ back := by
        rw [List.append_assoc]
        exact dropWhile_run hfront (hhead d rfl)
      rw [hdrop]
      exact trimEndChars_eq_iff.2 ⟨back, hback, rfl, hlast⟩

end Text

namespace Settings

open Text

/-- A piece of a list and its extension: the white space at both ends, and then the dots in front,
are no part of it. -/
def Shows (piece extension : List Char) : Prop :=
  ∃ front dots back, piece = front ++ (dots ++ extension) ++ back ∧
    (∀ c ∈ front, isWhite c = true) ∧ (∀ c ∈ back, isWhite c = true) ∧ (∀ c ∈ dots, c = '.') ∧
    (∀ c, (dots ++ extension).head? = some c → isWhite c = false) ∧
    (∀ c, (dots ++ extension).getLast? = some c → isWhite c = false) ∧
    ∀ c, extension.head? = some c → c ≠ '.'

def Listed (raw extension : String) : Prop :=
  extension ≠ "" ∧ ∃ pieces : List (List Char), raw.toList = [','].intercalate pieces ∧
    (∀ piece ∈ pieces, ',' ∉ piece) ∧ ∃ piece ∈ pieces, Shows piece extension.toList

theorem shows_iff {piece extension : List Char} :
    (trimChars piece).dropWhile (· == '.') = extension ↔ Shows piece extension := by
  rw [dropWhile_eq_iff]
  constructor
  · rintro ⟨dots, hdots, htrim, hextension⟩
    obtain ⟨front, back, hfront, hback, hpiece, hhead, hlast⟩ := trimChars_eq_iff.1 htrim
    exact ⟨front, dots, back, hpiece, hfront, hback, by simpa using hdots, hhead, hlast,
      by simpa using hextension⟩
  · rintro ⟨front, dots, back, hpiece, hfront, hback, hdots, hhead, hlast, hextension⟩
    have htrim := trimChars_eq_iff.2 ⟨front, back, hfront, hback, hpiece, hhead, hlast⟩
    exact ⟨dots, by simpa using hdots, htrim, by simpa using hextension⟩

theorem not_mem_of_mem_splitOn {c : Char} {cs piece : List Char} (h : piece ∈ cs.splitOn c) :
    c ∉ piece := by
  induction cs generalizing piece with
  | nil =>
    obtain rfl : piece = [] := by simpa using h
    simp
  | cons d cs ih =>
    have hcons : (d :: cs).splitOn c = if (d == c) = true then [] :: cs.splitOn c
        else (cs.splitOn c).modifyHead (List.cons d) := List.splitOnP_cons_eq_if_modifyHead d cs
    rw [hcons] at h
    split at h
    · rcases List.mem_cons.1 h with rfl | h
      · simp
      · exact ih h
    · rename_i hd
      cases hsplit : cs.splitOn c with
      | nil => simp [hsplit] at h
      | cons first rest =>
        have hne : c ≠ d := by
          rintro rfl
          simp at hd
        rw [hsplit] at h ih
        rcases List.mem_cons.1 h with rfl | h
        · exact List.not_mem_cons_of_ne_of_not_mem hne (ih List.mem_cons_self)
        · exact ih (List.mem_cons_of_mem _ h)

theorem listed_iff {raw extension : String} :
    (extension ≠ "" ∧ ∃ piece ∈ raw.toList.splitOn ',', Shows piece extension.toList) ↔
      Listed raw extension := by
  refine and_congr_right fun _ => ?_
  constructor
  · rintro ⟨piece, hpiece, hshows⟩
    exact ⟨_, (List.intercalate_splitOn ',').symm, fun _ => not_mem_of_mem_splitOn, piece, hpiece,
      hshows⟩
  · rintro ⟨pieces, hraw, hcommas, piece, hpiece, hshows⟩
    have hsplit : raw.toList.splitOn ',' = pieces := by
      rw [hraw]
      exact List.splitOn_intercalate ',' hcommas (List.ne_nil_of_mem hpiece)
    exact ⟨piece, hsplit ▸ hpiece, hshows⟩

instance (piece extension : List Char) : Decidable (Shows piece extension) :=
  decidable_of_iff _ shows_iff

instance (raw extension : String) : Decidable (Listed raw extension) :=
  decidable_of_iff _ listed_iff

theorem normalExtension_eq {piece extension : List Char} (h : Shows piece extension) :
    normalExtension (String.ofList piece) = lowercase (String.ofList extension) := by
  rw [← shows_iff.2 h]
  simp [normalExtension, trim]

theorem mem_readExtensions {raw e : String} :
    e ∈ readExtensions raw ↔ ∃ extension, Listed raw extension ∧ e = lowercase extension := by
  have hempty : ∀ t : String, lowercase t ≠ "" ↔ t ≠ "" := by
    intro t
    rw [Ne, Ne, ← String.toList_inj, ← String.toList_inj]
    simp [lowercase, lowercaseFrom_eq_nil]
  simp only [readExtensions, List.mem_filter, List.mem_map, bne_iff_ne, ← listed_iff]
  constructor
  · rintro ⟨⟨_, ⟨piece, hpiece, rfl⟩, rfl⟩, hne⟩
    have hshows : Shows piece ((trimChars piece).dropWhile (· == '.')) := shows_iff.1 rfl
    rw [normalExtension_eq hshows] at hne ⊢
    exact ⟨_, ⟨(hempty _).1 hne, piece, hpiece, by simpa using hshows⟩, rfl⟩
  · rintro ⟨extension, ⟨hne, piece, hpiece, hshows⟩, rfl⟩
    refine ⟨⟨_, ⟨piece, hpiece, rfl⟩, ?_⟩, (hempty extension).2 hne⟩
    rw [normalExtension_eq hshows, String.ofList_toList]

theorem accepts_iff {s : Settings} {raw : String} (h : s.extensions = readExtensions raw)
    (x : String) : s.accepts x = true ↔ (∀ c ∈ x.toList, ¬ ForeignCapital c) ∧
      ∃ extension, Listed raw extension ∧ lowercase x = lowercase extension := by
  unfold accepts
  rw [List.any_eq_true, h]
  constructor
  · rintro ⟨_, he, hmatch⟩
    obtain ⟨extension, hlisted, rfl⟩ := mem_readExtensions.1 he
    obtain ⟨hplain, hsame⟩ := matches_lowercase_iff.1 hmatch
    exact ⟨hplain, extension, hlisted, hsame⟩
  · rintro ⟨hplain, extension, hlisted, hsame⟩
    exact ⟨_, mem_readExtensions.2 ⟨extension, hlisted, rfl⟩,
      matches_lowercase_iff.2 ⟨hplain, hsame⟩⟩

def SameLetter (c d : Char) : Prop :=
  c = d ∨ c.isAlpha = true ∧ d.isAlpha = true ∧ c.toLower = d.toLower

theorem not_foreignCapital_of_isAlpha {c : Char} (h : c.isAlpha = true) : ¬ ForeignCapital c := by
  rintro ⟨hlarge, _⟩
  rcases Bool.or_eq_true_iff.1 h with hupper | hlower
  · have hlast : c.toNat ≤ 0x5A := UInt32.le_iff_toNat_le.1 (of_decide_eq_true hupper).2
    omega
  · have hlast : c.toNat ≤ 0x7A :=
      UInt32.le_iff_toNat_le.1 (of_decide_eq_true (Bool.and_eq_true_iff.1 hlower).2)
    omega

section
variable {t x : List Char}

theorem plain_iff_of_sameLetters (h : List.Forall₂ SameLetter t x) :
    (∀ c ∈ x, ¬ ForeignCapital c) ↔ ∀ c ∈ t, ¬ ForeignCapital c := by
  induction h with
  | nil => simp
  | cons hletter _ ih =>
    rw [List.forall_mem_cons, List.forall_mem_cons, ih]
    rcases hletter with rfl | ⟨hc, hd, _⟩
    · rfl
    · simp [not_foreignCapital_of_isAlpha hc, not_foreignCapital_of_isAlpha hd]

theorem toLower_of_sameLetters (h : List.Forall₂ SameLetter t x) :
    x.map Char.toLower = t.map Char.toLower := by
  induction h with
  | nil => rfl
  | cons hletter _ ih =>
    rw [List.map_cons, List.map_cons, ih]
    rcases hletter with rfl | ⟨_, _, hlower⟩
    · rfl
    · rw [hlower]

end

end Settings

open Settings in
/-- A configured extension is accepted, in every case of its ASCII letters, unless it has a capital
outside ASCII; in its stead the lower case is accepted. What is accepted is, up to case, one of the
configured extensions. -/
theorem listed_extensions_accepted (s : Settings) (raw : String)
    (h : s.extensions = Settings.readExtensions raw) :
    (∀ extension x : String, Listed raw extension →
      List.Forall₂ SameLetter extension.toList x.toList →
      (s.accepts x = true ↔ ∀ c ∈ extension.toList, ¬ Text.ForeignCapital c)) ∧
    (∀ extension, Listed raw extension → s.accepts (Text.lowercase extension) = true) ∧
    (∀ x, s.accepts x = true ↔ (∀ c ∈ x.toList, ¬ Text.ForeignCapital c) ∧
      ∃ extension, Listed raw extension ∧ Text.lowercase x = Text.lowercase extension) := by
  refine ⟨fun extension x hlisted hletters => ?_, fun extension hlisted => ?_, accepts_iff h⟩
  · rw [accepts_iff h, plain_iff_of_sameLetters hletters]
    refine ⟨And.left, fun hplain => ⟨hplain, extension, hlisted, ?_⟩⟩
    have hplain' := (plain_iff_of_sameLetters hletters).2 hplain
    unfold Text.lowercase
    rw [Text.lowercaseFrom_eq_map hplain, Text.lowercaseFrom_eq_map hplain',
      toLower_of_sameLetters hletters]
  · have hread : Text.lowercase extension ∈ s.extensions := by
      rw [h]
      exact mem_readExtensions.2 ⟨extension, hlisted, rfl⟩
    exact List.any_eq_true.2 ⟨_, hread, by simp [Text.sameIgnoringCase]⟩

def mixedList : String := "\t..Cc ,,É"

def mixedSettings : Settings :=
  { Settings.initial 1 with extensions := Settings.readExtensions mixedList }

open Settings in
theorem listed_extensions_accepted_mixedList :
    Listed mixedList "Cc" ∧ mixedSettings.accepts "cC" = true ∧
    Listed mixedList "É" ∧ mixedSettings.accepts "É" = false ∧
    mixedSettings.accepts "é" = true := by
  obtain ⟨hsame, hlower, _⟩ := listed_extensions_accepted mixedSettings mixedList rfl
  have hplain : Listed mixedList "Cc" := by decide +kernel
  have hforeign : Listed mixedList "É" := by decide +kernel
  refine ⟨hplain, ?_, hforeign, ?_, ?_⟩
  · have hletters : List.Forall₂ SameLetter "Cc".toList "cC".toList := by
      have hc : SameLetter 'C' 'c' ∧ SameLetter 'c' 'C' :=
        ⟨.inr (by decide), .inr (by decide)⟩
      simpa using hc
    refine (hsame _ _ hplain hletters).2 fun c hc => ?_
    have hascii : c = 'C' ∨ c = 'c' := by simpa using hc
    rcases hascii with rfl | rfl
    · exact not_foreignCapital_of_isAlpha (by decide)
    · exact not_foreignCapital_of_isAlpha (by decide)
  · have hletters : List.Forall₂ SameLetter "É".toList "É".toList := by simp [SameLetter]
    rw [Bool.eq_false_iff, Ne, hsame _ _ hforeign hletters]
    intro hnone
    exact hnone 'É' (by simp) ⟨by decide, by decide +kernel⟩
  · have heq : Text.lowercase "É" = "é" := by decide +kernel
    rw [← heq]
    exact hlower _ hforeign

def capitalSettings : Settings :=
  Settings.ofEnvironment 1 fun name => if name = "INCPRUNE_EXTENSIONS" then some "É" else none

/-- An extension that is configured does not match itself. -/
theorem foreign_capital_not_accepted :
    capitalSettings.extensions = Settings.readExtensions "É" ∧ Settings.Listed "É" "É" ∧
      capitalSettings.accepts "É" = false := by
  decide +kernel

end IncludeSweep
