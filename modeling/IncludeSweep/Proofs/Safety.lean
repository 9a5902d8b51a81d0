import IncludeSweep.Proofs.UndisturbedRun

set_option autoImplicit false

/-! # What passing builds vouch for

A property of disks that every passing build vouches for, and that treats a directive commented out
as one that is gone, holds of the disk a run ends with. The disk at the end is in general not one
that any build has seen: lines were commented out when the builds passed and deleted later. -/

namespace IncludeSweep

open Text Draft

variable {σ : Type}

/-- The property does not tell a live directive that is commented out from a line that is gone. -/
def Indifferent (V : Disk → Prop) : Prop :=
  ∀ (disk : Disk) (loc : Location) (mode : Mode) (text line : String) (before after : List String),
    disk.get? loc = some (.file mode (encode text)) →
    rawLines text = before ++ (commentMark ++ line) :: after →
    Directive.live (stripTerminator line) = true →
    (V disk ↔ V (disk.put loc (.file mode (encode (String.join (before ++ after))))))

/-- A build that passes was started on a disk with the property. -/
def Vouches (build : Build σ) (V : Disk → Prop) : Prop :=
  ∀ w, (build w).1 = true → V w.disk

def OnlyLive (lines : List String) (states : List LineState) : Prop :=
  ∀ i : Nat, states[i]? = some .commentedOut →
    ∃ line, lines[i]? = some line ∧ Directive.live (stripTerminator line) = true

theorem onlyLive_mark {lines : List String} {ns : List Nat} {states : List LineState}
    (h : .commentedOut ∉ states) : OnlyLive lines (mark lines ns states).1 := by
  intro i hi
  have hn : i + 1 ∈ linesIn .commentedOut 1 (mark lines ns states).1 :=
    mem_linesIn_one.2 (nth?_eq_some.2 ⟨i, rfl, hi⟩)
  rw [mem_linesIn_mark h] at hn
  obtain ⟨line, hl, hlive⟩ := (removable_iff.1 (mem_mark.1 hn).2).2
  obtain ⟨j, hj, hline⟩ := nth?_eq_some.1 hl
  have he : j = i := by omega
  exact ⟨line, he ▸ hline, hlive⟩

theorem OnlyLive.tail {line : String} {lines : List String} {state : LineState}
    {states : List LineState} (h : OnlyLive (line :: lines) (state :: states)) :
    OnlyLive lines states := by
  intro i hi
  have hs := h (i + 1) (by simpa using hi)
  simpa using hs

namespace Indifferent

variable {V : Disk → Prop} {disk : Disk} {loc : Location} {mode : Mode}

/-- The lines are gone through from the first to the last; `before` is what is left of those
done. -/
theorem pieces_settle (hV : Indifferent V) (hloc : loc ≠ []) (lines : List String) :
    ∀ (states : List LineState) (before : List String),
    Lined (before ++ pieces lines states) → OnlyLive lines states →
    (V (disk.put loc (.file mode (encode (String.join (before ++ pieces lines states))))) ↔
      V (disk.put loc
        (.file mode
          (encode (String.join (before ++ pieces lines (settle .deleted states))))))) := by
  induction lines with
  | nil =>
    intro states before _ _
    simp [pieces]
  | cons line lines ih =>
    intro states before hl hlive
    cases states with
    | nil => simp [pieces, settle]
    | cons state states =>
      cases state with
      | intact =>
        have hmore := ih states (before ++ [line]) (by simpa [pieces] using hl) hlive.tail
        simpa [pieces, settle] using hmore
      | deleted => exact ih states before hl hlive.tail
      | commentedOut =>
        obtain ⟨live, hline, hd⟩ := hlive 0 rfl
        obtain rfl : line = live := by simpa using hline
        change Lined (before ++ (commentMark ++ line) :: pieces lines states) at hl
        have hstep := hV (disk.put loc (.file mode (encode
          (String.join (before ++ (commentMark ++ line) :: pieces lines states)))))
          loc mode _ line before (pieces lines states)
          (by rw [Disk.get?_put _ _ _ _ hloc, if_pos rfl]) (rawLines_join hl) hd
        rw [Disk.put_put] at hstep
        exact hstep.trans (ih states before hl.remove hlive.tail)

variable {sites : List Site} {s : Site} {w : Layout}

theorem relaid_settle (hV : Indifferent V) (h : Sited disk sites) (hs : s ∈ sites)
    {states : List LineState} (hlive : OnlyLive s.lines states) :
    V (disk.relaid sites w s.loc states) ↔
      V (disk.relaid sites w s.loc (settle .deleted states)) := by
  have hput : ∀ states, disk.relaid sites w s.loc states =
      (disk.laid w sites).put s.loc
        (.file s.mode (encode (String.join ([] ++ pieces s.lines states)))) := by
    intro states
    rw [Disk.relaid, ← Disk.put_laid h w hs states, Site.entry, renderLines_eq_join]
    rfl
  rw [hput, hput]
  exact hV.pieces_settle (h.loc_ne_nil hs) s.lines states []
    (lined_pieces (h.on s hs).lined states) hlive

end Indifferent

section
variable {refused : Prop} {V : Disk → Prop} {lines : List String} {candidates : List Candidate}
  {tree : List LineState → Disk}

def MayGo (V : Disk → Prop) (lines : List String) (tree : List LineState → Disk) : Prop :=
  ∀ ns states, .commentedOut ∉ states → V (tree (mark lines ns states).1) →
    V (tree (settle .deleted (mark lines ns states).1))

theorem LineCourse.vouched {ns : List Nat} {states states' : List LineState} {ts : List Trial}
    {os : List Outcome} (hc : LineCourse lines candidates tree ns states ts os states')
    (hgo : MayGo V lines tree) (ht : ∀ t ∈ ts, t.passed = true → V t.disk)
    (hs : .commentedOut ∉ states) (hv : V (tree states)) :
    .commentedOut ∉ states' ∧ V (tree states') := by
  induction hc with
  | done => exact ⟨hs, hv⟩
  | skipped _ _ ih => exact ih ht hs hv
  | passed hm _ ih =>
    refine ih (fun t hmem => ht t (List.mem_cons_of_mem _ hmem))
      (commentedOut_not_mem_settle (by decide) _) ?_
    exact hgo _ _ hs (ht _ List.mem_cons_self rfl)
  | failed hm _ ih => exact ih (fun t hmem => ht t (List.mem_cons_of_mem _ hmem)) hs hv

theorem FileCourse.vouched {remaining : List Nat} {states states' : List LineState}
    {ts : List Trial} {os : List Outcome}
    (hc : FileCourse refused lines candidates tree remaining states ts os states')
    (hgo : MayGo V lines tree) (ht : ∀ t ∈ ts, t.passed = true → V t.disk)
    (hs : .commentedOut ∉ states) (hv : V (tree states)) :
    .commentedOut ∉ states' ∧ V (tree states') := by
  cases hc with
  | byLine _ rest => exact rest.vouched hgo ht hs hv
  | skipped _ _ => exact ⟨hs, hv⟩
  | passed _ hm =>
    exact ⟨commentedOut_not_mem_settle (by decide) _, hgo _ _ hs (ht _ List.mem_cons_self rfl)⟩
  | failed _ hm rest =>
    exact rest.vouched hgo (fun t hmem => ht t (List.mem_cons_of_mem _ hmem)) hs hv
  | givenUp => exact ⟨hs, hv⟩

end

section
variable {refused : Prop} {V : Disk → Prop} {disk : Disk} {sites : List Site}

theorem Indifferent.mayGo (hV : Indifferent V) (h : Sited disk sites) {s : Site} (hs : s ∈ sites)
    (w : Layout) : MayGo V s.lines (disk.relaid sites w s.loc) :=
  fun _ _ hst hv => (hV.relaid_settle h hs (onlyLive_mark hst)).1 hv

theorem FilesCourse.vouched (hV : Indifferent V) (h : Sited disk sites) {xs : List Placed}
    {w w' : Layout} {ts : List Trial} {os : List Outcome}
    (hc : FilesCourse refused disk sites xs w ts os w') (hr : Ready disk sites w xs)
    (ht : ∀ t ∈ ts, t.passed = true → V t.disk) (hv : V (disk.laid w sites)) :
    V (disk.laid w' sites) := by
  induction hc with
  | nil => exact hv
  | @cons x xs w w' states ts ts' os os' head tail ih =>
    have hcalm := hr.calm x (by simp)
    have hgo := hV.mayGo h (hr.sited x (by simp)) w
    rw [← hcalm.sits.lines] at hgo
    rw [laid_eq_relaid disk sites w x.2.loc] at hv
    have hhead := head.vouched hgo (fun t hmem => ht t (List.mem_append_left _ hmem))
      hcalm.settled hv
    exact ih (hr.tail states) (fun t hmem => ht t (List.mem_append_right _ hmem)) hhead.2

theorem Indifferent.laid_settle (hV : Indifferent V) (h : Sited disk sites) (xs : List Placed) :
    ∀ u : Layout, (xs.map fun x => x.2.loc).Nodup →
    (∀ x ∈ xs, x.2 ∈ sites ∧ OnlyLive x.2.lines (u x.2.loc)) → V (disk.laid u sites) →
    ∃ u' : Layout, V (disk.laid u' sites) ∧
      (∀ x ∈ xs, u' x.2.loc = settle .deleted (u x.2.loc)) ∧ SameElsewhere xs u u' := by
  induction xs with
  | nil =>
    intro u _ _ hv
    exact ⟨u, hv, by simp, .refl [] u⟩
  | cons x xs ih =>
    intro u hd hxs hv
    obtain ⟨hsite, hlive⟩ := hxs x (by simp)
    have hne : ∀ y ∈ xs, y.2.loc ≠ x.2.loc := fun y hy he =>
      (List.nodup_cons.1 hd).1 (List.mem_map.2 ⟨y, hy, he⟩)
    rw [laid_eq_relaid disk sites u x.2.loc, hV.relaid_settle h hsite hlive] at hv
    obtain ⟨u', hv', hset, hother⟩ :=
      ih (Function.update u x.2.loc (settle .deleted (u x.2.loc))) (List.nodup_cons.1 hd).2 (by
        intro y hy
        rw [Function.update_of_ne (hne y hy)]
        exact hxs y (List.mem_cons_of_mem x hy)) hv
    refine ⟨u', hv', ?_, hother.cons⟩
    intro y hy
    rcases List.mem_cons.1 hy with rfl | hy
    · exact hother.head hne
    · rw [hset y hy, Function.update_of_ne (hne y hy)]

theorem PlanCourse.vouched (hV : Indifferent V) {xs : List Placed}
    (h : Sited disk (xs.map Prod.snd)) {w w' : Layout} {ts : List Trial} {os : List Outcome}
    (hc : PlanCourse refused disk xs w ts os w')
    (hr : Ready disk (xs.map Prod.snd) w xs) (ht : ∀ t ∈ ts, t.passed = true → V t.disk)
    (hv : V (disk.laid w (xs.map Prod.snd))) : V (disk.laid w' (xs.map Prod.snd)) := by
  cases hc with
  | idle _ => exact hv
  | passed _ _ =>
    have hlive : ∀ x ∈ xs, x.2 ∈ xs.map Prod.snd ∧ OnlyLive x.2.lines (markAll xs w x.2.loc) := by
      intro x hx
      have hcalm := hr.calm x hx
      refine ⟨hr.sited x hx, ?_⟩
      rw [markAll_mem hr.distinct hx, ← hcalm.sits.lines]
      exact onlyLive_mark hcalm.settled
    obtain ⟨u, hu, hset, _⟩ :=
      hV.laid_settle h xs (markAll xs w) hr.distinct hlive (ht _ List.mem_cons_self rfl)
    have hsame : disk.laid (fun loc => settle .deleted (markAll xs w loc)) (xs.map Prod.snd) =
        disk.laid u (xs.map Prod.snd) := by
      apply Disk.laid_congr
      intro s hs
      obtain ⟨x, hx, rfl⟩ := List.mem_map.1 hs
      exact (hset x hx).symm
    rw [hsame]
    exact hu
  | failed _ _ rest =>
    exact rest.vouched hV h hr (fun t hmem => ht t (List.mem_cons_of_mem _ hmem)) hv
  | abandoned _ _ rest => exact rest.vouched hV h hr ht hv

end

theorem dropTerminator_commentMark (cs : List Char) :
    dropTerminator ('/' :: '/' :: ' ' :: cs) = '/' :: '/' :: ' ' :: dropTerminator cs := by
  obtain ⟨r, rfl⟩ : ∃ r, cs = r.reverse := ⟨cs.reverse, by simp⟩
  unfold dropTerminator
  simp only [List.reverse_cons, List.reverse_reverse, List.append_assoc, List.cons_append,
    List.nil_append]
  rcases r with _ | ⟨c, _ | ⟨d, r⟩⟩
  · rfl
  · by_cases hc : c = '\n'
    · subst hc
      rfl
    · simp [hc]
  · by_cases hc : c = '\n'
    · subst hc
      by_cases hd : d = '\r'
      · subst hd
        simp
      · simp [hd]
    · simp [hc]

theorem commented_commentMark (line : String) :
    Directive.commented (stripTerminator (commentMark ++ line)) = true := by
  have hmark : (commentMark ++ line).toList = '/' :: '/' :: ' ' :: line.toList := by
    simp [commentMark]
  have hwhite : isWhite '/' = false := by decide
  unfold Directive.commented stripTerminator
  rw [hmark, dropTerminator_commentMark]
  simp [trimStartChars, hwhite]

namespace Rehearsal

theorem hasLiveLine_remove {text line : String} {before after : List String}
    (h : rawLines text = before ++ (commentMark ++ line) :: after) (wanted : String) :
    hasLiveLine wanted text = hasLiveLine wanted (String.join (before ++ after)) := by
  have hlined := lined_rawLines text
  rw [h] at hlined
  unfold hasLiveLine Text.lines
  rw [h, rawLines_join hlined.remove]
  simp [commented_commentMark]

end Rehearsal

theorem Disk.readText_file {disk : Disk} {path : Path} {loc : Location} {mode : Mode}
    {text : String}
    (hl : disk.locate path = .ok loc) (hg : disk.get? loc = some (.file mode (encode text))) :
    disk.readText path = if ownerReads mode then .ok text else .error .permissionDenied := by
  unfold Disk.readText Disk.readBytes Disk.fileAt
  simp only [hl, hg]
  cases ownerReads mode <;> simp [decode_encode]

theorem Disk.readText_put_other {disk : Disk} {path : Path} {loc : Location} {mode : Mode}
    {bytes : ByteArray} (hg : disk.get? loc = some (.file mode bytes))
    (hl : disk.locate path ≠ .ok loc) (mode' : Mode) (bytes' : ByteArray) :
    (disk.put loc (.file mode' bytes')).readText path = disk.readText path := by
  have hsame := Disk.locate_alike (Disk.alike_put_file hg mode' bytes') path
  unfold Disk.readText Disk.readBytes Disk.fileAt
  rw [hsame]
  cases he : disk.locate path with
  | error e => rfl
  | ok l =>
    have hne : l ≠ loc := fun h => hl (by rw [he, h])
    simp only [Disk.get?_put _ _ _ _ (Disk.ne_nil_of_file hg), if_neg hne]

theorem Rehearsal.BuildScript.check_indifferent (script : BuildScript) :
    Indifferent fun disk => script.check disk = true := by
  intro disk loc mode text line before after hg hraw _
  have hsame : script.check (disk.put loc (.file mode (encode (String.join (before ++ after))))) =
      script.check disk := by
    unfold check
    congr 2
    funext requirement
    by_cases hl : disk.locate requirement.1 = .ok loc
    · have hl' := (Disk.locate_alike (Disk.alike_put_file hg mode
        (encode (String.join (before ++ after)))) requirement.1).trans hl
      rw [Disk.readText_file hl hg, Disk.readText_file hl'
        (by rw [Disk.get?_put _ _ _ _ (Disk.ne_nil_of_file hg), if_pos rfl])]
      cases ownerReads mode
      · rfl
      · exact (hasLiveLine_remove hraw requirement.2).symm
    · rw [Disk.readText_put_other hg hl]
  simp only [hsame]

theorem Rehearsal.BuildScript.toBuild_vouches (script : BuildScript) :
    Vouches script.toBuild fun disk => script.check disk = true := by
  intro w h
  exact (Bool.and_eq_true_iff.1 h).1

/-- A property that passing builds vouch for, indifferent to what is commented out, holds of the
disk at the end of every run of a new session that reports. The build that requires lines vouches
for them, whatever verdicts a script adds. -/
theorem vouched_after_run :
    (∀ {σ : Type} (V : Disk → Prop) (build : Build σ) (plan : Plan) (world : World σ)
      (report : Report) (s : Session σ), Indifferent V → Vouches build V → Quiet build →
      Separate world.disk plan → run build plan (Session.start world) = (some report, s) →
      V s.world.disk) ∧
    ∀ script : Rehearsal.BuildScript,
      Indifferent (fun disk => script.check disk = true) ∧
      Vouches script.toBuild (fun disk => script.check disk = true) ∧
      (script.edits = [] → Quiet script.toBuild) := by
  refine ⟨?_, fun script =>
    ⟨script.check_indifferent, script.toBuild_vouches, script.toBuild_quiet⟩⟩
  intro σ V build plan world report s hV hb hq hsep hrun
  obtain ⟨ts, os, w, hu⟩ := run_undisturbed hq hsep rfl hrun
  have hpassed : ∀ t ∈ ts, t.passed = true → V t.disk := by
    intro t ht hp
    obtain ⟨outside, hv⟩ := hu.given t ht
    exact hb ⟨t.disk, outside⟩ (hv ▸ hp)
  -- the build before the first edit has passed on the disk as it was found
  have hfound : V world.disk := hb world (hu.ready _ List.mem_cons_self)
  have hsited := place_sited hsep
  rw [hu.disk]
  refine hu.course.vouched hV hsited (place_ready hsep) hpassed ?_
  have hlaid := Disk.laid_intact hsited fun t ht => (hsited.on t ht).asFound
  rw [← hlaid] at hfound
  exact hfound

theorem vouched_after_run_requiresFirst :
    ∃ report s,
      run requiresFirst.toBuild twoEntries (Session.start ⟨twoFiles, 0⟩) = (some report, s) ∧
      requiresFirst.check s.world.disk = true := by
  obtain ⟨report, s, hrun⟩ := requiresFirst_reports
  exact ⟨report, s, hrun, vouched_after_run.1 _ _ _ _ _ _ requiresFirst.check_indifferent
    requiresFirst.toBuild_vouches (requiresFirst.toBuild_quiet rfl) twoEntries_separate hrun⟩

end IncludeSweep
