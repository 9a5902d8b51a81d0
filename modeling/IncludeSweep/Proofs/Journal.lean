import IncludeSweep.Proofs.Course

set_option autoImplicit false

/-! # The journal of a run

A run as the list of the things it does, in their order: builds, writes, outcomes, and the two ways
of leaving a file behind. The journal is read off the same branches that the run takes. -/

namespace IncludeSweep

open Text Draft

variable {σ : Type}

inductive Deed where
  | built (tier : Tier)
  | wrote (path : Path) (text : String)
  /-- A file could not be put back to its last verified content. -/
  | stuck (path : Path)
  /-- The confirmed removals of a file could not be written. -/
  | unfinished (path : Path)
  | noted (path : Path) (outcomes : List Outcome)
deriving DecidableEq

abbrev Journal := List Deed

def Draft.changeDeeds (d : Draft) (changed : List Nat) : Journal :=
  if changed = [] then [] else [.wrote d.path d.render]

namespace OpenFile

def noteDeeds (f : OpenFile) (lines : List Nat) (resolution : Resolution) (tier : Tier) : Journal :=
  [.noted f.draft.path (f.outcomesAt lines resolution tier)]

def concludeDeeds (f : OpenFile) (lines : List Nat) (resolution : Resolution) (tier : Tier) :
    Journal :=
  f.noteDeeds (takeLines lines f.remaining).1 resolution tier

def giveUpDeeds (f : OpenFile) (tier : Tier) : Journal :=
  f.concludeDeeds f.remaining .keptIoFailure tier

def restoreDeeds (f : OpenFile) (s : Snapshot) (tier : Tier) (p : Progress σ) : Journal :=
  match f.draft.revert p.disk s with
  | .ok _ => [.wrote f.draft.path s.text]
  | .error _ => .stuck f.draft.path :: f.giveUpDeeds tier

def commitDeeds (f : OpenFile) (s : Snapshot) (tier : Tier) (p : Progress σ) : Journal :=
  match f.draft.delete p.disk with
  | .ok (pending, draft, _) =>
    .wrote draft.path draft.render ::
      ({ f with draft := draft } : OpenFile).concludeDeeds pending .committed tier
  | .error _ => f.restoreDeeds s tier p ++ (f.restore s tier p).1.giveUpDeeds tier

def flushDeeds (f : OpenFile) (p : Progress σ) : Journal :=
  if f.draft.unwritten then
    match f.draft.flush p.disk with
    | .ok _ => [.wrote f.draft.path f.draft.render]
    | .error _ => if p.unrestored.any f.draft.path.same then [] else [.unfinished f.draft.path]
  else []

end OpenFile

def stageDeeds : List OpenFile → Progress σ → Journal
  | [], _ => []
  | f :: fs, p =>
    match f.draft.comment p.disk f.remaining with
    | .error _ => f.giveUpDeeds .global
    | .ok (applied, draft, disk) =>
      draft.changeDeeds applied ++
        if applied.length = f.remaining.length then stageDeeds fs (p.withDisk disk) else []

def restoreAllDeeds : List Staged → Progress σ → Journal
  | [], _ => []
  | (_, none) :: rest, p => restoreAllDeeds rest p
  | (f, some s) :: rest, p =>
    f.restoreDeeds s .global p ++ restoreAllDeeds rest (f.restore s .global p).2

def commitAllDeeds : List Staged → Progress σ → Journal
  | [], _ => []
  | (_, none) :: rest, p => commitAllDeeds rest p
  | (f, some s) :: rest, p =>
    f.commitDeeds s .global p ++ commitAllDeeds rest (f.commit s .global p).2.2

def judgeAllDeeds (build : Build σ) (files : List OpenFile) (p : Progress σ) : Journal :=
  let staged := stageAll files p
  stageDeeds files p ++
    if staged.1 then
      let verdict := staged.2.2.verify build .global
      .built .global ::
        if verdict.1 then commitAllDeeds staged.2.1 verdict.2
        else restoreAllDeeds staged.2.1 verdict.2
    else restoreAllDeeds staged.2.1 staged.2.2

def judgeFileDeeds (build : Build σ) (f : OpenFile) (p : Progress σ) : Journal :=
  if p.tainted then f.giveUpDeeds .perFile
  else
    match f.draft.comment p.disk f.remaining with
    | .error _ => f.giveUpDeeds .perFile
    | .ok (applied, draft, disk) =>
      let skipped := f.remaining.filter fun n => !applied.contains n
      let tried := ({ f with draft := draft } : OpenFile).conclude skipped .keptSkipped .perFile
        (p.withDisk disk)
      draft.changeDeeds applied ++
        ({ f with draft := draft } : OpenFile).concludeDeeds skipped .keptSkipped .perFile ++
        if applied = [] then []
        else
          let verdict := tried.2.verify build .perFile
          .built .perFile ::
            if verdict.1 then tried.1.commitDeeds f.draft.snapshot .perFile verdict.2
            else tried.1.restoreDeeds f.draft.snapshot .perFile verdict.2

def OpenFile.tryTogetherDeeds (f : OpenFile) (draft : Draft) (applied : List Nat) : Journal :=
  draft.changeDeeds applied ++
    (f.onTrial draft applied).noteDeeds (f.passedOver applied) .keptSkipped .perFile ++
    [.built .perFile]

/-- What the batch of one file does, one rule for each way it can take. -/
inductive FileTrial (build : Build σ) (f : OpenFile) (p : Progress σ) :
    Journal → Bool × OpenFile × Progress σ → Prop
  | gaveUp (h : p.tainted = true ∨ ∃ e, f.draft.comment p.disk f.remaining = .error e) :
      FileTrial build f p (f.giveUpDeeds .perFile) (false, f.giveUp .perFile p)
  | skipped {d : Draft} {disk : Disk} (ht : p.tainted = false)
      (hc : f.draft.comment p.disk f.remaining = .ok ([], d, disk)) :
      FileTrial build f p
        (({ f with draft := d } : OpenFile).noteDeeds f.remaining .keptSkipped .perFile)
        (false, { f with draft := d, remaining := [] },
          f.note f.remaining .keptSkipped .perFile (p.withDisk disk))
  | passed {applied : List Nat} {d : Draft} {disk : Disk} (ht : p.tainted = false)
      (hc : f.draft.comment p.disk f.remaining = .ok (applied, d, disk)) (ha : applied ≠ [])
      (hv : (f.tryTogether build applied (p.withDisk disk)).1 = true) :
      FileTrial build f p
        (f.tryTogetherDeeds d applied ++ (f.onTrial d applied).commitDeeds f.draft.snapshot .perFile
          (f.tryTogether build applied (p.withDisk disk)).2)
        ((f.onTrial d applied).commit f.draft.snapshot .perFile
          (f.tryTogether build applied (p.withDisk disk)).2)
  | failed {applied : List Nat} {d : Draft} {disk : Disk} (ht : p.tainted = false)
      (hc : f.draft.comment p.disk f.remaining = .ok (applied, d, disk)) (ha : applied ≠ [])
      (hv : (f.tryTogether build applied (p.withDisk disk)).1 = false) :
      FileTrial build f p
        (f.tryTogetherDeeds d applied ++ (f.onTrial d applied).restoreDeeds f.draft.snapshot .perFile
          (f.tryTogether build applied (p.withDisk disk)).2)
        (false, (f.onTrial d applied).restore f.draft.snapshot .perFile
          (f.tryTogether build applied (p.withDisk disk)).2)

theorem judgeFile_trial (build : Build σ) (f : OpenFile) (p : Progress σ) :
    FileTrial build f p (judgeFileDeeds build f p) (judgeFile build f p) := by
  unfold judgeFileDeeds judgeFile
  cases ht : p.tainted with
  | true => exact .gaveUp (.inl ht)
  | false =>
    simp only [Bool.false_eq_true, if_false]
    cases hc : f.draft.comment p.disk f.remaining with
    | error e => exact .gaveUp (.inr ⟨e, hc⟩)
    | ok commented =>
      obtain ⟨applied, d, disk⟩ := commented
      simp only [OpenFile.conclude, OpenFile.concludeDeeds, f.takeLines_passedOver]
      by_cases ha : applied = []
      · subst ha
        have hall : f.passedOver [] = f.remaining := by simp [OpenFile.passedOver]
        have hnone : (f.remaining.filter fun n => ([] : List Nat).contains n) = [] := by simp
        simp only [hall, hnone, Draft.changeDeeds, if_true, List.nil_append, List.append_nil]
        exact .skipped ht hc
      · simp only [ha, if_false]
        rw [List.append_cons]
        split
        · rename_i hv
          exact .passed ht hc ha hv
        · rename_i hv
          exact .failed ht hc ha (Bool.not_eq_true _ ▸ hv)

def tryDeeds (build : Build σ) : List Nat → OpenFile → Progress σ → Journal
  | [], _, _ => []
  | n :: ns, f, p =>
    if p.tainted then f.giveUpDeeds .sequential
    else
      match f.draft.comment p.disk [n] with
      | .error _ => f.giveUpDeeds .sequential
      | .ok (applied, draft, disk) =>
        if applied = [] then
          let skipped := f.conclude [n] .keptSkipped .sequential p
          f.concludeDeeds [n] .keptSkipped .sequential ++ tryDeeds build ns skipped.1 skipped.2
        else
          let verdict := (p.withDisk disk).verify build .sequential
          draft.changeDeeds applied ++ .built .sequential ::
            if verdict.1 then
              tryDeeds build ns
                { f with draft := draft.confirm.2, remaining := f.remaining.erase n } verdict.2
            else
              match draft.rollback verdict.2.disk with
              | .ok (back, draft, disk) =>
                let kept := ({ f with draft := draft } : OpenFile).conclude [n] .keptBuildFailed
                  .sequential (verdict.2.withDisk disk)
                draft.changeDeeds back ++
                  ({ f with draft := draft } : OpenFile).concludeDeeds [n] .keptBuildFailed
                    .sequential ++
                  tryDeeds build ns kept.1 kept.2
              | .error _ =>
                .stuck draft.path :: ({ f with draft := draft } : OpenFile).giveUpDeeds .sequential

/-- What the loop over lines does, one rule for each way a line can take. The lists of numbers are
the lines to try and those that get confirmed. -/
inductive LineTrials (build : Build σ) :
    List Nat → OpenFile → Progress σ → Journal → List Nat → OpenFile → Progress σ → Prop
  | done (f : OpenFile) (p : Progress σ) : LineTrials build [] f p [] [] f p
  | gaveUp {n : Nat} {ns : List Nat} {f : OpenFile} {p : Progress σ}
      (h : p.tainted = true ∨ ∃ e, f.draft.comment p.disk [n] = .error e) :
      LineTrials build (n :: ns) f p (f.giveUpDeeds .sequential) [] (f.giveUp .sequential p).1
        (f.giveUp .sequential p).2
  | skipped {n : Nat} {ns news : List Nat} {f f' : OpenFile} {p p' : Progress σ} {d : Draft}
      {disk : Disk} {j : Journal} (ht : p.tainted = false)
      (hc : f.draft.comment p.disk [n] = .ok ([], d, disk))
      (rest : LineTrials build ns (f.conclude [n] .keptSkipped .sequential p).1
        (f.conclude [n] .keptSkipped .sequential p).2 j news f' p') :
      LineTrials build (n :: ns) f p (f.concludeDeeds [n] .keptSkipped .sequential ++ j) news f' p'
  | passed {n : Nat} {ns applied news : List Nat} {f f' : OpenFile} {p p' : Progress σ} {d : Draft}
      {disk : Disk} {j : Journal} (ht : p.tainted = false)
      (hc : f.draft.comment p.disk [n] = .ok (applied, d, disk)) (ha : applied ≠ [])
      (hv : ((p.withDisk disk).verify build .sequential).1 = true)
      (rest : LineTrials build ns
        { f with draft := d.confirm.2, remaining := f.remaining.erase n }
        ((p.withDisk disk).verify build .sequential).2 j news f' p') :
      LineTrials build (n :: ns) f p (d.changeDeeds applied ++ .built .sequential :: j) (n :: news)
        f' p'
  | failed {n : Nat} {ns applied back news : List Nat} {f f' : OpenFile} {p p' : Progress σ}
      {d d' : Draft} {disk disk' : Disk} {j : Journal} (ht : p.tainted = false)
      (hc : f.draft.comment p.disk [n] = .ok (applied, d, disk)) (ha : applied ≠ [])
      (hv : ((p.withDisk disk).verify build .sequential).1 = false)
      (hr : d.rollback ((p.withDisk disk).verify build .sequential).2.disk = .ok (back, d', disk'))
      (rest : LineTrials build ns
        (({ f with draft := d' } : OpenFile).conclude [n] .keptBuildFailed .sequential
          (((p.withDisk disk).verify build .sequential).2.withDisk disk')).1
        (({ f with draft := d' } : OpenFile).conclude [n] .keptBuildFailed .sequential
          (((p.withDisk disk).verify build .sequential).2.withDisk disk')).2 j news f' p') :
      LineTrials build (n :: ns) f p
        (d.changeDeeds applied ++ .built .sequential :: (d'.changeDeeds back ++
          ({ f with draft := d' } : OpenFile).concludeDeeds [n] .keptBuildFailed .sequential ++ j))
        news f' p'
  | stuck {n : Nat} {ns applied : List Nat} {f : OpenFile} {p : Progress σ} {d : Draft}
      {disk : Disk} {e : EditError} (ht : p.tainted = false)
      (hc : f.draft.comment p.disk [n] = .ok (applied, d, disk)) (ha : applied ≠ [])
      (hv : ((p.withDisk disk).verify build .sequential).1 = false)
      (hr : d.rollback ((p.withDisk disk).verify build .sequential).2.disk = .error e) :
      LineTrials build (n :: ns) f p
        (d.changeDeeds applied ++ .built .sequential :: .stuck d.path ::
          ({ f with draft := d } : OpenFile).giveUpDeeds .sequential) []
        (({ f with draft := d } : OpenFile).giveUp .sequential
          (((p.withDisk disk).verify build .sequential).2.taint d.path)).1
        (({ f with draft := d } : OpenFile).giveUp .sequential
          (((p.withDisk disk).verify build .sequential).2.taint d.path)).2

theorem tryLines_trials (build : Build σ) (ns : List Nat) :
    ∀ (confirmed : List Nat) (f : OpenFile) (p : Progress σ),
    ∃ news f' p', tryLines build ns confirmed f p = (confirmed ++ news, f', p') ∧
      LineTrials build ns f p (tryDeeds build ns f p) news f' p' := by
  induction ns with
  | nil =>
    intro confirmed f p
    exact ⟨[], f, p, by simp [tryLines], .done f p⟩
  | cons n ns ih =>
    intro confirmed f p
    unfold tryLines tryDeeds
    cases ht : p.tainted with
    | true => exact ⟨[], _, _, by simp, .gaveUp (.inl ht)⟩
    | false =>
      simp only [Bool.false_eq_true, if_false]
      cases hc : f.draft.comment p.disk [n] with
      | error e => exact ⟨[], _, _, by simp, .gaveUp (.inr ⟨e, hc⟩)⟩
      | ok commented =>
        obtain ⟨applied, d, disk⟩ := commented
        by_cases ha : applied = []
        · subst ha
          obtain ⟨news, f', p', he, hrest⟩ := ih confirmed
            (f.conclude [n] .keptSkipped .sequential p).1
            (f.conclude [n] .keptSkipped .sequential p).2
          exact ⟨news, f', p', he, .skipped ht hc hrest⟩
        simp only [ha, if_false]
        cases hv : ((p.withDisk disk).verify build .sequential).1 with
        | true =>
          obtain ⟨news, f', p', he, hrest⟩ := ih (confirmed ++ [n])
            { f with draft := d.confirm.2, remaining := f.remaining.erase n }
            ((p.withDisk disk).verify build .sequential).2
          refine ⟨n :: news, f', p', ?_, .passed ht hc ha hv hrest⟩
          simpa using he
        | false =>
          simp only [Bool.false_eq_true, if_false]
          cases hr : d.rollback ((p.withDisk disk).verify build .sequential).2.disk with
          | error e => exact ⟨[], _, _, by simp, .stuck ht hc ha hv hr⟩
          | ok rolled =>
            obtain ⟨back, d', disk'⟩ := rolled
            obtain ⟨news, f', p', he, hrest⟩ := ih confirmed
              (({ f with draft := d' } : OpenFile).conclude [n] .keptBuildFailed .sequential
                (((p.withDisk disk).verify build .sequential).2.withDisk disk')).1
              (({ f with draft := d' } : OpenFile).conclude [n] .keptBuildFailed .sequential
                (((p.withDisk disk).verify build .sequential).2.withDisk disk')).2
            exact ⟨news, f', p', he, .failed ht hc ha hv hr hrest⟩

def judgeLinesDeeds (build : Build σ) (f : OpenFile) (p : Progress σ) : Journal :=
  let tried := tryLines build f.remaining [] f p
  tryDeeds build f.remaining f p ++
    if tried.1 = [] then []
    else
      let flushed := tried.2.1.flush tried.2.2
      let gone := flushed.1.draft.removedOnDisk
      let removed := tried.1.filter fun n => gone.contains n
      let stuck := tried.1.filter fun n => !gone.contains n
      tried.2.1.flushDeeds tried.2.2 ++
        flushed.1.noteDeeds removed .committed .sequential ++
        flushed.1.noteDeeds stuck .keptIoFailure .sequential

def refineFileDeeds (build : Build σ) (f : OpenFile) (p : Progress σ) : Journal :=
  if f.remaining = [] then []
  else if f.remaining.length < 2 then judgeLinesDeeds build f p
  else
    let batch := judgeFile build f p
    judgeFileDeeds build f p ++
      if batch.1 || batch.2.1.remaining.isEmpty then []
      else judgeLinesDeeds build batch.2.1 batch.2.2

def refineAllDeeds (build : Build σ) : List OpenFile → Progress σ → Journal
  | [], _ => []
  | f :: fs, p =>
    refineFileDeeds build f p ++ refineAllDeeds build fs (refineFile build f p).2

/-- All that a run does after it has opened the files of its plan. -/
def runDeeds (build : Build σ) (plan : Plan) (s : Session σ) : Journal :=
  let opened := openAll s.world.disk plan
  let p : Progress σ := { s with outcomes := opened.2, unrestored := [] }
  if opened.1 = [] then []
  else
    let batch := judgeAll build opened.1 p
    judgeAllDeeds build opened.1 p ++ refineAllDeeds build batch.1 batch.2

theorem OpenFile.mem_outcomesAt {f : OpenFile} {ns : List Nat} {r : Resolution} {tier : Tier}
    {o : Outcome} (h : o ∈ f.outcomesAt ns r tier) :
    o.candidate ∈ f.candidates ∧ o.candidate.line ∈ ns ∧ o.resolution = r ∧ o.tier = some tier := by
  obtain ⟨n, hn, hfind⟩ := List.mem_filterMap.1 h
  obtain ⟨c, hc, rfl⟩ := Option.map_eq_some_iff.1 hfind
  have hline : c.line = n := by simpa using List.find?_some hc
  exact ⟨List.mem_of_find?_eq_some hc, hline ▸ hn, rfl, rfl⟩

def Deed.path? : Deed → Option Path
  | .built _ => none
  | .wrote path _ => some path
  | .stuck path => some path
  | .unfinished path => some path
  | .noted path _ => some path

def Deed.outcomes : Deed → List Outcome
  | .noted _ os => os
  | _ => []

def Deed.outcomesFor (path : Path) : Deed → List Outcome
  | .noted q os => if q = path then os else []
  | _ => []

def Deed.leaves? : Deed → Option Path
  | .stuck path => some path
  | .unfinished path => some path
  | _ => none

def outcomesIn (j : Journal) : List Outcome :=
  j.flatMap Deed.outcomes

def notedFor (path : Path) (j : Journal) : List Outcome :=
  j.flatMap (Deed.outcomesFor path)

def leftovers (j : Journal) : List Path :=
  j.filterMap Deed.leaves?

/-- The last text written to a file, the given one if there is none. -/
def lastWritten (path : Path) (text : String) (j : Journal) : String :=
  j.foldl
    (fun text d => match d with
      | .wrote q written => if q = path then written else text
      | _ => text)
    text

section
variable {path : Path} {text : String} {j j' : Journal}

@[simp] theorem notedFor_nil (path : Path) : notedFor path [] = [] := rfl

@[simp] theorem notedFor_built (path : Path) (tier : Tier) (j : Journal) :
    notedFor path (.built tier :: j) = notedFor path j := rfl

@[simp] theorem notedFor_wrote (path q : Path) (text : String) (j : Journal) :
    notedFor path (.wrote q text :: j) = notedFor path j := rfl

@[simp] theorem notedFor_stuck (path q : Path) (j : Journal) :
    notedFor path (.stuck q :: j) = notedFor path j := rfl

@[simp] theorem notedFor_unfinished (path q : Path) (j : Journal) :
    notedFor path (.unfinished q :: j) = notedFor path j := rfl

@[simp] theorem leftovers_nil : leftovers [] = [] := rfl

@[simp] theorem leftovers_built (tier : Tier) (j : Journal) :
    leftovers (.built tier :: j) = leftovers j := rfl

@[simp] theorem leftovers_wrote (q : Path) (text : String) (j : Journal) :
    leftovers (.wrote q text :: j) = leftovers j := rfl

@[simp] theorem leftovers_stuck (q : Path) (j : Journal) :
    leftovers (.stuck q :: j) = q :: leftovers j := rfl

@[simp] theorem leftovers_unfinished (q : Path) (j : Journal) :
    leftovers (.unfinished q :: j) = q :: leftovers j := rfl

@[simp] theorem leftovers_noted (q : Path) (os : List Outcome) (j : Journal) :
    leftovers (.noted q os :: j) = leftovers j := rfl

@[simp] theorem outcomesIn_append (j j' : Journal) :
    outcomesIn (j ++ j') = outcomesIn j ++ outcomesIn j' :=
  List.flatMap_append

@[simp] theorem notedFor_append (path : Path) (j j' : Journal) :
    notedFor path (j ++ j') = notedFor path j ++ notedFor path j' :=
  List.flatMap_append

@[simp] theorem leftovers_append (j j' : Journal) :
    leftovers (j ++ j') = leftovers j ++ leftovers j' :=
  List.filterMap_append

@[simp] theorem lastWritten_append (path : Path) (text : String) (j j' : Journal) :
    lastWritten path text (j ++ j') = lastWritten path (lastWritten path text j) j' :=
  List.foldl_append

theorem lastWritten_unwritten (h : ∀ written, .wrote path written ∉ j) :
    lastWritten path text j = text := by
  induction j generalizing text with
  | nil => rfl
  | cons d j ih =>
    have hrest := fun written hmem => h written (List.mem_cons_of_mem d hmem)
    cases d with
    | wrote q written =>
      have hq : q ≠ path := by
        rintro rfl
        exact h written List.mem_cons_self
      change lastWritten path (if q = path then written else text) j = text
      rw [if_neg hq]
      exact ih hrest
    | _ => exact ih hrest

theorem mem_leftovers : path ∈ leftovers j ↔ .stuck path ∈ j ∨ .unfinished path ∈ j := by
  unfold leftovers
  rw [List.mem_filterMap]
  constructor
  · rintro ⟨d, hd, he⟩
    cases d with
    | stuck q =>
      obtain rfl := Option.some.inj he
      exact .inl hd
    | unfinished q =>
      obtain rfl := Option.some.inj he
      exact .inr hd
    | _ => simp [Deed.leaves?] at he
  · rintro (hd | hd)
    · exact ⟨_, hd, rfl⟩
    · exact ⟨_, hd, rfl⟩

def Foreign (path : Path) (j : Journal) : Prop :=
  ∀ d ∈ j, d.path? ≠ some path

theorem Foreign.notedFor (h : Foreign path j) : notedFor path j = [] := by
  refine List.flatMap_eq_nil_iff.2 fun d hd => ?_
  cases d with
  | noted q os =>
    have hq : q ≠ path := fun he => h _ hd (congrArg some he)
    exact if_neg hq
  | _ => rfl

theorem Foreign.leftovers (h : Foreign path j) : path ∉ leftovers j := by
  rw [mem_leftovers]
  rintro (hd | hd)
  · exact h _ hd rfl
  · exact h _ hd rfl

def Within (paths : List Path) (j : Journal) : Prop :=
  ∀ d ∈ j, ∀ path, d.path? = some path → path ∈ paths

theorem within_nil (paths : List Path) : Within paths [] := by
  simp [Within]

theorem Within.cons {paths : List Path} {d : Deed} (hd : ∀ q, d.path? = some q → q ∈ paths)
    (h : Within paths j) : Within paths (d :: j) :=
  List.forall_mem_cons.2 ⟨hd, h⟩

theorem Within.append {paths : List Path} (h : Within paths j) (h' : Within paths j') :
    Within paths (j ++ j') := by
  intro d hd
  rcases List.mem_append.1 hd with hd | hd
  · exact h d hd
  · exact h' d hd

theorem Within.mono {paths paths' : List Path} (h : Within paths j) (hsub : paths ⊆ paths') :
    Within paths' j :=
  fun d hd path hpath => hsub (h d hd path hpath)

theorem Within.leftovers {paths : List Path} (h : Within paths j) {q : Path}
    (hq : q ∈ leftovers j) : q ∈ paths := by
  rcases mem_leftovers.1 hq with hd | hd
  · exact h _ hd q rfl
  · exact h _ hd q rfl

theorem Within.foreign {paths : List Path} (h : Within paths j) (hpath : path ∉ paths) :
    Foreign path j :=
  fun d hd he => hpath (h d hd path he)

end

end IncludeSweep
