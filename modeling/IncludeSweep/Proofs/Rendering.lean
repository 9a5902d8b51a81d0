import IncludeSweep.Draft

set_option autoImplicit false

/-! # Lines and their states

A list of lines is the list of raw lines of its own concatenation when every line but the last ends
in its only newline. This survives commenting lines out and leaving lines away, so the raw lines of
what a draft renders can be read off its lines and states. -/

namespace IncludeSweep

namespace Text

theorem decode_encode (text : String) : decode (encode text) = some text := by
  have hv : text.toByteArray.IsValidUTF8 := text.isValidUTF8
  simp [decode, encode, String.fromUTF8?, String.toUTF8, hv, String.fromUTF8]

theorem encode_of_decode {bytes : ByteArray} {text : String} (h : decode bytes = some text) :
    encode text = bytes := by
  unfold decode String.fromUTF8? at h
  split at h
  · cases h
    rfl
  · simp at h

/-- Lines as a text is split into them: not empty, and with a newline at the end and nowhere else;
only the last may lack it. -/
inductive Lined : List String → Prop
  | nil : Lined []
  | last {line : String} : line ≠ "" → '\n' ∉ line.toList → Lined [line]
  | cons {body : String} {rest : List String} :
      '\n' ∉ body.toList → Lined rest → Lined ((body ++ "\n") :: rest)

theorem splitAfterNewline_line (body rest : List Char) (h : '\n' ∉ body) :
    splitAfterNewline (body ++ '\n' :: rest) = (body ++ ['\n']) :: splitAfterNewline rest := by
  induction body with
  | nil => simp [splitAfterNewline]
  | cons c body ih =>
    have hc : c ≠ '\n' := by
      rintro rfl
      simp at h
    have hb : '\n' ∉ body := fun hm => h (List.mem_cons_of_mem c hm)
    simp [splitAfterNewline, hc, ih hb]

theorem splitAfterNewline_last (cs : List Char) (hne : cs ≠ []) (h : '\n' ∉ cs) :
    splitAfterNewline cs = [cs] := by
  induction cs with
  | nil => exact absurd rfl hne
  | cons c cs ih =>
    have hc : c ≠ '\n' := by
      rintro rfl
      simp at h
    have hb : '\n' ∉ cs := fun hm => h (List.mem_cons_of_mem c hm)
    by_cases hcs : cs = []
    · simp [splitAfterNewline, hc, hcs]
    · simp [splitAfterNewline, hc, ih hcs hb]

theorem lined_splitAfterNewline (cs : List Char) :
    Lined ((splitAfterNewline cs).map String.ofList) := by
  induction cs with
  | nil => exact .nil
  | cons c cs ih =>
    unfold splitAfterNewline
    by_cases hc : c = '\n'
    · subst hc
      have h : Lined (("" ++ "\n") :: (splitAfterNewline cs).map String.ofList) :=
        .cons (by simp) ih
      simpa using h
    · rw [if_neg hc]
      cases hs : splitAfterNewline cs with
      | nil =>
        refine .last ?_ ?_
        · simp [← String.toList_inj]
        · simpa using Ne.symm hc
      | cons line lines =>
        rw [hs] at ih
        generalize hl : (line :: lines).map String.ofList = ls at ih
        -- the first line grows by a character that is no newline
        cases ih with
        | nil => simp at hl
        | @last first hne hn =>
          simp only [List.map_cons, List.cons.injEq, List.map_eq_nil_iff] at hl
          obtain ⟨rfl, rfl⟩ := hl
          refine .last ?_ ?_
          · simp [← String.toList_inj]
          · simp only [String.toList_ofList] at hn ⊢
            simpa [Ne.symm hc] using hn
        | @cons body rest hn hr =>
          simp only [List.map_cons, List.cons.injEq] at hl
          obtain ⟨hline, rfl⟩ := hl
          have hgrow : String.ofList (c :: line) = (String.ofList [c] ++ body) ++ "\n" := by
            rw [← String.toList_inj] at hline ⊢
            simpa using hline
          simp only [List.map_cons, hgrow]
          refine .cons ?_ hr
          simpa [Ne.symm hc] using hn

theorem lined_rawLines (text : String) : Lined (rawLines text) :=
  lined_splitAfterNewline text.toList

theorem join_rawLines (text : String) : String.join (rawLines text) = text := by
  rw [← String.toList_inj, String.toList_join, rawLines, List.flatMap_map]
  simp [List.flatMap_def, flatten_splitAfterNewline]

theorem rawLines_join {ls : List String} (h : Lined ls) : rawLines (String.join ls) = ls := by
  induction h with
  | nil => rfl
  | @last line hne hn =>
    have hl : line.toList ≠ [] := fun h => hne (String.toList_inj.1 (by simpa using h))
    simp [rawLines, splitAfterNewline_last _ hl hn]
  | @cons body rest hn _ ih =>
    rw [rawLines, String.join_cons, String.toList_append, String.toList_append]
    have hs := splitAfterNewline_line body.toList (String.join rest).toList hn
    simp only [List.append_assoc]
    change (splitAfterNewline (body.toList ++ '\n' :: (String.join rest).toList)).map
      String.ofList = _
    rw [hs, List.map_cons]
    congr 1
    · rw [← String.toList_inj]
      simp

theorem Lined.remove {before after : List String} {line : String}
    (h : Lined (before ++ line :: after)) : Lined (before ++ after) := by
  induction before with
  | nil =>
    cases h with
    | last _ _ => exact .nil
    | cons _ hr => exact hr
  | cons first before ih =>
    generalize hls : before ++ line :: after = ls at h
    rw [List.cons_append, hls] at h
    cases h with
    | last _ _ => simp at hls
    | cons hn hr => exact .cons hn (ih (hls ▸ hr))

theorem nth?_eq_some {α : Type} {xs : List α} {n : Nat} {x : α} :
    nth? xs n = some x ↔ ∃ i, n = i + 1 ∧ xs[i]? = some x := by
  cases n with
  | zero => simp [nth?]
  | succ n => simp [nth?]

theorem nth?_map {α β : Type} (f : α → β) (xs : List α) (n : Nat) :
    nth? (xs.map f) n = (nth? xs n).map f := by
  cases n with
  | zero => rfl
  | succ n => simp [nth?]

theorem nth?_set {α : Type} (xs : List α) (n m : Nat) (x : α) (h : (nth? xs n).isSome) :
    nth? (xs.set (n - 1) x) m = if m = n then some x else nth? xs m := by
  obtain ⟨y, hy⟩ := Option.isSome_iff_exists.1 h
  obtain ⟨i, rfl, hi⟩ := nth?_eq_some.1 hy
  have hlt : i < xs.length := (List.getElem?_eq_some_iff.1 hi).1
  cases m with
  | zero => simp [nth?]
  | succ m =>
    by_cases hm : m = i
    · subst hm
      simp [nth?, hlt]
    · have hm' : ¬ i = m := Ne.symm hm
      simp [nth?, hm, hm']

theorem ext_nth? {α : Type} {xs ys : List α} (h : ∀ n, nth? xs n = nth? ys n) : xs = ys :=
  List.ext_getElem? fun i => h (i + 1)

end Text

open Text

def pieces : List String → List LineState → List String
  | line :: lines, .intact :: states => line :: pieces lines states
  | line :: lines, .commentedOut :: states => (commentMark ++ line) :: pieces lines states
  | _ :: lines, .deleted :: states => pieces lines states
  | _, _ => []

theorem renderLines_eq_join (lines : List String) (states : List LineState) :
    renderLines lines states = String.join (pieces lines states) := by
  fun_induction pieces lines states with
  | case1 line lines states ih =>
    rw [String.join_cons, ← ih]
    simp [renderLines, LineState.render, String.join_cons]
  | case2 line lines states ih =>
    rw [String.join_cons, ← ih]
    simp [renderLines, LineState.render, String.join_cons]
  | case3 line lines states ih =>
    rw [← ih]
    simp [renderLines, LineState.render, String.join_cons]
  | case4 lines states h1 h2 h3 =>
    cases lines with
    | nil => simp [renderLines]
    | cons line lines =>
      cases states with
      | nil => simp [renderLines]
      | cons state states =>
        cases state with
        | intact => exact (h1 line lines states rfl rfl).elim
        | commentedOut => exact (h2 line lines states rfl rfl).elim
        | deleted => exact (h3 line lines states rfl rfl).elim

theorem lined_pieces {lines : List String} (h : Lined lines) (states : List LineState) :
    Lined (pieces lines states) := by
  induction h generalizing states with
  | nil =>
    cases states <;> exact .nil
  | @last line hne hn =>
    cases states with
    | nil => exact .nil
    | cons state states =>
      cases state with
      | intact => simpa [pieces] using Lined.last hne hn
      | commentedOut =>
        have hm : Lined [commentMark ++ line] := by
          refine .last ?_ ?_
          · simp [← String.toList_inj, commentMark]
          · simpa [commentMark] using hn
        simpa [pieces] using hm
      | deleted => simpa [pieces] using Lined.nil
  | @cons body rest hn _ ih =>
    cases states with
    | nil => exact .nil
    | cons state states =>
      cases state with
      | intact => exact .cons hn (ih states)
      | commentedOut =>
        have hm : '\n' ∉ (commentMark ++ body).toList := by simpa [commentMark] using hn
        have hl := Lined.cons hm (ih states)
        rw [String.append_assoc] at hl
        exact hl
      | deleted => exact ih states

theorem rawLines_renderLines {lines : List String} (h : Lined lines) (states : List LineState) :
    rawLines (renderLines lines states) = pieces lines states := by
  rw [renderLines_eq_join, rawLines_join (lined_pieces h states)]

def allIntact (lines : List String) : List LineState :=
  lines.map fun _ => .intact

theorem pieces_allIntact (lines : List String) : pieces lines (allIntact lines) = lines := by
  induction lines with
  | nil => rfl
  | cons line lines ih =>
    change line :: pieces lines (allIntact lines) = _
    rw [ih]

theorem renderLines_allIntact (text : String) :
    renderLines (rawLines text) (allIntact (rawLines text)) = text := by
  rw [renderLines_eq_join, pieces_allIntact, join_rawLines]

def numbered (state : Nat → LineState) (lines : List String) : List LineState :=
  (lines.zipIdx 1).map fun x => state x.2

theorem nth?_numbered (state : Nat → LineState) (lines : List String) (n : Nat) :
    nth? (numbered state lines) n = (nth? lines n).map fun _ => state n := by
  cases n with
  | zero => rfl
  | succ i =>
    simp only [nth?, numbered, List.getElem?_map, List.getElem?_zipIdx, Option.map_map]
    rw [Nat.add_comm i 1]
    rfl

theorem numbered_intact (lines : List String) :
    numbered (fun _ => .intact) lines = allIntact lines := by
  apply ext_nth?
  intro n
  rw [nth?_numbered, allIntact, nth?_map]

def linesWithout (gone : List Nat) (lines : List String) : List String :=
  ((lines.zipIdx 1).filter fun x => !gone.contains x.2).map Prod.fst

theorem pieces_numbered_deleted (gone : List Nat) (lines : List String) :
    pieces lines (numbered (fun n => if n ∈ gone then .deleted else .intact) lines) =
      linesWithout gone lines := by
  unfold numbered linesWithout
  generalize 1 = k
  induction lines generalizing k with
  | nil => rfl
  | cons line lines ih =>
    rw [List.zipIdx_cons, List.map_cons]
    by_cases hk : k ∈ gone
    · simp [hk, pieces, ih]
    · simp [hk, pieces, ih]

theorem mem_linesIn {wanted : LineState} {k n : Nat} {states : List LineState} :
    n ∈ linesIn wanted k states ↔ ∃ i, n = k + i ∧ states[i]? = some wanted := by
  induction states generalizing k with
  | nil => simp [linesIn]
  | cons state states ih =>
    have hsplit : (∃ i, n = k + i ∧ (state :: states)[i]? = some wanted) ↔
        (n = k ∧ state = wanted) ∨ ∃ i, n = k + 1 + i ∧ states[i]? = some wanted := by
      constructor
      · rintro ⟨i, hn, hi⟩
        cases i with
        | zero => exact .inl ⟨by omega, by simpa using hi⟩
        | succ i => exact .inr ⟨i, by omega, by simpa using hi⟩
      · rintro (⟨hn, hs⟩ | ⟨i, hn, hi⟩)
        · exact ⟨0, by omega, by simp [hs]⟩
        · exact ⟨i + 1, by omega, by simpa using hi⟩
    rw [hsplit]
    unfold linesIn
    by_cases hs : state = wanted
    · simp [hs, ih]
    · simp [hs, ih]

theorem mem_linesIn_one {wanted : LineState} {n : Nat} {states : List LineState} :
    n ∈ linesIn wanted 1 states ↔ nth? states n = some wanted := by
  rw [mem_linesIn, nth?_eq_some]
  simp only [Nat.add_comm 1]

theorem linesIn_nodup (wanted : LineState) (k : Nat) (states : List LineState) :
    (linesIn wanted k states).Nodup := by
  induction states generalizing k with
  | nil => simp [linesIn]
  | cons state states ih =>
    unfold linesIn
    split
    · refine List.nodup_cons.2 ⟨?_, ih (k + 1)⟩
      rw [mem_linesIn]
      rintro ⟨i, hi, _⟩
      omega
    · exact ih (k + 1)

theorem linesIn_eq_nil {wanted : LineState} {k : Nat} {states : List LineState} :
    linesIn wanted k states = [] ↔ wanted ∉ states := by
  induction states generalizing k with
  | nil => simp [linesIn]
  | cons state states ih =>
    by_cases hs : state = wanted
    · simp [linesIn, hs]
    · simp [linesIn, hs, ih, Ne.symm hs]

namespace Draft

theorem nth?_settle (r : LineState) (states : List LineState) (n : Nat) :
    nth? (settle r states) n = (nth? states n).map fun s => if s = .commentedOut then r else s :=
  nth?_map _ states n

theorem removable_iff {lines : List String} {states : List LineState} {n : Nat} :
    removable lines states n = true ↔ nth? states n = some .intact ∧
      ∃ line, nth? lines n = some line ∧ Directive.live (stripTerminator line) = true := by
  unfold removable
  cases hl : nth? lines n with
  | none => simp
  | some line =>
    cases hs : nth? states n with
    | none => simp
    | some state => cases state <;> simp

theorem removable_allIntact {lines : List String} {n : Nat} :
    removable lines (allIntact lines) n = true ↔ ∃ line, nth? lines n = some line ∧
      Directive.live (stripTerminator line) = true := by
  rw [removable_iff, and_iff_right_of_imp]
  rintro ⟨line, hline, _⟩
  rw [allIntact, nth?_map, hline]
  rfl

theorem removable_nth? {lines : List String} {states : List LineState} {n : Nat}
    (h : removable lines states n = true) : (nth? states n).isSome := by
  rw [(removable_iff.1 h).1]
  rfl

/-- After marking, exactly the lines it gives are commented out on top of those that were. -/
theorem nth?_mark (lines : List String) (ns : List Nat) (states : List LineState) (n : Nat) :
    nth? (mark lines ns states).1 n =
      if n ∈ (mark lines ns states).2 then some .commentedOut else nth? states n := by
  induction ns generalizing states with
  | nil => simp [mark]
  | cons m ns ih =>
    unfold mark
    split
    · rename_i hm
      simp only [List.mem_cons]
      rw [ih, nth?_set states m n _ (removable_nth? hm)]
      by_cases hn : n = m
      · simp [hn]
      · simp [hn]
    · exact ih states

theorem mem_mark {lines : List String} {ns : List Nat} {states : List LineState} {n : Nat} :
    n ∈ (mark lines ns states).2 ↔ n ∈ ns ∧ removable lines states n = true := by
  induction ns generalizing states with
  | nil => simp [mark]
  | cons m ns ih =>
    unfold mark
    split
    · rename_i hm
      simp only [List.mem_cons, ih]
      have hset := nth?_set states m n .commentedOut (removable_nth? hm)
      by_cases hn : n = m
      · simp [hn, hm]
      · have hr : removable lines (states.set (m - 1) .commentedOut) n =
            removable lines states n := by
          unfold removable
          rw [hset, if_neg hn]
        simp [hn, hr]
    · rename_i hm
      rw [ih, List.mem_cons]
      constructor
      · rintro ⟨hn, hr⟩
        exact ⟨.inr hn, hr⟩
      · rintro ⟨rfl | hn, hr⟩
        · exact absurd hr hm
        · exact ⟨hn, hr⟩

theorem length_mark (lines : List String) (ns : List Nat) (states : List LineState) :
    (mark lines ns states).1.length = states.length := by
  induction ns generalizing states with
  | nil => rfl
  | cons m ns ih =>
    unfold mark
    split
    · exact (ih _).trans List.length_set
    · exact ih states

theorem mark_sublist (lines : List String) (ns : List Nat) (states : List LineState) :
    (mark lines ns states).2.Sublist ns := by
  induction ns generalizing states with
  | nil => simp [mark]
  | cons m ns ih =>
    unfold mark
    split
    · exact (ih _).cons_cons m
    · exact (ih _).cons m

theorem mark_nodup (lines : List String) (ns : List Nat) (states : List LineState) :
    (mark lines ns states).2.Nodup := by
  induction ns generalizing states with
  | nil => simp [mark]
  | cons m ns ih =>
    unfold mark
    split
    · rename_i hm
      refine List.nodup_cons.2 ⟨fun hmem => ?_, ih _⟩
      -- the line has just been commented out and cannot be marked again
      have hr := (removable_iff.1 (mem_mark.1 hmem).2).1
      rw [nth?_set states m m _ (removable_nth? hm)] at hr
      simp at hr
    · exact ih states

theorem mark_eq_self {lines : List String} {ns : List Nat} {states : List LineState}
    (h : (mark lines ns states).2 = []) : (mark lines ns states).1 = states := by
  apply ext_nth?
  intro n
  rw [nth?_mark, h]
  simp

theorem mem_linesIn_mark {lines : List String} {ns : List Nat} {states : List LineState} {n : Nat}
    (h : .commentedOut ∉ states) :
    n ∈ linesIn .commentedOut 1 (mark lines ns states).1 ↔ n ∈ (mark lines ns states).2 := by
  rw [mem_linesIn_one, nth?_mark]
  constructor
  · intro hn
    split at hn
    · assumption
    · obtain ⟨i, _, hi⟩ := nth?_eq_some.1 hn
      exact absurd (List.mem_of_getElem? hi) h
  · intro hn
    rw [if_pos hn]

theorem settle_mark {lines : List String} {ns : List Nat} {states : List LineState}
    (h : .commentedOut ∉ states) : settle .intact (mark lines ns states).1 = states := by
  apply ext_nth?
  intro n
  rw [nth?_settle, nth?_mark]
  split
  · rename_i hn
    simp [(removable_iff.1 (mem_mark.1 hn).2).1]
  · cases hs : nth? states n with
    | none => rfl
    | some state =>
      have hne : state ≠ .commentedOut := by
        rintro rfl
        obtain ⟨i, _, hi⟩ := nth?_eq_some.1 hs
        exact h (List.mem_of_getElem? hi)
      simp [hne]

theorem settle_of_not_mem {r : LineState} {states : List LineState} (h : .commentedOut ∉ states) :
    settle r states = states := by
  unfold settle
  refine (List.map_congr_left fun state hs => ?_).trans (List.map_id states)
  have hne : state ≠ .commentedOut := fun hc => h (hc ▸ hs)
  simp [hne]

theorem commentedOut_not_mem_settle {r : LineState} (hr : r ≠ .commentedOut)
    (states : List LineState) : .commentedOut ∉ settle r states := by
  unfold settle
  intro hm
  obtain ⟨state, _, hs⟩ := List.mem_map.1 hm
  by_cases hc : state = .commentedOut
  · simp [hc] at hs
    exact hr hs
  · simp [hc] at hs

end Draft

end IncludeSweep
