import TraceTutor.Proofs.CLike.Classification
import TraceTutor.Proofs.CLike.Insertion

/-!
# Comments over several lines

A line-stepped program is read line by line, and so is a comment in it: a line that would be a
statement by itself is one inside of a comment as well, and the braces of a comment count. A comment
whose lines say nothing by themselves and close the blocks that they open may stand anywhere
(`run_insert_comment`); one with a statement or a brace in it may not (`run_insert_comment_ne`).

The proof takes two steps. Lines that a run passes may be exchanged for blank ones, since two such
programs are in the same state after every step (`Stepper.after_exchange`). And blank lines may be
inserted one by one.
-/

namespace TraceTutor

namespace CLike

/-! ## Silent lines -/

/-- A line that says nothing in any state: no statement, or just a closing brace. -/
def IsSilent (line : List Char) : Prop :=
  ∀ bindings, classify bindings line = .noOp ∨ classify bindings line = .unrecognized ∨
    classify bindings line = .closeBrace

theorem IsSilent.ofLine?_eq_none {line : List Char} (h : IsSilent line) :
    LoopCondition.ofLine? line = none := by
  cases hhead : LoopCondition.ofLine? line with
  | none => rfl
  | some condition =>
    have hkind := classify_of_ofLine? .empty hhead
    rcases h .empty with h | h | h <;> rw [h] at hkind <;> cases hkind

theorem isSilent_nil : IsSilent [] :=
  fun _ => .inl rfl

/-- Lines that a run passes: they say nothing, and close the blocks that they open. -/
structure IsPassage (block : List (List Char)) : Prop where
  silent : ∀ line ∈ block, IsSilent line
  closed : ClosedFrom 0 block

theorem isPassage_blank (k : Nat) : IsPassage (List.replicate k []) := by
  refine ⟨fun line hline => List.eq_of_mem_replicate hline ▸ isSilent_nil, ?_⟩
  induction k with
  | zero => rfl
  | succ k ih => exact ⟨Int.le_refl 0, ih⟩

/-- A search backward from inside a block ends in the lines that lead into it. -/
theorem exists_findHeadFrom {lines part : List (List Char)} {position : Nat}
    (hpart : Located lines position part) {depth : Int} (hdepth : 0 < depth)
    (hsum : depth ≤ (part.map braceDelta).sum) :
    ∃ head line, findHeadFrom lines depth (position + part.length) = some head ∧
      lines[head]? = some line ∧ line ∈ part := by
  induction part using List.reverseRecOn generalizing depth with
  | nil =>
    rw [List.map_nil, List.sum_nil] at hsum
    omega
  | append_singleton part last ih =>
    have hlast : lines[position + part.length]? = some last := hpart.append_right.getElem?
    have hlength : position + (part ++ [last]).length = position + part.length + 1 := by
      simp [Nat.add_assoc]
    rw [List.map_append, List.sum_append, List.map_singleton, List.sum_singleton] at hsum
    rw [hlength]
    by_cases hstop : 0 < depth - braceDelta last
    · rw [findHeadFrom_succ hlast hstop]
      obtain ⟨head, line, hfind, hline, hmem⟩ := ih hpart.append_left hstop (by omega)
      exact ⟨head, line, hfind, hline, List.mem_append_left _ hmem⟩
    · rw [findHeadFrom, hlast]
      exact ⟨_, last, if_pos (show depth - braceDelta last ≤ 0 by omega), hlast, by simp⟩

theorem lt_of_findHeadFrom {lines : List (List Char)} {depth : Int} {position head : Nat}
    (h : findHeadFrom lines depth position = some head) : head < position := by
  induction position generalizing depth with
  | zero => cases h
  | succ position ih =>
    rw [findHeadFrom] at h
    split at h
    · cases h
      exact Nat.lt_succ_self _
    · exact (ih h).trans (Nat.lt_succ_self _)

/-- A search backward only looks at the lines above it. -/
theorem findHeadFrom_append {before : List (List Char)} {position : Nat}
    (hle : position ≤ before.length) (depth : Int) (rest : List (List Char)) :
    findHeadFrom (before ++ rest) depth position = findHeadFrom before depth position := by
  induction position generalizing depth with
  | zero => rfl
  | succ position ih =>
    rw [findHeadFrom, findHeadFrom, List.getElem?_append_left hle]
    rw [ih (by omega)]

namespace Stepper

/-- A closing brace among lines that a run passes leads to no loop. -/
theorem step_of_isPassage {lines block : List (List Char)} {position : Nat}
    (hblock : Located lines position block) (h : IsPassage block) {s : Stepper}
    (hc : position ≤ s.cursor) (hc' : s.cursor < position + block.length) :
    s.step lines = s.moveOn := by
  obtain ⟨first, line, rest, rfl, hlength⟩ : ∃ first line rest,
      block = first ++ line :: rest ∧ position + first.length = s.cursor := by
    refine ⟨block.take (s.cursor - position), block[s.cursor - position],
      block.drop (s.cursor - position + 1), ?_, ?_⟩
    · rw [List.getElem_cons_drop, List.take_append_drop]
    · rw [List.length_take]
      omega
  have hline : lines[s.cursor]? = some line := hlength ▸ hblock.append_right.getElem?
  rw [step_eq_apply hline]
  obtain hkind | hkind | hkind := h.silent line (by simp) s.bindings
  · rw [hkind]
    rfl
  · rw [hkind]
    rfl
  · have hdelta : braceDelta line = -1 :=
      braceDelta_of_countBraces (countBraces_of_trim_eq (trim_of_classify hkind))
    have hsum := h.closed.sum_nonneg
    obtain ⟨head, opener, hfind, hopener, hmem⟩ :=
      exists_findHeadFrom hblock.append_left Int.zero_lt_one (by omega)
    have hin : s.cursor ≤ lines.length := (List.getElem?_eq_some_iff.1 hline).1.le
    have hnone : s.backTarget? lines = none := by
      rw [backTarget?, findHead, Nat.min_eq_left hin, ← hlength, hfind]
      simp [hopener, (h.silent opener (List.mem_append_left _ hmem)).ofLine?_eq_none]
    rw [hkind, apply, closeBlock, hnone]

end Stepper

/-! ## Exchange -/

section Exchange

variable {before block block' after : List (List Char)} (h : IsPassage block)
  (h' : IsPassage block') (hlength : block'.length = block.length)

/-- A position that is not among the lines that are exchanged. -/
def IsOff (before block : List (List Char)) (position : Nat) : Prop :=
  position < before.length ∨ before.length + block.length ≤ position

include hlength in
theorem getElem?_exchange {position : Nat} (hoff : IsOff before block position) :
    (before ++ (block' ++ after))[position]? = (before ++ (block ++ after))[position]? := by
  obtain hlt | hle := hoff
  · rw [List.getElem?_append_left hlt, List.getElem?_append_left hlt]
  · have hpast : ∀ b : List (List Char), b.length = block.length →
        (before ++ (b ++ after))[position]? = after[position - before.length - block.length]? := by
      intro b hb
      rw [List.getElem?_append_right (by omega), List.getElem?_append_right (by omega), hb]
    rw [hpast block rfl, hpast block' hlength]

include h h' hlength

theorem bodyLength_exchange (first : List (List Char)) {depth : Int} (hdepth : 0 < depth) :
    bodyLength depth (first ++ (block' ++ after)) =
      bodyLength depth (first ++ (block ++ after)) := by
  induction first generalizing depth with
  | nil =>
    have hpass := bodyLength_of_closedFrom h.closed hdepth after
    have hpass' := bodyLength_of_closedFrom h'.closed hdepth after
    rw [Int.add_zero] at hpass hpass'
    rw [List.nil_append, List.nil_append, hpass, hpass', hlength]
  | cons line first ih =>
    rw [List.cons_append, List.cons_append, bodyLength, bodyLength]
    split
    · rfl
    · rw [ih (by omega)]

theorem skipBody_exchange {position : Nat} (hoff : IsOff before block position) :
    skipBody (before ++ (block' ++ after)) position =
      skipBody (before ++ (block ++ after)) position := by
  unfold skipBody
  obtain hlt | hle := hoff
  · have hdrop : ∀ rest,
        (before ++ rest).drop (position + 1) = before.drop (position + 1) ++ rest :=
      fun rest => List.drop_append_of_le_length hlt
    rw [hdrop, hdrop, bodyLength_exchange h h' hlength _ Int.zero_lt_one]
  · have hdrop : ∀ b : List (List Char), b.length = block.length →
        (before ++ (b ++ after)).drop (position + 1) =
          after.drop (position + 1 - before.length - block.length) := by
      intro b hb
      rw [← List.append_assoc, List.drop_append, List.drop_eq_nil_of_le (by simp; omega),
        List.nil_append, List.length_append, hb, Nat.sub_sub]
    rw [hdrop block rfl, hdrop block' hlength]

/-- A search backward ends at the same position in both programs, on none of the exchanged lines. -/
theorem findHeadFrom_exchange (after : List (List Char)) {depth : Int} (hdepth : 0 < depth)
    {position : Nat}
    (hoff : position ≤ before.length ∨ before.length + block.length ≤ position) :
    findHeadFrom (before ++ (block' ++ after)) depth position =
      findHeadFrom (before ++ (block ++ after)) depth position ∧
    ∀ head, findHeadFrom (before ++ (block ++ after)) depth position = some head →
      IsOff before block head := by
  have habove : ∀ {depth : Int} {position : Nat}, position ≤ before.length →
      findHeadFrom (before ++ (block' ++ after)) depth position =
        findHeadFrom (before ++ (block ++ after)) depth position ∧
      ∀ head, findHeadFrom (before ++ (block ++ after)) depth position = some head →
        IsOff before block head := by
    intro depth position hle
    rw [findHeadFrom_append hle, findHeadFrom_append hle]
    exact ⟨rfl, fun head hhead => .inl ((lt_of_findHeadFrom hhead).trans_le hle)⟩
  obtain hle | hle := hoff
  · exact habove hle
  induction position, hle using Nat.le_induction generalizing depth with
  | base =>
    have hpass : ∀ b, IsPassage b → findHeadFrom (before ++ (b ++ after)) depth
        (before.length + b.length) = findHeadFrom (before ++ (b ++ after)) depth before.length := by
      intro b hb
      have hblock : Located (before ++ (b ++ after)) before.length b :=
        ⟨before, after, by simp, rfl⟩
      rw [findHeadFrom_of_closedFrom hb.closed (Int.le_refl 0) hblock hdepth, Int.add_zero]
    have hpass' := hpass block' h'
    rw [hlength] at hpass'
    rw [hpass', hpass block h]
    exact habove (Nat.le_refl _)
  | succ position hle ih =>
    have hoff : IsOff before block position := .inr hle
    rw [findHeadFrom, findHeadFrom, getElem?_exchange hlength hoff]
    split
    · refine ⟨rfl, fun head hhead => ?_⟩
      cases hhead
      exact hoff
    · exact ih (by omega)

namespace Stepper

/-- Both programs make the same step: on exchanged lines both move on, and elsewhere both searches
pass these. -/
theorem step_exchange (s : Stepper) :
    s.step (before ++ (block' ++ after)) = s.step (before ++ (block ++ after)) := by
  by_cases hoff : IsOff before block s.cursor
  · have hsame : (before ++ (block' ++ after))[s.cursor]? =
        (before ++ (block ++ after))[s.cursor]? := getElem?_exchange hlength hoff
    unfold step
    rw [hsame]
    split
    next line hline =>
      cases classify s.bindings line with
      | loopHead condition =>
        unfold apply enterLoop
        rw [skipBody_exchange h h' hlength hoff]
      | closeBrace =>
        have hin := (List.getElem?_eq_some_iff.1 hline).1.le
        have hin' := (List.getElem?_eq_some_iff.1 (hsame.trans hline)).1.le
        obtain ⟨hfind, hhead⟩ := findHeadFrom_exchange h h' hlength after Int.zero_lt_one
          (hoff.imp_left Nat.le_of_lt)
        unfold apply closeBlock backTarget? findHead
        rw [Nat.min_eq_left hin, Nat.min_eq_left hin', hfind]
        generalize findHeadFrom (before ++ (block ++ after)) 1 s.cursor = head? at hhead ⊢
        cases head? with
        | none => rfl
        | some head =>
          simp only [Option.bind_eq_bind, Option.bind_some,
            getElem?_exchange hlength (hhead head rfl)]
      | noOp | unrecognized | declare | assign | increment | addAssign | output | factorialCall =>
        rfl
    next => rfl
  · unfold IsOff at hoff
    have hpass : ∀ b : List (List Char), IsPassage b → b.length = block.length →
        s.step (before ++ (b ++ after)) = s.moveOn := fun b hb hlength =>
      step_of_isPassage ⟨before, after, by simp, rfl⟩ hb (by omega) (by omega)
    rw [hpass block' h' hlength, hpass block h rfl]

/-- Two programs that differ in lines that a run passes are in the same state after every step. -/
theorem after_exchange (s : Stepper) (n : Nat) :
    s.after (before ++ (block' ++ after)) n = s.after (before ++ (block ++ after)) n := by
  induction n generalizing s with
  | zero => rfl
  | succ n ih => rw [after_succ, after_succ, step_exchange h h' hlength, ih]

end Stepper

end Exchange

/-! ## Blank lines -/

/-- Where a program ends, the same program with blank lines in it ends as well. -/
theorem Stepper.exists_end_blank {before after : List (List Char)} {n : Nat}
    (hend : (initial.after (before ++ after) n).isRunning (before ++ after) = false) (k : Nat) :
    ∃ m, (initial.after (before ++ (List.replicate (k + 1) [] ++ after)) m).isRunning
        (before ++ (List.replicate (k + 1) [] ++ after)) = false ∧
      (initial.after (before ++ after) n).recorder.trace.Renumbered
        (lineShifted before.length (k + 1))
        (initial.after (before ++ (List.replicate (k + 1) [] ++ after)) m).recorder.trace ∧
      (initial.after (before ++ (List.replicate (k + 1) [] ++ after)) m).recorder.output =
        (initial.after (before ++ after) n).recorder.output := by
  have hinert : ∀ bindings, classify bindings [] = .noOp ∨ classify bindings [] = .unrecognized :=
    fun _ => .inl rfl
  have hline : braceDelta [] = 0 := rfl
  induction k with
  | zero =>
    obtain ⟨m, hstop, hmoved⟩ := exists_end_insert hinert hline hend
    exact ⟨m, hstop, hmoved.recorder.trace, hmoved.recorder.output_eq⟩
  | succ k ih =>
    obtain ⟨m, hstop, htrace, houtput⟩ := ih
    obtain ⟨m', hstop', hmoved⟩ := exists_end_insert hinert hline hstop
    refine ⟨m', hstop', ?_, hmoved.recorder.output_eq.trans houtput⟩
    rw [← lineShifted_comp]
    exact htrace.trans hmoved.recorder.trace

/-! ## Comments -/

/-- A comment between `/*` and `*/` that takes up whole lines. -/
structure IsBlockComment (comment : List (List Char)) : Prop where
  opens : ∃ first ∈ comment.head?, "/*".toList <+: Text.trim first
  closes : ∃ last ∈ comment.getLast?, "*/".toList <:+ last ∧
    Text.occursIn "*/".toList last.dropLast = false
  inside : ∀ line ∈ comment.dropLast, Text.occursIn "*/".toList line = false

theorem isSilent_of_opens {line : List Char} (h : "/*".toList <+: Text.trim line) :
    IsSilent line := by
  intro bindings
  have hstart : "/*".toList.isPrefixOf (Text.trim line) = true := List.isPrefixOf_iff_prefix.2 h
  have hinert : isInert (Text.trim line) = true :=
    Bool.or_eq_true_iff.2 (.inr (List.any_eq_true.2 ⟨"/*", by simp, hstart⟩))
  rw [classify, classifyTrimmed, if_pos hinert]
  exact .inl rfl

/-- A comment is passed if its lines say nothing by themselves and close the blocks that they
open. -/
theorem IsBlockComment.isPassage {comment : List (List Char)} (h : IsBlockComment comment)
    (hsilent : ∀ line ∈ comment.tail, IsSilent line) (hclosed : ClosedFrom 0 comment) :
    IsPassage comment := by
  obtain ⟨first, hfirst, hopens⟩ := h.opens
  obtain ⟨rest, rfl⟩ := List.head?_eq_some_iff.1 hfirst
  exact ⟨List.forall_mem_cons.2 ⟨isSilent_of_opens hopens, hsilent⟩, hclosed⟩

/-- A comment over whole lines, inserted anywhere, changes nothing about a run but the numbers of
the lines below it, if its lines say nothing by themselves and close the blocks that they open. -/
theorem run_insert_comment {before comment after : List (List Char)}
    (hcomment : IsBlockComment comment) (hsilent : ∀ line ∈ comment.tail, IsSilent line)
    (hclosed : ClosedFrom 0 comment) {limits limits' : Limits} {source source' : String}
    (hsource : Text.lines source.toList = before ++ after)
    (hsource' : Text.lines source'.toList = before ++ (comment ++ after))
    (huncut : (run limits source).truncated = false)
    (huncut' : (run limits' source').truncated = false) :
    (run limits' source').output = (run limits source).output ∧
    ((run limits source).trace.Renumbered (lineShifted before.length comment.length)
        (run limits' source').trace ∨
      (run limits source).trace = [placeholder] ∧
        (run limits' source').trace = [placeholder]) := by
  obtain ⟨k, hk⟩ : ∃ k, comment.length = k + 1 := by
    obtain ⟨first, hfirst, -⟩ := hcomment.opens
    obtain ⟨rest, rfl⟩ := List.head?_eq_some_iff.1 hfirst
    exact ⟨rest.length, rfl⟩
  have hlength : comment.length = (List.replicate (k + 1) ([] : List Char)).length := by simpa
  rw [run_truncated, finalState, hsource] at huncut
  obtain ⟨m, hstop, htrace, houtput⟩ := Stepper.exists_end_blank huncut k
  -- With the comment in place of the blank lines, all states are the same.
  have hsame : Stepper.initial.after (before ++ (comment ++ after)) m =
      Stepper.initial.after (before ++ (List.replicate (k + 1) [] ++ after)) m :=
    Stepper.after_exchange (isPassage_blank (k + 1)) (hcomment.isPassage hsilent hclosed) hlength
      .initial m
  rw [← hsame, ← hsource'] at htrace houtput
  have hstop' : (Stepper.initial.after (Text.lines source'.toList) m).isRunning
      (Text.lines source'.toList) = false := by
    rw [hsource', hsame, ← hstop]
    simp [Stepper.isRunning, hk]
  have hfinal := finalState_eq (run_truncated limits' source' ▸ huncut') hstop'
  rw [← hfinal, ← hsource, ← finalState] at htrace houtput
  rw [run_output, run_output, houtput, run_trace, run_trace, hk]
  exact ⟨rfl, orPlaceholder_rel htrace⟩

/-- The lines of a program that counts to two, up to the head of its loop. -/
def countToTwoStart : List String :=
  ["int i = 0;", "while (i < 2) \x7b"]

/-- The lines of the same program after the head of its loop. -/
def countToTwoEnd : List String :=
  ["  i++;", "\x7d"]

/-- The program with more lines at the start of its loop. -/
def countToTwo (more : List String) : String :=
  String.join ((countToTwoStart ++ (more ++ countToTwoEnd)).map (· ++ "\n"))

/-- A comment on a block, which is closed in it. -/
def blockInComment : List String :=
  ["  /* if (i) \x7b", "  print", "  \x7d", "  */"]

theorem run_insert_comment_countToTwo :
    (run ⟨50, 0, 0⟩ (countToTwo [])).truncated = false ∧
    (run ⟨50, 0, 0⟩ (countToTwo blockInComment)).truncated = false ∧
    ((run ⟨50, 0, 0⟩ (countToTwo [])).trace.Renumbered (lineShifted 2 4)
        (run ⟨50, 0, 0⟩ (countToTwo blockInComment)).trace ∨
      (run ⟨50, 0, 0⟩ (countToTwo [])).trace = [placeholder] ∧
        (run ⟨50, 0, 0⟩ (countToTwo blockInComment)).trace = [placeholder]) ∧
    (run ⟨50, 0, 0⟩ (countToTwo [])).trace.map Snapshot.line = [1, 2, 3, 2, 3] ∧
    (run ⟨50, 0, 0⟩ (countToTwo blockInComment)).trace.map Snapshot.line = [1, 2, 7, 2, 7] := by
  have hcomment : IsBlockComment (blockInComment.map String.toList) :=
    ⟨⟨_, rfl, by decide⟩, ⟨_, rfl, by decide, by decide⟩, by decide⟩
  have hsilent : ∀ line ∈ (blockInComment.map String.toList).tail, IsSilent line := by
    simp only [blockInComment, List.map_cons, List.map_nil, List.tail_cons, List.forall_mem_cons,
      List.not_mem_nil, IsEmpty.forall_iff, implies_true, and_true]
    exact ⟨fun _ => .inr (.inl rfl), fun _ => .inr (.inr rfl), fun _ => .inr (.inl rfl)⟩
  have hsource : Text.lines (countToTwo []).toList =
      countToTwoStart.map String.toList ++ countToTwoEnd.map String.toList := by
    decide +kernel
  have hsource' : Text.lines (countToTwo blockInComment).toList =
      countToTwoStart.map String.toList ++
        (blockInComment.map String.toList ++ countToTwoEnd.map String.toList) := by
    decide +kernel
  have hshort : (run ⟨50, 0, 0⟩ (countToTwo [])).truncated = false ∧
      (run ⟨50, 0, 0⟩ (countToTwo [])).trace.map Snapshot.line = [1, 2, 3, 2, 3] := by
    decide +kernel
  have hlong : (run ⟨50, 0, 0⟩ (countToTwo blockInComment)).truncated = false ∧
      (run ⟨50, 0, 0⟩ (countToTwo blockInComment)).trace.map Snapshot.line = [1, 2, 7, 2, 7] := by
    decide +kernel
  have hsame := run_insert_comment hcomment hsilent (by decide) hsource hsource' hshort.1 hlong.1
  exact ⟨hshort.1, hlong.1, hsame.2, hshort.2, hlong.2⟩

/-- A statement in a comment is executed, and a brace in a comment is taken for the end of a
block. -/
theorem run_insert_comment_ne :
    (Text.lines (countToTwo []).toList =
        countToTwoStart.map String.toList ++ countToTwoEnd.map String.toList ∧
      (run ⟨50, 0, 0⟩ (countToTwo [])).truncated = false) ∧
    (IsBlockComment ["/*".toList, "cout << 1;".toList, "*/".toList] ∧
      Text.lines (countToTwo ["/*", "cout << 1;", "*/"]).toList =
        countToTwoStart.map String.toList ++
          (["/*".toList, "cout << 1;".toList, "*/".toList] ++ countToTwoEnd.map String.toList) ∧
      (run ⟨50, 0, 0⟩ (countToTwo ["/*", "cout << 1;", "*/"])).truncated = false ∧
      (run ⟨50, 0, 0⟩ (countToTwo ["/*", "cout << 1;", "*/"])).output ≠
        (run ⟨50, 0, 0⟩ (countToTwo [])).output) ∧
    IsBlockComment ["/* \x7d */".toList] ∧
      Text.lines (countToTwo ["/* \x7d */"]).toList =
        countToTwoStart.map String.toList ++
          (["/* \x7d */".toList] ++ countToTwoEnd.map String.toList) ∧
      (run ⟨50, 0, 0⟩ (countToTwo ["/* \x7d */"])).truncated = false ∧
      (run ⟨50, 0, 0⟩ (countToTwo ["/* \x7d */"])).trace.length ≠
        (run ⟨50, 0, 0⟩ (countToTwo [])).trace.length := by
  have hstatement : IsBlockComment ["/*".toList, "cout << 1;".toList, "*/".toList] :=
    ⟨⟨_, rfl, by decide⟩, ⟨_, rfl, by decide, by decide⟩, by decide⟩
  have hbrace : IsBlockComment ["/* \x7d */".toList] :=
    ⟨⟨_, rfl, by decide⟩, ⟨_, rfl, by decide, by decide⟩, by decide⟩
  refine ⟨?_, ⟨hstatement, ?_⟩, hbrace, ?_⟩
  all_goals decide +kernel

end CLike

end TraceTutor
