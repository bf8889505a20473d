import TraceTutor.Proofs.CLike.Classification
import TraceTutor.Proofs.CLike.Nesting
import TraceTutor.Proofs.CLike.Run
import TraceTutor.Proofs.Except

/-!
# Structured programs

The stepper knows no syntax: it searches for braces whenever it enters a loop or meets a closing
brace. `Outline` is the syntax of programs whose blocks are nested as usual, and `Outline.run` runs
them as such, with no search. `run_of_outline` shows that both agree, by a simulation: the stepper
reaches what the structured run of a part yields (`Outline.reaches_run`).

A loop may go on forever, so a structured run takes the number of rounds after which a loop is given
up. That number matters to no run that ends (`Outline.run_of_le`), and any number above the iteration
cap will do for a simulation.
-/

namespace TraceTutor

namespace CLike

/-! ## Outlines -/

/-- Lines with their block structure. -/
inductive Outline where
  | done
  /-- A line without braces. -/
  | plain (line : List Char) (hline : countBraces line = (0, 0)) (rest : Outline)
  | loop (head : List Char) (condition : LoopCondition)
      (hhead : LoopCondition.ofLine? head = some condition) (body : Outline)
      (close : List Char) (hclose : Text.trim close = ['}']) (rest : Outline)
  /-- A block that only groups lines. -/
  | block (opener : List Char) (hopener : countBraces opener = (1, 0))
      (hhead : LoopCondition.ofLine? opener = none)
      (hinert : ∀ bindings,
        classify bindings opener = .noOp ∨ classify bindings opener = .unrecognized)
      (body : Outline) (close : List Char) (hclose : Text.trim close = ['}']) (rest : Outline)

/-- Runs a body as long as a condition holds, and shows each time that it does. A loop that would
need more rounds is given up. -/
def repeatWhile (condition : LoopCondition) (body : Stepper → Except Stepper Stepper) :
    Nat → Stepper → Except Stepper Stepper
  | 0, s => if condition.holds s.bindings then .error s else .ok s
  | n + 1, s =>
    if condition.holds s.bindings then do
      let s' ← body (s.captureHead condition).moveOn
      repeatWhile condition body n (s'.moveTo s.cursor)
    else .ok s

theorem repeatWhile_of_not_holds {condition : LoopCondition} {s : Stepper}
    (h : ¬ condition.holds s.bindings = true) (body : Stepper → Except Stepper Stepper) (n : Nat) :
    repeatWhile condition body n s = .ok s := by
  cases n <;> exact if_neg h

theorem repeatWhile_of_le {condition : LoopCondition} {body body' : Stepper → Except Stepper Stepper}
    (hbody : ∀ s s', body s = .ok s' → body' s = .ok s') {n m : Nat} (h : n ≤ m) {s s' : Stepper}
    (hs : repeatWhile condition body n s = .ok s') : repeatWhile condition body' m s = .ok s' := by
  induction n generalizing m s with
  | zero =>
    by_cases hholds : condition.holds s.bindings = true
    · rw [repeatWhile, if_pos hholds] at hs
      cases hs
    · rw [repeatWhile_of_not_holds hholds] at hs ⊢
      exact hs
  | succ n ih =>
    obtain ⟨k, rfl⟩ : ∃ k, m = k + 1 := ⟨m - 1, by omega⟩
    by_cases hholds : condition.holds s.bindings = true
    · rw [repeatWhile, if_pos hholds] at hs ⊢
      obtain ⟨s₁, hround, hrest⟩ := except_bind_eq_ok_iff.1 hs
      exact except_bind_eq_ok_iff.2 ⟨s₁, hbody _ _ hround, ih (by omega) hrest⟩
    · rw [repeatWhile_of_not_holds hholds] at hs ⊢
      exact hs

namespace Outline

/-- The lines of an outline. -/
def lines : Outline → List (List Char)
  | done => []
  | plain line _ rest => line :: rest.lines
  | loop head _ _ body close _ rest => head :: (body.lines ++ close :: rest.lines)
  | block opener _ _ _ body close _ rest => opener :: (body.lines ++ close :: rest.lines)

/-- Runs structured code whose first line is under the cursor. The result is the state after its
last line, or the state in which a loop was given up. -/
def run (rounds : Nat) : Outline → Stepper → Except Stepper Stepper
  | done, s => .ok s
  | plain line _ rest, s => rest.run rounds (s.effect (classify s.bindings line)).moveOn
  | loop _ condition _ body _ _ rest, s => do
    let left ← repeatWhile condition (body.run rounds) rounds s
    rest.run rounds (left.moveTo (s.cursor + body.lines.length + 2))
  | block _ _ _ _ body _ _ rest, s => do
    let s ← body.run rounds s.moveOn
    rest.run rounds s.moveOn

/-- More rounds change nothing about a run that gave up no loop. -/
theorem run_of_le {code : Outline} {n m : Nat} (h : n ≤ m) {s s' : Stepper}
    (hs : code.run n s = .ok s') : code.run m s = .ok s' := by
  induction code generalizing s s' with
  | done => exact hs
  | plain line hline rest ih => exact ih hs
  | loop head condition hhead body close hclose rest ihBody ihRest =>
    obtain ⟨left, hloop, hrest⟩ := except_bind_eq_ok_iff.1 hs
    exact except_bind_eq_ok_iff.2
      ⟨left, repeatWhile_of_le (fun _ _ => ihBody) h hloop, ihRest hrest⟩
  | block opener hopener hhead hinert body close hclose rest ihBody ihRest =>
    obtain ⟨left, hblock, hrest⟩ := except_bind_eq_ok_iff.1 hs
    exact except_bind_eq_ok_iff.2 ⟨left, ihBody hblock, ihRest hrest⟩

theorem balanced (code : Outline) : Balanced code.lines := by
  induction code with
  | done => exact .nil
  | plain line hline rest ih => exact .plain hline ih
  | loop head condition hhead body close hclose rest ihBody ihRest =>
    exact .block (countBraces_of_ofLine? hhead) ihBody (countBraces_of_trim_eq hclose) ihRest
  | block opener hopener hhead hinert body close hclose rest ihBody ihRest =>
    exact .block hopener ihBody (countBraces_of_trim_eq hclose) ihRest

end Outline

/-! ## Steps on structured lines -/

namespace Stepper

variable {s : Stepper} {lines : List (List Char)}

theorem cursor_moveOn (s : Stepper) : s.moveOn.cursor = s.cursor + 1 := rfl

theorem cursor_effect (s : Stepper) (statement : Statement) :
    (s.effect statement).cursor = s.cursor := by
  cases statement <;> rfl

theorem step_plain {line : List Char} (hcursor : lines[s.cursor]? = some line)
    (hline : countBraces line = (0, 0)) :
    s.step lines = (s.effect (classify s.bindings line)).moveOn := by
  rw [step_eq_apply hcursor]
  cases hkind : classify s.bindings line with
  | loopHead condition =>
    have h := countBraces_of_ofLine? (ofLine?_of_classify hkind)
    rw [hline] at h
    cases h
  | closeBrace =>
    have h := countBraces_of_trim_eq (trim_of_classify hkind)
    rw [hline] at h
    cases h
  | _ => rfl

theorem step_opener {line : List Char} (hcursor : lines[s.cursor]? = some line)
    (hinert : ∀ bindings,
      classify bindings line = .noOp ∨ classify bindings line = .unrecognized) :
    s.step lines = s.moveOn := by
  rw [step_eq_apply hcursor]
  obtain h | h := hinert s.bindings
  · rw [h]
    rfl
  · rw [h]
    rfl

theorem step_head {line : List Char} {condition : LoopCondition}
    (hcursor : lines[s.cursor]? = some line)
    (hhead : LoopCondition.ofLine? line = some condition) :
    s.step lines = s.enterLoop lines condition := by
  rw [step_eq_apply hcursor, classify_of_ofLine? _ hhead]
  rfl

theorem step_close {line : List Char} (hcursor : lines[s.cursor]? = some line)
    (hclose : Text.trim line = ['}']) : s.step lines = s.closeBlock lines := by
  rw [step_eq_apply hcursor, classify_of_trim _ hclose]
  rfl

end Stepper

/-! ## The simulation -/

/-- The stepper gets from a state to what a structured run yields, with the cursor at the exit. If
the run gave up a loop, that takes at least so many steps and leads to a state that goes on. -/
def Reaches (lines : List (List Char)) (least : Nat) (s : Stepper) (exit : Nat) :
    Except Stepper Stepper → Prop
  | .ok s' => s'.cursor = exit ∧ ∃ n, s.after lines n = s'
  | .error s' => s'.isRunning lines = true ∧ ∃ n ≥ least, s.after lines n = s'

namespace Reaches

variable {lines : List (List Char)} {least exit : Nat} {s : Stepper}
  {result : Except Stepper Stepper}

/-- Steps before count. -/
theorem of_after {m : Nat} (h : Reaches lines least (s.after lines m) exit result) :
    Reaches lines (least + m) s exit result := by
  cases result with
  | ok s' =>
    obtain ⟨hexit, n, hafter⟩ := h
    exact ⟨hexit, m + n, by rw [Stepper.after_add, hafter]⟩
  | error s' =>
    obtain ⟨hrunning, n, hn, hafter⟩ := h
    exact ⟨hrunning, m + n, by omega, by rw [Stepper.after_add, hafter]⟩

theorem of_step (h : Reaches lines least (s.step lines) exit result) :
    Reaches lines (least + 1) s exit result := by
  rw [← Stepper.after_zero (s.step lines) lines, ← Stepper.after_succ] at h
  exact h.of_after

theorem weaken {more : Nat} (h : least ≤ more) (hs : Reaches lines more s exit result) :
    Reaches lines least s exit result := by
  cases result with
  | ok s' => exact hs
  | error s' =>
    obtain ⟨hrunning, n, hn, hafter⟩ := hs
    exact ⟨hrunning, n, by omega, hafter⟩

theorem bind {middle : Nat} {f : Stepper → Except Stepper Stepper}
    (hs : Reaches lines least s middle result)
    (hf : ∀ s', s'.cursor = middle → Reaches lines least s' exit (f s')) :
    Reaches lines least s exit (result >>= f) := by
  cases result with
  | error s' => exact hs
  | ok s' =>
    obtain ⟨hmiddle, m, rfl⟩ := hs
    exact (hf _ hmiddle).of_after.weaken (Nat.le_add_right least m)

end Reaches

section Block

variable {lines : List (List Char)} {head : Nat} {opener close : List Char} {body : Outline}
  (hlines : Located lines head (opener :: (body.lines ++ [close])))
  (hopener : countBraces opener = (1, 0)) (hclose : Text.trim close = ['}'])

include hlines hopener hclose in
/-- The brace of a block leads back to its opener if that is the head of a loop that goes on. -/
theorem step_block_close {s : Stepper} (hs : s.cursor = head + 1 + body.lines.length) :
    s.step lines =
      if (LoopCondition.ofLine? opener).any (·.holds s.bindings) then s.moveTo head
      else s.moveOn := by
  have hend : lines[s.cursor]? = some close := hs ▸ hlines.tail.append_right.getElem?
  have hinner : Located lines head ((opener :: body.lines) ++ [close]) := hlines
  have hfind : findHead lines s.cursor = some head :=
    hs ▸ findHead_of_balanced body.balanced hopener hinner.append_left
  rw [Stepper.step_close hend hclose, Stepper.closeBlock, Stepper.backTarget?, hfind]
  simp only [Option.bind_eq_bind, Option.bind_some, hlines.getElem?]
  cases LoopCondition.ofLine? opener with
  | none => rfl
  | some condition =>
    by_cases hholds : condition.holds s.bindings = true <;> simp [hholds]

end Block

section Loop

variable {lines : List (List Char)} {rounds head : Nat} {opener close : List Char}
  {condition : LoopCondition} {body : Outline}
  (hlines : Located lines head (opener :: (body.lines ++ [close])))
  (hopener : LoopCondition.ofLine? opener = some condition) (hclose : Text.trim close = ['}'])
  (hbody : ∀ s : Stepper, s.cursor = head + 1 →
    Reaches lines rounds s (head + 1 + body.lines.length) (body.run rounds s))

include hlines hopener in
theorem step_loop_head {s : Stepper} (hs : s.cursor = head)
    (hholds : condition.holds s.bindings = true) :
    s.step lines = (s.captureHead condition).moveOn := by
  rw [Stepper.step_head (hs ▸ hlines.getElem?) hopener, Stepper.enterLoop, if_pos hholds]

include hlines hopener hclose in
theorem step_loop_skip {s : Stepper} (hs : s.cursor = head)
    (hholds : ¬ condition.holds s.bindings = true) :
    s.step lines = s.moveTo (head + body.lines.length + 2) := by
  rw [Stepper.step_head (hs ▸ hlines.getElem?) hopener, Stepper.enterLoop, if_neg hholds, hs,
    skipBody_of_balanced body.balanced (countBraces_of_trim_eq hclose) hlines.tail]

include hlines hopener hclose hbody in
/-- A repetition is simulated from the head of its loop to the line after it. By induction on the
rounds that are left: the brace goes back to the head exactly if another round follows. -/
theorem reaches_repeatWhile {n : Nat} (hn : n ≤ rounds) {s : Stepper} (hs : s.cursor = head) :
    Reaches lines n s (head + body.lines.length + 2)
      ((·.moveTo (head + body.lines.length + 2)) <$>
        repeatWhile condition (body.run rounds) n s) := by
  induction n generalizing s with
  | zero =>
    by_cases hholds : condition.holds s.bindings = true
    · have hlength := hlines.length_le
      rw [List.length_cons] at hlength
      rw [repeatWhile, if_pos hholds]
      exact ⟨Stepper.isRunning_iff.2 (by omega), 0, Nat.le_refl 0, rfl⟩
    · rw [repeatWhile_of_not_holds hholds]
      exact ⟨rfl, 1, step_loop_skip hlines hopener hclose hs hholds⟩
  | succ n ih =>
    by_cases hholds : condition.holds s.bindings = true
    · rw [repeatWhile, if_pos hholds, map_bind, hs]
      have hround := hbody (s.captureHead condition).moveOn (congrArg (· + 1) hs)
      rw [← step_loop_head hlines hopener hs hholds] at hround ⊢
      refine Reaches.of_step ((hround.weaken (by omega)).bind fun s' hs' => ?_)
      have hback := step_block_close hlines (countBraces_of_ofLine? hopener) hclose hs'
      rw [hopener, Option.any_some] at hback
      by_cases hagain : condition.holds s'.bindings = true
      · rw [if_pos hagain] at hback
        have hrest := ih (by omega) (s := s'.moveTo head) rfl
        rw [← hback] at hrest ⊢
        exact hrest.of_step.weaken (by omega)
      · rw [if_neg hagain] at hback
        rw [repeatWhile_of_not_holds (s := s'.moveTo head) hagain]
        have hexit : head + 1 + body.lines.length + 1 = head + body.lines.length + 2 := by omega
        rw [Stepper.moveOn, hs', hexit] at hback
        exact ⟨rfl, 1, hback⟩
    · rw [repeatWhile_of_not_holds hholds]
      exact ⟨rfl, 1, step_loop_skip hlines hopener hclose hs hholds⟩

end Loop

/-- The stepper reaches what a structured run of the lines under the cursor yields. -/
theorem Outline.reaches_run {lines : List (List Char)} {rounds position : Nat} (code : Outline)
    {s : Stepper} (hs : s.cursor = position) (hlines : Located lines position code.lines) :
    Reaches lines rounds s (position + code.lines.length) (code.run rounds s) := by
  induction code generalizing s position with
  | done => exact ⟨hs, 0, rfl⟩
  | plain line hline rest ih =>
    have hstep := Stepper.step_plain (hs ▸ hlines.getElem?) hline
    have hcursor : (s.effect (classify s.bindings line)).moveOn.cursor = position + 1 := by
      rw [Stepper.cursor_moveOn, Stepper.cursor_effect, hs]
    have hrest := ih hcursor hlines.tail
    have hexit : position + (plain line hline rest).lines.length =
        position + 1 + rest.lines.length := by
      rw [Outline.lines, List.length_cons]
      omega
    rw [← hstep] at hrest
    rw [hexit, run, ← hstep]
    exact hrest.of_step.weaken (Nat.le_succ rounds)
  | loop head condition hhead body close hclose rest ihBody ihRest =>
    obtain ⟨hblock, hafter⟩ := hlines.block
    have hinner : Located lines (position + 1) body.lines := hblock.tail.append_left
    have hloop := reaches_repeatWhile hblock hhead hclose (fun s hs => ihBody hs hinner)
      (Nat.le_refl rounds) hs
    have hboth := hloop.bind fun s' hs' => ihRest hs' hafter
    have hexit : position + (loop head condition hhead body close hclose rest).lines.length =
        position + body.lines.length + 2 + rest.lines.length := by
      simp only [Outline.lines, List.length_cons, List.length_append]
      omega
    rw [bind_map_left] at hboth
    rw [hexit, run, hs]
    exact hboth
  | block opener hopener hhead hinert body close hclose rest ihBody ihRest =>
    obtain ⟨hblock, hafter⟩ := hlines.block
    have hstep := Stepper.step_opener (hs ▸ hblock.getElem?) hinert
    have hmove : s.moveOn.cursor = position + 1 := by
      rw [Stepper.cursor_moveOn, hs]
    have hbody := ihBody hmove hblock.tail.append_left
    have hexit : position +
        (block opener hopener hhead hinert body close hclose rest).lines.length =
        position + body.lines.length + 2 + rest.lines.length := by
      simp only [Outline.lines, List.length_cons, List.length_append]
      omega
    rw [← hstep] at hbody
    rw [hexit, run, ← hstep]
    refine (hbody.bind fun s' hs' => ?_).of_step.weaken (Nat.le_succ rounds)
    have hleave := step_block_close hblock hopener hclose hs'
    rw [hhead] at hleave
    have hcursor : s'.moveOn.cursor = position + body.lines.length + 2 := by
      rw [Stepper.cursor_moveOn, hs']
      omega
    have hrest := ihRest hcursor hafter
    rw [← show s'.step lines = s'.moveOn from hleave] at hrest ⊢
    exact hrest.of_step.weaken (Nat.le_succ rounds)

/-! ## Runs of structured programs -/

/-- A run of a structured program is the structured run of its lines, cut where the cap falls. -/
theorem run_of_outline (limits : Limits) (source : String) (code : Outline)
    (hcode : Text.lines source.toList = code.lines) (rounds : Nat)
    (hrounds : limits.iterationCap < rounds) :
    ((run limits source).truncated = false →
      ∃ s, code.run rounds .initial = .ok s ∧
        (run limits source).trace = orPlaceholder s.recorder.trace ∧
        (run limits source).output = s.recorder.output.toList) ∧
    ((run limits source).truncated = true →
      ∃ s, (code.run rounds .initial = .ok s ∨ code.run rounds .initial = .error s) ∧
        ((run limits source).trace = [placeholder] ∨
          (run limits source).trace <+: orPlaceholder s.recorder.trace) ∧
        (run limits source).output <+: s.recorder.output.toList) := by
  have hlocated : Located (Text.lines source.toList) 0 code.lines := hcode ▸ .self _
  have hreaches : Reaches (Text.lines source.toList) rounds .initial (0 + code.lines.length)
    (code.run rounds .initial) := code.reaches_run rfl hlocated
  rw [run_truncated, run_trace, run_output]
  have hprefixes : ∀ s : Stepper, (finalState limits source).recorder.Grows s.recorder → _ :=
    fun s h => And.intro (orPlaceholder_mono h.trace) h.output
  cases hrun : code.run rounds .initial with
  | ok s =>
    rw [hrun] at hreaches
    obtain ⟨hexit, m, rfl⟩ := hreaches
    have hstop : (Stepper.initial.after (Text.lines source.toList) m).isRunning
        (Text.lines source.toList) = false := by
      rw [Bool.eq_false_iff, Ne, Stepper.isRunning_iff, hexit, hcode]
      omega
    refine ⟨fun hcut => ⟨_, rfl, ?_, ?_⟩,
      fun _ => ⟨_, .inl rfl, hprefixes _ (finalState_grows (.inl hstop))⟩⟩
    · rw [finalState_eq hcut hstop]
    · rw [finalState_eq hcut hstop]
  | error s =>
    rw [hrun] at hreaches
    obtain ⟨hrunning, m, hm, rfl⟩ := hreaches
    have hcap : limits.iterationCap ≤ m := by omega
    refine ⟨fun hcut => ?_, fun _ => ⟨_, .inr rfl, hprefixes _ (finalState_grows (.inr hcap))⟩⟩
    -- The loop was given up after the cap, in a state that goes on.
    have hfinal : Stepper.initial.after _ m = finalState limits source :=
      Stepper.after_eq_of_le hcap hcut
    rw [hfinal, hcut] at hrunning
    cases hrunning

/-- A main function that counts to two, around a loop that is never entered. -/
def mainFunction : String :=
  "int main() \x7b\n  int i = 0;\n  while (i < 2) \x7b\n    i++;\n    while (i > 5) \x7b\n" ++
    "    \x7d\n  \x7d\n  cout << i;\n\x7d\n"

def mainOutline : Outline :=
  .block "int main() \x7b".toList (by decide) (by decide) (fun _ => .inr rfl)
    (.plain "  int i = 0;".toList (by decide)
      (.loop "  while (i < 2) \x7b".toList ⟨"i", .less, 2⟩ (by decide)
        (.plain "    i++;".toList (by decide)
          (.loop "    while (i > 5) \x7b".toList ⟨"i", .greater, 5⟩ (by decide) .done
            "    \x7d".toList (by decide) .done))
        "  \x7d".toList (by decide)
        (.plain "  cout << i;".toList (by decide) .done)))
    "\x7d".toList (by decide) .done

theorem run_mainFunction :
    (∃ s, mainOutline.run 21 .initial = .ok s ∧
      (run ⟨20, 0, 0⟩ mainFunction).trace = orPlaceholder s.recorder.trace ∧
      (run ⟨20, 0, 0⟩ mainFunction).output = s.recorder.output.toList) ∧
    (run ⟨20, 0, 0⟩ mainFunction).output = ["2"] := by
  have hlines : Text.lines mainFunction.toList = mainOutline.lines := by decide +kernel
  have hcut : (run ⟨20, 0, 0⟩ mainFunction).truncated = false := by decide +kernel
  exact ⟨(run_of_outline _ _ mainOutline hlines 21 (by decide)).1 hcut, by decide +kernel⟩

end CLike

end TraceTutor
