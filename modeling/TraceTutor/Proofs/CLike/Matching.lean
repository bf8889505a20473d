import Mathlib.Algebra.BigOperators.Group.List.Basic
import Mathlib.Algebra.Ring.Int.Defs
import TraceTutor.CLike.Braces

/-!
# Matching braces

How deep the first lines of a program lead in all is their `height`. The search forward from a head
passes the lines after which it is higher than at the head (`bodyLength_eq_succ_iff`), and the
search backward from a closing line passes the lines before which it is as high as at that line
(`findHeadFrom_eq_some_iff`). So the two searches are inverse to each other on lines that open and
close one block in all: the one goes back to a head precisely if the other one first comes out of
the head's block at the closing line (`findHead_eq_some_iff_closes`).
-/

namespace TraceTutor

namespace CLike

variable {lines : List (List Char)}

/-! ## Heights -/

/-- How deep the first lines lead in all. -/
def height (lines : List (List Char)) (count : Nat) : Int :=
  ((lines.take count).map braceDelta).sum

theorem height_zero (lines : List (List Char)) : height lines 0 = 0 := rfl

theorem height_cons_succ (line : List Char) (lines : List (List Char)) (count : Nat) :
    height (line :: lines) (count + 1) = braceDelta line + height lines count := by
  unfold height
  rw [List.take_succ_cons, List.map_cons, List.sum_cons]

theorem height_succ (lines : List (List Char)) (count : Nat) :
    height lines (count + 1) = height lines count + lines[count]?.elim 0 braceDelta := by
  unfold height
  rw [List.take_add_one, List.map_append, List.sum_append]
  cases lines[count]? <;> simp

theorem height_succ_of_map_eq {count : Nat} {delta : Int}
    (h : lines[count]?.map braceDelta = some delta) :
    height lines (count + 1) = height lines count + delta := by
  obtain ⟨line, hline, rfl⟩ := Option.map_eq_some_iff.1 h
  rw [height_succ, hline, Option.elim_some]

theorem height_drop (lines : List (List Char)) (start count : Nat) :
    height (lines.drop start) count = height lines (start + count) - height lines start := by
  unfold height
  rw [List.take_add, List.map_append, List.sum_append]
  omega

/-! ## The search forward -/

/-- The depth at which a search forward from a head leaves a line. It enters the first line after
the head at depth one. -/
def depthAfter (lines : List (List Char)) (head position : Nat) : Int :=
  1 + (height lines (position + 1) - height lines (head + 1))

/-- A search that goes on behind a line has left it inside the block. -/
theorem inside_of_lt_bodyLength {depth : Int} {n : Nat} (h : n + 1 < bodyLength depth lines) :
    0 < depth + height lines (n + 1) := by
  induction lines generalizing depth n with
  | nil => exact absurd h (Nat.not_lt_zero _)
  | cons line lines ih =>
    rw [height_cons_succ]
    rw [bodyLength] at h
    split at h
    next => omega
    next hline =>
      cases n with
      | zero =>
        rw [height_zero]
        omega
      | succ n =>
        have hrest := ih (Nat.lt_of_succ_lt_succ h)
        omega

theorem bodyLength_of_inside {depth : Int} {n : Nat} (hn : n < lines.length)
    (hinside : ∀ k < n, 0 < depth + height lines (k + 1))
    (houtside : depth + height lines (n + 1) ≤ 0) : bodyLength depth lines = n + 1 := by
  induction lines generalizing depth n with
  | nil => exact absurd hn (Nat.not_lt_zero _)
  | cons line lines ih =>
    simp only [height_cons_succ, ← Int.add_assoc] at hinside houtside
    rw [bodyLength]
    cases n with
    | zero =>
      rw [height_zero, Int.add_zero] at houtside
      exact if_pos houtside
    | succ n =>
      have hline : 0 < depth + braceDelta line := by
        simpa [height_zero] using hinside 0 (Nat.succ_pos n)
      rw [if_neg (by omega), ih (Nat.lt_of_succ_lt_succ hn)
        (fun k hk => hinside (k + 1) (Nat.succ_lt_succ hk)) houtside]

/-- A search forward ends at a line that leads out of the block precisely if every line before
leaves it inside. -/
theorem bodyLength_eq_succ_iff {depth : Int} {n : Nat} (hn : n < lines.length)
    (houtside : depth + height lines (n + 1) ≤ 0) :
    bodyLength depth lines = n + 1 ↔ ∀ k < n, 0 < depth + height lines (k + 1) := by
  constructor
  · intro h k hk
    exact inside_of_lt_bodyLength (by omega)
  · intro hinside
    exact bodyLength_of_inside hn hinside houtside

theorem skipBody_eq_succ_iff {head close : Nat} (hhead : head < close)
    (hclose : close < lines.length) (houtside : depthAfter lines head close ≤ 0) :
    skipBody lines head = close + 1 ↔
      ∀ position, head < position → position < close → 0 < depthAfter lines head position := by
  obtain ⟨n, rfl⟩ := Nat.exists_eq_add_of_lt hhead
  have hn : n < (lines.drop (head + 1)).length := by
    rw [List.length_drop]
    omega
  have hdepth : ∀ k, 1 + height (lines.drop (head + 1)) (k + 1) =
      depthAfter lines head (head + k + 1) := by
    intro k
    rw [height_drop, show head + 1 + (k + 1) = head + k + 1 + 1 by omega]
    rfl
  have hout : 1 + height (lines.drop (head + 1)) (n + 1) ≤ 0 := by
    rw [hdepth]
    exact houtside
  have hlength := bodyLength_eq_succ_iff hn hout
  simp only [hdepth] at hlength
  rw [skipBody, show head + n + 1 + 1 = head + 1 + (n + 1) by omega, Nat.add_left_cancel_iff,
    hlength]
  constructor
  · intro hinside position hafter hbefore
    obtain ⟨k, rfl⟩ := Nat.exists_eq_add_of_lt hafter
    exact hinside k (by omega)
  · intro hinside k hk
    exact hinside (head + k + 1) (by omega) (by omega)

/-! ## The search backward -/

/-- A search backward ends at the last line before which it is no longer inside the block. -/
theorem findHeadFrom_eq_some_iff {depth : Int} {position head : Nat} :
    findHeadFrom lines depth position = some head ↔
      head < position ∧
      (∀ k, head < k → k < position → 0 < depth - (height lines position - height lines k)) ∧
      depth - (height lines position - height lines head) ≤ 0 := by
  induction position generalizing depth with
  | zero => simp [findHeadFrom]
  | succ position ih =>
    have hheight := height_succ lines position
    rw [findHeadFrom]
    generalize lines[position]?.elim 0 braceDelta = delta at hheight ⊢
    split
    next hout =>
      constructor
      · rintro ⟨⟩
        exact ⟨Nat.lt_succ_self _, fun k _ _ => by omega, by omega⟩
      · rintro ⟨hhead, hinside, -⟩
        -- Were the head further back, then the search would still be inside here.
        by_contra hne
        have hlt : head < position :=
          Nat.lt_of_le_of_ne (Nat.le_of_lt_succ hhead) fun heq => hne (by rw [heq])
        have hinside := hinside position hlt (Nat.lt_succ_self _)
        omega
    next hin =>
      rw [ih]
      constructor
      · rintro ⟨hhead, hinside, houtside⟩
        refine ⟨by omega, fun k hafter hbefore => ?_, by omega⟩
        rcases Nat.lt_succ_iff_lt_or_eq.1 hbefore with hlt | rfl
        · have hinside := hinside k hafter hlt
          omega
        · omega
      · rintro ⟨hhead, hinside, houtside⟩
        have hne : head ≠ position := by
          rintro rfl
          omega
        refine ⟨by omega, fun k hafter hbefore => ?_, by omega⟩
        have hinside := hinside k hafter (by omega)
        omega

theorem findHead_eq_some_iff {close head : Nat} (hclose : close < lines.length) :
    findHead lines close = some head ↔
      head < close ∧
      (∀ k, head < k → k < close → height lines close ≤ height lines k) ∧
      height lines head < height lines close := by
  rw [findHead, Nat.min_eq_left hclose.le, findHeadFrom_eq_some_iff]
  refine and_congr_right fun _ => and_congr ?_ (by omega)
  refine forall_congr' fun k => imp_congr_right fun _ => imp_congr_right fun _ => ?_
  omega

/-! ## Both searches -/

/-- A search forward from a head first comes out of its block at a line: it leaves all lines before
inside the block, and this one at depth zero. -/
structure Closes (lines : List (List Char)) (head close : Nat) : Prop where
  inside : ∀ position, head < position → position < close → 0 < depthAfter lines head position
  outside : depthAfter lines head close = 0

/-- A line that closes one block ends the block of a head precisely if it is as high as the line
behind the head and no line between the two is lower. -/
theorem closes_iff {head close : Nat}
    (hclose : lines[close]?.map braceDelta = some (-1)) :
    Closes lines head close ↔
      (∀ k, head < k → k < close → height lines close ≤ height lines k) ∧
      height lines close = height lines (head + 1) := by
  have hdown := height_succ_of_map_eq hclose
  constructor
  · rintro ⟨hinside, houtside⟩
    unfold depthAfter at hinside houtside
    refine ⟨fun k hafter hbefore => ?_, by omega⟩
    rcases Nat.lt_or_eq_of_le (show head + 1 ≤ k by omega) with hlt | rfl
    · have hinside := hinside (k - 1) (by omega) (by omega)
      rw [Nat.sub_add_cancel (by omega)] at hinside
      omega
    · omega
  · rintro ⟨hinside, hlevel⟩
    constructor
    · intro position hafter hbefore
      unfold depthAfter
      rcases Nat.lt_or_eq_of_le (show position + 1 ≤ close by omega) with hlt | heq
      · have hle := hinside (position + 1) (by omega) hlt
        omega
      · rw [heq]
        omega
    · unfold depthAfter
      omega

/-- For a line that opens one block in all and a later one that closes one in all, the search
backward from the closing line ends at the opening one precisely if the search forward from there
first comes out of the block at the closing line, where it then ends. -/
theorem findHead_eq_some_iff_closes {head close : Nat} (h : head < close)
    (hopen : lines[head]?.map braceDelta = some 1)
    (hclose : lines[close]?.map braceDelta = some (-1)) :
    (findHead lines close = some head ↔ Closes lines head close) ∧
    (Closes lines head close ↔
      skipBody lines head = close + 1 ∧ depthAfter lines head close = 0) := by
  have hlength : close < lines.length := by
    obtain ⟨line, hline, -⟩ := Option.map_eq_some_iff.1 hclose
    exact (List.getElem?_eq_some_iff.1 hline).1
  have hup := height_succ_of_map_eq hopen
  constructor
  · rw [findHead_eq_some_iff hlength, closes_iff hclose]
    constructor
    · rintro ⟨-, hinside, houtside⟩
      refine ⟨hinside, ?_⟩
      rcases Nat.lt_or_eq_of_le (show head + 1 ≤ close by omega) with hlt | heq
      · have hle := hinside (head + 1) (Nat.lt_succ_self _) hlt
        omega
      · rw [heq]
    · rintro ⟨hinside, hlevel⟩
      exact ⟨h, hinside, by omega⟩
  · constructor
    · intro hcloses
      refine ⟨?_, hcloses.outside⟩
      exact (skipBody_eq_succ_iff h hlength (Int.le_of_eq hcloses.outside)).2 hcloses.inside
    · rintro ⟨hskip, houtside⟩
      exact ⟨(skipBody_eq_succ_iff h hlength (Int.le_of_eq houtside)).1 hskip, houtside⟩

/-- Between the head and the brace that closes its block, a line opens two blocks, one closes a
block and opens another, one closes both, and a literal and a comment hold braces. -/
theorem findHead_eq_some_iff_closes_nested :
    let lines := ["int i = 0;", "while (i < 3) \x7b", "if (i == 1) \x7b \x7b", "cout << '\x7d';",
      "\x7d else \x7b", "\x7d \x7d", "\x7d // \x7b"].map String.toList
    lines[1]?.map braceDelta = some 1 ∧ lines[6]?.map braceDelta = some (-1) ∧
      skipBody lines 1 = 7 ∧ findHead lines 6 = some 1 := by
  intro lines
  have hopen : lines[1]?.map braceDelta = some 1 := by decide +kernel
  have hclose : lines[6]?.map braceDelta = some (-1) := by decide +kernel
  have hskip : skipBody lines 1 = 7 := by decide +kernel
  obtain ⟨hback, hforward⟩ := findHead_eq_some_iff_closes (by decide) hopen hclose
  exact ⟨hopen, hclose, hskip, hback.2 (hforward.2 ⟨hskip, by decide +kernel⟩)⟩

/-- A search that finds no end of the block ends behind the last line too. -/
example :
    let lines := ["\x7b", "\x7b", "\x7d"].map String.toList
    skipBody lines 0 = 3 ∧ depthAfter lines 0 2 = 1 ∧ findHead lines 2 = some 1 := by
  decide +kernel

end CLike

end TraceTutor
