import Mathlib.Algebra.Ring.Int.Defs
import TraceTutor.Proofs.CLike.Braces

/-!
# Nested blocks

Lines are closed if they close the blocks that they open and no others (`ClosedFrom`), which only
depends on how deep each line leads. Both searches over braces pass closed lines
(`bodyLength_of_closedFrom`, `findHeadFrom_of_closedFrom`).

Balanced lines open and close at most one block in a line. They are closed, so the searches go
forward from a loop head to the line after its body (`skipBody_of_balanced`), and backward from a
closing brace to the line that opened its block (`findHead_of_balanced`).
-/

namespace TraceTutor

namespace CLike

/-! ## Parts of a program -/

/-- Some lines stand at a position among the lines of a program. -/
def Located (lines : List (List Char)) (position : Nat) (part : List (List Char)) : Prop :=
  ∃ before after, lines = before ++ part ++ after ∧ before.length = position

namespace Located

variable {lines part part' : List (List Char)} {line : List Char} {position : Nat}

theorem self (lines : List (List Char)) : Located lines 0 lines :=
  ⟨[], [], by simp, rfl⟩

theorem append_left (h : Located lines position (part ++ part')) : Located lines position part := by
  obtain ⟨before, after, rfl, hposition⟩ := h
  exact ⟨before, part' ++ after, by simp, hposition⟩

theorem append_right (h : Located lines position (part ++ part')) :
    Located lines (position + part.length) part' := by
  obtain ⟨before, after, rfl, rfl⟩ := h
  exact ⟨before ++ part, after, by simp, by simp⟩

theorem tail (h : Located lines position (line :: part)) : Located lines (position + 1) part := by
  have hsplit : Located lines position ([line] ++ part) := h
  exact hsplit.append_right

/-- A block and what follows it. -/
theorem block {opener close : List Char} {body rest : List (List Char)}
    (h : Located lines position (opener :: (body ++ close :: rest))) :
    Located lines position (opener :: (body ++ [close])) ∧
      Located lines (position + body.length + 2) rest := by
  have hsplit : Located lines position ((opener :: (body ++ [close])) ++ rest) := by simpa using h
  have hrest := hsplit.append_right
  rw [List.length_cons, List.length_append] at hrest
  exact ⟨hsplit.append_left, hrest⟩

theorem getElem? (h : Located lines position (line :: part)) : lines[position]? = some line := by
  obtain ⟨before, after, rfl, rfl⟩ := h
  simp

theorem exists_drop (h : Located lines position part) :
    ∃ after, lines.drop position = part ++ after := by
  obtain ⟨before, after, rfl, rfl⟩ := h
  exact ⟨after, by simp⟩

theorem length_le (h : Located lines position part) : position + part.length ≤ lines.length := by
  obtain ⟨before, after, rfl, rfl⟩ := h
  simp

end Located

/-! ## Balanced lines -/

/-- Lines whose blocks are opened and closed one in another. -/
inductive Balanced : List (List Char) → Prop
  | nil : Balanced []
  | plain {line : List Char} {rest : List (List Char)} :
    countBraces line = (0, 0) → Balanced rest → Balanced (line :: rest)
  | block {opener close : List Char} {body rest : List (List Char)} :
    countBraces opener = (1, 0) → Balanced body → countBraces close = (0, 1) → Balanced rest →
      Balanced (opener :: (body ++ close :: rest))

theorem braceDelta_of_countBraces {line : List Char} {opens closes : Nat}
    (h : countBraces line = (opens, closes)) : braceDelta line = opens - closes := by
  rw [braceDelta, h]

/-! ## Closed lines -/

/-- From a place that is `inner` blocks deep, the lines close these blocks and those that they open,
and no others. -/
def ClosedFrom (inner : Int) : List (List Char) → Prop
  | [] => inner = 0
  | line :: rest => 0 ≤ inner + braceDelta line ∧ ClosedFrom (inner + braceDelta line) rest

instance ClosedFrom.decidable (inner : Int) :
    (lines : List (List Char)) → Decidable (ClosedFrom inner lines)
  | [] => inferInstanceAs (Decidable (inner = 0))
  | line :: rest =>
    have := decidable (inner + braceDelta line) rest
    inferInstanceAs (Decidable (0 ≤ inner + braceDelta line ∧
      ClosedFrom (inner + braceDelta line) rest))

/-- No line of closed lines leads out of the place where they start. -/
theorem ClosedFrom.sum_nonneg {inner : Int} {first rest : List (List Char)} {line : List Char}
    (h : ClosedFrom inner (first ++ line :: rest)) :
    0 ≤ inner + (first.map braceDelta).sum + braceDelta line := by
  induction first generalizing inner with
  | nil => simpa using h.1
  | cons opener first ih =>
    have hrest := ih h.2
    rw [List.map_cons, List.sum_cons]
    omega

theorem Balanced.closedFrom_append {body more : List (List Char)} (h : Balanced body) {inner : Int}
    (hinner : 0 ≤ inner) (hmore : ClosedFrom inner more) : ClosedFrom inner (body ++ more) := by
  induction h generalizing inner more with
  | nil => exact hmore
  | @plain line rest hline _ ih =>
    have hdelta := braceDelta_of_countBraces hline
    have hsame : inner + braceDelta line = inner := by omega
    refine ⟨by omega, ?_⟩
    rw [hsame]
    exact ih hinner hmore
  | @block opener close body rest hopener _ hclose _ ihBody ihRest =>
    have hopen := braceDelta_of_countBraces hopener
    have hshut := braceDelta_of_countBraces hclose
    have hback : inner + braceDelta opener + braceDelta close = inner := by omega
    have hrest : ClosedFrom (inner + braceDelta opener) (close :: (rest ++ more)) := by
      refine ⟨by omega, ?_⟩
      rw [hback]
      exact ihRest hinner hmore
    rw [List.cons_append, List.append_assoc, List.cons_append]
    exact ⟨by omega, ihBody (by omega) hrest⟩

theorem Balanced.closedFrom {body : List (List Char)} (h : Balanced body) : ClosedFrom 0 body := by
  rw [← List.append_nil body]
  exact h.closedFrom_append (Int.le_refl 0) rfl

section Searches

variable {lines body : List (List Char)} {opener close : List Char}

theorem bodyLength_cons_of_inside {depth : Int} {line : List Char}
    (h : 0 < depth + braceDelta line) (rest : List (List Char)) :
    bodyLength depth (line :: rest) = bodyLength (depth + braceDelta line) rest + 1 := by
  rw [bodyLength, if_neg (by omega)]

/-- A search forward passes closed lines. -/
theorem bodyLength_of_closedFrom {inner : Int} (h : ClosedFrom inner body) {depth : Int}
    (hdepth : 0 < depth) (more : List (List Char)) :
    bodyLength (depth + inner) (body ++ more) = body.length + bodyLength depth more := by
  induction body generalizing inner with
  | nil =>
    rw [show inner = 0 from h]
    simp
  | cons line body ih =>
    obtain ⟨hline, hbody⟩ := h
    rw [List.cons_append, bodyLength_cons_of_inside (by omega), Int.add_assoc, ih hbody,
      List.length_cons]
    omega

/-- From inside a block, balanced lines do not end the block. -/
theorem bodyLength_append (h : Balanced body) {depth : Int} (hdepth : 0 < depth)
    (more : List (List Char)) :
    bodyLength depth (body ++ more) = body.length + bodyLength depth more := by
  simpa using bodyLength_of_closedFrom h.closedFrom hdepth more

/-- A search forward from the head of a loop ends after the brace that closes its body. -/
theorem skipBody_of_balanced (h : Balanced body) (hclose : countBraces close = (0, 1))
    {head : Nat} (hlines : Located lines (head + 1) (body ++ [close])) :
    skipBody lines head = head + body.length + 2 := by
  obtain ⟨after, hdrop⟩ := hlines.exists_drop
  have hshut := braceDelta_of_countBraces hclose
  have hend : bodyLength 1 (close :: after) = 1 := by
    rw [bodyLength, if_pos (by omega)]
  rw [skipBody, hdrop, List.append_assoc, bodyLength_append h (by omega), List.singleton_append,
    hend]
  omega

theorem findHeadFrom_succ {position : Nat} {line : List Char} (hline : lines[position]? = some line)
    {depth : Int} (h : 0 < depth - braceDelta line) :
    findHeadFrom lines depth (position + 1) =
      findHeadFrom lines (depth - braceDelta line) position := by
  rw [findHeadFrom, hline]
  exact if_neg (by simpa using h)

/-- A search backward passes closed lines. -/
theorem findHeadFrom_of_closedFrom {inner : Int} (h : ClosedFrom inner body) (hinner : 0 ≤ inner)
    {position : Nat} (hlines : Located lines position body) {depth : Int} (hdepth : 0 < depth) :
    findHeadFrom lines depth (position + body.length) =
      findHeadFrom lines (depth + inner) position := by
  induction body generalizing inner position with
  | nil =>
    rw [show inner = 0 from h, Int.add_zero]
    rfl
  | cons line body ih =>
    obtain ⟨hline, hbody⟩ := h
    have hback : depth + (inner + braceDelta line) - braceDelta line = depth + inner := by omega
    calc findHeadFrom lines depth (position + (line :: body).length)
        = findHeadFrom lines depth (position + 1 + body.length) := by
          rw [List.length_cons, Nat.add_assoc, Nat.add_comm 1]
      _ = findHeadFrom lines (depth + (inner + braceDelta line)) (position + 1) :=
          ih hbody hline hlines.tail
      _ = findHeadFrom lines (depth + inner) position := by
          rw [findHeadFrom_succ hlines.getElem? (by omega), hback]

/-- From inside a block, balanced lines do not open the block. -/
theorem findHeadFrom_add (h : Balanced body) {position : Nat}
    (hlines : Located lines position body) {depth : Int} (hdepth : 0 < depth) :
    findHeadFrom lines depth (position + body.length) = findHeadFrom lines depth position := by
  simpa using findHeadFrom_of_closedFrom h.closedFrom (Int.le_refl 0) hlines hdepth

/-- A search back from the brace that closes a block ends at the line that opened it. -/
theorem findHead_of_balanced (h : Balanced body) (hopener : countBraces opener = (1, 0))
    {head : Nat} (hlines : Located lines head (opener :: body)) :
    findHead lines (head + 1 + body.length) = some head := by
  have hopen := braceDelta_of_countBraces hopener
  have hlength := hlines.length_le
  rw [List.length_cons] at hlength
  rw [findHead, Nat.min_eq_left (by omega), findHeadFrom_add h hlines.tail (by omega),
    findHeadFrom, hlines.getElem?]
  exact if_pos (by simp [hopen])

end Searches

end CLike

end TraceTutor
