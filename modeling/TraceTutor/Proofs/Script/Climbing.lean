import TraceTutor.Proofs.Script.Reparsing

/-!
# Climbing by precedence

The layers of binary operators need no parser each. One loop can read them all: it goes on with any
operator of the layers that it may read, and takes as its right operand what the layers tighter than
the operator read. This gives the same tree and leaves the same tokens as one layer after another
(`ExprParser.climb_of_isBelow`, `ExprParser.climb_eq_of_binaryOp?`), because an operand of some
layers is never followed by an operator of these layers (`ExprParser.isBelow_of_climb`).
-/

namespace TraceTutor

namespace TokenParser

variable {α : Type} {s s' : TokenStream}

/-- A loop ends where its step says so, and what every step keeps still holds there. -/
theorem exists_last_of_loop {step : α → TokenParser (Option α)} (h : IsStep step)
    {I : TokenStream → Prop} (hI : ∀ {x s y s'}, I s → step x s = .ok (some y, s') → I s')
    {x y : α} (hs : I s) (hloop : loop step x s = .ok (y, s')) :
    ∃ s₁, I s₁ ∧ step y s₁ = .ok (none, s') := by
  induction hlength : s.tokens.length using Nat.strong_induction_on generalizing x s with
  | _ length ih =>
    rw [loop_eq h] at hloop
    obtain ⟨⟨y?, s₁⟩, hstep, hrest⟩ := except_bind_eq_ok_iff.1 hloop
    cases y? with
    | none =>
      cases hrest
      exact ⟨s, hs, hstep⟩
    | some z => exact ih _ (hlength ▸ h.advances x hstep) (hI hs hstep) hrest rfl

end TokenParser

namespace ExprParser

open TokenStream TokenParser

theorem layer_bounds {k : TokenKind} {op : BinaryOp} {l : Nat} (h : binaryOp? k = some (op, l)) :
    0 < l ∧ l < 7 := by
  unfold binaryOp? at h
  split at h <;> cases h <;> decide

/-- What comes next is no binary operator of the layer `m` or a tighter one. -/
def IsBelow (m : Nat) (s : TokenStream) : Prop :=
  ∀ op l, s.kind?.bind binaryOp? = some (op, l) → l < m

/-- Goes on from a left operand with the layers of operators from the tightest to `m`, one layer
after another. -/
def climb (p : ExprParser) (m : Nat) (left : Expr) : TokenParser Expr :=
  if m < 7 then p.climb (m + 1) left >>= loop (chainStep m (p.layer (m + 1))) else pure left
termination_by 7 - m

variable {n m : Nat} {s s' : TokenStream} {left : Expr}

theorem climb_of_lt (p : ExprParser) (hm : m < 7) :
    p.climb m left = p.climb (m + 1) left >>= loop (chainStep m (p.layer (m + 1))) := by
  rw [climb, if_pos hm]

theorem climb_of_le (p : ExprParser) (hm : 7 ≤ m) : p.climb m left = pure left := by
  rw [climb, if_neg (not_lt.2 hm)]

theorem layer_eq_climb (p : ExprParser) (hm : 0 < m) (hm' : m ≤ 7) :
    p.layer m = p.operand >>= p.climb m := by
  induction hm' using Nat.decreasingInduction with
  | self =>
    have hpure : p.climb 7 = pure := funext fun left => p.climb_of_le le_rfl
    rw [hpure, bind_pure]
    rfl
  | of_succ m hlt ih =>
    rw [layer_eq_bind p (by omega) (by omega), ih (by omega), bind_assoc,
      rest_of_lt p (by omega) hlt]
    exact congrArg _ (funext fun left => (p.climb_of_lt hlt).symm)

theorem isStep_chainStep_layer (n m : Nat) : IsStep (chainStep m ((atDepth n).layer (m + 1))) :=
  isStep_chainStep m (consumes_layer_atDepth n _)

/-- No operator is of the layer 0. -/
theorem climb_zero : (atDepth n).climb 0 left = (atDepth n).climb 1 left := by
  have hloop : loop (chainStep 0 ((atDepth n).layer 1)) = pure := by
    funext e s
    refine loop_of_none (isStep_chainStep_layer n 0) (chainStep_of_ne fun op hop => ?_)
    obtain ⟨k, -, hk⟩ := Option.bind_eq_some_iff.1 hop
    exact lt_irrefl 0 (layer_bounds hk).1
  rw [climb_of_lt _ (by decide), hloop, bind_pure]

/-- Where no operator of the layers comes next, they are over. -/
theorem climb_of_isBelow (h : IsBelow m s) : (atDepth n).climb m left s = .ok (left, s) := by
  by_cases hm : m ≤ 7
  · induction hm using Nat.decreasingInduction with
    | self =>
      rw [climb_of_le _ le_rfl]
      rfl
    | of_succ m hlt ih =>
      rw [climb_of_lt _ hlt]
      refine (bind_of_ok (ih fun op l hop => (h op l hop).trans (Nat.lt_succ_self m))).trans ?_
      refine loop_of_none (isStep_chainStep_layer n m) (chainStep_of_ne fun op hop => ?_)
      exact lt_irrefl m (h op m hop)
  · rw [climb_of_le _ (by omega)]
    rfl

theorem exists_of_chainStep_eq_some {operand : TokenParser Expr} {e : Expr}
    (h : chainStep m operand left s = .ok (some e, s')) :
    ∃ op right, s.kind?.bind binaryOp? = some (op, m) ∧ operand s.tail = .ok (right, s') := by
  by_cases hop : ∃ op, s.kind?.bind binaryOp? = some (op, m)
  · obtain ⟨op, hop⟩ := hop
    rw [chainStep_of_binaryOp? hop] at h
    obtain ⟨⟨right, s₁⟩, hright, heq⟩ := except_bind_eq_ok_iff.1 h
    cases heq
    exact ⟨op, right, hop, hright⟩
  · rw [chainStep_of_ne (not_exists.1 hop)] at h
    cases h

theorem ne_of_chainStep_eq_none {operand : TokenParser Expr}
    (h : chainStep m operand left s = .ok (none, s')) :
    s' = s ∧ ∀ op, s.kind?.bind binaryOp? ≠ some (op, m) := by
  by_cases hop : ∃ op, s.kind?.bind binaryOp? = some (op, m)
  · obtain ⟨op, hop⟩ := hop
    rw [chainStep_of_binaryOp? hop] at h
    obtain ⟨⟨right, s₁⟩, -, heq⟩ := except_bind_eq_ok_iff.1 h
    cases heq
  · rw [chainStep_of_ne (not_exists.1 hop)] at h
    cases h
    exact ⟨rfl, not_exists.1 hop⟩

theorem isBelow_of_le (hm : 7 ≤ m) (s : TokenStream) : IsBelow m s := by
  intro op l hop
  obtain ⟨k, -, hk⟩ := Option.bind_eq_some_iff.1 hop
  exact (layer_bounds hk).2.trans_le hm

/-- By induction on the layers: a layer is over where none of its operators comes next, and the last
thing that it read was an operand of the next tighter one. -/
theorem isBelow_of_climb {e : Expr} (h : (atDepth n).climb m left s = .ok (e, s')) :
    IsBelow m s' := by
  by_cases hm : m ≤ 7
  · induction hm using Nat.decreasingInduction generalizing left s e s' with
    | self => exact isBelow_of_le le_rfl s'
    | of_succ m hlt ih =>
      rw [climb_of_lt _ hlt] at h
      obtain ⟨⟨e₁, s₁⟩, hfirst, hrest⟩ := except_bind_eq_ok_iff.1 h
      have hkeeps : ∀ {x s y s'}, IsBelow (m + 1) s →
          chainStep m ((atDepth n).layer (m + 1)) x s = .ok (some y, s') →
            IsBelow (m + 1) s' := by
        intro x s y s' _ hstep
        obtain ⟨op, right, -, hright⟩ := exists_of_chainStep_eq_some hstep
        rw [layer_eq_climb _ m.succ_pos hlt] at hright
        obtain ⟨⟨operand, s₂⟩, -, hclimb⟩ := except_bind_eq_ok_iff.1 hright
        exact ih hclimb
      obtain ⟨s₂, hbelow, hlast⟩ :=
        exists_last_of_loop (isStep_chainStep_layer n m) hkeeps (ih hfirst) hrest
      obtain ⟨rfl, hne⟩ := ne_of_chainStep_eq_none hlast
      refine fun op l hop => lt_of_le_of_ne (Nat.lt_succ_iff.1 (hbelow op l hop)) ?_
      rintro rfl
      exact hne op hop
  · exact isBelow_of_le (by omega) s'

theorem isBelow_of_layer (hm : 0 < m) (hm' : m ≤ 7) {e : Expr}
    (h : (atDepth n).layer m s = .ok (e, s')) : IsBelow m s' := by
  rw [layer_eq_climb _ hm hm'] at h
  obtain ⟨⟨operand, s₁⟩, -, hclimb⟩ := except_bind_eq_ok_iff.1 h
  exact isBelow_of_climb hclimb

/-- An operator of the layer itself: no operator of a tighter one comes next, neither in front of it
nor behind its operand. -/
theorem climb_of_binaryOp?_self {op : BinaryOp} (hop : s.kind?.bind binaryOp? = some (op, m)) :
    (atDepth n).climb m left s = ((atDepth n).layer (m + 1) >>= fun right =>
      (atDepth n).climb m (.binary op left right)) s.tail := by
  obtain ⟨k, -, hk⟩ := Option.bind_eq_some_iff.1 hop
  have hlt : m < 7 := (layer_bounds hk).2
  have hbelow : IsBelow (m + 1) s := by
    intro op' l hop'
    cases hop.symm.trans hop'
    exact Nat.lt_succ_self m
  rw [climb_of_lt _ hlt]
  refine (bind_of_ok (climb_of_isBelow hbelow)).trans ?_
  rw [loop_eq (isStep_chainStep_layer n m)]
  cases hright : (atDepth n).layer (m + 1) s.tail with
  | error fault =>
    refine (bind_of_error ?_).trans (bind_of_error hright).symm
    rw [chainStep_of_binaryOp? hop]
    exact bind_of_error hright
  | ok result =>
    obtain ⟨right, s₁⟩ := result
    have hstep : chainStep m ((atDepth n).layer (m + 1)) left s =
        .ok (some (.binary op left right), s₁) := by
      rw [chainStep_of_binaryOp? hop]
      exact bind_of_ok hright
    have hbelow₁ : IsBelow (m + 1) s₁ := isBelow_of_layer m.succ_pos hlt hright
    refine (bind_of_ok hstep).trans (Eq.trans ?_ (bind_of_ok hright).symm)
    rw [climb_of_lt _ hlt]
    show loop (chainStep m ((atDepth n).layer (m + 1))) (.binary op left right) s₁ = _
    exact (bind_of_ok (climb_of_isBelow hbelow₁)).symm

/-- An operator of the layers goes on with the expression, with an operand of tighter layers. By
induction on the looser layers, which only go on where the operator's own layer has come to. -/
theorem climb_of_binaryOp? {op : BinaryOp} {l : Nat}
    (hop : s.kind?.bind binaryOp? = some (op, l)) (hm : m ≤ l) :
    (atDepth n).climb m left s = ((atDepth n).layer (l + 1) >>= fun right =>
      (atDepth n).climb m (.binary op left right)) s.tail := by
  obtain ⟨k, -, hk⟩ := Option.bind_eq_some_iff.1 hop
  have hlt : l < 7 := (layer_bounds hk).2
  induction hm using Nat.decreasingInduction with
  | self => exact climb_of_binaryOp?_self hop
  | of_succ m hm ih =>
    have hlt' : m < 7 := hm.trans hlt
    rw [climb_of_lt _ hlt']
    show ((atDepth n).climb (m + 1) left s >>= _) = _
    rw [ih]
    simp only [climb_of_lt _ hlt']
    exact congrFun (bind_assoc ((atDepth n).layer (l + 1)) _ _) s.tail

/-- A round of the loop that climbs. -/
theorem climb_eq_of_binaryOp? {op : BinaryOp} {l : Nat}
    (hop : s.kind?.bind binaryOp? = some (op, l)) (hm : m ≤ l) :
    (atDepth n).climb m left s = (advance >>= fun _ =>
      ((atDepth n).operand >>= (atDepth n).climb (l + 1)) >>= fun right =>
        (atDepth n).climb m (.binary op left right)) s := by
  obtain ⟨k, -, hk⟩ := Option.bind_eq_some_iff.1 hop
  rw [climb_of_binaryOp? hop hm, layer_eq_climb _ l.succ_pos (layer_bounds hk).2]
  symm
  exact bind_of_ok (advance_eq s)

end ExprParser

end TraceTutor
