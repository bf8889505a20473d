import Mathlib.Tactic.IntervalCases
import TraceTutor.Proofs.Script.PrintedTokens

/-!
# Layers of expressions

The parser for expressions is made of layers, from choices to primaries. `ExprParser.layer` is the
parser of one layer: it reads an expression of the next tighter layer and goes on with
`ExprParser.rest` (`layer_eq_bind`), except for prefix operators, which come first. Where the next
token does not go on with an expression, a layer is over (`rest_of_ends`).
-/

namespace TraceTutor

/-! ## Layers -/

namespace ExprParser

open TokenStream TokenParser

/-- The parser of the expressions of a layer and of all tighter ones. -/
def layer (p : ExprParser) : Nat → TokenParser Expr
  | 0 => choice p.expression p.operand
  | 1 => binary p.operand
  | 2 => chain 2 (chain 3 (chain 4 (chain 5 (chain 6 p.operand))))
  | 3 => chain 3 (chain 4 (chain 5 (chain 6 p.operand)))
  | 4 => chain 4 (chain 5 (chain 6 p.operand))
  | 5 => chain 5 (chain 6 p.operand)
  | 6 => chain 6 p.operand
  | 7 => p.operand
  | 8 => postfixed p.expression
  | _ => primary p.expression

/-- The rest of a choice after its condition. -/
def choiceRest (expression : TokenParser Expr) (condition : Expr) : TokenParser Expr := do
  if ← accept .question then
    let yes ← expression
    expect .colon .ternaryColon
    return .ternary condition yes (← expression)
  else return condition

/-- What the parser of a layer does after it has read an expression of a tighter layer. -/
def rest (p : ExprParser) (m : Nat) : Expr → TokenParser Expr :=
  if m = 0 then choiceRest p.expression
  else if m < 7 then loop (chainStep m (p.layer (m + 1)))
  else if m = 8 then loop (suffix p.expression)
  else pure

/-- The layer in which a token goes on with an expression in front of it. -/
def joint? : TokenKind → Option Nat
  | .sign .question => some 0
  | .sign .openParen | .sign .openBracket | .sign .dot => some 8
  | kind => (binaryOp? kind).map Prod.snd

/-- What follows does not go on with an expression of a layer or a tighter one. -/
def Ends (m : Nat) (s : TokenStream) : Prop :=
  ∀ l ∈ s.kind?.bind joint?, l < m

theorem layer_eq_bind (p : ExprParser) {m : Nat} (hm : m ≠ 7) (hm' : m < 9) :
    p.layer m = p.layer (m + 1) >>= p.rest m := by
  interval_cases m
  · rfl
  · rfl
  · rfl
  · rfl
  · rfl
  · rfl
  · rfl
  · exact absurd rfl hm
  · rfl

theorem consumes_layer {p : ExprParser} (h : Consumes p.expression) (h' : Consumes p.operand)
    (m : Nat) : Consumes (p.layer m) := by
  have h₆ := consumes_chain 6 h'
  have h₅ := consumes_chain 5 h₆
  have h₄ := consumes_chain 4 h₅
  have h₃ := consumes_chain 3 h₄
  have h₂ := consumes_chain 2 h₃
  unfold layer
  split
  · exact consumes_choice h h'
  · exact consumes_binary h'
  · exact h₂
  · exact h₃
  · exact h₄
  · exact h₅
  · exact h₆
  · exact h'
  · exact consumes_postfixed h
  · exact consumes_primary h

/-! ## Steps -/

theorem peek_eq (s : TokenStream) : peek s = .ok (s.kind?, s) := rfl

theorem advance_eq (s : TokenStream) : advance s = .ok ((), s.tail) := rfl

section

variable {operand expression : TokenParser Expr} {s : TokenStream} {left : Expr} {m : Nat}

theorem chainStep_of_binaryOp? {op : BinaryOp} (h : s.kind?.bind binaryOp? = some (op, m)) :
    chainStep m operand left s =
      (operand >>= fun right => pure (some (.binary op left right))) s.tail := by
  refine (bind_of_ok (peek_eq s)).trans ?_
  simp only [h, if_true]
  exact bind_of_ok (advance_eq s)

theorem chainStep_of_ne (h : ∀ op, s.kind?.bind binaryOp? ≠ some (op, m)) :
    chainStep m operand left s = .ok (none, s) := by
  refine (bind_of_ok (peek_eq s)).trans ?_
  rcases hop : s.kind?.bind binaryOp? with _ | ⟨op, l⟩
  · rfl
  · refine congrFun (if_neg ?_) s
    rintro rfl
    exact h op hop

theorem isStep_chainStep (m : Nat) (h : Consumes operand) : IsStep (chainStep m operand) where
  stops left s hs := chainStep_of_ne fun op => by simp [hs]
  advances left s y s' hstep := by
    by_cases hop : ∃ op, s.kind?.bind binaryOp? = some (op, m)
    · obtain ⟨op, hop⟩ := hop
      rw [chainStep_of_binaryOp? hop] at hstep
      obtain ⟨k, hk⟩ := exists_kind?_of_bind hop
      have hread :
          Reads 1 (operand >>= fun right => pure (some (Expr.binary op left right))) s.tail :=
        (h s.tail).bind fun _ _ _ _ => .pure trivial
      have hlength := (hread _ _ hstep).1.length_le
      have htail := length_tokens_of_kind? hk
      omega
    · rw [chainStep_of_ne (not_exists.1 hop)] at hstep
      cases hstep

theorem suffix_of_openParen (h : s.kind? = some (.sign .openParen)) :
    suffix expression left s =
      (arguments expression >>= fun args => pure (some (.call left args))) s.tail := by
  refine (bind_of_ok (peek_eq s)).trans ?_
  rw [h]
  exact bind_of_ok (advance_eq s)

theorem suffix_of_openBracket (h : s.kind? = some (.sign .openBracket)) :
    suffix expression left s =
      (expression >>= fun i => expect .closeBracket .closeIndex >>= fun _ =>
        pure (some (.index left i))) s.tail := by
  refine (bind_of_ok (peek_eq s)).trans ?_
  rw [h]
  exact bind_of_ok (advance_eq s)

theorem suffix_of_dot (h : s.kind? = some (.sign .dot)) :
    suffix expression left s =
      (identifier >>= fun name => pure (some (.member left name))) s.tail := by
  refine (bind_of_ok (peek_eq s)).trans ?_
  rw [h]
  exact bind_of_ok (advance_eq s)

theorem suffix_of_ne (hparen : s.kind? ≠ some (.sign .openParen))
    (hbracket : s.kind? ≠ some (.sign .openBracket)) (hdot : s.kind? ≠ some (.sign .dot)) :
    suffix expression left s = .ok (none, s) := by
  refine (bind_of_ok (peek_eq s)).trans
    (congrFun (g := (pure none : TokenParser (Option Expr))) ?_ s)
  split
  next h => exact absurd h hparen
  next h => exact absurd h hbracket
  next h => exact absurd h hdot
  next => rfl

theorem isStep_suffix (h : Consumes expression) : IsStep (suffix expression) where
  stops left s hs := suffix_of_ne (by simp [hs]) (by simp [hs]) (by simp [hs])
  advances left s y s' hstep := by
    have hread : ∀ {p : TokenParser (Option Expr)}, Reads 0 p s.tail → p s.tail = .ok (some y, s') →
        (∃ k, s.kind? = some k) → s'.tokens.length < s.tokens.length := by
      rintro p hp hstep ⟨k, hk⟩
      have hlength := (hp _ _ hstep).1.length_le
      have htail := length_tokens_of_kind? hk
      omega
    by_cases hparen : s.kind? = some (.sign .openParen)
    · rw [suffix_of_openParen hparen] at hstep
      exact hread ((reads_arguments h _).bind fun _ _ _ _ => .pure trivial) hstep ⟨_, hparen⟩
    by_cases hbracket : s.kind? = some (.sign .openBracket)
    · rw [suffix_of_openBracket hbracket] at hstep
      refine hread ((h.reads _).bind fun _ s₁ _ _ => ?_) hstep ⟨_, hbracket⟩
      exact ((consumes_expect _ _).reads s₁).bind fun _ _ _ _ => .pure trivial
    by_cases hdot : s.kind? = some (.sign .dot)
    · rw [suffix_of_dot hdot] at hstep
      exact hread ((consumes_identifier.reads _).bind fun _ _ _ _ => .pure trivial) hstep ⟨_, hdot⟩
    · rw [suffix_of_ne hparen hbracket hdot] at hstep
      cases hstep

end

/-! ## Primaries -/

section

variable {expression : TokenParser Expr} {s : TokenStream}

theorem primary_of_openParen (h : s.kind? = some (.sign .openParen)) :
    primary expression s = (expression >>= fun inner =>
      expect .closeParen .closeParen >>= fun _ => pure inner) s.tail := by
  refine (bind_of_ok (peek_eq s)).trans ?_
  rw [h]
  exact bind_of_ok (advance_eq s)

theorem primary_of_openBracket (h : s.kind? = some (.sign .openBracket)) :
    primary expression s = (listUntil .closeBracket expression s.tail.tokens >>= fun items =>
      expect .closeBracket .closeArray >>= fun _ => pure (.array items)) s.tail := by
  refine (bind_of_ok (peek_eq s)).trans ?_
  rw [h]
  exact bind_of_ok (advance_eq s)

theorem primary_of_openBrace (h : s.kind? = some (.sign .openBrace)) :
    primary expression s =
      (listUntil .closeBrace (field expression) s.tail.tokens >>= fun fields =>
        expect .closeBrace .closeObject >>= fun _ => pure (.object fields)) s.tail := by
  refine (bind_of_ok (peek_eq s)).trans ?_
  rw [h]
  exact bind_of_ok (advance_eq s)

theorem primary_of_atom? {k : TokenKind} (h : s.kind? = some k) {e : Expr} (hk : atom? k = some e) :
    primary expression s = .ok (e, s.tail) := by
  refine (bind_of_ok (peek_eq s)).trans ?_
  rw [h]
  unfold atom? at hk
  split at hk <;> cases hk <;> exact bind_of_ok (advance_eq s)

end

/-! ## Ends of layers -/

theorem Ends.mono {m m' : Nat} {s : TokenStream} (h : Ends m s) (hm : m ≤ m') : Ends m' s :=
  fun l hl => (h l hl).trans_le hm

theorem ends_of_joint? {m : Nat} {s : TokenStream} {k : TokenKind} (hk : s.kind? = some k)
    (h : ∀ l ∈ joint? k, l < m) : Ends m s := by
  intro l hl
  rw [hk] at hl
  exact h l hl

theorem joint?_of_binaryOp? {k : TokenKind} {op : BinaryOp} {l : Nat}
    (h : binaryOp? k = some (op, l)) : joint? k = some l := by
  unfold joint?
  split
  next => cases h
  next => cases h
  next => cases h
  next => cases h
  next => rw [h, Option.map_some]

/-- Nothing goes on with a primary as a primary. -/
theorem ends_nine (s : TokenStream) : Ends 9 s := by
  intro l hl
  obtain ⟨k, -, hk⟩ := Option.bind_eq_some_iff.1 hl
  unfold joint? at hk
  split at hk
  next => cases hk; decide
  next => cases hk; decide
  next => cases hk; decide
  next => cases hk; decide
  next =>
    unfold binaryOp? at hk
    split at hk <;> cases hk <;> decide

theorem consumes_layer_atDepth (n m : Nat) : Consumes ((atDepth n).layer m) :=
  consumes_layer (consumes_atDepth n).1 (consumes_atDepth n).2 m

/-- Where nothing goes on with an expression, its layer is over. -/
theorem rest_of_ends (n : Nat) {m : Nat} {s : TokenStream} (h : Ends m s) (e : Expr) :
    (atDepth n).rest m e s = .ok (e, s) := by
  have hne : ∀ {k : TokenKind}, joint? k = some m → s.kind? ≠ some k := fun hk heq =>
    absurd (h m (by rw [heq]; exact hk)) (lt_irrefl m)
  unfold rest
  split
  next hm =>
    subst hm
    exact bind_of_ok (accept_of_kind?_ne (hne rfl))
  next =>
    split
    next =>
      refine loop_of_none (isStep_chainStep m (consumes_layer_atDepth n _)) (chainStep_of_ne ?_)
      intro op hop
      obtain ⟨k, hk, hop⟩ := Option.bind_eq_some_iff.1 hop
      exact hne (joint?_of_binaryOp? hop) hk
    next =>
      split
      next hm =>
        subst hm
        refine loop_of_none (isStep_suffix (consumes_atDepth n).1) ?_
        exact suffix_of_ne (hne rfl) (hne rfl) (hne rfl)
      next => rfl

/-- The parser for the operand of a prefix operator. -/
def deeper : Nat → TokenParser Expr
  | 0 => fail .shallowNesting
  | n + 1 => (atDepth n).operand

theorem operand_atDepth (n : Nat) :
    (atDepth n).operand = operandWith (deeper n) (atDepth n).expression := by
  cases n <;> rfl

section

variable {deeper expression : TokenParser Expr} {s : TokenStream}

theorem operandWith_of_prefixOp? {op : UnaryOp} (h : s.kind?.bind prefixOp? = some op) :
    operandWith deeper expression s = (deeper >>= fun e => pure (.unary op e)) s.tail := by
  refine (bind_of_ok (peek_eq s)).trans ?_
  rw [h]
  exact bind_of_ok (advance_eq s)

theorem operandWith_of_none (h : s.kind?.bind prefixOp? = none) :
    operandWith deeper expression s = postfixed expression s := by
  refine (bind_of_ok (peek_eq s)).trans ?_
  rw [h]

/-- A prefix operator opens no primary. -/
theorem postfixed_of_prefixOp? {op : UnaryOp} (h : s.kind?.bind prefixOp? = some op) :
    postfixed expression s = .error ⟨.unexpected .expression s.kind?, s.location⟩ := by
  obtain ⟨k, hk, hop⟩ := Option.bind_eq_some_iff.1 h
  have hprimary : primary expression s = fail .expression s := by
    refine (bind_of_ok (peek_eq s)).trans ?_
    rw [hk]
    unfold prefixOp? at hop
    split at hop
    · rfl
    · rfl
    · rfl
    · cases hop
  exact bind_of_error hprimary

end

end ExprParser

end TraceTutor
