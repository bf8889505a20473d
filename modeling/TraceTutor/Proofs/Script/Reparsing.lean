import TraceTutor.Proofs.Script.Layers
import TraceTutor.Proofs.Script.Spelling

/-!
# Reading printed expressions

A printed expression is read as itself, unless its text nests too deep, which is then the fault
(`parseExpression_print`). Operators associate to the left, so that the left operand of a chain is
read first and the chain goes on from there: `IsReadBack` says of an expression both how it is read
as a whole and how its layer goes on from it.
-/

namespace TraceTutor

namespace ExprParser

open TokenStream TokenParser

/-! ## From layer to layer -/

section

variable {n m : Nat} {e : Expr} {fits : Prop} {s s' : TokenStream}

/-- What is read in one layer is read in the looser one before it, if nothing goes on with it. -/
theorem limited_layer_of_succ (hm : m < 9) (hends : Ends m s')
    (h : Limited fits ((atDepth n).layer (m + 1) s) (.ok (e, s'))) :
    Limited fits ((atDepth n).layer m s) (.ok (e, s')) := by
  by_cases hprefix : m = 7
  · subst hprefix
    have hnone : s.kind?.bind prefixOp? = none := by
      cases hop : s.kind?.bind prefixOp? with
      | none => rfl
      | some op =>
        have hfault : (atDepth n).layer 8 s = _ := postfixed_of_prefixOp? hop
        by_cases hfits : fits
        · cases hfault.symm.trans (h.eq_of_fits hfits)
        · obtain ⟨found, l, heq⟩ := h.isTooDeep hfits
          cases hfault.symm.trans heq
    show Limited fits ((atDepth n).operand s) _
    rw [operand_atDepth, operandWith_of_none hnone]
    exact h
  · rw [layer_eq_bind _ hprefix hm]
    exact (h.bind (.of_eq (rest_of_ends n hends e))).congr (and_iff_left trivial)

theorem limited_layer_of_le {m' : Nat} (hm : m ≤ m') (hm' : m' ≤ 9) (hends : Ends m s')
    (h : Limited fits ((atDepth n).layer m' s) (.ok (e, s'))) :
    Limited fits ((atDepth n).layer m s) (.ok (e, s')) := by
  induction m', hm using Nat.le_induction with
  | base => exact h
  | succ k hk ih =>
    exact ih (by omega) (limited_layer_of_succ (by omega) (hends.mono hk) h)

end

/-! ## Reading back -/

/-- The tokens of an expression are read as the expression where nothing goes on with it. In the
layers that associate to the left, something may go on with it there: the layer then goes on from
the expression. -/
structure IsReadBack (e : Expr) : Prop where
  whole : ∀ n {s s'}, StartsWith e.lexemes s s' → Ends e.layer s' →
    Limited (e.levels ≤ n) ((atDepth n).layer e.layer s) (.ok (e, s'))
  part : e.layer ≠ 0 → e.layer ≠ 7 → ∀ n {s s'}, StartsWith e.lexemes s s' →
    Ends (e.layer + 1) s' →
      Limited (e.levels ≤ n) ((atDepth n).layer e.layer s) ((atDepth n).rest e.layer e s')

namespace IsReadBack

variable {e : Expr} {n m : Nat} {s s' : TokenStream}

theorem of_whole (hlayer : e.layer = 0 ∨ e.layer = 7) (h : ∀ n {s s'}, StartsWith e.lexemes s s' →
    Ends e.layer s' → Limited (e.levels ≤ n) ((atDepth n).layer e.layer s) (.ok (e, s'))) :
    IsReadBack e :=
  ⟨h, fun hzero hseven => absurd hlayer (not_or.2 ⟨hzero, hseven⟩)⟩

theorem of_part (h : ∀ n {s s'}, StartsWith e.lexemes s s' → Ends (e.layer + 1) s' →
    Limited (e.levels ≤ n) ((atDepth n).layer e.layer s) ((atDepth n).rest e.layer e s')) :
    IsReadBack e :=
  ⟨fun n _ _ hs hends => rest_of_ends n hends e ▸ h n hs (hends.mono (Nat.le_succ _)),
    fun _ _ => h⟩

theorem limited_expression (h : IsReadBack e) (hs : StartsWith e.lexemes s s') (hends : Ends 0 s') :
    Limited (e.levels + 1 ≤ n) ((atDepth n).expression s) (.ok (e, s')) := by
  cases n with
  | zero => exact ⟨fun hfits => absurd hfits (by omega), fun _ => ⟨_, _, rfl⟩⟩
  | succ n =>
    have hwhole := h.whole n hs (hends.mono (Nat.zero_le _))
    have hlayer := limited_layer_of_le (Nat.zero_le _) e.layer_le hends hwhole
    exact hlayer.congr (by omega)

theorem limited_parenthesized (h : IsReadBack e)
    (hs : StartsWith (.sign .openParen :: (e.lexemes ++ [.sign .closeParen])) s s') :
    Limited (e.levels + 1 ≤ n) ((atDepth n).layer 9 s) (.ok (e, s')) := by
  obtain ⟨s₁, hinner, hclose, rfl⟩ := hs.tail.exists_of_snoc
  have hends : Ends 0 s₁ := ends_of_joint? hclose (by simp [Lexeme.sign, joint?, binaryOp?])
  show Limited _ (primary _ s) _
  rw [primary_of_openParen hs.head_eq]
  have hrest : (expect .closeParen .closeParen >>= fun _ => pure e) s₁ = .ok (e, s₁.tail) :=
    bind_of_ok (expect_of_kind? hclose)
  exact ((h.limited_expression hinner hends).bind (.of_eq hrest)).congr (and_iff_left trivial)

theorem limited_enclosed (h : IsReadBack e) (hm : m ≤ 9)
    (hs : StartsWith (enclosed (e.layer < m) e.lexemes) s s') (hends : Ends m s') :
    Limited (enclosedLevels (e.layer < m) e.levels ≤ n) ((atDepth n).layer m s) (.ok (e, s')) := by
  by_cases hlayer : e.layer < m
  · simp only [hlayer, decide_true, enclosed, enclosedLevels, if_true] at hs ⊢
    exact limited_layer_of_le hm le_rfl hends (h.limited_parenthesized hs)
  · simp only [hlayer, decide_false, enclosed, enclosedLevels] at hs ⊢
    have hwhole := h.whole n hs (hends.mono (not_lt.1 hlayer))
    exact limited_layer_of_le (not_lt.1 hlayer) e.layer_le hends hwhole

theorem limited_rest (h : IsReadBack e) (hm : m < 9) (hzero : m ≠ 0) (hseven : m ≠ 7)
    (hs : StartsWith (enclosed (e.layer < m) e.lexemes) s s') (hends : Ends (m + 1) s') :
    Limited (enclosedLevels (e.layer < m) e.levels ≤ n) ((atDepth n).layer m s)
      ((atDepth n).rest m e s') := by
  by_cases hlayer : e.layer = m
  · subst hlayer
    simp only [lt_irrefl, decide_false, enclosed, enclosedLevels] at hs ⊢
    exact h.part hzero hseven n hs hends
  · have hiff : (e.layer < m) = (e.layer < m + 1) := propext (by omega)
    simp only [hiff] at hs ⊢
    rw [layer_eq_bind _ hseven hm]
    exact ((h.limited_enclosed hm hs hends).bind (.refl _)).congr (and_iff_left trivial)

end IsReadBack

/-! ## First tokens -/

/-- The token closes a list. -/
def IsClose (k : TokenKind) : Prop :=
  k = .sign .closeParen ∨ k = .sign .closeBracket ∨ k = .sign .closeBrace

/-- There is a first token, and it closes no list. -/
def StartsOpen (xs : List Lexeme) : Prop :=
  ∃ x rest, xs = x :: rest ∧ ¬IsClose x.kind

theorem StartsOpen.enclosed {xs : List Lexeme} (h : StartsOpen xs) (needed : Bool)
    (ys : List Lexeme) : StartsOpen (enclosed needed xs ++ ys) := by
  unfold TraceTutor.enclosed
  split
  · exact ⟨_, _, rfl, by simp [IsClose, Lexeme.sign]⟩
  · obtain ⟨x, rest, rfl, hx⟩ := h
    exact ⟨x, rest ++ ys, rfl, hx⟩

theorem StartsOpen.kind?_ne {xs : List Lexeme} (h : StartsOpen xs) {s s' : TokenStream}
    (hs : StartsWith xs s s') {close : Sign} (hclose : IsClose (.sign close)) :
    s.kind? ≠ some (.sign close) := by
  obtain ⟨x, rest, rfl, hx⟩ := h
  rw [hs.head_eq]
  rintro heq
  exact hx (Option.some.inj heq ▸ hclose)

theorem startsOpen_lexemes (e : Expr) : StartsOpen e.lexemes := by
  cases e with
  | literal v =>
    unfold Expr.lexemes
    refine ⟨_, _, rfl, ?_⟩
    unfold Value.lexeme
    split <;> simp [IsClose, Lexeme.word, Lexeme.whole, Lexeme.string]
  | name n =>
    unfold Expr.lexemes
    refine ⟨_, _, rfl, ?_⟩
    split <;> simp [IsClose, Lexeme.word, Lexeme.identifier]
  | array items =>
    unfold Expr.lexemes
    exact ⟨_, _, rfl, by simp [IsClose, Lexeme.sign]⟩
  | object fields =>
    unfold Expr.lexemes
    exact ⟨_, _, rfl, by simp [IsClose, Lexeme.sign]⟩
  | unary op operand =>
    unfold Expr.lexemes
    refine ⟨_, _, rfl, ?_⟩
    cases op <;> simp [IsClose, Lexeme.sign, UnaryOp.sign]
  | binary op left right =>
    unfold Expr.lexemes
    exact (startsOpen_lexemes left).enclosed _ _
  | ternary condition yes no =>
    unfold Expr.lexemes
    exact (startsOpen_lexemes condition).enclosed _ _
  | index target i =>
    unfold Expr.lexemes
    exact (startsOpen_lexemes target).enclosed _ _
  | member target property =>
    unfold Expr.lexemes
    exact (startsOpen_lexemes target).enclosed _ _
  | call callee args =>
    unfold Expr.lexemes
    exact (startsOpen_lexemes callee).enclosed _ _

/-! ## Items -/

theorem ends_of_comma_or_close {s : TokenStream} {close : Sign} (hclose : IsClose (.sign close))
    (hs : s.kind? = some (.sign .comma) ∨ s.kind? = some (.sign close)) : Ends 0 s := by
  rcases hs with hs | hs
  · exact ends_of_joint? hs (by simp [joint?, binaryOp?])
  · refine ends_of_joint? hs ?_
    rcases hclose with heq | heq | heq <;> cases heq <;> simp [joint?, binaryOp?]

section

variable {e : Expr} (h : IsReadBack e) (n : Nat)

include h

theorem IsReadBack.readsItem_expression {close : Sign} (hclose : IsClose (.sign close)) :
    ReadsItem close (atDepth n).expression e.lexemes (e.levels + 1 ≤ n) e where
  head hs := (startsOpen_lexemes e).kind?_ne hs hclose
  limited hs hs' := h.limited_expression hs (ends_of_comma_or_close hclose hs')

theorem IsReadBack.readsItem_field (key : String) :
    ReadsItem .closeBrace (field (atDepth n).expression)
      (.string key :: .sign .colon :: e.lexemes) (e.levels + 1 ≤ n) (key, e) where
  head hs := by
    rw [hs.head_eq]
    simp [Lexeme.string]
  limited {s s'} hs hs' := by
    have hvalue : Limited (e.levels + 1 ≤ n)
        (((atDepth n).expression >>= fun value => pure (key, value)) s.tail.tail)
        (.ok ((key, e), s')) := by
      have hends := ends_of_comma_or_close (.inr (.inr rfl)) hs'
      have hlimited := h.limited_expression (n := n) hs.tail.tail hends
      exact (hlimited.bind (.refl _)).congr (and_iff_left trivial)
    have hfield : field (atDepth n).expression s =
        ((atDepth n).expression >>= fun value => pure (key, value)) s.tail.tail := by
      refine (bind_of_ok (peek_eq s)).trans ?_
      rw [hs.head_eq]
      refine (bind_of_ok (advance_eq s)).trans ?_
      exact bind_of_ok (accept_of_kind? hs.tail.head_eq)
    rw [hfield]
    exact hvalue

end

/-! ## One rule for each way to build an expression -/

theorem rest_of_lt (p : ExprParser) {m : Nat} (hzero : m ≠ 0) (hm : m < 7) :
    p.rest m = loop (chainStep m (p.layer (m + 1))) := by
  rw [rest, if_neg hzero, if_pos hm]

namespace IsReadBack

theorem atom {e : Expr} {x : Lexeme} (hlexemes : e.lexemes = [x]) (hlayer : e.layer = 9)
    (hlevels : e.levels = 0) (hatom : atom? x.kind = some e) : IsReadBack e := by
  refine of_part fun n s s' hs _ => ?_
  rw [hlexemes] at hs
  rw [hlayer, hlevels]
  cases hs.tail
  exact (Limited.of_eq (primary_of_atom? hs.head_eq hatom)).congr (by simp)

theorem literal {v : Value} (h : v.HasLiteral) : IsReadBack (.literal v) := by
  refine atom (by rw [Expr.lexemes]) rfl (by rw [Expr.levels]) ?_
  unfold Value.HasLiteral at h
  split at h
  · rfl
  next b => cases b <;> rfl
  · rfl
  next n =>
    obtain ⟨k, rfl⟩ := Int.eq_ofNat_of_zero_le h.1
    have hk : k < 2 ^ 53 := by
      have hle := h.2
      unfold maxExactInt at hle
      omega
    exact congrArg (fun v => some (Expr.literal v)) (Value.ofBinary64_whole hk)
  · exact h.elim

theorem name (n : String) : IsReadBack (.name n) := by
  refine atom (by rw [Expr.lexemes]) rfl (by rw [Expr.levels]) ?_
  split
  next heq => exact heq ▸ rfl
  next => rfl

theorem array {items : List Expr} (h : ∀ e ∈ items, IsReadBack e) : IsReadBack (.array items) := by
  refine of_part fun n s s' hs _ => ?_
  rw [Expr.lexemes, Expr.itemLexemes_eq_map] at hs
  rw [Expr.levels, Expr.itemLevels_le_iff]
  obtain ⟨s₁, hitems, hclose, rfl⟩ := hs.tail.exists_of_snoc
  have hread := limited_listUntil (by decide)
    (fun e he => (h e he).readsItem_expression n (.inr (.inl rfl))) hitems hclose
  have hrest : (expect .closeBracket .closeArray >>= fun _ => pure (Expr.array items)) s₁ =
      .ok (.array items, s₁.tail) := bind_of_ok (expect_of_kind? hclose)
  show Limited _ (primary _ s) _
  rw [primary_of_openBracket hs.head_eq]
  exact (hread.bind (.of_eq hrest)).congr (and_iff_left trivial)

theorem object {fields : List (String × Expr)} (h : ∀ field ∈ fields, IsReadBack field.2) :
    IsReadBack (.object fields) := by
  refine of_part fun n s s' hs _ => ?_
  rw [Expr.lexemes, Expr.fieldLexemes_eq_map] at hs
  rw [Expr.levels, Expr.fieldLevels_le_iff]
  obtain ⟨s₁, hfields, hclose, rfl⟩ := hs.tail.exists_of_snoc
  have hread := limited_listUntil (by decide)
    (fun field hfield => (h field hfield).readsItem_field n field.1) hfields hclose
  have hrest : (expect .closeBrace .closeObject >>= fun _ => pure (Expr.object fields)) s₁ =
      .ok (.object fields, s₁.tail) := bind_of_ok (expect_of_kind? hclose)
  show Limited _ (primary _ s) _
  rw [primary_of_openBrace hs.head_eq]
  exact (hread.bind (.of_eq hrest)).congr (and_iff_left trivial)

theorem unary (op : UnaryOp) {operand : Expr} (h : IsReadBack operand) :
    IsReadBack (.unary op operand) := by
  refine of_whole (.inr rfl) fun n s s' hs hends => ?_
  rw [Expr.lexemes] at hs
  rw [Expr.levels]
  have hprefix : s.kind?.bind prefixOp? = some op := by
    rw [hs.head_eq]
    cases op <;> rfl
  show Limited _ ((atDepth n).operand s) _
  rw [operand_atDepth, operandWith_of_prefixOp? hprefix]
  cases n with
  | zero => exact ⟨fun hfits => absurd hfits (by omega), fun _ => ⟨_, _, rfl⟩⟩
  | succ n =>
    have hoperand := h.limited_enclosed (n := n) (by omega) hs.tail hends
    exact (hoperand.bind (.refl _)).congr ((and_iff_left trivial).trans Nat.succ_le_succ_iff.symm)

theorem binary (op : BinaryOp) {left right : Expr} (hleft : IsReadBack left)
    (hright : IsReadBack right) : IsReadBack (.binary op left right) := by
  refine of_part fun n s s' hs hends => ?_
  rw [Expr.lexemes] at hs
  rw [Expr.levels]
  have hzero : op.layer ≠ 0 := by cases op <;> decide
  have hlt : op.layer < 7 := by cases op <;> decide
  have hkind : binaryOp? (.sign op.sign) = some (op, op.layer) := by cases op <;> rfl
  obtain ⟨s₁, hs₁, hop⟩ := hs.exists_of_append
  have hop₁ : s₁.kind? = some (.sign op.sign) := hop.head_eq
  have hends₁ : Ends (op.layer + 1) s₁ := by
    refine ends_of_joint? hop₁ fun l hl => ?_
    cases (joint?_of_binaryOp? hkind).symm.trans hl
    exact Nat.lt_succ_self _
  have hfirst := hleft.limited_rest (n := n) (by omega) hzero (by omega) hs₁ hends₁
  have hstep : Limited (enclosedLevels (right.layer < op.layer + 1) right.levels ≤ n)
      (chainStep op.layer ((atDepth n).layer (op.layer + 1)) left s₁)
      (.ok (some (.binary op left right), s')) := by
    rw [chainStep_of_binaryOp? (by rw [hop₁]; exact hkind)]
    have hsecond := hright.limited_enclosed (n := n) (by omega) hop.tail hends
    exact (hsecond.bind (.refl _)).congr (and_iff_left trivial)
  have hloop := limited_loop (isStep_chainStep op.layer (consumes_layer_atDepth n _)) hstep
  show Limited _ ((atDepth n).layer op.layer s) ((atDepth n).rest op.layer _ s')
  rw [rest_of_lt _ hzero hlt] at hfirst ⊢
  exact (hfirst.trans hloop).congr Nat.max_le.symm

theorem ternary {condition yes no : Expr} (hcondition : IsReadBack condition)
    (hyes : IsReadBack yes) (hno : IsReadBack no) : IsReadBack (.ternary condition yes no) := by
  refine of_whole (.inl rfl) fun n s s' hs hends => ?_
  rw [Expr.lexemes] at hs
  rw [Expr.levels]
  obtain ⟨s₁, hs₁, hquestion⟩ := hs.exists_of_append
  obtain ⟨s₂, hs₂, hcolon⟩ := hquestion.tail.exists_of_append
  have hends₁ : Ends 1 s₁ := ends_of_joint? hquestion.head_eq (by simp [Lexeme.sign, joint?])
  have hends₂ : Ends 0 s₂ :=
    ends_of_joint? hcolon.head_eq (by simp [Lexeme.sign, joint?, binaryOp?])
  have hfirst := hcondition.limited_enclosed (n := n) (by omega) hs₁ hends₁
  have hsecond := hyes.limited_expression (n := n) hs₂ hends₂
  have hthird := hno.limited_expression (n := n) hcolon.tail hends
  have helse : Limited (no.levels + 1 ≤ n)
      ((expect .colon .ternaryColon >>= fun _ => (atDepth n).expression >>= fun e =>
        pure (Expr.ternary condition yes e)) s₂) (.ok (.ternary condition yes no, s')) := by
    rw [bind_of_ok (expect_of_kind? hcolon.head_eq)]
    exact (hthird.bind (.refl _)).congr (and_iff_left trivial)
  have hrest : Limited (yes.levels + 1 ≤ n ∧ no.levels + 1 ≤ n)
      (choiceRest (atDepth n).expression condition s₁) (.ok (.ternary condition yes no, s')) := by
    unfold choiceRest
    rw [bind_of_ok (accept_of_kind? hquestion.head_eq)]
    exact hsecond.bind helse
  show Limited _ ((atDepth n).layer 0 s) _
  rw [layer_eq_bind _ (by decide) (by decide)]
  exact (hfirst.bind hrest).congr (by rw [Nat.max_le, Nat.max_le])

/-- A call, an index or a member: the target, and something that a suffix is read from. -/
theorem of_suffix {target e : Expr} (h : IsReadBack target) (fits : Nat → Prop) {xs : List Lexeme}
    (hlexemes : e.lexemes = enclosed (target.layer < 8) target.lexemes ++ xs) (hlayer : e.layer = 8)
    (hlevels : ∀ n, e.levels ≤ n ↔ enclosedLevels (target.layer < 8) target.levels ≤ n ∧ fits n)
    (hsuffix : ∀ n {s s'}, StartsWith xs s s' →
      Limited (fits n) (suffix (atDepth n).expression target s) (.ok (some e, s'))) :
    IsReadBack e := by
  refine of_part fun n s s' hs _ => ?_
  rw [hlexemes] at hs
  obtain ⟨s₁, hs₁, hxs⟩ := hs.exists_of_append
  have hfirst := h.limited_rest (n := n) (by decide) (by decide) (by decide) hs₁ (ends_nine s₁)
  have hloop := limited_loop (isStep_suffix (consumes_atDepth n).1) (hsuffix n hxs)
  rw [hlayer]
  exact (hfirst.trans hloop).congr (hlevels n).symm

theorem member {target : Expr} (h : IsReadBack target) (property : String) :
    IsReadBack (.member target property) := by
  refine h.of_suffix (fun _ => True) (by rw [Expr.lexemes]) rfl
    (fun n => by rw [Expr.levels, and_iff_left trivial]) fun n s s' hs => ?_
  rw [suffix_of_dot hs.head_eq]
  cases hs.tail.tail
  have hname : identifier s.tail = .ok (property, s.tail.tail) := by
    simp [identifier, hs.tail.head_eq, Lexeme.identifier]
  exact .of_eq (bind_of_ok hname)

theorem index {target i : Expr} (h : IsReadBack target) (hi : IsReadBack i) :
    IsReadBack (.index target i) := by
  refine h.of_suffix (fun n => i.levels + 1 ≤ n) (by rw [Expr.lexemes]) rfl
    (fun n => by rw [Expr.levels, Nat.max_le]) fun n s s' hs => ?_
  rw [suffix_of_openBracket hs.head_eq]
  obtain ⟨s₁, hindex, hclose, rfl⟩ := hs.tail.exists_of_snoc
  have hends : Ends 0 s₁ := ends_of_joint? hclose (by simp [Lexeme.sign, joint?, binaryOp?])
  have hread := hi.limited_expression (n := n) hindex hends
  have hrest : (expect .closeBracket .closeIndex >>= fun _ =>
      pure (some (Expr.index target i))) s₁ = .ok (some (.index target i), s₁.tail) :=
    bind_of_ok (expect_of_kind? hclose)
  exact (hread.bind (.of_eq hrest)).congr (and_iff_left trivial)

theorem call {callee : Expr} {args : List Expr} (h : IsReadBack callee)
    (hargs : ∀ e ∈ args, IsReadBack e) : IsReadBack (.call callee args) := by
  refine h.of_suffix (fun n => ∀ e ∈ args, e.levels + 1 ≤ n)
    (by rw [Expr.lexemes, Expr.itemLexemes_eq_map]) rfl
    (fun n => by rw [Expr.levels, Nat.max_le, Expr.itemLevels_le_iff]) fun n s s' hs => ?_
  rw [suffix_of_openParen hs.head_eq]
  obtain ⟨s₁, hitems, hclose, rfl⟩ := hs.tail.exists_of_snoc
  have hread := limited_separatedUnless (by decide)
    (fun e he => (hargs e he).readsItem_expression n (.inl rfl)) hitems hclose
  have hrest : (expect .closeParen .closeArguments >>= fun _ => pure args) s₁ =
      .ok (args, s₁.tail) := bind_of_ok (expect_of_kind? hclose)
  have harguments : Limited (∀ e ∈ args, e.levels + 1 ≤ n)
      (arguments (atDepth n).expression s.tail) (.ok (args, s₁.tail)) :=
    (hread.bind (.of_eq hrest)).congr (and_iff_left trivial)
  exact (harguments.bind (.refl _)).congr (and_iff_left trivial)

end IsReadBack

mutual

theorem isReadBack : {e : Expr} → e.IsPrintable → IsReadBack e
  | .literal _, h => .literal h
  | .name n, _ => .name n
  | .array _, h => .array (isReadBack_of_mem h)
  | .object _, h => .object (isReadBack_of_mem_fields h)
  | .unary op operand, h => .unary op (isReadBack (e := operand) h)
  | .binary op _ _, h => .binary op (isReadBack h.1) (isReadBack h.2)
  | .ternary _ _ _, h => .ternary (isReadBack h.1) (isReadBack h.2.1) (isReadBack h.2.2)
  | .index _ _, h => .index (isReadBack h.1) (isReadBack h.2)
  | .member _ property, h => .member (isReadBack h.1) property
  | .call _ _, h => .call (isReadBack h.1) (isReadBack_of_mem h.2)

theorem isReadBack_of_mem : {items : List Expr} → Expr.AllPrintable items →
    ∀ e ∈ items, IsReadBack e
  | [], _ => List.forall_mem_nil _
  | _ :: _, h => List.forall_mem_cons.2 ⟨isReadBack h.1, isReadBack_of_mem h.2⟩

theorem isReadBack_of_mem_fields : {fields : List (String × Expr)} → Expr.FieldsPrintable fields →
    ∀ field ∈ fields, IsReadBack field.2
  | [], _ => List.forall_mem_nil _
  | (_, _) :: _, h => List.forall_mem_cons.2 ⟨isReadBack h.1, isReadBack_of_mem_fields h.2⟩

end

end ExprParser

open ExprParser TokenStream TokenParser in
/-- A printed expression is read as itself if its text nests at most as deep as the parser goes, and
is refused for its nesting if not. -/
theorem parseExpression_print (e : Expr) (h : e.IsPrintable) :
    (e.nesting ≤ maxNesting → parseExpression e.print = .ok e) ∧
      (maxNesting < e.nesting → ∃ found l,
        parseExpression e.print = .error ⟨.unexpected .shallowNesting found, l⟩) := by
  obtain ⟨stream, hstream, hkinds⟩ := exists_tokenize_print h
  obtain ⟨rest, hstart, hrest⟩ := exists_startsWith hkinds
  have hkind : rest.kind? = none := by simp [kind?, head?, hrest]
  have hends : Ends 0 rest := fun l hl => by simp [hkind] at hl
  have hread := (isReadBack h).limited_expression (n := maxNesting) hstart hends
  refine ⟨fun hfits => ?_, fun hdeep => ?_⟩
  · have haccept : accept .semicolon rest = .ok (false, rest) :=
      accept_of_kind?_ne (by simp [hkind])
    simp [parseExpression, hstream, hread.eq_of_fits hfits, haccept, hrest, bind, Except.bind, pure,
      Except.pure]
  · obtain ⟨found, l, hfault⟩ := hread.isTooDeep (not_le.2 hdeep)
    refine ⟨found, l, ?_⟩
    simp [parseExpression, hstream, hfault, bind, Except.bind]

theorem parseExpression_print_samples :
    parseExpression "- ( a + 1 ) * f ( \"x\" )" =
        .ok (.binary .mul (.unary .neg (.binary .add (.name "a") (.literal (.int 1))))
          (.call (.name "f") [.literal (.string "x")])) ∧
      ∃ found l, parseExpression ((Expr.unary .not)^[64] (.literal .null)).print =
        .error ⟨.unexpected .shallowNesting found, l⟩ := by
  constructor
  · have ha : IsIdentifier "a" := ⟨⟨⟨_, _, rfl, by decide⟩, by decide⟩, by decide⟩
    have hf : IsIdentifier "f" := ⟨⟨⟨_, _, rfl, by decide⟩, by decide⟩, by decide⟩
    have hread := (parseExpression_print (.binary .mul
      (.unary .neg (.binary .add (.name "a") (.literal (.int 1))))
      (.call (.name "f") [.literal (.string "x")]))
      ⟨⟨.inr ha, by decide, by decide⟩, .inr hf, trivial, trivial⟩).1 (by decide)
    have hprint : Expr.print (.binary .mul
      (.unary .neg (.binary .add (.name "a") (.literal (.int 1))))
      (.call (.name "f") [.literal (.string "x")])) = "- ( a + 1 ) * f ( \"x\" )" := by
      decide +kernel
    exact hprint ▸ hread
  · have hprintable : ((Expr.unary .not)^[64] (.literal .null)).IsPrintable :=
      Function.Iterate.rec Expr.IsPrintable
        (show (Expr.literal .null).IsPrintable from trivial) (fun _ h => h) 64
    exact (parseExpression_print _ hprintable).2 (by decide +kernel)

end TraceTutor
