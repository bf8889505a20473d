import Mathlib.Order.Nat
import TraceTutor.Proofs.Script.Congruence
import TraceTutor.Proofs.Script.Lexing
import TraceTutor.Script.Parser.Statement

/-!
# Laws of parsers

A parser only reads forward. `Yields n post p s` says that `p`, where it succeeds on the stream `s`,
reads at least `n` tokens and yields something with the property `post`. There is one rule for each
way to build a parser. All expressions and statements read at least one token
(`ExprParser.consumes_atDepth`, `StmtParser.sound_atDepth`), and a statement stands on the lines of
the tokens that it was read from (`linesIn_of_parseProgram`).
-/

namespace TraceTutor

namespace TokenStream

/-- What is left of a stream after at least `n` tokens. -/
structure Leaves (n : Nat) (s s' : TokenStream) : Prop where
  tokens : s'.tokens <:+ s.tokens
  length_le : s'.tokens.length + n ≤ s.tokens.length
  stop_eq : s'.stop = s.stop

/-- All tokens of a stream stand on certain lines. -/
def LinesIn (Fits : Nat → Prop) (s : TokenStream) : Prop :=
  ∀ token ∈ s.tokens, Fits token.location.line

namespace Leaves

variable {n m : Nat} {s s' s'' : TokenStream}

theorem refl (s : TokenStream) : Leaves 0 s s :=
  ⟨List.suffix_refl _, Nat.le_refl _, rfl⟩

theorem trans (h : Leaves n s s') (h' : Leaves m s' s'') : Leaves (n + m) s s'' := by
  refine ⟨h'.tokens.trans h.tokens, ?_, h'.stop_eq.trans h.stop_eq⟩
  have h₁ := h.length_le
  have h₂ := h'.length_le
  omega

theorem weaken (hnm : n ≤ m) (h : Leaves m s s') : Leaves n s s' := by
  refine ⟨h.tokens, ?_, h.stop_eq⟩
  have hlength := h.length_le
  omega

theorem linesIn {Fits : Nat → Prop} (h : Leaves n s s') (hs : s.LinesIn Fits) : s'.LinesIn Fits :=
  fun token htoken => hs token (h.tokens.subset htoken)

end Leaves

theorem leaves_tail (s : TokenStream) : Leaves 0 s s.tail := by
  refine ⟨List.tail_suffix _, ?_, rfl⟩
  simp [tail]

theorem leaves_tail_of_kind? {s : TokenStream} {k : TokenKind} (h : s.kind? = some k) :
    Leaves 1 s s.tail := by
  refine ⟨List.tail_suffix _, ?_, rfl⟩
  cases htokens : s.tokens with
  | nil => simp [kind?, head?, htokens] at h
  | cons token rest => simp [tail, htokens]

/-- A token that is read stood on its line. -/
theorem Leaves.fits_location {Fits : Nat → Prop} {s s' : TokenStream} (h : Leaves 1 s s')
    (hs : s.LinesIn Fits) : Fits s.location.line := by
  have hlength := h.length_le
  cases htokens : s.tokens with
  | nil => simp [htokens] at hlength
  | cons token rest =>
    rw [location, htokens]
    exact hs token (htokens ▸ List.mem_cons_self)

theorem fits_location_of_kind? {Fits : Nat → Prop} {s : TokenStream} {k : TokenKind}
    (h : s.kind? = some k) (hs : s.LinesIn Fits) : Fits s.location.line :=
  (leaves_tail_of_kind? h).fits_location hs

end TokenStream

namespace TokenParser

open TokenStream

variable {α β : Type} {n : Nat} {s : TokenStream}

/-- What a parser does to a stream if it succeeds. -/
def Yields (n : Nat) (post : α → Prop) (p : TokenParser α) (s : TokenStream) : Prop :=
  ∀ x s', p s = .ok (x, s') → s.Leaves n s' ∧ post x

/-- Reads at least `n` tokens if it succeeds. -/
abbrev Reads (n : Nat) (p : TokenParser α) (s : TokenStream) : Prop :=
  p.Yields n (fun _ => True) s

/-- Never succeeds without reading. -/
def Consumes (p : TokenParser α) : Prop :=
  ∀ s, p.Reads 1 s

theorem Consumes.reads {p : TokenParser α} (h : p.Consumes) (s : TokenStream) : p.Reads 0 s :=
  fun x s' hx => ⟨(h s x s' hx).1.weaken (Nat.zero_le 1), trivial⟩

namespace Yields

variable {post : α → Prop} {post' : β → Prop} {p : TokenParser α} {f : α → TokenParser β}

theorem pure {x : α} (h : post x) : (Pure.pure x : TokenParser α).Yields 0 post s := by
  intro y s' hy
  cases hy
  exact ⟨.refl s, h⟩

theorem fail (wanted : Expectation) : (TokenParser.fail wanted).Yields n post s := by
  intro y s' hy
  cases hy

theorem weaken {m : Nat} (hnm : n ≤ m) (h : p.Yields m post s) : p.Yields n post s :=
  fun x s' hx => ⟨(h x s' hx).1.weaken hnm, (h x s' hx).2⟩

theorem bind_add {m : Nat} (hp : p.Yields m post s)
    (hf : ∀ x s', s.Leaves m s' → post x → (f x).Yields n post' s') :
    (p >>= f).Yields (m + n) post' s := by
  intro y s'' hy
  obtain ⟨⟨x, s'⟩, hx, hrest⟩ := except_bind_eq_ok_iff.1 hy
  obtain ⟨hleaves, hpost⟩ := hp x s' hx
  obtain ⟨hleaves', hpost'⟩ := hf x s' hleaves hpost y s'' hrest
  exact ⟨hleaves.trans hleaves', hpost'⟩

/-- What the first parser reads counts. -/
theorem bind (hp : p.Yields n post s)
    (hf : ∀ x s', s.Leaves n s' → post x → (f x).Yields 0 post' s') :
    (p >>= f).Yields n post' s :=
  bind_add hp hf

/-- What the second parser reads counts. -/
theorem bind_right (hp : p.Yields 0 post s)
    (hf : ∀ x s', s.Leaves 0 s' → post x → (f x).Yields n post' s') :
    (p >>= f).Yields n post' s :=
  (bind_add hp hf).weaken (by omega)

/-- A parser that only looks at the stream. -/
theorem view {x : α} (hp : p s = .ok (x, s)) (hf : (f x).Yields n post' s) :
    (p >>= f).Yields n post' s := by
  intro y s' hy
  obtain ⟨⟨x', s₁⟩, hx, hrest⟩ := except_bind_eq_ok_iff.1 hy
  cases hp.symm.trans hx
  exact hf y s' hrest

theorem accept {f : Bool → TokenParser β} {sign : Sign} (hn : n ≤ 1)
    (htrue : ∀ s', s.Leaves 1 s' → (f true).Yields 0 post' s')
    (hfalse : (f false).Yields n post' s) : (TokenParser.accept sign >>= f).Yields n post' s := by
  intro y s'' hy
  obtain ⟨⟨b, s'⟩, hb, hrest⟩ := except_bind_eq_ok_iff.1 hy
  unfold TokenParser.accept at hb
  split at hb
  next hkind =>
    cases hb
    have hleaves := leaves_tail_of_kind? hkind
    obtain ⟨hleaves', hpost⟩ := htrue _ hleaves y s'' hrest
    exact ⟨(hleaves.trans hleaves').weaken hn, hpost⟩
  next =>
    cases hb
    exact hfalse y s'' hrest

end Yields

theorem consumes_fail (wanted : Expectation) : Consumes (fail wanted : TokenParser α) :=
  fun _ => .fail wanted

theorem reads_advance (s : TokenStream) : advance.Reads 0 s := by
  intro x s' h
  cases h
  exact ⟨s.leaves_tail, trivial⟩

theorem reads_advance_of_kind? {k : TokenKind} (h : s.kind? = some k) : advance.Reads 1 s := by
  intro x s' hx
  cases hx
  exact ⟨leaves_tail_of_kind? h, trivial⟩

theorem reads_accept (sign : Sign) (s : TokenStream) : (accept sign).Reads 0 s := by
  intro x s' h
  unfold accept at h
  split at h
  · cases h
    exact ⟨s.leaves_tail, trivial⟩
  · cases h
    exact ⟨.refl s, trivial⟩

theorem reads_acceptWord (word : Keyword) (s : TokenStream) : (acceptWord word).Reads 0 s := by
  intro x s' h
  unfold acceptWord at h
  split at h
  · cases h
    exact ⟨s.leaves_tail, trivial⟩
  · cases h
    exact ⟨.refl s, trivial⟩

theorem consumes_expect (sign : Sign) (wanted : Expectation) : Consumes (expect sign wanted) := by
  intro s x s' h
  unfold expect at h
  split at h
  next hkind =>
    cases h
    exact ⟨leaves_tail_of_kind? hkind, trivial⟩
  next => cases h

theorem consumes_identifier : Consumes identifier := by
  intro s x s' h
  unfold identifier at h
  split at h
  next hkind =>
    cases h
    exact ⟨leaves_tail_of_kind? hkind, trivial⟩
  next => cases h

/-! ## Repetition -/

theorem reads_repeatStep {step : α → TokenParser (Option α)} (h : ∀ x s, (step x).Reads 0 s)
    (fuel : List Token) (x : α) (s : TokenStream) : (repeatStep step fuel x).Reads 0 s := by
  induction fuel generalizing x s with
  | nil => exact .pure trivial
  | cons token fuel ih =>
    refine Yields.bind (h x s) fun y s' _ _ => ?_
    cases y with
    | none => exact .pure trivial
    | some y => exact ih y s'

theorem consumes_separated {item : TokenParser α} (h : Consumes item) (fuel : List Token) :
    Consumes (separated item fuel) := by
  induction fuel with
  | nil => exact fun s => (h s).bind fun x s' _ _ => .pure trivial
  | cons token fuel ih =>
    refine fun s => (h s).bind fun x s' _ _ => ?_
    refine .accept (by omega) (fun s'' _ => ?_) (.pure trivial)
    exact (ih.reads s'').bind fun _ _ _ _ => .pure trivial

theorem reads_separatedUnless {item : TokenParser α} (h : Consumes item) (close : Sign)
    (s : TokenStream) : (separatedUnless close item).Reads 0 s := by
  refine .view rfl ?_
  split
  · exact .pure trivial
  · exact .view rfl ((consumes_separated h _).reads s)

theorem reads_listUntil {close : Sign} {item : TokenParser α} (h : Consumes item)
    (fuel : List Token) (s : TokenStream) : (listUntil close item fuel).Reads 0 s := by
  induction fuel generalizing s with
  | nil =>
    refine .view rfl ?_
    split
    · exact .pure trivial
    · exact (h.reads s).bind fun _ _ _ _ => .pure trivial
  | cons token fuel ih =>
    refine .view rfl ?_
    split
    · exact .pure trivial
    · refine (h.reads s).bind fun x s' _ _ => ?_
      refine .accept (by omega) (fun s'' _ => ?_) (.pure trivial)
      exact (ih s'').bind fun _ _ _ _ => .pure trivial

end TokenParser

/-! ## Expressions -/

namespace ExprParser

open TokenStream TokenParser

theorem exists_kind?_of_bind {α : Type} {s : TokenStream} {f : TokenKind → Option α} {x : α}
    (h : s.kind?.bind f = some x) : ∃ k, s.kind? = some k := by
  obtain ⟨k, hk, -⟩ := Option.bind_eq_some_iff.1 h
  exact ⟨k, hk⟩

section

variable {expression operand deeper : TokenParser Expr} (h : Consumes expression)

include h

theorem consumes_field : Consumes (field expression) := by
  intro s
  refine .view rfl ?_
  split
  · exact .fail _
  next key hkey =>
    obtain ⟨k, hk⟩ := exists_kind?_of_bind hkey
    refine (reads_advance_of_kind? hk).bind fun _ s' _ _ => ?_
    refine .accept (by omega) (fun s'' _ => ?_) (.pure trivial)
    exact (h.reads s'').bind fun _ _ _ _ => .pure trivial

theorem consumes_primary : Consumes (primary expression) := by
  intro s
  refine .view rfl ?_
  split
  next hkind =>
    refine (reads_advance_of_kind? hkind).bind fun _ s₁ _ _ => ?_
    refine (h.reads s₁).bind fun inner s₂ _ _ => ?_
    exact ((consumes_expect _ _).reads s₂).bind fun _ _ _ _ => .pure trivial
  next hkind =>
    refine (reads_advance_of_kind? hkind).bind fun _ s₁ _ _ => .view rfl ?_
    refine (reads_listUntil h _ s₁).bind fun items s₂ _ _ => ?_
    exact ((consumes_expect _ _).reads s₂).bind fun _ _ _ _ => .pure trivial
  next hkind =>
    refine (reads_advance_of_kind? hkind).bind fun _ s₁ _ _ => .view rfl ?_
    refine (reads_listUntil (consumes_field h) _ s₁).bind fun fields s₂ _ _ => ?_
    exact ((consumes_expect _ _).reads s₂).bind fun _ _ _ _ => .pure trivial
  next =>
    split
    next e hatom =>
      obtain ⟨k, hk⟩ := exists_kind?_of_bind hatom
      exact (reads_advance_of_kind? hk).bind fun _ _ _ _ => .pure trivial
    next => exact .fail _

theorem reads_arguments (s : TokenStream) : (arguments expression).Reads 0 s := by
  refine (reads_separatedUnless h .closeParen s).bind fun args s' _ _ => ?_
  exact ((consumes_expect _ _).reads s').bind fun _ _ _ _ => .pure trivial

theorem reads_suffix (e : Expr) (s : TokenStream) : (suffix expression e).Reads 0 s := by
  refine .view rfl ?_
  split
  · refine (reads_advance s).bind fun _ s₁ _ _ => ?_
    exact (reads_arguments h s₁).bind fun _ _ _ _ => .pure trivial
  · refine (reads_advance s).bind fun _ s₁ _ _ => ?_
    refine (h.reads s₁).bind fun index s₂ _ _ => ?_
    exact ((consumes_expect _ _).reads s₂).bind fun _ _ _ _ => .pure trivial
  · refine (reads_advance s).bind fun _ s₁ _ _ => ?_
    exact (consumes_identifier.reads s₁).bind fun _ _ _ _ => .pure trivial
  · exact .pure trivial

theorem consumes_postfixed : Consumes (postfixed expression) := by
  refine fun s => (consumes_primary h s).bind fun e s' _ _ => .view rfl ?_
  exact reads_repeatStep (reads_suffix h) _ e s'

theorem consumes_operandWith (hdeeper : Consumes deeper) :
    Consumes (operandWith deeper expression) := by
  intro s
  refine .view rfl ?_
  split
  next op hop =>
    obtain ⟨k, hk⟩ := exists_kind?_of_bind hop
    refine (reads_advance_of_kind? hk).bind fun _ s₁ _ _ => ?_
    exact (hdeeper.reads s₁).bind fun _ _ _ _ => .pure trivial
  next => exact consumes_postfixed h s

end

theorem reads_chainStep (layer : Nat) {operand : TokenParser Expr} (h : Consumes operand)
    (left : Expr) (s : TokenStream) : (chainStep layer operand left).Reads 0 s := by
  refine .view rfl ?_
  split
  · split
    · refine (reads_advance s).bind fun _ s₁ _ _ => ?_
      exact (h.reads s₁).bind fun _ _ _ _ => .pure trivial
    · exact .pure trivial
  · exact .pure trivial

theorem consumes_chain (layer : Nat) {operand : TokenParser Expr} (h : Consumes operand) :
    Consumes (chain layer operand) := by
  refine fun s => (h s).bind fun first s' _ _ => .view rfl ?_
  exact reads_repeatStep (reads_chainStep layer h) _ first s'

theorem consumes_binary {operand : TokenParser Expr} (h : Consumes operand) :
    Consumes (binary operand) :=
  consumes_chain 1 (consumes_chain 2 (consumes_chain 3 (consumes_chain 4 (consumes_chain 5
    (consumes_chain 6 h)))))

theorem consumes_choice {expression operand : TokenParser Expr} (h : Consumes expression)
    (hoperand : Consumes operand) : Consumes (choice expression operand) := by
  refine fun s => (consumes_binary hoperand s).bind fun condition s₁ _ _ => ?_
  refine .accept (by omega) (fun s₂ _ => ?_) (.pure trivial)
  refine (h.reads s₂).bind fun yes s₃ _ _ => ?_
  refine ((consumes_expect _ _).reads s₃).bind fun _ s₄ _ _ => ?_
  exact (h.reads s₄).bind fun _ _ _ _ => .pure trivial

/-- Both parsers of a depth read at least one token. -/
theorem consumes_atDepth (n : Nat) :
    Consumes (atDepth n).expression ∧ Consumes (atDepth n).operand := by
  induction n with
  | zero =>
    exact ⟨consumes_fail _, consumes_operandWith (consumes_fail _) (consumes_fail _)⟩
  | succ n ih =>
    have hexpression := consumes_choice ih.1 ih.2
    exact ⟨hexpression, consumes_operandWith hexpression ih.2⟩

end ExprParser

/-! ## Statements -/

namespace StmtParser

open TokenStream TokenParser

variable {Fits : Nat → Prop}

/-- From tokens on certain lines, a parser reads at least one and yields something on these
lines. -/
def StaysIn {α : Type} (Fits : Nat → Prop) (post : α → Prop) (p : TokenParser α) : Prop :=
  ∀ s, s.LinesIn Fits → p.Yields 1 post s

theorem exists_kind?_of_opening {first second : Option TokenKind}
    (h : opening first second ≠ .expression) : ∃ k, first = some k := by
  cases first with
  | none => exact absurd rfl h
  | some k => exact ⟨k, rfl⟩

theorem staysIn_simple {expression : TokenParser Expr} (h : Consumes expression) :
    StaysIn Fits (Stmt.LinesIn Fits) (simple expression) := by
  intro s hs
  refine .view rfl (.view rfl ?_)
  by_cases hopening : opening s.kind? s.tail.kind? = .expression
  · rw [hopening]
    refine (h s).bind fun e s₁ hleaves _ => .view rfl ?_
    split
    · exact .fail _
    · refine .view rfl ?_
      split
      · exact .fail _
      · exact .pure (hleaves.fits_location hs)
  · obtain ⟨k, hk⟩ := exists_kind?_of_opening hopening
    have hline : Fits s.location.line := fits_location_of_kind? hk hs
    have hadvance := reads_advance_of_kind? hk
    split
    · refine hadvance.bind fun _ s₁ _ _ => ?_
      refine (consumes_identifier.reads s₁).bind fun name s₂ _ _ => ?_
      refine .accept (by omega) (fun s₃ _ => ?_) (.pure hline)
      exact (h.reads s₃).bind fun e _ _ _ => .pure hline
    · refine hadvance.bind fun _ s₁ _ _ => ?_
      exact (consumes_identifier.reads s₁).bind fun _ _ _ _ => .pure hline
    · refine hadvance.bind fun _ s₁ _ _ => ?_
      refine (reads_advance s₁).bind fun _ s₂ _ _ => ?_
      exact (h.reads s₂).bind fun _ _ _ _ => .pure hline
    · refine hadvance.bind fun _ s₁ _ _ => ?_
      exact (reads_advance s₁).bind fun _ s₂ _ _ => .pure hline
    · exact absurd ‹_› hopening

theorem consumes_parenthesized {expression : TokenParser Expr} (h : Consumes expression) :
    Consumes (parenthesized expression) := by
  refine fun s => (consumes_expect _ _ s).bind fun _ s₁ _ _ => ?_
  refine (h.reads s₁).bind fun e s₂ _ _ => ?_
  exact ((consumes_expect _ _).reads s₂).bind fun _ _ _ _ => .pure trivial

/-- A part that may be left out. -/
theorem reads_clause {α : Type} {post : α → Prop} {close : Sign} {part : TokenParser α}
    (h : StaysIn Fits post part) {s : TokenStream} (hs : s.LinesIn Fits) :
    (clause close part).Yields 0 (fun x => ∀ y ∈ x, post y) s := by
  refine .view rfl ?_
  split
  · exact .pure (by simp)
  · exact ((h s hs).weaken (by omega)).bind fun x _ _ hx => .pure (by simpa using hx)

section

/-- The parsers of a level read what they yield from where it stands. -/
structure Sound (Fits : Nat → Prop) (p : StmtParser) : Prop where
  expression : Consumes p.exprs.expression
  body : StaysIn Fits (Script.LinesIn Fits) p.body
  elseIf : StaysIn Fits (Stmt.LinesIn Fits) p.elseIf

variable {p : StmtParser} (h : p.Sound Fits)

include h

theorem staysIn_conditional : StaysIn Fits (Stmt.LinesIn Fits) (conditional p) := by
  intro s hs
  refine .view rfl ?_
  refine (reads_advance s).bind_right fun _ s₁ h₁ _ => ?_
  refine (consumes_parenthesized h.expression s₁).bind fun condition s₂ h₂ _ => ?_
  have hcondition : s.Leaves 1 s₂ := h₁.trans h₂
  have hline := hcondition.fits_location hs
  have hs₂ := hcondition.linesIn hs
  refine ((h.body s₂ hs₂).weaken (by omega)).bind fun yes s₃ h₃ hyes => ?_
  have hs₃ := h₃.linesIn hs₂
  refine (reads_acceptWord .elseWord s₃).bind fun hasElse s₄ h₄ _ => ?_
  have hs₄ := h₄.linesIn hs₃
  split
  · refine .view rfl ?_
    split
    · refine ((h.elseIf s₄ hs₄).weaken (by omega)).bind fun no _ _ hno => ?_
      exact .pure ⟨hline, hyes, hno, trivial⟩
    · refine ((h.body s₄ hs₄).weaken (by omega)).bind fun no _ _ hno => ?_
      exact .pure ⟨hline, hyes, hno⟩
  · exact .pure ⟨hline, hyes, trivial⟩

theorem staysIn_whileLoop : StaysIn Fits (Stmt.LinesIn Fits) (whileLoop p) := by
  intro s hs
  refine .view rfl ?_
  refine (reads_advance s).bind_right fun _ s₁ h₁ _ => ?_
  refine (consumes_parenthesized h.expression s₁).bind fun condition s₂ h₂ _ => ?_
  have hcondition : s.Leaves 1 s₂ := h₁.trans h₂
  have hbody := h.body s₂ (hcondition.linesIn hs)
  refine (hbody.weaken (by omega)).bind fun body _ _ hlines => ?_
  exact .pure ⟨hcondition.fits_location hs, hlines⟩

theorem staysIn_forLoop : StaysIn Fits (Stmt.LinesIn Fits) (forLoop p) := by
  have hexpression : StaysIn Fits (fun _ => True) p.exprs.expression := fun s _ => h.expression s
  have hsimple : StaysIn Fits (Stmt.LinesIn Fits) (simple p.exprs.expression) :=
    staysIn_simple h.expression
  intro s hs
  refine .view rfl ?_
  refine (reads_advance s).bind_right fun _ s₁ h₁ _ => ?_
  refine (consumes_expect _ _ s₁).bind fun _ s₂ h₂ _ => ?_
  have hopen : s.Leaves 1 s₂ := h₁.trans h₂
  have hs₂ := hopen.linesIn hs
  refine (reads_clause hsimple hs₂).bind fun initial s₃ h₃ hinitial => ?_
  refine ((consumes_expect _ _).reads s₃).bind fun _ s₄ h₄ _ => ?_
  have hs₄ := h₄.linesIn (h₃.linesIn hs₂)
  refine (reads_clause hexpression hs₄).bind fun condition s₅ h₅ _ => ?_
  refine ((consumes_expect _ _).reads s₅).bind fun _ s₆ h₆ _ => ?_
  have hs₆ := h₆.linesIn (h₅.linesIn hs₄)
  refine (reads_clause hsimple hs₆).bind fun update s₇ h₇ hupdate => ?_
  refine ((consumes_expect _ _).reads s₇).bind fun _ s₈ h₈ _ => ?_
  have hs₈ := h₈.linesIn (h₇.linesIn hs₆)
  refine ((h.body s₈ hs₈).weaken (by omega)).bind fun body _ _ hbody => ?_
  exact .pure ⟨hopen.fits_location hs, Stmt.optionalLinesIn_iff.2 hinitial,
    Stmt.optionalLinesIn_iff.2 hupdate, hbody⟩

theorem staysIn_function : StaysIn Fits (Stmt.LinesIn Fits) (function p) := by
  intro s hs
  refine .view rfl ?_
  refine (reads_advance s).bind_right fun _ s₁ h₁ _ => ?_
  refine (consumes_identifier s₁).bind fun name s₂ h₂ _ => ?_
  have hname : s.Leaves 1 s₂ := h₁.trans h₂
  refine ((consumes_expect _ _).reads s₂).bind fun _ s₃ h₃ _ => ?_
  refine (reads_separatedUnless consumes_identifier .closeParen s₃).bind fun params s₄ h₄ _ => ?_
  refine ((consumes_expect _ _).reads s₄).bind fun _ s₅ h₅ _ => .view rfl ?_
  have hs₅ := h₅.linesIn (h₄.linesIn (h₃.linesIn (hname.linesIn hs)))
  split
  · refine ((h.body s₅ hs₅).weaken (by omega)).bind fun body _ _ hbody => ?_
    exact .pure ⟨hname.fits_location hs, hbody⟩
  · exact .fail _

/-- A token has to be there, as a statement without a value may be all that is read. -/
theorem yields_returned {s : TokenStream} {k : TokenKind} (hk : s.kind? = some k)
    (hs : s.LinesIn Fits) : (returned p).Yields 1 (Stmt.LinesIn Fits) s := by
  have hline : Fits s.location.line := fits_location_of_kind? hk hs
  refine .view rfl ?_
  refine (reads_advance_of_kind? hk).bind fun _ s₁ _ _ => ?_
  have hvalue : (valueFollows s.location.line).Reads 0 s₁ := by
    intro x s' hx
    cases hx
    exact ⟨.refl s₁, trivial⟩
  refine hvalue.bind fun follows s₂ _ _ => ?_
  split
  · exact (h.expression.reads s₂).bind fun _ _ _ _ => .pure hline
  · exact .pure hline

omit h in
theorem yields_terminated {statement : TokenParser Stmt} {s : TokenStream}
    (hstatement : statement.Yields 1 (Stmt.LinesIn Fits) s) :
    (terminated statement).Yields 1 (Stmt.LinesIn Fits) s :=
  hstatement.bind fun _ s₁ _ hx => (reads_accept .semicolon s₁).bind fun _ _ _ _ => .pure hx

theorem staysIn_statement : StaysIn Fits (Stmt.LinesIn Fits) (statement p) := by
  intro s hs
  have hline : ∀ {k}, s.kind? = some k → Fits s.location.line := fun hk =>
    fits_location_of_kind? hk hs
  refine .view rfl (.view rfl ?_)
  split
  next hk => exact (h.body s hs).bind fun body _ _ hbody => .pure ⟨hline hk, hbody⟩
  next => exact staysIn_conditional h s hs
  next => exact staysIn_whileLoop h s hs
  next => exact staysIn_forLoop h s hs
  next => exact staysIn_function h s hs
  next hk => exact yields_terminated (yields_returned h hk hs)
  next hk =>
    exact yields_terminated ((reads_advance_of_kind? hk).bind fun _ _ _ _ => .pure (hline hk))
  next hk =>
    exact yields_terminated ((reads_advance_of_kind? hk).bind fun _ _ _ _ => .pure (hline hk))
  next hk => exact (reads_advance_of_kind? hk).bind fun _ _ _ _ => .pure ⟨hline hk, trivial⟩
  next => exact yields_terminated (staysIn_simple h.expression s hs)

end

/-! ## Bodies and programs -/

section

variable {statement : TokenParser Stmt} (h : StaysIn Fits (Stmt.LinesIn Fits) statement)

include h

theorem yields_blockRest (fuel : List Token) {s : TokenStream} (hs : s.LinesIn Fits) :
    (blockRest statement fuel).Yields 0 (Script.LinesIn Fits) s := by
  induction fuel generalizing s with
  | nil => exact .fail _
  | cons token fuel ih =>
    refine .accept (by omega) (fun s' _ => .pure trivial) (.view rfl ?_)
    split
    · exact .fail _
    · refine ((h s hs).weaken (by omega)).bind fun x s₁ h₁ hx => ?_
      exact (ih (h₁.linesIn hs)).bind fun rest _ _ hrest => .pure ⟨hx, hrest⟩

theorem staysIn_bodyOf : StaysIn Fits (Script.LinesIn Fits) (bodyOf statement) := by
  intro s hs
  refine .accept (by omega) (fun s' h' => .view rfl ?_) ?_
  · exact yields_blockRest h _ (h'.linesIn hs)
  · exact (h s hs).bind fun x _ _ hx => .pure ⟨hx, trivial⟩

theorem yields_program (fuel : List Token) {s : TokenStream} (hs : s.LinesIn Fits) :
    (program statement fuel).Yields 0 (Script.LinesIn Fits) s := by
  induction fuel generalizing s with
  | nil => exact .pure trivial
  | cons token fuel ih =>
    refine .view rfl ?_
    split
    · exact .pure trivial
    · refine ((h s hs).weaken (by omega)).bind fun x s₁ h₁ hx => ?_
      exact (ih (h₁.linesIn hs)).bind fun rest _ _ hrest => .pure ⟨hx, hrest⟩

end

theorem exprs_atDepth (n : Nat) : (atDepth n).exprs = ExprParser.atDepth n := by
  induction n with
  | zero => rfl
  | succ n ih => exact congrArg ExprParser.outer ih

/-- By induction on the levels that are left: bodies are parsed with a level less. -/
theorem sound_atDepth (Fits : Nat → Prop) (n : Nat) : (atDepth n).Sound Fits := by
  induction n with
  | zero =>
    exact ⟨(ExprParser.consumes_atDepth 0).1, fun _ _ => .fail _, fun _ _ => .fail _⟩
  | succ n ih =>
    have h := (ExprParser.consumes_atDepth (n + 1)).1
    rw [← exprs_atDepth] at h
    exact ⟨h, staysIn_bodyOf (staysIn_statement ih), staysIn_conditional ih⟩

end StmtParser

/-- All statements of a program stand on lines of its text. -/
theorem linesIn_of_parseProgram {source : String} {program : Program}
    (h : parseProgram source = .ok program) :
    Script.LinesIn (IsLine (Text.lines source.toList).length) program := by
  obtain ⟨stream, hstream, hrest⟩ := except_bind_eq_ok_iff.1 h
  obtain ⟨⟨program', rest⟩, hprogram, heq⟩ := except_bind_eq_ok_iff.1 hrest
  cases heq
  have hsound := StmtParser.sound_atDepth (IsLine (Text.lines source.toList).length) maxNesting
  exact (StmtParser.yields_program (StmtParser.staysIn_statement hsound) _
    (isLine_of_mem_tokenize hstream) program rest hprogram).2

end TraceTutor
