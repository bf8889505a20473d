import TraceTutor.Proofs.Script.Descent
import TraceTutor.Proofs.Script.Layers

/-!
# Procedures that do what parsers do

`Realizes` compares a procedure on a cursor with a parser: wherever so many levels of nesting are
left, the procedure ends, with the outcome of the parser, in front of the tokens that the parser
leaves. There is one rule for each way to build a procedure. A loop is followed round by round
(`Follows`): as a parser takes the tokens that are left as its fuel, there is fuel for each round if
a round reads a token.
-/

namespace TraceTutor

namespace Descent

open TokenStream

variable {stream : TokenStream} {α β : Type} {c : Cursor} {n : Nat}

/-! ## Procedures and parsers -/

/-- The run ends with the outcome of the parser, and where that is no fault, in front of the tokens
that the parser leaves. -/
def Follows (stream : TokenStream) (action : Action α) (p : TokenParser α) (c : Cursor) : Prop :=
  ∃ report, action.Runs stream c report ∧
    p (c.rest stream) = report.outcome.map fun x => (x, report.cursor.rest stream)

/-- The action follows the parser wherever `n` levels are left. -/
def Realizes (stream : TokenStream) (n : Nat) (action : Action α) (p : TokenParser α) : Prop :=
  ∀ c, c.IsWithin stream → c.levels = n → Follows stream action p c

theorem Cursor.rest_advance : (c.advance stream).rest stream = (c.rest stream).tail := by
  unfold advance
  split
  next => simp [rest, TokenStream.tail, List.tail_drop]
  next hlt =>
    have hend : stream.tokens.length ≤ c.position := Nat.le_of_not_lt hlt
    simp [rest, TokenStream.tail, List.drop_eq_nil_of_le hend]

theorem Cursor.length_rest : (c.rest stream).tokens.length = stream.tokens.length - c.position :=
  List.length_drop

theorem Cursor.length_rest_le {c' : Cursor} (h : c.position ≤ c'.position) :
    (c'.rest stream).tokens.length ≤ (c.rest stream).tokens.length := by
  rw [length_rest, length_rest]
  exact Nat.sub_le_sub_left h _

theorem Cursor.length_rest_lt {c' : Cursor} {k : TokenKind} (hk : (c.rest stream).kind? = some k)
    (h : (c.advance stream).position ≤ c'.position) :
    (c'.rest stream).tokens.length < (c.rest stream).tokens.length := by
  have hle : (c'.rest stream).tokens.length ≤ ((c.advance stream).rest stream).tokens.length :=
    length_rest_le h
  have hlength := length_tokens_of_kind? hk
  rw [← rest_advance] at hlength
  omega

theorem Cursor.levels_advance : (c.advance stream).levels = c.levels :=
  congrArg (maxNesting - ·) depth_advance

/-- Both go on from where the first parts have come to. -/
theorem Follows.bind {a : Action α} {f : α → Action β} {p : TokenParser α} {g : α → TokenParser β}
    (h : Follows stream a p c) (hc : c.IsWithin stream)
    (hf : ∀ x c', c'.IsWithin stream → c'.levels = c.levels → c.position ≤ c'.position →
      p (c.rest stream) = .ok (x, c'.rest stream) → Follows stream (f x) (g x) c') :
    Follows stream (a >>= f) (p >>= g) c := by
  obtain ⟨⟨outcome, c', moves⟩, hruns, hp⟩ := h
  have hwithin := Report.staysWithin_of_runs hruns hc
  cases outcome with
  | error fault => exact ⟨_, .stop hruns, TokenParser.bind_of_error hp⟩
  | ok x =>
    have hlevels : c'.levels = c.levels := congrArg (maxNesting - ·) hwithin.depth_eq
    obtain ⟨second, hsecond, hg⟩ := hf x c' hwithin.cursor hlevels hwithin.position_le hp
    exact ⟨_, .andThen hruns hsecond, (TokenParser.bind_of_ok hp).trans hg⟩

theorem Follows.call {rule : Rule α} {p : TokenParser α} (h : Follows stream rule.body p c) :
    Follows stream (.call rule) p c := by
  obtain ⟨report, hruns, hp⟩ := h
  exact ⟨report, .call hruns, hp⟩

namespace Realizes

variable {a : Action α} {p q : TokenParser α} {f : α → Action β} {g : α → TokenParser β}

theorem congr (hpq : p = q) (h : Realizes stream n a p) : Realizes stream n a q :=
  hpq ▸ h

theorem bind (h : Realizes stream n a p) (hf : ∀ x, Realizes stream n (f x) (g x)) :
    Realizes stream n (a >>= f) (p >>= g) :=
  fun c hc hn => (h c hc hn).bind hc fun x c' hc' hlevels _ _ => hf x c' hc' (hlevels.trans hn)

theorem pure (x : α) : Realizes stream n (Pure.pure x) (Pure.pure x) :=
  fun _ _ _ => ⟨_, .done x _, rfl⟩

theorem fail (wanted : Expectation) :
    Realizes stream n (.fail wanted : Action α) (TokenParser.fail wanted) :=
  fun _ _ _ => ⟨_, .fail wanted _, rfl⟩

theorem look {view : TokenStream → α} (hp : ∀ s, p s = .ok (view s, s)) :
    Realizes stream n (.look view) p :=
  fun _ _ _ => ⟨_, .look view _, hp _⟩

theorem advance : Realizes stream n .advance TokenParser.advance := by
  intro c _ _
  refine ⟨_, .advance _, ?_⟩
  show _ = Except.ok ((), (c.advance stream).rest stream)
  rw [Cursor.rest_advance]
  rfl

theorem call {rule : Rule α} (h : Realizes stream n rule.body p) :
    Realizes stream n (.call rule) p :=
  fun c hc hn => (h c hc hn).call

theorem peek : Realizes stream n .peek TokenParser.peek :=
  look fun _ => rfl

theorem location : Realizes stream n .location TokenParser.location :=
  look fun _ => rfl

theorem check (sign : Sign) : Realizes stream n (.check sign) (TokenParser.check sign) :=
  look fun _ => rfl

theorem peekOpening : Realizes stream n .peekOpening StmtParser.peekOpening :=
  look fun _ => rfl

theorem valueFollows (line : Nat) :
    Realizes stream n (.valueFollows line) (StmtParser.valueFollows line) :=
  look fun _ => rfl

theorem accept (sign : Sign) : Realizes stream n (.accept sign) (TokenParser.accept sign) := by
  intro c _ _
  by_cases hs : (c.rest stream).kind? = some (.sign sign)
  · refine ⟨_, Action.runs_accept_of_kind? hs, ?_⟩
    rw [TokenParser.accept_of_kind? hs, ← Cursor.rest_advance]
    rfl
  · exact ⟨_, Action.runs_accept_of_kind?_ne hs, TokenParser.accept_of_kind?_ne hs⟩

theorem acceptWord (word : Keyword) :
    Realizes stream n (.acceptWord word) (TokenParser.acceptWord word) := by
  have hsteps : (do
      if (← TokenParser.peek) = some (.keyword word) then
        TokenParser.advance
        return true
      else return false) = TokenParser.acceptWord word := by
    funext s
    refine (TokenParser.bind_of_ok (ExprParser.peek_eq s)).trans ?_
    unfold TokenParser.acceptWord
    split <;> rfl
  refine .congr hsteps (.bind .peek fun next => ?_)
  split
  · exact .bind .advance fun _ => .pure true
  · exact .pure false

theorem expect (sign : Sign) (wanted : Expectation) :
    Realizes stream n (.expect sign wanted) (TokenParser.expect sign wanted) := by
  have hsteps : (do
      if ← TokenParser.accept sign then return () else TokenParser.fail wanted) =
        TokenParser.expect sign wanted := by
    funext s
    by_cases hs : s.kind? = some (.sign sign)
    · rw [TokenParser.expect_of_kind? hs]
      exact TokenParser.bind_of_ok (TokenParser.accept_of_kind? hs)
    · refine (TokenParser.bind_of_ok (TokenParser.accept_of_kind?_ne hs)).trans ?_
      exact (if_neg hs).symm
  refine .congr hsteps (.bind (.accept sign) fun present => ?_)
  split
  · exact .pure ()
  · exact .fail wanted

end Realizes

/-! ## Loops -/

namespace Follows

variable {a : Action α} {p q : TokenParser α}

theorem congr (hpq : p (c.rest stream) = q (c.rest stream)) (h : Follows stream a p c) :
    Follows stream a q c := by
  obtain ⟨report, hruns, hp⟩ := h
  exact ⟨report, hruns, hpq.symm.trans hp⟩

theorem look {view : TokenStream → β} {f : β → Action α}
    (h : Follows stream (f (view (c.rest stream))) p c) :
    Follows stream (.look view >>= f) p c := by
  obtain ⟨report, hruns, hp⟩ := h
  exact ⟨_, Action.Runs.andThen (.look view c) hruns, hp⟩

/-- Both look at the same tokens. -/
theorem view {view : TokenStream → β} {q : TokenParser β} (hq : ∀ s, q s = .ok (view s, s))
    {f : β → Action α} {g : β → TokenParser α}
    (h : Follows stream (f (view (c.rest stream))) (g (view (c.rest stream))) c) :
    Follows stream (.look view >>= f) (q >>= g) c :=
  .look (h.congr (TokenParser.bind_of_ok (hq _)).symm)

theorem advance {f : Unit → Action α} {g : Unit → TokenParser α}
    (h : Follows stream (f ()) (g ()) (c.advance stream)) :
    Follows stream (.advance >>= f) (TokenParser.advance >>= g) c := by
  obtain ⟨report, hruns, hg⟩ := h
  refine ⟨_, Action.Runs.andThen (.advance c) hruns, ?_⟩
  rw [Cursor.rest_advance] at hg
  exact (TokenParser.bind_of_ok (ExprParser.advance_eq _)).trans hg

theorem accept_of_ne {sign : Sign} {f : Bool → Action α}
    (hs : (c.rest stream).kind? ≠ some (.sign sign)) (h : Follows stream (f false) p c) :
    Follows stream (.accept sign >>= f) p c := by
  obtain ⟨report, hruns, hp⟩ := h
  exact ⟨_, Action.Runs.andThen (Action.runs_accept_of_kind?_ne hs) hruns, hp⟩

theorem accept {sign : Sign} {f : Bool → Action α} {g : Bool → TokenParser α}
    (htrue : (c.rest stream).kind? = some (.sign sign) →
      Follows stream (f true) (g true) (c.advance stream))
    (hfalse : (c.rest stream).kind? ≠ some (.sign sign) → Follows stream (f false) (g false) c) :
    Follows stream (.accept sign >>= f) (TokenParser.accept sign >>= g) c := by
  by_cases hs : (c.rest stream).kind? = some (.sign sign)
  · obtain ⟨report, hruns, hg⟩ := htrue hs
    refine ⟨_, Action.Runs.andThen (Action.runs_accept_of_kind? hs) hruns, ?_⟩
    rw [Cursor.rest_advance] at hg
    exact (TokenParser.bind_of_ok (TokenParser.accept_of_kind? hs)).trans hg
  · have haccept := TokenParser.accept_of_kind?_ne hs
    exact .accept_of_ne hs ((hfalse hs).congr (TokenParser.bind_of_ok haccept).symm)

end Follows

theorem Realizes.identifier : Realizes stream n (.call .identifier) TokenParser.identifier := by
  intro c hc hn
  have hfail (h : ∀ name, (c.rest stream).kind? ≠ some (.identifier name)) :
      Follows stream (.fail .identifier) TokenParser.identifier c := by
    refine .congr ?_ (Realizes.fail .identifier c hc hn)
    unfold TokenParser.identifier
    split
    next name hkind => exact absurd hkind (h name)
    next => rfl
  refine .call (.look ?_)
  cases hkind : (c.rest stream).kind? with
  | none => exact hfail (by simp [hkind])
  | some kind =>
    cases kind with
    | identifier name =>
      refine .congr ?_ (Realizes.bind .advance (fun _ => .pure name) c hc hn)
      unfold TokenParser.identifier
      rw [hkind]
      rfl
    | number | string | keyword | sign => exact hfail (by simp [hkind])

section

variable {item : Rule α} {p : TokenParser α} (h : Realizes stream n (.call item) p)
  (hc : c.IsWithin stream) (hn : c.levels = n)

include h hc hn

/-- An item where no token is left, so that no comma follows. -/
theorem follows_lastItem (more : Rule (List α)) (hend : (c.rest stream).tokens.length ≤ 0) :
    Follows stream (do
      let x ← .call item
      if ← .accept .comma then return x :: (← .call more) else return [x])
      (do return [← p]) c := by
  refine (h c hc hn).bind hc fun x c' hc' hlevels hposition _ => ?_
  have hend' : (c'.rest stream).tokens.length ≤ 0 := (Cursor.length_rest_le hposition).trans hend
  have hcomma : (c'.rest stream).kind? ≠ some (.sign .comma) := by
    rw [TokenParser.kind?_eq_none_of_length_le hend']
    exact nofun
  exact .accept_of_ne hcomma (Realizes.pure [x] c' hc' rfl)

/-- An item, and a rest of the list that has fewer tokens. -/
theorem follows_itemThen {more : Rule (List α)} {rest : TokenParser (List α)}
    (hmore : ∀ c', c'.IsWithin stream → c'.levels = n →
      (c'.rest stream).tokens.length < (c.rest stream).tokens.length →
        Follows stream (.call more) rest c') :
    Follows stream (do
      let x ← .call item
      if ← .accept .comma then return x :: (← .call more) else return [x])
      (TokenParser.itemThen p rest) c := by
  refine (h c hc hn).bind hc fun x c' hc' hlevels hposition _ => ?_
  refine .accept (fun hcomma => ?_) fun _ => Realizes.pure [x] c' hc' rfl
  have hless : ((c'.advance stream).rest stream).tokens.length < (c.rest stream).tokens.length :=
    (Cursor.length_rest_lt hcomma le_rfl).trans_le (Cursor.length_rest_le hposition)
  have hrest : Follows stream (.call more) rest (c'.advance stream) :=
    hmore _ hc'.advance (Cursor.levels_advance.trans (hlevels.trans hn)) hless
  exact hrest.bind hc'.advance fun xs c₁ hc₁ _ _ _ => Realizes.pure (x :: xs) c₁ hc₁ rfl

end

section

variable {item : Rule α} {p : TokenParser α} (h : Realizes stream n (.call item) p)

include h

/-- By induction on the fuel of the parser: a comma is read in each round that is not the last. -/
theorem follows_separated (fuel : List Token) (hc : c.IsWithin stream) (hn : c.levels = n)
    (hfuel : (c.rest stream).tokens.length ≤ fuel.length) :
    Follows stream (.call (.separated item)) (TokenParser.separated p fuel) c := by
  induction fuel generalizing c with
  | nil => exact .call (follows_lastItem h hc hn _ hfuel)
  | cons token fuel ih =>
    refine .call (follows_itemThen h hc hn fun c' hc' hn' hless => ih hc' hn' ?_)
    rw [List.length_cons] at hfuel
    omega

theorem follows_listUntil (close : Sign) (fuel : List Token) (hc : c.IsWithin stream)
    (hn : c.levels = n) (hfuel : (c.rest stream).tokens.length ≤ fuel.length) :
    Follows stream (.call (.listUntil close item)) (TokenParser.listUntil close p fuel) c := by
  induction fuel generalizing c with
  | nil =>
    refine .call (.view (fun _ => rfl) ?_)
    split
    · exact Realizes.pure [] c hc rfl
    · exact follows_lastItem h hc hn _ hfuel
  | cons token fuel ih =>
    refine .call (.view (fun _ => rfl) ?_)
    split
    · exact Realizes.pure [] c hc rfl
    · refine follows_itemThen h hc hn fun c' hc' hn' hless => ih hc' hn' ?_
      rw [List.length_cons] at hfuel
      omega

end

/-! ## Lists of items -/

section

variable {item : Rule α} {p : TokenParser α} (h : Realizes stream n (.call item) p)

include h

theorem realizes_separated : Realizes stream n (.call (.separated item))
    fun s => TokenParser.separated p s.tokens s :=
  fun _ hc hn => follows_separated h _ hc hn le_rfl

theorem realizes_listUntil (close : Sign) : Realizes stream n (.call (.listUntil close item))
    fun s => TokenParser.listUntil close p s.tokens s :=
  fun _ hc hn => follows_listUntil h close _ hc hn le_rfl

theorem realizes_separatedUnless (close : Sign) :
    Realizes stream n (.separatedUnless close item) (TokenParser.separatedUnless close p) := by
  refine .bind (.check close) fun closed => ?_
  split
  · exact .pure []
  · exact realizes_separated h

theorem realizes_clause (close : Sign) :
    Realizes stream n (.clause close item) (StmtParser.clause close p) := by
  refine .bind (.check close) fun closed => ?_
  split
  · exact .pure none
  · exact .bind h fun x => .pure (some x)

end

end Descent

end TraceTutor
