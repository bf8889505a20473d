import TraceTutor.Proofs.Script.Parsing
import TraceTutor.Proofs.Script.Printing

/-!
# Parsers on printed tokens

`TokenStream.StartsWith` says that a stream starts with printed tokens. `Limited` says what a parser
makes of it: the expected outcome if the nesting fits, and the fault about it if not, so that each
way to build a parser has one rule for both. Loops go on for as long as their steps read
(`TokenParser.loop_eq`), and lists are read item by item (`TokenParser.limited_items`).
-/

namespace TraceTutor

/-! ## Outcomes -/

/-- The outcome is the fault that the nesting is too deep. -/
def IsTooDeep {α : Type} (outcome : Except SyntaxFault α) : Prop :=
  ∃ found l, outcome = .error ⟨.unexpected .shallowNesting found, l⟩

/-- The outcome is the expected one if the nesting fits, and the fault about it if not. -/
structure Limited {α : Type} (fits : Prop) (outcome expected : Except SyntaxFault α) : Prop where
  eq_of_fits : fits → outcome = expected
  isTooDeep : ¬fits → IsTooDeep outcome

namespace Limited

variable {α β : Type} {fits fits' : Prop} {outcome outcome' expected : Except SyntaxFault α}

theorem refl (outcome : Except SyntaxFault α) : Limited True outcome outcome :=
  ⟨fun _ => rfl, fun h => absurd trivial h⟩

theorem of_eq (h : outcome = expected) : Limited True outcome expected :=
  h ▸ refl outcome

theorem congr (hfits : fits ↔ fits') (h : Limited fits outcome expected) :
    Limited fits' outcome expected :=
  ⟨fun hf => h.eq_of_fits (hfits.2 hf), fun hf => h.isTooDeep fun hf' => hf (hfits.1 hf')⟩

theorem trans (h : Limited fits outcome outcome') (h' : Limited fits' outcome' expected) :
    Limited (fits ∧ fits') outcome expected := by
  refine ⟨fun hfits => (h.eq_of_fits hfits.1).trans (h'.eq_of_fits hfits.2), fun hfits => ?_⟩
  by_cases hfirst : fits
  · rw [h.eq_of_fits hfirst]
    exact h'.isTooDeep fun hsecond => hfits ⟨hfirst, hsecond⟩
  · exact h.isTooDeep hfirst

theorem bind {x : α} {s s' : TokenStream} {p : TokenParser α} {f : α → TokenParser β}
    {expected : Except SyntaxFault (β × TokenStream)} (h : Limited fits (p s) (.ok (x, s')))
    (hf : Limited fits' (f x s') expected) : Limited (fits ∧ fits') ((p >>= f) s) expected := by
  have hbind : Limited fits ((p >>= f) s) (f x s') := by
    refine ⟨fun hfits => ?_, fun hfits => ?_⟩
    · show (p s >>= fun r => f r.1 r.2) = f x s'
      rw [h.eq_of_fits hfits]
      rfl
    · obtain ⟨found, l, hfault⟩ := h.isTooDeep hfits
      refine ⟨found, l, ?_⟩
      show (p s >>= fun r => f r.1 r.2) = _
      rw [hfault]
      rfl
  exact hbind.trans hf

end Limited

namespace TokenParser

variable {α β : Type} {s s' : TokenStream}

/-- What follows a parser that succeeds. -/
theorem bind_of_ok {p : TokenParser α} {f : α → TokenParser β} {x : α} (h : p s = .ok (x, s')) :
    (p >>= f) s = f x s' := by
  show (p s >>= fun r => f r.1 r.2) = f x s'
  rw [h]
  rfl

theorem bind_of_error {p : TokenParser α} {f : α → TokenParser β} {fault : SyntaxFault}
    (h : p s = .error fault) : (p >>= f) s = .error fault := by
  show (p s >>= fun r => f r.1 r.2) = .error fault
  rw [h]
  rfl

/-- Sequences agree on a stream if they go on alike where their first parser succeeds. -/
theorem bind_congr_of_ok {p : TokenParser α} {f g : α → TokenParser β}
    (h : ∀ x s', p s = .ok (x, s') → f x s' = g x s') : (p >>= f) s = (p >>= g) s := by
  cases hp : p s with
  | error fault => rw [bind_of_error hp, bind_of_error hp]
  | ok result => rw [bind_of_ok hp, bind_of_ok hp, h _ _ hp]

theorem expect_of_kind? {sign : Sign} {wanted : Expectation} (h : s.kind? = some (.sign sign)) :
    expect sign wanted s = .ok ((), s.tail) :=
  if_pos h

theorem accept_of_kind? {sign : Sign} (h : s.kind? = some (.sign sign)) :
    accept sign s = .ok (true, s.tail) :=
  if_pos h

theorem accept_of_kind?_ne {sign : Sign} (h : s.kind? ≠ some (.sign sign)) :
    accept sign s = .ok (false, s) :=
  if_neg h

theorem check_of_kind? {sign : Sign} (h : s.kind? = some (.sign sign)) :
    check sign s = .ok (true, s) := by
  simp [check, h]

theorem check_of_kind?_ne {sign : Sign} (h : s.kind? ≠ some (.sign sign)) :
    check sign s = .ok (false, s) := by
  simp [check, h]

/-! ## Repetition -/

/-- Repeats a step with all tokens that are left as fuel. -/
def loop (step : α → TokenParser (Option α)) (x : α) : TokenParser α := do
  repeatStep step (← fuel) x

/-- A step is over at the end of the text, and reads something before it is to be repeated. -/
structure IsStep (step : α → TokenParser (Option α)) : Prop where
  stops : ∀ x {s}, s.kind? = none → step x s = .ok (none, s)
  advances : ∀ x {s y s'}, step x s = .ok (some y, s') → s'.tokens.length < s.tokens.length

theorem kind?_eq_none_of_length_le (h : s.tokens.length ≤ 0) : s.kind? = none := by
  have hnil : s.tokens = [] := List.length_eq_zero_iff.1 (Nat.le_zero.1 h)
  rw [TokenStream.kind?, TokenStream.head?, hnil]
  rfl

theorem repeatStep_of_kind?_eq_none {step : α → TokenParser (Option α)} (h : IsStep step)
    (hs : s.kind? = none) (fuel : List Token) (x : α) : repeatStep step fuel x s = .ok (x, s) := by
  cases fuel with
  | nil => rfl
  | cons token fuel => exact bind_of_ok (h.stops x hs)

/-- More fuel than tokens makes no difference. -/
theorem repeatStep_eq {step : α → TokenParser (Option α)} (h : IsStep step) {f g : List Token}
    (x : α) (hf : s.tokens.length ≤ f.length) (hg : s.tokens.length ≤ g.length) :
    repeatStep step f x s = repeatStep step g x s := by
  induction f generalizing g x s with
  | nil =>
    have hs := kind?_eq_none_of_length_le hf
    rw [repeatStep_of_kind?_eq_none h hs, repeatStep_of_kind?_eq_none h hs]
  | cons token f ih =>
    cases g with
    | nil =>
      have hs := kind?_eq_none_of_length_le hg
      rw [repeatStep_of_kind?_eq_none h hs, repeatStep_of_kind?_eq_none h hs]
    | cons token' g =>
      refine bind_congr_of_ok fun y? s' hstep => ?_
      cases y? with
      | none => rfl
      | some y =>
        have hless := h.advances x hstep
        simp only [List.length_cons] at hf hg
        exact ih y (by omega) (by omega)

/-- A loop takes one step after another, whatever a step yields. -/
theorem loop_eq {step : α → TokenParser (Option α)} (h : IsStep step) (x : α) :
    loop step x = (step x >>= fun y? => match y? with
      | some y => loop step y
      | none => pure x) := by
  funext s
  show repeatStep step s.tokens x s = _
  cases htokens : s.tokens with
  | nil =>
    have hs : s.kind? = none := kind?_eq_none_of_length_le (by simp [htokens])
    rw [bind_of_ok (h.stops x hs)]
    rfl
  | cons token rest =>
    refine bind_congr_of_ok fun y? s' hstep => ?_
    cases y? with
    | none => rfl
    | some y =>
      have hless := h.advances x hstep
      rw [htokens, List.length_cons] at hless
      exact repeatStep_eq h y (by omega) le_rfl

theorem loop_of_none {step : α → TokenParser (Option α)} (h : IsStep step) {x : α}
    (hstep : step x s = .ok (none, s')) : loop step x s = .ok (x, s') := by
  rw [loop_eq h]
  exact bind_of_ok hstep

theorem limited_loop {step : α → TokenParser (Option α)} (h : IsStep step) {x y : α} {fits : Prop}
    (hstep : Limited fits (step x s) (.ok (some y, s'))) :
    Limited fits (loop step x s) (loop step y s') := by
  rw [loop_eq h]
  exact (hstep.bind (.refl _)).congr (and_iff_left trivial)

end TokenParser

/-! ## Printed tokens in front of a stream -/

namespace TokenStream

theorem length_tokens_of_kind? {s : TokenStream} {k : TokenKind} (h : s.kind? = some k) :
    s.tokens.length = s.tail.tokens.length + 1 := by
  cases htokens : s.tokens with
  | nil => simp [kind?, head?, htokens] at h
  | cons token tokens => simp [TokenStream.tail, htokens]

/-- A stream starts with some tokens, and goes on as another stream. -/
inductive StartsWith : List Lexeme → TokenStream → TokenStream → Prop
  | nil {s} : StartsWith [] s s
  | cons {x xs s rest} (head : s.kind? = some x.kind) (tail : StartsWith xs s.tail rest) :
    StartsWith (x :: xs) s rest

namespace StartsWith

variable {x : Lexeme} {xs ys : List Lexeme} {s rest : TokenStream}

theorem head_eq (h : StartsWith (x :: xs) s rest) : s.kind? = some x.kind := by
  cases h with
  | cons head => exact head

theorem tail (h : StartsWith (x :: xs) s rest) : StartsWith xs s.tail rest := by
  cases h with
  | cons _ tail => exact tail

theorem exists_of_append (h : StartsWith (xs ++ ys) s rest) :
    ∃ s', StartsWith xs s s' ∧ StartsWith ys s' rest := by
  induction xs generalizing s with
  | nil => exact ⟨s, .nil, h⟩
  | cons x xs ih =>
    obtain ⟨s', hxs, hys⟩ := ih h.tail
    exact ⟨s', .cons h.head_eq hxs, hys⟩

theorem exists_of_snoc (h : StartsWith (xs ++ [x]) s rest) :
    ∃ s', StartsWith xs s s' ∧ s'.kind? = some x.kind ∧ rest = s'.tail := by
  obtain ⟨s', hxs, hx⟩ := h.exists_of_append
  refine ⟨s', hxs, hx.head_eq, ?_⟩
  cases hx.tail
  rfl

theorem length_eq (h : StartsWith xs s rest) :
    s.tokens.length = xs.length + rest.tokens.length := by
  induction h with
  | nil => simp
  | cons head _ ih =>
    rw [length_tokens_of_kind? head, ih, List.length_cons]
    omega

theorem exists_head_item {items : List (List Lexeme)}
    (h : StartsWith (listed (xs :: items)) s rest) : ∃ s', StartsWith xs s s' := by
  cases items with
  | nil => exact ⟨rest, by simpa [listed] using h⟩
  | cons item items =>
    have hsplit : StartsWith (xs ++ .sign .comma :: listed (item :: items)) s rest := by
      simpa [listed] using h
    obtain ⟨s', hxs, -⟩ := hsplit.exists_of_append
    exact ⟨s', hxs⟩

end StartsWith

/-- A stream starts with its tokens. -/
theorem exists_startsWith {xs : List Lexeme} {s : TokenStream}
    (h : s.tokens.map Token.kind = xs.map Lexeme.kind) :
    ∃ rest, StartsWith xs s rest ∧ rest.tokens = [] := by
  induction xs generalizing s with
  | nil => exact ⟨s, .nil, List.map_eq_nil_iff.1 h⟩
  | cons x xs ih =>
    cases htokens : s.tokens with
    | nil => simp [htokens] at h
    | cons token tokens =>
      rw [htokens, List.map_cons, List.map_cons, List.cons.injEq] at h
      obtain ⟨rest, hxs, hrest⟩ := ih (s := s.tail) (by simp [tail, htokens, h.2])
      exact ⟨rest, .cons (by simp [kind?, head?, htokens, h.1]) hxs, hrest⟩

end TokenStream

namespace TokenParser

open TokenStream

variable {α : Type}

/-! ## Lists -/

/-- The text of an item is read as the item where a comma or the closing sign follows, and does not
start with the closing sign. -/
structure ReadsItem (close : Sign) (item : TokenParser α) (xs : List Lexeme) (fits : Prop) (x : α) :
    Prop where
  head : ∀ {s s'}, StartsWith xs s s' → s.kind? ≠ some (.sign close)
  limited : ∀ {s s'}, StartsWith xs s s' →
    s'.kind? = some (.sign .comma) ∨ s'.kind? = some (.sign close) →
      Limited fits (item s) (.ok (x, s'))

/-- An item, and more of them if a comma follows. -/
def itemThen (item : TokenParser α) (more : TokenParser (List α)) : TokenParser (List α) := do
  let x ← item
  if ← accept .comma then return x :: (← more) else return [x]

section

variable {item : TokenParser α} {more : TokenParser (List α)} {fits : Prop} {x : α}
  {s s₁ : TokenStream} (h : Limited fits (item s) (.ok (x, s₁)))

include h

theorem limited_itemThen_last (hlast : s₁.kind? ≠ some (.sign .comma)) :
    Limited fits (itemThen item more s) (.ok ([x], s₁)) :=
  (h.bind (.of_eq (bind_of_ok (accept_of_kind?_ne hlast)))).congr (and_iff_left trivial)

theorem limited_itemThen_comma (hcomma : s₁.kind? = some (.sign .comma)) {fits' : Prop}
    {xs : List α} {s' : TokenStream} (hmore : Limited fits' (more s₁.tail) (.ok (xs, s'))) :
    Limited (fits ∧ fits') (itemThen item more s) (.ok (x :: xs, s')) := by
  have hrest : Limited fits' ((more >>= fun xs => pure (x :: xs)) s₁.tail) (.ok (x :: xs, s')) :=
    (hmore.bind (.refl _)).congr (and_iff_left trivial)
  exact h.bind ((bind_of_ok (accept_of_kind? hcomma)).symm ▸ hrest)

end

/-- Items that are read up to the closing sign. The reader of a list goes on as `itemThen` with a
reader of the rest of the list. -/
theorem limited_items {close : Sign} {item : TokenParser α} {lexemes : α → List Lexeme}
    {fits : α → Prop} (hclose : close ≠ .comma) {items : List Token → TokenParser (List α)}
    (hitems : ∀ {s : TokenStream} token fuel, s.kind? ≠ some (.sign close) →
      items (token :: fuel) s = itemThen item (items fuel) s)
    {x : α} {xs : List α} (h : ∀ y ∈ x :: xs, ReadsItem close item (lexemes y) (fits y) y)
    {s s' : TokenStream} (hs : StartsWith (listed ((x :: xs).map lexemes)) s s')
    (hs' : s'.kind? = some (.sign close)) {fuel : List Token}
    (hfuel : s.tokens.length ≤ fuel.length) :
    Limited (∀ y ∈ x :: xs, fits y) (items fuel s) (.ok (x :: xs, s')) := by
  induction xs generalizing x s fuel with
  | nil =>
    have hx := h x List.mem_cons_self
    have hstart : StartsWith (lexemes x) s s' := by simpa [listed] using hs
    have hlength := hstart.length_eq
    have hlength' := length_tokens_of_kind? hs'
    obtain ⟨token, fuel, rfl⟩ := List.exists_cons_of_length_pos (l := fuel) (by omega)
    rw [hitems token fuel (hx.head hstart)]
    have hlast : s'.kind? ≠ some (.sign .comma) := by simpa [hs'] using hclose
    exact (limited_itemThen_last (hx.limited hstart (.inr hs')) hlast).congr (by simp)
  | cons y ys ih =>
    obtain ⟨hx, hys⟩ := List.forall_mem_cons.1 h
    have hsplit :
        StartsWith (lexemes x ++ .sign .comma :: listed ((y :: ys).map lexemes)) s s' := by
      simpa [listed] using hs
    obtain ⟨s₁, hstart, hrest⟩ := hsplit.exists_of_append
    have hcomma : s₁.kind? = some (.sign .comma) := hrest.head_eq
    have hlength := hstart.length_eq
    have hlength' := length_tokens_of_kind? hcomma
    obtain ⟨token, fuel, rfl⟩ := List.exists_cons_of_length_pos (l := fuel) (by omega)
    rw [List.length_cons] at hfuel
    rw [hitems token fuel (hx.head hstart)]
    have hmore := ih hys hrest.tail (by omega : s₁.tail.tokens.length ≤ fuel.length)
    exact (limited_itemThen_comma (hx.limited hstart (.inl hcomma)) hcomma hmore).congr (by simp)

section

variable {close : Sign} {item : TokenParser α} {lexemes : α → List Lexeme} {fits : α → Prop}
  (hclose : close ≠ .comma) {xs : List α}
  (h : ∀ x ∈ xs, ReadsItem close item (lexemes x) (fits x) x) {s s' : TokenStream}
  (hs : StartsWith (listed (xs.map lexemes)) s s') (hs' : s'.kind? = some (.sign close))

include hclose h hs hs'

theorem limited_listUntil :
    Limited (∀ x ∈ xs, fits x) (listUntil close item s.tokens s) (.ok (xs, s')) := by
  cases xs with
  | nil =>
    cases hs with
    | nil =>
      have hnil : ∀ fuel, listUntil close item fuel s = .ok ([], s) := by
        intro fuel
        cases fuel <;> exact bind_of_ok (check_of_kind? hs')
      exact (Limited.of_eq (hnil s.tokens)).congr (by simp)
  | cons x xs =>
    have hitems : ∀ {s : TokenStream} token fuel, s.kind? ≠ some (.sign close) →
        listUntil close item (token :: fuel) s = itemThen item (listUntil close item fuel) s :=
      fun _ _ hne => bind_of_ok (check_of_kind?_ne hne)
    exact limited_items hclose hitems h hs hs' le_rfl

theorem limited_separatedUnless :
    Limited (∀ x ∈ xs, fits x) (separatedUnless close item s) (.ok (xs, s')) := by
  cases xs with
  | nil =>
    cases hs with
    | nil => exact (Limited.of_eq (bind_of_ok (check_of_kind? hs'))).congr (by simp)
  | cons x xs =>
    have hne : s.kind? ≠ some (.sign close) := by
      obtain ⟨s₁, hstart⟩ := hs.exists_head_item
      exact (h x List.mem_cons_self).head hstart
    have hstart : separatedUnless close item s = separated item s.tokens s :=
      bind_of_ok (check_of_kind?_ne hne)
    rw [hstart]
    exact limited_items hclose (fun _ _ _ => rfl) h hs hs' le_rfl

end

end TokenParser

end TraceTutor
