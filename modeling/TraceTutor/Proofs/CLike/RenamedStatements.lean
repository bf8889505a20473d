import TraceTutor.CLike.Statement
import TraceTutor.Proofs.CLike.RenamedOutput

/-!
# Statements of renamed lines

Two readers correspond if one reads from a renamed line what the other one reads from the line
itself. There is one rule for each way to build a reader and one for each part of a line, so that
every kind of statement is found in a renamed line as well, with its variables renamed.

Inert lines are told by what they start with. One that starts as a directive has no effect, whatever
its words are (`statement?_of_directive`). One that starts with the characters of `using` is inert
whether or not these are a word of their own, so that a variable of such a name can only be renamed
to another one (`KeepsUsing`).
-/

namespace TraceTutor

namespace CLike

open Text

/-! ## Related results -/

section Related

variable {α β γ δ : Type} {r : α → β → Prop} {r' : γ → δ → Prop} {a a' : Option α} {b b' : Option β}

theorem orElse_rel (h : Option.Rel r a b) (h' : Option.Rel r a' b') :
    Option.Rel r (a <|> a') (b <|> b') := by
  cases h with
  | none => exact h'
  | some h => exact .some h

theorem map_rel {f : α → γ} {g : β → δ} (h : Option.Rel r a b)
    (hfg : ∀ a b, r a b → r' (f a) (g b)) : Option.Rel r' (a.map f) (b.map g) := by
  cases h with
  | none => exact .none
  | some h => exact .some (hfg _ _ h)

theorem bind_rel {f : α → Option γ} {g : β → Option δ} (h : Option.Rel r a b)
    (hfg : ∀ a b, r a b → Option.Rel r' (f a) (g b)) : Option.Rel r' (a.bind f) (b.bind g) := by
  cases h with
  | none => exact .none
  | some h => exact hfg _ _ h

theorem filter_rel {p : α → Bool} {q : β → Bool} (h : Option.Rel r a b)
    (hpq : ∀ a b, r a b → p a = q b) : Option.Rel r (a.filter p) (b.filter q) := by
  cases h with
  | none => exact .none
  | some h =>
    rw [Option.filter_some, Option.filter_some, hpq _ _ h]
    split
    · exact .some h
    · exact .none

end Related

/-! ## Relations between what is read -/

/-- The second name is the first one where `x` is called `y`. -/
def Renames (x y a b : String) : Prop :=
  a ≠ y ∧ b = rename x y a

/-- The second condition is the first one where `x` is called `y`. -/
structure LoopCondition.Renamed (x y : String) (c c' : LoopCondition) : Prop where
  name : Renames x y c.name c'.name
  comparison_eq : c.comparison = c'.comparison
  limit_eq : c.limit = c'.limit

/-- Whether a statement has no effect but to move the cursor on. -/
def Statement.IsPassed (statement : Statement) : Prop :=
  statement = .noOp ∨ statement = .unrecognized

/-- The second statement is the first one where `x` is called `y`. -/
inductive Statement.Renamed (x y : String) : Statement → Statement → Prop
  | passed {a b : Statement} (ha : a.IsPassed) (hb : b.IsPassed) : Statement.Renamed x y a b
  | declare {a b : String} (h : Renames x y a b) (value : Int) :
    Statement.Renamed x y (.declare a value) (.declare b value)
  | assign {a b : String} (h : Renames x y a b) (value : Int) :
    Statement.Renamed x y (.assign a value) (.assign b value)
  | increment {a b : String} (h : Renames x y a b) :
    Statement.Renamed x y (.increment a) (.increment b)
  | addAssign {a b a' b' : String} (h : Renames x y a b) (h' : Renames x y a' b') :
    Statement.Renamed x y (.addAssign a a') (.addAssign b b')
  | loopHead {c c' : LoopCondition} (h : c.Renamed x y c') :
    Statement.Renamed x y (.loopHead c) (.loopHead c')
  | closeBrace : Statement.Renamed x y .closeBrace .closeBrace
  | output {a b : String} (h : RenamedOutput x y a.toList b.toList) :
    Statement.Renamed x y (.output a) (.output b)
  | factorialCall {a b : String} (h : Renames x y a b) (argument : Int) :
    Statement.Renamed x y (.factorialCall a argument) (.factorialCall b argument)

namespace LineReader

variable {α β γ δ : Type}

/-- The second reader reads from a renamed text what the first one reads from the text. -/
def Corresponds (x y : String) (r : α → β → Prop) (p : LineReader α) (q : LineReader β) : Prop :=
  ∀ ⦃s t : List Char⦄, Renamed x y s t →
    Option.Rel (fun a b => r a.1 b.1 ∧ Renamed x y a.2 b.2) (p s) (q t)

namespace Corresponds

variable {x y : String} {r : α → β → Prop} {p p' : LineReader α} {q q' : LineReader β}

theorem read? (h : Corresponds x y r p q) {s t : List Char} (hst : Renamed x y s t) :
    Option.Rel r (p.read? s) (q.read? t) :=
  map_rel (h hst) fun _ _ hab => hab.1

theorem pure {a : α} {b : β} (h : r a b) : Corresponds x y r (Pure.pure a) (Pure.pure b) :=
  fun _ _ hst => .some ⟨h, hst⟩

theorem bind {r' : γ → δ → Prop} {f : α → LineReader γ} {g : β → LineReader δ}
    (h : Corresponds x y r p q) (hfg : ∀ a b, r a b → Corresponds x y r' (f a) (g b)) :
    Corresponds x y r' (p >>= f) (q >>= g) :=
  fun _ _ hst => bind_rel (h hst) fun _ _ hab => hfg _ _ hab.1 hab.2

theorem orElse (h : Corresponds x y r p q) (h' : Corresponds x y r p' q') :
    Corresponds x y r (p <|> p') (q <|> q') :=
  fun _ _ hst => orElse_rel (h hst) (h' hst)

end Corresponds

/-! ## Signs -/

section Signs

variable {x y : String} {s t : List Char} (hy : IsWordText y)
include hy

/-- A sign is found in both texts or in none. -/
theorem isPrefixOf_renamed {sign : List Char} (hsign : ∀ c ∈ sign, isWordPart c = false)
    (h : Renamed x y s t) : sign.isPrefixOf s = sign.isPrefixOf t ∧
      (sign.isPrefixOf s = true → Renamed x y (s.drop sign.length) (t.drop sign.length)) := by
  induction sign generalizing s t with
  | nil => exact ⟨rfl, fun _ => h⟩
  | cons c sign ih =>
    obtain ⟨hc, hsign⟩ := List.forall_mem_cons.1 hsign
    have hword : ∀ {w : String}, IsWordText w → ∀ rest,
        (c :: sign).isPrefixOf (w.toList ++ rest) = false := by
      intro w hw rest
      rw [← Bool.not_eq_true, List.isPrefixOf_iff_prefix]
      rintro ⟨more, hmore⟩
      exact hw.append_ne_cons hc hmore.symm
    cases h using Renamed.induct with
    | nil => exact ⟨rfl, fun h => nomatch h⟩
    | @other d s t hd h =>
      obtain ⟨heq, hdrop⟩ := ih hsign h
      refine ⟨by simp only [List.isPrefixOf, heq], fun hfront => ?_⟩
      simp only [List.isPrefixOf, Bool.and_eq_true] at hfront
      exact hdrop hfront.2
    | word hw =>
      rw [hword hw, hword (hw.rename hy)]
      exact ⟨rfl, fun h => nomatch h⟩
  
theorem any_head?_renamed {test : Char → Bool} (htest : ∀ c, test c = true → isWordPart c = false)
    (h : Renamed x y s t) : s.head?.any test = t.head?.any test := by
  have hword : ∀ {w : String}, IsWordText w → ∀ rest,
      (w.toList ++ rest).head?.any test = false := by
    intro w hw rest
    obtain ⟨c, tail, hcons, hc⟩ := hw.exists_cons
    have hfail : test c ≠ true := fun h => by simp [htest c h] at hc
    simpa [hcons] using hfail
  cases h using Renamed.induct with
  | nil => rfl
  | other => rfl
  | word hw => rw [hword hw, hword (hw.rename hy)]

end Signs

section Parts

variable {x y : String} (hx : IsVariable x) (hy : IsVariable y)

/-- A reserved word is read where it is the whole word in front. -/
theorem word_apply {wanted : String} (h : IsWordText wanted) (text : List Char) :
    word wanted text =
      if (trimStart text).takeWhile isWordPart = wanted.toList then
        some ((), (trimStart text).dropWhile isWordPart)
      else none := by
  rw [word, bind_apply, sign_apply]
  generalize trimStart text = text
  cases hread : exactly wanted.toList text with
  | none =>
    rw [if_neg fun htake => ?_]
    · rfl
    · have hfront := exactly_eq_some_iff.2 (htake ▸ List.takeWhile_append_dropWhile.symm)
      rw [hread] at hfront
      cases hfront
  | some result =>
    obtain ⟨⟨⟩, rest⟩ := result
    obtain rfl := exactly_eq_some_iff.1 hread
    rw [List.takeWhile_append_of_pos h.isWordPart, List.dropWhile_append_of_pos h.isWordPart,
      Option.bind_some]
    cases rest with
    | nil => simp
    | cons c rest => by_cases hc : isWordPart c = true <;> simp [hc]

/-- The digits of an integer after its sign. -/
def unsigned (negative : Bool) : LineReader Int := do
  let digits ← digits
  let n : Int := if negative then -Decimal.ofDigits digits else Decimal.ofDigits digits
  fun text =>
    if digits.isEmpty || text.head?.any (fun c => isWordPart c || c == '.') || !isWord n then none
    else some (n, text)

theorem integer_eq : integer = (do skipBlanks; let negative ← minus; unsigned negative) := rfl

theorem unsigned_of_not_digit {negative : Bool} {text : List Char}
    (h : text.head?.any Char.isDigit = false) : unsigned negative text = none := by
  have htake : text.takeWhile Char.isDigit = [] := by
    cases text with
    | nil => rfl
    | cons c text => exact List.takeWhile_cons_of_neg (by simpa using h)
  simp [unsigned, bind_apply, digits, htake]

section Unsigned

variable (negative : Bool) {w : String} (hw : IsWordText w)
include hw

theorem unsigned_digits (hall : w.toList.all Char.isDigit = true) : ∃ n : Int, ∀ s, EndsWord s →
    unsigned negative (w.toList ++ s) =
      if s.head? = some '.' ∨ isWord n = false then none else some (n, s) := by
  refine ⟨if negative then -Decimal.ofDigits w.toList else Decimal.ofDigits w.toList,
    fun s hs => ?_⟩
  have hdigits : ∀ c ∈ w.toList, c.isDigit = true := List.all_eq_true.1 hall
  have hnext : ∀ c ∈ s.head?, c.isDigit = false :=
    fun c hc => isDigit_eq_false_of_not_isWordPart (hs c hc)
  have htake : (w.toList ++ s).takeWhile Char.isDigit = w.toList := by
    rw [List.takeWhile_append_of_pos hdigits]
    cases s with
    | nil => simp
    | cons c s => simp [hnext c rfl]
  have hdrop : (w.toList ++ s).dropWhile Char.isDigit = s := by
    rw [List.dropWhile_append_of_pos hdigits]
    cases s with
    | nil => rfl
    | cons c s => simp [hnext c rfl]
  have hpoint : s.head?.any (fun c => isWordPart c || c == '.') = true ↔ s.head? = some '.' := by
    cases s with
    | nil => simp
    | cons c s => simp [hs c rfl]
  rw [unsigned, bind_apply, digits, htake, hdrop]
  simp [hpoint, hw.ne_nil]

theorem unsigned_of_not_all (hall : ¬w.toList.all Char.isDigit = true) (s : List Char) :
    unsigned negative (w.toList ++ s) = none := by
  have hrest : w.toList.dropWhile Char.isDigit ≠ [] := by
    intro h
    exact hall (List.all_eq_true.2 (List.dropWhile_eq_nil_iff.1 h))
  obtain ⟨c, rest, hcons⟩ := List.exists_cons_of_ne_nil hrest
  have hc : isWordPart c = true :=
    hw.isWordPart c ((List.dropWhile_sublist _).mem (hcons ▸ List.mem_cons_self))
  have hdrop : (w.toList ++ s).dropWhile Char.isDigit = c :: (rest ++ s) := by
    rw [List.dropWhile_append, hcons]
    rfl
  rw [unsigned, bind_apply, digits, hdrop]
  simp [hc]

end Unsigned

theorem exactly_append (first wanted text : List Char) :
    exactly (first ++ wanted) (first ++ text) = exactly wanted text := by
  have hfront : (first ++ wanted).isPrefixOf (first ++ text) = wanted.isPrefixOf text := by
    rw [Bool.eq_iff_iff, List.isPrefixOf_iff_prefix, List.isPrefixOf_iff_prefix,
      List.prefix_append_right_inj]
  rw [exactly, exactly, hfront, List.length_append, ← List.drop_drop, List.drop_left]

/-- The name of the standard namespace is a reserved word, with two colons after it. -/
theorem sign_std : sign "std::" = (do word "std"; exactly "::".toList) := by
  have hword : IsWordText "std" := isWordText_reserved (by decide)
  funext text
  rw [bind_apply, word_apply hword, sign_apply]
  generalize trimStart text = text
  split
  next h =>
    have htext : text = "std".toList ++ text.dropWhile isWordPart := by
      rw [← h, List.takeWhile_append_dropWhile]
    conv_lhs => rw [htext]
    exact exactly_append "std".toList "::".toList _
  next h =>
    cases hread : exactly "std::".toList text with
    | none => rfl
    | some result =>
      obtain ⟨⟨⟩, rest⟩ := result
      obtain rfl := exactly_eq_some_iff.1 hread
      exact absurd (hword.takeWhile (s := "::".toList ++ rest) (endsWord_cons rfl _)) h

namespace Corresponds

section BetweenWords

include hy

theorem exactly {wanted : List Char} (hwanted : ∀ c ∈ wanted, isWordPart c = false) :
    Corresponds x y (· = ·) (exactly wanted) (exactly wanted) := by
  intro s t hst
  obtain ⟨heq, hdrop⟩ := isPrefixOf_renamed hy.isWordText hwanted hst
  rw [LineReader.exactly, LineReader.exactly, ← heq]
  split
  next h => exact .some ⟨rfl, hdrop h⟩
  next => exact .none

theorem skipBlanks : Corresponds x y (· = ·) skipBlanks skipBlanks :=
  fun _ _ hst => .some ⟨rfl, hst.trimStart hy.isWordText⟩

theorem blanks : Corresponds x y (· = ·) blanks blanks := by
  have hpart : ∀ c, isBlank c = true → isWordPart c = false := by
    intro c hc
    rw [← Bool.not_eq_true]
    intro hpart
    simp [(isSolid_of_isWordPart hpart).1] at hc
  intro s t hst
  rw [LineReader.blanks, LineReader.blanks, any_head?_renamed hy.isWordText hpart hst]
  split
  · exact skipBlanks hy hst
  · exact .none

theorem sign {wanted : String} (hwanted : ∀ c ∈ wanted.toList, isWordPart c = false) :
    Corresponds x y (· = ·) (sign wanted) (sign wanted) :=
  (skipBlanks hy).bind fun _ _ _ => exactly hy hwanted

theorem comparison : Corresponds x y (· = ·) comparison comparison := by
  have hsign : ∀ (wanted : String) (c : Comparison),
      (∀ c ∈ wanted.toList, isWordPart c = false) → Corresponds x y (· = ·)
        (do LineReader.sign wanted; return c) (do LineReader.sign wanted; return c) :=
    fun _ _ h => (sign hy h).bind fun _ _ _ => pure rfl
  exact (hsign "<=" _ (by decide)).orElse ((hsign ">=" _ (by decide)).orElse
    ((hsign "<" _ (by decide)).orElse (hsign ">" _ (by decide))))

theorem minus : Corresponds x y (· = ·) minus minus := by
  intro s t hst
  have hhead : s.head? = some '-' ↔ t.head? = some '-' :=
    Renamed.head?_eq_some_iff hy.isWordText rfl hst
  have hnone : ∀ {text : List Char}, text.head? ≠ some '-' →
      LineReader.minus text = some (false, text) := by
    intro text h
    unfold LineReader.minus
    split
    next => exact absurd rfl h
    next => rfl
  by_cases h : s.head? = some '-'
  · obtain ⟨s, rfl⟩ := List.head?_eq_some_iff.1 h
    obtain ⟨t, rfl, hrest⟩ := Renamed.cons_left rfl hst
    exact .some ⟨rfl, hrest⟩
  · rw [hnone h, hnone fun ht => h (hhead.2 ht)]
    exact .some ⟨rfl, hst⟩

end BetweenWords

section Words

include hx hy

theorem ending : Corresponds x y (· = ·) ending ending := by
  refine (skipBlanks hy).bind fun _ _ _ s t hst => ?_
  have hcomment : ['/', '/'].isPrefixOf s = ['/', '/'].isPrefixOf t :=
    (isPrefixOf_renamed hy.isWordText (by decide) hst).1
  have hempty := hst.isEmpty_eq hx.isWordText hy.isWordText
  rw [hempty, hcomment]
  split
  · exact .some ⟨rfl, hst⟩
  · exact .none

theorem terminator : Corresponds x y (· = ·) terminator terminator :=
  (sign hy (by decide)).bind fun _ _ _ => ending hx hy

/-! ### Words -/

theorem word {wanted : String} (hwanted : wanted ∈ reservedWords) :
    Corresponds x y (· = ·) (word wanted) (word wanted) := by
  intro s t hst
  have hword := isWordText_reserved hwanted
  rw [word_apply hword, word_apply hword]
  have htrim := hst.trimStart hy.isWordText
  generalize trimStart s = s at htrim
  generalize trimStart t = t at htrim
  have hempty : ∀ {text : List Char}, text.takeWhile isWordPart = [] →
      text.takeWhile isWordPart ≠ wanted.toList :=
    fun h h' => hword.ne_nil (h' ▸ h)
  cases htrim using Renamed.induct with
  | nil =>
    rw [if_neg (hempty rfl)]
    exact .none
  | other hc =>
    have hnone : ∀ rest, (_ :: rest).takeWhile isWordPart = [] :=
      fun rest => List.takeWhile_cons_of_neg (by rw [hc]; decide)
    rw [if_neg (hempty (hnone _)), if_neg (hempty (hnone _))]
    exact .none
  | @word w s t hw hfresh hs h =>
    have hw' := hw.rename (x := x) hy.isWordText
    have hs' := h.endsWord hs
    rw [hw.takeWhile hs, hw'.takeWhile hs', hw.dropWhile hs, hw'.dropWhile hs']
    simp only [String.toList_inj, rename_eq_iff (hx.ne hwanted) (hy.ne hwanted)]
    split
    · exact .some ⟨trivial, h⟩
    · exact .none

theorem identifier : Corresponds x y (Renames x y) identifier identifier := by
  refine (skipBlanks hy).bind fun _ _ _ s t hst => ?_
  cases hst using Renamed.induct with
  | nil => exact .none
  | @other c s t hc =>
    have hstart : ¬isWordStart c = true := by
      intro hstart
      rw [isWordPart_of_isWordStart hstart] at hc
      cases hc
    simp [hstart]
  | @word w s t hw hfresh hs h =>
    have hstart : ∀ {w : String}, IsWordText w → ∀ rest,
        (w.toList ++ rest).head?.any isWordStart = w.toList.head?.any isWordStart := by
      intro w hw rest
      obtain ⟨c, tail, hcons, -⟩ := hw.exists_cons
      rw [hcons]
      rfl
    have hw' := hw.rename (x := x) hy.isWordText
    have hs' := h.endsWord hs
    rw [hstart hw, hstart hw', starts_rename hx hy, hw.takeWhile hs, hw'.takeWhile hs',
      hw.dropWhile hs, hw'.dropWhile hs', String.ofList_toList, String.ofList_toList]
    split
    · exact .some ⟨⟨hfresh, rfl⟩, h⟩
    · exact .none

/-! ### Integers -/

theorem integer : Corresponds x y (· = ·) integer integer := by
  rw [integer_eq]
  refine (skipBlanks hy).bind fun _ _ _ => (minus hy).bind fun negative _ hnegative => ?_
  subst hnegative
  intro s t hst
  cases hst using Renamed.induct with
  | nil => exact .none
  | other hc =>
    rw [unsigned_of_not_digit (by simp [isDigit_eq_false_of_not_isWordPart hc]),
      unsigned_of_not_digit (by simp [isDigit_eq_false_of_not_isWordPart hc])]
    exact .none
  | @word w s t hw hfresh hs h =>
    have hw' := hw.rename (x := x) hy.isWordText
    have hs' := h.endsWord hs
    by_cases hall : w.toList.all Char.isDigit = true
    · have hne : w ≠ x := by
        rintro rfl
        exact hx.not_all_isDigit hall
      have hpoint : s.head? = some '.' ↔ t.head? = some '.' :=
        Renamed.head?_eq_some_iff hy.isWordText rfl h
      obtain ⟨n, hn⟩ := unsigned_digits negative hw hall
      rw [rename_of_ne hne, hn s hs, hn t hs']
      simp only [hpoint]
      split
      · exact .none
      · exact .some ⟨rfl, h⟩
    · have hall' : ¬(rename x y w).toList.all Char.isDigit = true := by
        unfold rename
        split
        · exact hy.not_all_isDigit
        · exact hall
      rw [unsigned_of_not_all negative hw hall, unsigned_of_not_all negative hw' hall']
      exact .none

/-! ### Statements -/

theorem declarationWord : Corresponds x y (· = ·) declarationWord declarationWord :=
  ((word hx hy (by decide)).orElse ((word hx hy (by decide)).orElse
    (word hx hy (by decide)))).bind fun _ _ _ => blanks hy

/-- A variable and an integer, as several statements have them. -/
theorem declaration : Corresponds x y (fun a b => Renames x y a.1 b.1 ∧ a.2 = b.2)
    declaration declaration :=
  (declarationWord hx hy).bind fun _ _ _ => (identifier hx hy).bind fun _ _ hname =>
    (sign hy (by decide)).bind fun _ _ _ => (integer hx hy).bind fun _ _ hvalue =>
      (terminator hx hy).bind fun _ _ _ => pure ⟨hname, hvalue⟩

theorem assignment : Corresponds x y (fun a b => Renames x y a.1 b.1 ∧ a.2 = b.2)
    assignment assignment :=
  (identifier hx hy).bind fun _ _ hname => (sign hy (by decide)).bind fun _ _ _ =>
    (integer hx hy).bind fun _ _ hvalue => (terminator hx hy).bind fun _ _ _ =>
      pure ⟨hname, hvalue⟩

theorem increment : Corresponds x y (Renames x y) increment increment :=
  (identifier hx hy).bind fun _ _ hname => (sign hy (by decide)).bind fun _ _ _ =>
    (terminator hx hy).bind fun _ _ _ => pure hname

theorem addAssignment :
    Corresponds x y (fun a b => Renames x y a.1 b.1 ∧ Renames x y a.2 b.2)
      addAssignment addAssignment :=
  (identifier hx hy).bind fun _ _ htarget => (sign hy (by decide)).bind fun _ _ _ =>
    (identifier hx hy).bind fun _ _ hoperand => (terminator hx hy).bind fun _ _ _ =>
      pure ⟨htarget, hoperand⟩

theorem loopHead : Corresponds x y (LoopCondition.Renamed x y) loopHead loopHead :=
  (word hx hy (by decide)).bind fun _ _ _ => (sign hy (by decide)).bind fun _ _ _ =>
    (identifier hx hy).bind fun _ _ hname => (comparison hy).bind fun _ _ hcomparison =>
      (integer hx hy).bind fun _ _ hlimit => (sign hy (by decide)).bind fun _ _ _ =>
        (sign hy (by decide)).bind fun _ _ _ => (ending hx hy).bind fun _ _ _ =>
          pure ⟨hname, hcomparison, hlimit⟩

theorem factorialAssignment : Corresponds x y (fun a b => Renames x y a.1 b.1 ∧ a.2 = b.2)
    factorialAssignment factorialAssignment := by
  refine (identifier hx hy).bind fun _ _ htarget => (sign hy (by decide)).bind fun _ _ _ =>
    (identifier hx hy).bind fun callee callee' hcallee => ?_
  have hsame : callee' = "factorial" ↔ callee = "factorial" := by
    rw [hcallee.2]
    exact rename_eq_iff (hx.ne (by decide)) (hy.ne (by decide))
  dsimp only
  by_cases h : callee = "factorial"
  · rw [if_neg (not_not.2 h), if_neg (not_not.2 (hsame.2 h))]
    exact (sign hy (by decide)).bind fun _ _ _ => (integer hx hy).bind fun _ _ hargument =>
      (sign hy (by decide)).bind fun _ _ _ => (terminator hx hy).bind fun _ _ _ =>
        pure ⟨htarget, hargument⟩
  · rw [if_pos h, if_pos fun h' => h (hsame.1 h')]
    exact fun _ _ _ => .none

theorem factorialCall : Corresponds x y (fun a b => Renames x y a.1 b.1 ∧ a.2 = b.2)
    factorialCall factorialCall := by
  intro s t hst
  have hread := declarationWord hx hy hst
  unfold LineReader.factorialCall
  generalize LineReader.declarationWord s = a? at hread ⊢
  generalize LineReader.declarationWord t = b? at hread ⊢
  cases hread with
  | none => exact factorialAssignment hx hy hst
  | some hab => exact factorialAssignment hx hy hab.2

theorem output : Corresponds x y (Renamed x y) output output := by
  have hspace : Corresponds x y (· = ·) (LineReader.sign "std::") (LineReader.sign "std::") := by
    rw [sign_std]
    exact (word hx hy (by decide)).bind fun _ _ _ => exactly hy (by decide)
  have hcout : Corresponds x y (· = ·) (LineReader.word "cout") (LineReader.word "cout") :=
    word hx hy (by decide)
  refine ((hspace.bind fun _ _ _ => hcout).orElse hcout).bind fun _ _ _ =>
    (sign hy (by decide)).bind fun _ _ _ => ?_
  refine Corresponds.bind (r := Renamed x y) (fun s t hst => ?_) fun _ _ harguments =>
    (terminator hx hy).bind fun _ _ _ => pure harguments
  have hsplit := Renamed.splitAtSemicolon hy.isWordText hst QuoteState.isProper_outside
  exact .some hsplit

end Words

end Corresponds

end Parts

end LineReader

/-! ## Inert lines -/

theorem isPrefix_takeWhile_iff {word : List Char} (hword : ∀ c ∈ word, isWordPart c = true)
    (text : List Char) : word <+: text.takeWhile isWordPart ↔ word <+: text := by
  refine ⟨fun h => h.trans (List.takeWhile_prefix isWordPart), ?_⟩
  rintro ⟨rest, rfl⟩
  rw [List.takeWhile_append_of_pos hword]
  exact List.prefix_append word _

/-- Renaming `x` to `y` does not change what starts with the characters of `using`. -/
def KeepsUsing (x y : String) : Prop :=
  "using".toList <+: x.toList ↔ "using".toList <+: y.toList

instance (x y : String) : Decidable (KeepsUsing x y) :=
  inferInstanceAs (Decidable (_ ↔ _))

/-- A line that starts as a directive is no statement. -/
theorem statement?_of_directive (bindings : Bindings) (rest : List Char) :
    statement? bindings ('#' :: rest) = none := by
  have hname : LineReader.identifier ('#' :: rest) = none := rfl
  have hword : ∀ w ∈ reservedWords, LineReader.word w ('#' :: rest) = none := by
    intro w hw
    have hword := isWordText_reserved hw
    rw [LineReader.word_apply hword]
    exact if_neg (Ne.symm hword.ne_nil)
  have hdeclares : LineReader.declarationWord ('#' :: rest) = none := by
    refine LineReader.bind_of_eq_none ?_ _
    rw [LineReader.orElse_apply, LineReader.orElse_apply, hword _ (by decide),
      hword _ (by decide), hword _ (by decide)]
    rfl
  have hspace : LineReader.sign "std::" ('#' :: rest) = none :=
    LineReader.sign_eq_none rfl (by decide)
  have hdeclaration : LineReader.declaration.read? ('#' :: rest) = none := by
    rw [LineReader.read?, LineReader.declaration, LineReader.bind_of_eq_none hdeclares]
    rfl
  have hhead : LoopCondition.ofLine? ('#' :: rest) = none := by
    rw [LoopCondition.ofLine?, LineReader.read?, LineReader.loopHead,
      LineReader.bind_of_eq_none (hword "while" (by decide))]
    rfl
  have houtput : LineReader.output.read? ('#' :: rest) = none := by
    rw [LineReader.read?, LineReader.output, LineReader.bind_of_eq_none ?_]
    · rfl
    · rw [LineReader.orElse_apply, LineReader.bind_of_eq_none hspace, hword _ (by decide)]
      rfl
  have hfactorial : LineReader.factorialCall.read? ('#' :: rest) = none := by
    rw [LineReader.read?, LineReader.factorialCall, hdeclares]
    rfl
  unfold statement?
  rw [hdeclaration, hhead, houtput, hfactorial, if_neg (by simp)]
  rfl

section Classification

variable {x y : String} (hx : IsVariable x) (hy : IsVariable y) (hkeeps : KeepsUsing x y)
  {s t : List Char}

include hy hkeeps in
theorem startsUsing_iff (h : Renamed x y s t) :
    "using".toList <+: s ↔ "using".toList <+: t := by
  have hparts : ∀ c ∈ "using".toList, isWordPart c = true := by decide
  have hother : ∀ {c : Char} {rest : List Char}, isWordPart c = false →
      ¬"using".toList <+: c :: rest := by
    rintro c rest hc ⟨more, hmore⟩
    obtain rfl : 'u' = c := (List.cons.inj hmore).1
    cases hc
  cases h using Renamed.induct with
  | nil => rfl
  | other hc => exact iff_of_false (hother hc) (hother hc)
  | @word w s t hw hfresh hs h =>
    rw [← isPrefix_takeWhile_iff hparts, ← isPrefix_takeWhile_iff hparts (_ ++ t), hw.takeWhile hs,
      (hw.rename hy.isWordText).takeWhile (h.endsWord hs)]
    unfold rename
    split
    next heq =>
      subst heq
      exact hkeeps
    next => rfl

include hx hy hkeeps in
theorem isInert_renamed (h : Renamed x y s t) (hs : s.head? ≠ some '#') :
    isInert s = isInert t := by
  have ht : t.head? ≠ some '#' := fun ht =>
    hs ((Renamed.head?_eq_some_iff hy.isWordText rfl h).2 ht)
  have hdirective : ∀ {text : List Char}, text.head? ≠ some '#' →
      "#include".toList.isPrefixOf text = false := by
    intro text htext
    rw [← Bool.not_eq_true, List.isPrefixOf_iff_prefix]
    rintro ⟨more, rfl⟩
    exact htext rfl
  have hempty := h.isEmpty_eq hx.isWordText hy.isWordText
  have hline : "//".toList.isPrefixOf s = "//".toList.isPrefixOf t :=
    (LineReader.isPrefixOf_renamed hy.isWordText (by decide) h).1
  have hcomment : "/*".toList.isPrefixOf s = "/*".toList.isPrefixOf t :=
    (LineReader.isPrefixOf_renamed hy.isWordText (by decide) h).1
  have husing : "using".toList.isPrefixOf s = "using".toList.isPrefixOf t := by
    rw [Bool.eq_iff_iff, List.isPrefixOf_iff_prefix, List.isPrefixOf_iff_prefix]
    exact startsUsing_iff hy hkeeps h
  simp only [isInert, List.any_cons, List.any_nil, hempty, hline, hcomment, husing, hdirective hs,
    hdirective ht]

include hx hy in
theorem ofLine?_renamed (h : Renamed x y s t) :
    Option.Rel (LoopCondition.Renamed x y) (LoopCondition.ofLine? s) (LoopCondition.ofLine? t) :=
  (LineReader.Corresponds.loopHead hx hy).read? h

include hx hy in
theorem statement?_renamed {b b' : Bindings} (hb : Bindings.Renamed x y b b')
    (h : Renamed x y s t) :
    Option.Rel (Statement.Renamed x y) (statement? b s) (statement? b' t) := by
  have hbound : ∀ {a a' : String}, Renames x y a a' → b.contains a = b'.contains a' := by
    rintro a a' ⟨ha, rfl⟩
    exact (hb.contains_eq ha).symm
  have hbrace : s = ['}'] ↔ t = ['}'] := by
    have hclose : ∀ {x y : String} {t : List Char}, Renamed x y ['}'] t → t = ['}'] := by
      intro x y t h
      obtain ⟨t, rfl, hrest⟩ := Renamed.cons_left rfl h
      rw [Renamed.nil_left hrest]
    refine ⟨?_, ?_⟩
    · rintro rfl
      exact hclose h
    · rintro rfl
      exact hclose (h.symm hy.isWordText)
  unfold statement?
  refine orElse_rel (map_rel ((LineReader.Corresponds.declaration hx hy).read? h) ?_) <|
    orElse_rel (map_rel (filter_rel ((LineReader.Corresponds.assignment hx hy).read? h) ?_) ?_) <|
    orElse_rel (map_rel (filter_rel ((LineReader.Corresponds.increment hx hy).read? h) ?_) ?_) <|
    orElse_rel
      (map_rel (filter_rel ((LineReader.Corresponds.addAssignment hx hy).read? h) ?_) ?_) <|
    orElse_rel (map_rel (ofLine?_renamed hx hy h) fun _ _ => .loopHead) <|
    orElse_rel ?_ <|
    orElse_rel (map_rel ((LineReader.Corresponds.output hx hy).read? h) fun _ _ harguments =>
      .output (renderOutput_renamed hx hy hb harguments)) <|
    map_rel ((LineReader.Corresponds.factorialCall hx hy).read? h) ?_
  · rintro ⟨a, v⟩ ⟨a', v'⟩ ⟨ha, rfl⟩
    exact .declare ha v
  · rintro ⟨a, v⟩ ⟨a', v'⟩ ⟨ha, rfl⟩
    exact hbound ha
  · rintro ⟨a, v⟩ ⟨a', v'⟩ ⟨ha, rfl⟩
    exact .assign ha v
  · exact fun _ _ ha => hbound ha
  · exact fun _ _ ha => .increment ha
  · rintro ⟨a, c⟩ ⟨a', c'⟩ ⟨ha, hc⟩
    exact congrArg₂ (· && ·) (hbound ha) (hbound hc)
  · rintro ⟨a, c⟩ ⟨a', c'⟩ ⟨ha, hc⟩
    exact .addAssign ha hc
  · simp only [hbrace]
    split
    · exact .some .closeBrace
    · exact .none
  · rintro ⟨a, v⟩ ⟨a', v'⟩ ⟨ha, rfl⟩
    exact .factorialCall ha v

include hx hy hkeeps in
theorem classify_renamed {b b' : Bindings} (hb : Bindings.Renamed x y b b')
    (h : Renamed x y s t) : Statement.Renamed x y (classify b s) (classify b' t) := by
  have htrim := h.trim hx.isWordText hy.isWordText
  unfold classify
  generalize trim s = s at htrim
  generalize trim t = t at htrim
  unfold classifyTrimmed
  by_cases hdirective : s.head? = some '#'
  · have hpassed : ∀ (b : Bindings) (rest : List Char),
        Statement.IsPassed (if isInert ('#' :: rest) then .noOp
          else (statement? b ('#' :: rest)).getD .unrecognized) := by
      intro b rest
      split
      · exact .inl rfl
      · rw [statement?_of_directive]
        exact .inr rfl
    obtain ⟨rest, rfl⟩ := List.head?_eq_some_iff.1 hdirective
    obtain ⟨rest', rfl, -⟩ := Renamed.cons_left rfl htrim
    exact .passed (hpassed b rest) (hpassed b' rest')
  · rw [isInert_renamed hx hy hkeeps htrim hdirective]
    split
    · exact .passed (.inl rfl) (.inl rfl)
    · have hstatement := statement?_renamed hx hy hb htrim
      generalize statement? b s = a? at hstatement ⊢
      generalize statement? b' t = b? at hstatement ⊢
      cases hstatement with
      | none => exact .passed (.inr rfl) (.inr rfl)
      | some hab => exact hab

end Classification

end CLike

end TraceTutor
