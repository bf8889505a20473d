import TraceTutor.CLike.Braces
import TraceTutor.CLike.Statement
import TraceTutor.Proofs.Text.Blank

/-!
# Laws of line readers

An ending of a line is white space, or a comment that white space sets off. A reader that
`IgnoresEnding` reads the same from a line with an ending after it; there is one rule for each way
to build a reader. So a loop head is one whatever white space stands around it (`ofLine?_trim`).
-/

namespace TraceTutor

namespace CLike

open Text

namespace LineReader

variable {α β : Type}

/-! ## Readers as functions -/

theorem bind_apply (p : LineReader α) (f : α → LineReader β) (text : List Char) :
    (p >>= f) text = (p text).bind fun x => f x.1 x.2 := rfl

theorem bind_eq_some_iff {p : LineReader α} {f : α → LineReader β} {text rest : List Char} {b : β} :
    (p >>= f) text = some (b, rest) ↔
      ∃ a middle, p text = some (a, middle) ∧ f a middle = some (b, rest) := by
  rw [bind_apply, Option.bind_eq_some_iff, Prod.exists]

theorem bind_of_eq_some {p : LineReader α} {text rest : List Char} {a : α}
    (h : p text = some (a, rest)) (f : α → LineReader β) : (p >>= f) text = f a rest := by
  rw [bind_apply, h]
  rfl

theorem bind_of_eq_none {p : LineReader α} {text : List Char} (h : p text = none)
    (f : α → LineReader β) : (p >>= f) text = none := by
  rw [bind_apply, h]
  rfl

theorem orElse_apply (p q : LineReader α) (text : List Char) :
    (p <|> q) text = (p text <|> q text) := rfl

theorem skipBlanks_apply (text : List Char) : skipBlanks text = some ((), trimStart text) := rfl

theorem sign_apply (wanted : String) (text : List Char) :
    sign wanted text = exactly wanted.toList (trimStart text) := rfl

theorem exactly_eq_some_iff {wanted text rest : List Char} :
    exactly wanted text = some ((), rest) ↔ text = wanted ++ rest := by
  rw [exactly]
  split
  next h =>
    obtain ⟨tail, rfl⟩ := List.isPrefixOf_iff_prefix.1 h
    simp [eq_comm]
  next h =>
    refine ⟨fun h' => (nomatch h'), ?_⟩
    rintro rfl
    exact absurd (List.isPrefixOf_iff_prefix.2 (List.prefix_append _ _)) h

/-- A sign that starts differently is not there. -/
theorem sign_eq_none {wanted : String} {text rest : List Char} {c : Char}
    (h : trimStart text = c :: rest) (hc : wanted.toList.head?.any (· ≠ c) = true) :
    sign wanted text = none := by
  rw [sign_apply, h, exactly]
  cases hwanted : wanted.toList with
  | nil => simp [hwanted] at hc
  | cons w ws =>
    have hne : w ≠ c := by simpa [hwanted] using hc
    have hfront : (w :: ws).isPrefixOf (c :: rest) = false := by simp [List.isPrefixOf, hne]
    rw [hfront]
    rfl

/-! ## Results -/

/-- Whatever the reader yields has a property. -/
def Gives (post : α → Prop) (reader : LineReader α) : Prop :=
  ∀ text x rest, reader text = some (x, rest) → post x

namespace Gives

variable {pre : α → Prop} {post : β → Prop} {reader : LineReader α} {f : α → LineReader β}

theorem pure {x : β} (h : post x) : Gives post (Pure.pure x) := by
  intro text y rest hy
  cases hy
  exact h

theorem bind (hreader : Gives pre reader) (hf : ∀ x, pre x → Gives post (f x)) :
    Gives post (reader >>= f) := by
  intro text y rest hy
  obtain ⟨x, middle, hx, hy⟩ := bind_eq_some_iff.1 hy
  exact hf x (hreader text x middle hx) middle y rest hy

/-- A first part about which nothing has to be known. -/
theorem andThen (hf : ∀ x, Gives post (f x)) : Gives post (reader >>= f) :=
  bind (fun _ _ _ _ => trivial) fun x _ => hf x

/-- A last part that checks what follows. -/
theorem guard {test : List Char → Bool} {x : β} (h : ∀ text, test text = false → post x) :
    Gives post fun text => if test text then none else some (x, text) := by
  intro text y rest hy
  dsimp only at hy
  split at hy
  next => cases hy
  next htest =>
    cases hy
    exact h text (Bool.eq_false_iff.2 htest)

theorem read? {line : List Char} {x : α} (h : Gives pre reader) (hx : reader.read? line = some x) :
    pre x := by
  obtain ⟨⟨y, rest⟩, hy, rfl⟩ := Option.map_eq_some_iff.1 hx
  exact h line y rest hy

theorem failure : Gives post (failure : LineReader β) :=
  fun _ _ _ h => nomatch h

theorem ite {c : Prop} [Decidable c] {p q : LineReader β} (hp : c → Gives post p)
    (hq : ¬c → Gives post q) : Gives post (if c then p else q) := by
  split
  next h => exact hp h
  next h => exact hq h

end Gives

/-! ## Endings -/

/-- Nothing is left but white space, or a comment after it. -/
def IsEnd (text : List Char) : Prop :=
  trimStart text = [] ∨ ['/', '/'] <+: trimStart text

instance (text : List Char) : Decidable (IsEnd text) :=
  inferInstanceAs (Decidable (_ ∨ _))

theorem isEnd_trimStart (text : List Char) : IsEnd (trimStart text) ↔ IsEnd text := by
  rw [IsEnd, IsEnd, trimStart_trimStart]

theorem isEnd_append {blanks : List Char} (h : isAllBlank blanks = true) (text : List Char) :
    IsEnd (blanks ++ text) ↔ IsEnd text := by
  rw [IsEnd, IsEnd, trimStart, List.dropWhile_append_of_pos (isAllBlank_iff.1 h)]
  rfl

theorem IsEnd.trimEnd {text : List Char} (h : IsEnd text) : IsEnd (trimEnd text) := by
  obtain h | ⟨more, hmore⟩ := h
  · rw [trimEnd_eq_nil_iff.2 (trimStart_eq_nil_iff.1 h)]
    exact .inl rfl
  · obtain ⟨blanks, hblanks, htext⟩ := exists_eq_trimStart text
    have hslashes : IsSolidText ['/', '/'] := ⟨by simp, by decide⟩
    rw [htext, ← hmore, trimEnd_append, hslashes.trimEnd_append, if_neg (by simp),
      isEnd_append hblanks]
    exact .inr ⟨Text.trimEnd more, rfl⟩

theorem ending_apply (text : List Char) :
    ending text = if IsEnd text then some ((), trimStart text) else none := by
  rw [ending, bind_apply, skipBlanks_apply, Option.bind_some]
  simp only [Bool.or_eq_true, List.isEmpty_iff, List.isPrefixOf_iff_prefix]
  rfl

/-- `full` is `text` with white space or a comment after it. White space sets the comment off,
unless nothing stands before it. -/
def HasEnding (text full : List Char) : Prop :=
  ∃ tail, full = text ++ tail ∧ IsEnd tail ∧ (text ≠ [] → ∀ c ∈ tail.head?, isBlank c = true)

theorem hasEnding_of_isAllBlank (text : List Char) {blanks : List Char}
    (h : isAllBlank blanks = true) : HasEnding text (text ++ blanks) :=
  ⟨blanks, rfl, .inl (trimStart_eq_nil_iff.2 h), fun _ c hc =>
    isAllBlank_iff.1 h c (List.mem_of_mem_head? hc)⟩

/-- A character that no ending starts with. -/
def IsSolid (c : Char) : Prop :=
  isBlank c = false ∧ c ≠ '/'

instance (c : Char) : Decidable (IsSolid c) :=
  inferInstanceAs (Decidable (_ ∧ _))

namespace HasEnding

variable {text full : List Char}

/-- What follows the whole text is no solid character. -/
theorem not_isSolid_head (h : HasEnding [] full) : ∀ c ∈ full.head?, ¬ IsSolid c := by
  obtain ⟨_, rfl, hending, -⟩ := h
  intro c hc hsolid
  cases full with
  | nil => cases hc
  | cons c' rest =>
    obtain rfl : c' = c := by simpa using hc
    rw [IsEnd, trimStart_cons_of_not_isBlank hsolid.1] at hending
    rcases hending with hending | hending
    · cases hending
    · exact hsolid.2 (List.cons_prefix_cons.1 hending).1.symm

theorem exists_cons {c : Char} (h : HasEnding (c :: text) full) :
    ∃ full', full = c :: full' ∧ HasEnding text full' := by
  obtain ⟨tail, rfl, hending, hhead⟩ := h
  exact ⟨text ++ tail, rfl, tail, rfl, hending, fun _ => hhead (by simp)⟩

theorem trimStart (h : HasEnding text full) :
    HasEnding (Text.trimStart text) (Text.trimStart full) := by
  induction text generalizing full with
  | nil =>
    obtain ⟨_, rfl, hending, -⟩ := h
    exact ⟨Text.trimStart full, rfl, (isEnd_trimStart _).2 hending, fun h' => absurd rfl h'⟩
  | cons c text ih =>
    obtain ⟨full, rfl, h'⟩ := h.exists_cons
    by_cases hc : isBlank c = true
    · simpa only [Text.trimStart, List.dropWhile_cons_of_pos hc] using ih h'
    · simpa only [Text.trimStart, List.dropWhile_cons_of_neg hc] using h

theorem takeWhile {p : Char → Bool} (hp : ∀ c, p c = true → IsSolid c) (h : HasEnding text full) :
    full.takeWhile p = text.takeWhile p ∧ HasEnding (text.dropWhile p) (full.dropWhile p) := by
  induction text generalizing full with
  | nil =>
    cases full with
    | nil => exact ⟨rfl, h⟩
    | cons c full =>
      have hc : ¬ p c = true := fun hc => h.not_isSolid_head c rfl (hp c hc)
      simpa [List.takeWhile_cons_of_neg hc, List.dropWhile_cons_of_neg hc] using h
  | cons c text ih =>
    obtain ⟨full, rfl, h'⟩ := h.exists_cons
    by_cases hc : p c = true
    · simpa only [List.takeWhile_cons_of_pos hc, List.dropWhile_cons_of_pos hc,
        List.cons.injEq, true_and] using ih h'
    · simpa only [List.takeWhile_cons_of_neg hc, List.dropWhile_cons_of_neg hc, true_and] using h

theorem any_head {p : Char → Bool} (hp : ∀ c, p c = true → IsSolid c) (h : HasEnding text full) :
    full.head?.any p = text.head?.any p := by
  cases text with
  | nil =>
    cases full with
    | nil => rfl
    | cons c full =>
      have hc : ¬ p c = true := fun hc => h.not_isSolid_head c rfl (hp c hc)
      simpa using hc
  | cons c text =>
    obtain ⟨full, rfl, -⟩ := h.exists_cons
    rfl

theorem isPrefixOf {wanted : List Char} (hwanted : ∀ c ∈ wanted, IsSolid c)
    (h : HasEnding text full) :
    wanted.isPrefixOf full = wanted.isPrefixOf text ∧ (wanted.isPrefixOf text = true →
      HasEnding (text.drop wanted.length) (full.drop wanted.length)) := by
  induction wanted generalizing text full with
  | nil => exact ⟨rfl, fun _ => h⟩
  | cons w wanted ih =>
    obtain ⟨hw, hwanted⟩ := List.forall_mem_cons.1 hwanted
    cases text with
    | nil =>
      refine ⟨?_, fun h' => (nomatch h')⟩
      cases full with
      | nil => rfl
      | cons c full =>
        have hc : w ≠ c := fun hc => h.not_isSolid_head c rfl (hc ▸ hw)
        simp [List.isPrefixOf, hc]
    | cons c text =>
      obtain ⟨full, rfl, h'⟩ := h.exists_cons
      obtain ⟨heq, hdrop⟩ := ih hwanted h'
      refine ⟨by simp only [List.isPrefixOf, heq], fun hfront => ?_⟩
      simp only [List.isPrefixOf, Bool.and_eq_true] at hfront
      exact hdrop hfront.2

theorem isEnd_iff (h : HasEnding text full) : IsEnd full ↔ IsEnd text := by
  have h' := h.trimStart
  rw [← isEnd_trimStart full, ← isEnd_trimStart text]
  cases htext : Text.trimStart text with
  | nil =>
    rw [htext] at h'
    obtain ⟨_, hfull, hending, -⟩ := h'
    rw [hfull, List.nil_append]
    exact iff_of_true hending (.inl rfl)
  | cons c rest =>
    rw [htext] at h'
    obtain ⟨tail, hfull, -, hhead⟩ := h'
    have hc := isBlank_head_trimStart htext
    rw [hfull, List.cons_append, IsEnd, IsEnd, trimStart_cons_of_not_isBlank hc,
      trimStart_cons_of_not_isBlank hc]
    cases rest with
    | cons d rest => simp [List.cons_prefix_cons]
    | nil =>
      cases tail with
      | nil => rfl
      | cons d tail =>
        have hd : isBlank d = true := hhead (List.cons_ne_nil _ _) d rfl
        have hslash : '/' ≠ d := by
          rintro rfl
          exact absurd hd (by decide)
        simp [List.cons_prefix_cons, hslash]

end HasEnding

/-! ## Characters of words -/

/-- The code points between which the characters of words lie. -/
def InWords (c : Char) : Prop :=
  (48 ≤ c.toNat ∧ c.toNat ≤ 57) ∨ (65 ≤ c.toNat ∧ c.toNat ≤ 122)

theorem inWords_of_isWordPart {c : Char} (h : isWordPart c = true) : InWords c := by
  change (decide (c.val ≥ 'A'.val ∧ c.val ≤ 'Z'.val) || (c.val ≥ 'a'.val && c.val ≤ 'z'.val) ||
    (c.val ≥ '0'.val && c.val ≤ '9'.val) || c == '_') = true at h
  simp only [Bool.or_eq_true, Bool.and_eq_true, decide_eq_true_eq, beq_iff_eq, ge_iff_le,
    UInt32.le_iff_toNat_le, Char.toNat_val, Char.reduceToNat] at h
  unfold InWords
  rcases h with ((h | h) | h) | rfl
  · omega
  · omega
  · omega
  · decide

theorem isWordPart_of_isWordStart {c : Char} (h : isWordStart c = true) : isWordPart c = true := by
  simp only [isWordStart, isWordPart, Char.isAlphanum, Bool.or_eq_true] at h ⊢
  exact h.elim (fun h => .inl (.inl h)) .inr

theorem isWordPart_of_isDigit {c : Char} (h : c.isDigit = true) : isWordPart c = true := by
  simp [isWordPart, Char.isAlphanum, h]

theorem isDigit_eq_false_of_isWordStart {c : Char} (h : isWordStart c = true) :
    c.isDigit = false := by
  rw [← Bool.not_eq_true]
  intro hdigit
  obtain ⟨hlow, hhigh⟩ : 48 ≤ c.toNat ∧ c.toNat ≤ 57 := Char.isDigit_iff_toNat.1 hdigit
  change (decide (c.val ≥ 'A'.val ∧ c.val ≤ 'Z'.val) || (c.val ≥ 'a'.val && c.val ≤ 'z'.val) ||
    c == '_') = true at h
  simp only [Bool.or_eq_true, Bool.and_eq_true, decide_eq_true_eq, beq_iff_eq, ge_iff_le,
    UInt32.le_iff_toNat_le, Char.toNat_val, Char.reduceToNat] at h
  rcases h with (h | h) | rfl
  · omega
  · omega
  · cases hdigit

theorem isDigit_eq_false_of_not_isWordPart {c : Char} (h : isWordPart c = false) :
    c.isDigit = false := by
  rw [← Bool.not_eq_true]
  intro hdigit
  rw [isWordPart_of_isDigit hdigit] at h
  cases h

theorem isSolid_of_isWordPart {c : Char} (h : isWordPart c = true) : IsSolid c := by
  have hc := inWords_of_isWordPart h
  unfold InWords at hc
  refine ⟨?_, ?_⟩
  · simp only [isBlank, Bool.or_eq_false_iff, Bool.and_eq_false_iff, decide_eq_false_iff_not,
      beq_eq_false_iff_ne]
    omega
  · rintro rfl
    revert hc
    decide

/-! ## Readers that ignore an ending -/

/-- Reads the same from a line with an ending after it. -/
def IgnoresEnding (reader : LineReader α) : Prop :=
  ∀ ⦃text full : List Char⦄, HasEnding text full →
    (reader text = none ∧ reader full = none) ∨
    ∃ a rest rest', reader text = some (a, rest) ∧ reader full = some (a, rest') ∧
      HasEnding rest rest'

namespace IgnoresEnding

theorem read?_eq {reader : LineReader α} (h : IgnoresEnding reader) {text full : List Char}
    (hfull : HasEnding text full) : reader.read? full = reader.read? text := by
  unfold read?
  obtain ⟨h₁, h₂⟩ | ⟨a, rest, rest', h₁, h₂, -⟩ := h hfull
  · rw [h₁, h₂]
  · rw [h₁, h₂]
    rfl

theorem pure (a : α) : IgnoresEnding (Pure.pure a : LineReader α) :=
  fun _ _ h => .inr ⟨a, _, _, rfl, rfl, h⟩

theorem bind {p : LineReader α} {f : α → LineReader β} (hp : IgnoresEnding p)
    (hf : ∀ a, IgnoresEnding (f a)) : IgnoresEnding (p >>= f) := by
  intro text full h
  rw [bind_apply, bind_apply]
  obtain ⟨h₁, h₂⟩ | ⟨a, rest, rest', h₁, h₂, hrest⟩ := hp h
  · rw [h₁, h₂]
    exact .inl ⟨rfl, rfl⟩
  · rw [h₁, h₂]
    exact hf a hrest

theorem orElse {p q : LineReader α} (hp : IgnoresEnding p) (hq : IgnoresEnding q) :
    IgnoresEnding (p <|> q) := by
  intro text full h
  rw [orElse_apply, orElse_apply]
  obtain ⟨h₁, h₂⟩ | ⟨a, rest, rest', h₁, h₂, hrest⟩ := hp h
  · rw [h₁, h₂]
    exact hq h
  · rw [h₁, h₂]
    exact .inr ⟨a, rest, rest', rfl, rfl, hrest⟩

/-- A test of the next character that white space and slashes fail. -/
theorem guardHead {test : List Char → Bool}
    (htest : ∀ text full, HasEnding text full → test full = test text) (a : α) :
    IgnoresEnding (fun text => if test text then none else some (a, text)) := by
  intro text full h
  dsimp only
  rw [htest text full h]
  split
  next => exact .inl ⟨rfl, rfl⟩
  next => exact .inr ⟨a, text, full, rfl, rfl, h⟩

theorem skipBlanks : IgnoresEnding skipBlanks :=
  fun _ _ h => .inr ⟨(), _, _, rfl, rfl, h.trimStart⟩

theorem exactly {wanted : List Char} (hwanted : ∀ c ∈ wanted, IsSolid c) :
    IgnoresEnding (exactly wanted) := by
  intro text full h
  obtain ⟨heq, hdrop⟩ := h.isPrefixOf hwanted
  simp only [LineReader.exactly, heq]
  split
  next hfront => exact .inr ⟨(), _, _, rfl, rfl, hdrop hfront⟩
  next => exact .inl ⟨rfl, rfl⟩

theorem sign {wanted : String} (hwanted : wanted.toList.all (IsSolid ·) = true) :
    IgnoresEnding (sign wanted) :=
  skipBlanks.bind fun _ => exactly fun c hc => of_decide_eq_true (List.all_eq_true.1 hwanted c hc)

theorem word {wanted : String} (hwanted : wanted.toList.all (IsSolid ·) = true) :
    IgnoresEnding (word wanted) :=
  (sign hwanted).bind fun _ =>
    guardHead (fun _ _ h => h.any_head fun _ => isSolid_of_isWordPart) ()

theorem identifier : IgnoresEnding identifier := by
  refine skipBlanks.bind fun _ text full h => ?_
  obtain ⟨htake, hdrop⟩ := h.takeWhile (p := isWordPart) fun _ => isSolid_of_isWordPart
  have hhead := h.any_head (p := isWordStart) fun _ hc =>
    isSolid_of_isWordPart (isWordPart_of_isWordStart hc)
  simp only [hhead, htake]
  split
  next => exact .inr ⟨_, _, _, rfl, rfl, hdrop⟩
  next => exact .inl ⟨rfl, rfl⟩

theorem comparison : IgnoresEnding comparison := by
  have hsign : ∀ (wanted : String) (c : Comparison), wanted.toList.all (IsSolid ·) = true →
      IgnoresEnding (do LineReader.sign wanted; return c) :=
    fun _ c h => (sign h).bind fun _ => pure c
  exact (hsign "<=" _ (by decide)).orElse ((hsign ">=" _ (by decide)).orElse
    ((hsign "<" _ (by decide)).orElse (hsign ">" _ (by decide))))

theorem minus : IgnoresEnding minus := by
  intro text full h
  cases text with
  | nil =>
    refine .inr ⟨false, [], full, rfl, ?_, h⟩
    unfold LineReader.minus
    split
    next => exact absurd (by decide) (h.not_isSolid_head '-' rfl)
    next => rfl
  | cons c text =>
    obtain ⟨full, rfl, h'⟩ := h.exists_cons
    by_cases hc : c = '-'
    · subst hc
      exact .inr ⟨true, text, full, rfl, rfl, h'⟩
    · exact .inr ⟨false, c :: text, c :: full, by simp [LineReader.minus, hc],
        by simp [LineReader.minus, hc], h⟩

theorem digits : IgnoresEnding digits := by
  intro text full h
  obtain ⟨htake, hdrop⟩ := h.takeWhile (p := Char.isDigit) fun _ hc =>
    isSolid_of_isWordPart (isWordPart_of_isDigit hc)
  exact .inr ⟨_, _, _, rfl, by rw [LineReader.digits, htake], hdrop⟩

theorem integer : IgnoresEnding integer := by
  refine skipBlanks.bind fun _ => minus.bind fun negative => digits.bind fun ds => ?_
  refine guardHead (fun text full h => ?_) _
  rw [h.any_head]
  intro c hc
  simp only [Bool.or_eq_true, beq_iff_eq] at hc
  rcases hc with hc | rfl
  · exact isSolid_of_isWordPart hc
  · decide

theorem ending : IgnoresEnding ending := by
  intro text full h
  simp only [ending_apply, h.isEnd_iff]
  split
  next => exact .inr ⟨(), _, _, rfl, rfl, h.trimStart⟩
  next => exact .inl ⟨rfl, rfl⟩

theorem loopHead : IgnoresEnding loopHead := by
  refine (word ?_).bind fun _ => (sign ?_).bind fun _ => identifier.bind fun _ =>
    comparison.bind fun _ => integer.bind fun _ => (sign ?_).bind fun _ => (sign ?_).bind fun _ =>
    ending.bind fun _ => pure _
  all_goals decide

end IgnoresEnding

theorem loopHead_trimStart (line : List Char) : loopHead (trimStart line) = loopHead line := by
  rw [loopHead, bind_apply, bind_apply, word, bind_apply, bind_apply, sign_apply, sign_apply,
    trimStart_trimStart]

end LineReader

/-- A loop head is one whatever white space stands around it. -/
theorem LoopCondition.ofLine?_trim (line : List Char) : ofLine? (trim line) = ofLine? line := by
  obtain ⟨blanks, hblanks, h⟩ := exists_eq_trimEnd (trimStart line)
  have hread := LineReader.IgnoresEnding.loopHead.read?_eq
    (LineReader.hasEnding_of_isAllBlank (trimEnd (trimStart line)) hblanks)
  rw [← h] at hread
  rw [ofLine?, ofLine?, trim, ← hread, LineReader.read?, LineReader.loopHead_trimStart,
    LineReader.read?]

end CLike

end TraceTutor
