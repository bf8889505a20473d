import TraceTutor.Proofs.CLike.LineReader

/-!
# Laws of braces

A reader that `KeepsBraces` reads no brace, no quote and no slash, so that the braces of a line are
those of what it leaves. All parts of a loop head before its brace are read by such readers, so a
loop head opens exactly one block (`countBraces_of_ofLine?`).
-/

namespace TraceTutor

namespace CLike

open Text

namespace LineReader

variable {α β : Type}

/-! ## Readers that keep the braces -/

/-- Neither a brace, nor the start of a literal or a comment. -/
def IsPlain (c : Char) : Prop :=
  c ≠ '{' ∧ c ≠ '}' ∧ c ≠ '"' ∧ c ≠ '\'' ∧ c ≠ '/'

instance (c : Char) : Decidable (IsPlain c) :=
  inferInstanceAs (Decidable (_ ∧ _))

theorem countBraces_cons_of_isPlain {c : Char} (h : IsPlain c) (text : List Char) :
    countBraces (c :: text) = countBraces text := by
  obtain ⟨hopen, hclose, hdouble, hsingle, hslash⟩ := h
  simp [countBraces, countBracesFrom, QuoteState.advance, hopen, hclose, hdouble, hsingle, hslash]

theorem countBraces_append_of_isPlain {plain : List Char} (h : ∀ c ∈ plain, IsPlain c)
    (text : List Char) : countBraces (plain ++ text) = countBraces text := by
  induction plain with
  | nil => rfl
  | cons c plain ih =>
    obtain ⟨hc, hplain⟩ := List.forall_mem_cons.1 h
    rw [List.cons_append, countBraces_cons_of_isPlain hc, ih hplain]

theorem isPlain_of_isBlank {c : Char} (h : isBlank c = true) : IsPlain c := by
  refine ⟨?_, ?_, ?_, ?_, ?_⟩
  all_goals
    rintro rfl
    revert h
    decide

theorem isPlain_of_isWordPart {c : Char} (h : isWordPart c = true) : IsPlain c := by
  have hc := inWords_of_isWordPart h
  refine ⟨?_, ?_, ?_, ?_, ?_⟩
  all_goals
    rintro rfl
    revert hc
    unfold InWords
    decide

theorem countBraces_trimStart (text : List Char) :
    countBraces (trimStart text) = countBraces text := by
  obtain ⟨blanks, hblanks, h⟩ := exists_eq_trimStart text
  conv_rhs => rw [h]
  exact (countBraces_append_of_isPlain
    (fun c hc => isPlain_of_isBlank (isAllBlank_iff.1 hblanks c hc)) _).symm

theorem countBraces_of_isEnd {text : List Char} (h : IsEnd text) : countBraces text = (0, 0) := by
  rw [← countBraces_trimStart]
  obtain h | ⟨rest, h⟩ := h
  · rw [h]
    rfl
  · rw [← h]
    rfl

/-- Leaves a line with the same braces. -/
def KeepsBraces (reader : LineReader α) : Prop :=
  ∀ ⦃text rest : List Char⦄ ⦃a : α⦄, reader text = some (a, rest) →
    countBraces rest = countBraces text

namespace KeepsBraces

theorem pure (a : α) : KeepsBraces (Pure.pure a : LineReader α) := by
  intro text rest b h
  cases h
  rfl

theorem bind {p : LineReader α} {f : α → LineReader β} (hp : KeepsBraces p)
    (hf : ∀ a, KeepsBraces (f a)) : KeepsBraces (p >>= f) := by
  intro text rest b h
  obtain ⟨a, middle, h₁, h₂⟩ := bind_eq_some_iff.1 h
  exact (hf a h₂).trans (hp h₁)

theorem orElse {p q : LineReader α} (hp : KeepsBraces p) (hq : KeepsBraces q) :
    KeepsBraces (p <|> q) := by
  intro text rest a h
  rw [orElse_apply] at h
  cases htext : p text with
  | none =>
    rw [htext] at h
    exact hq h
  | some x =>
    rw [htext] at h
    cases h
    exact hp htext

theorem guardHead (test : List Char → Bool) (a : α) :
    KeepsBraces (fun text => if test text then none else some (a, text)) := by
  intro text rest b h
  dsimp only at h
  split at h
  next => cases h
  next =>
    cases h
    rfl

theorem takeWhile {p : Char → Bool} (hp : ∀ c, p c = true → IsPlain c) (text : List Char) :
    countBraces (text.dropWhile p) = countBraces text := by
  conv_rhs => rw [← List.takeWhile_append_dropWhile (p := p) (l := text)]
  exact (countBraces_append_of_isPlain (fun c hc => hp c (List.mem_takeWhile_imp hc)) _).symm

theorem skipBlanks : KeepsBraces skipBlanks := by
  intro text rest a h
  cases h
  exact countBraces_trimStart text

theorem sign {wanted : String} (hwanted : wanted.toList.all (IsPlain ·) = true) :
    KeepsBraces (sign wanted) := by
  have hplain : ∀ c ∈ wanted.toList, IsPlain c := fun c hc =>
    of_decide_eq_true (List.all_eq_true.1 hwanted c hc)
  refine skipBlanks.bind fun _ text rest _ h => ?_
  rw [exactly_eq_some_iff.1 h]
  exact (countBraces_append_of_isPlain hplain rest).symm

theorem word {wanted : String} (hwanted : wanted.toList.all (IsPlain ·) = true) :
    KeepsBraces (word wanted) :=
  (sign hwanted).bind fun _ => guardHead _ ()

theorem identifier : KeepsBraces identifier := by
  refine skipBlanks.bind fun _ text rest _ h => ?_
  split at h
  next =>
    cases h
    exact takeWhile (fun _ => isPlain_of_isWordPart) text
  next => cases h

theorem comparison : KeepsBraces comparison := by
  have hsign : ∀ (wanted : String) (c : Comparison), wanted.toList.all (IsPlain ·) = true →
      KeepsBraces (do LineReader.sign wanted; return c) :=
    fun _ c h => (sign h).bind fun _ => pure c
  exact (hsign "<=" _ (by decide)).orElse ((hsign ">=" _ (by decide)).orElse
    ((hsign "<" _ (by decide)).orElse (hsign ">" _ (by decide))))

theorem minus : KeepsBraces minus := by
  intro text rest a h
  unfold LineReader.minus at h
  split at h
  next =>
    cases h
    exact (countBraces_cons_of_isPlain (by decide) _).symm
  next =>
    cases h
    rfl

theorem digits : KeepsBraces digits := by
  intro text rest a h
  cases h
  exact takeWhile (fun _ hc => isPlain_of_isWordPart (isWordPart_of_isDigit hc)) text

theorem integer : KeepsBraces integer :=
  skipBlanks.bind fun _ => minus.bind fun _ => digits.bind fun _ => guardHead _ _

end KeepsBraces

end LineReader

open LineReader

theorem countBraces_cons_open (text : List Char) :
    countBraces ('{' :: text) = ((countBraces text).1 + 1, (countBraces text).2) := by
  simp [countBraces, countBracesFrom, QuoteState.advance]

theorem countBraces_cons_close (text : List Char) :
    countBraces ('}' :: text) = ((countBraces text).1, (countBraces text).2 + 1) := by
  simp [countBraces, countBracesFrom, QuoteState.advance]

/-- A loop head opens one block. -/
theorem countBraces_of_ofLine? {line : List Char} {condition : LoopCondition}
    (h : LoopCondition.ofLine? line = some condition) : countBraces line = (1, 0) := by
  obtain ⟨⟨_, rest⟩, hread, -⟩ := Option.map_eq_some_iff.1 h
  simp only [loopHead, bind_eq_some_iff] at hread
  obtain ⟨_, t₁, h₁, _, t₂, h₂, name, t₃, h₃, c, t₄, h₄, limit, t₅, h₅, _, t₆, h₆, _, t₇, h₇, _,
    t₈, h₈, -⟩ := hread
  have hbefore : countBraces t₆ = countBraces line := calc
    countBraces t₆ = countBraces t₅ := KeepsBraces.sign (by decide) h₆
    _ = countBraces t₄ := KeepsBraces.integer h₅
    _ = countBraces t₃ := KeepsBraces.comparison h₄
    _ = countBraces t₂ := KeepsBraces.identifier h₃
    _ = countBraces t₁ := KeepsBraces.sign (by decide) h₂
    _ = countBraces line := KeepsBraces.word (by decide) h₁
  have hopen : trimStart t₆ = '{' :: t₇ := exactly_eq_some_iff.1 h₇
  have hend : IsEnd t₇ := by
    rw [ending_apply] at h₈
    by_contra hnot
    rw [if_neg hnot] at h₈
    cases h₈
  rw [← hbefore, ← countBraces_trimStart, hopen, countBraces_cons_open, countBraces_of_isEnd hend]

/-- A line that is a closing brace closes one block. -/
theorem countBraces_of_trim_eq {line : List Char} (h : trim line = ['}']) :
    countBraces line = (0, 1) := by
  obtain ⟨before, after, hbefore, hafter, hline⟩ := exists_eq_trim line
  rw [hline, h, countBraces_append_of_isPlain
    (fun c hc => isPlain_of_isBlank (isAllBlank_iff.1 hbefore c hc)), List.singleton_append,
    countBraces_cons_close, countBraces_of_isEnd (.inl (trimStart_eq_nil_iff.2 hafter))]

end CLike

end TraceTutor
