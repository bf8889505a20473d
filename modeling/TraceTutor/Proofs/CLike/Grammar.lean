import Mathlib.Computability.Language
import Mathlib.Order.CompletePartialOrder
import TraceTutor.Proofs.CLike.Words

/-!
# The grammar of lines

The parts of a line are languages: white space, words, signs, names and integers. Products of them
describe whole lines.

A reader `Reads` a value from a language if it yields that value exactly on the texts that the
language leads into, as far as the text that is left allows: a name does not end before a letter.
There is one rule for each way to build a reader, and one lemma for each reader of a part of a line,
so that a reader of whole lines is read off as a product of the languages of its parts.
-/

namespace TraceTutor

namespace CLike

open Text

/-! ## Languages -/

namespace Grammar

/-- White space, or nothing. -/
def space : Language Char :=
  {text | isAllBlank text = true}

/-- At least one character of white space. -/
def gap : Language Char :=
  {text | text ≠ [] ∧ isAllBlank text = true}

/-- One text. -/
def sign (wanted : String) : Language Char :=
  {wanted.toList}

/-- The words that declare an integer. -/
def typeWords : List String :=
  ["int", "long", "short"]

def typeWord : Language Char :=
  sign "int" + (sign "long" + sign "short")

/-- A word that may be a name: it does not start with a digit. -/
structure IsIdentifier (n : String) : Prop where
  starts : n.toList.head?.any isWordStart = true
  isWordPart : ∀ c ∈ n.toList, isWordPart c = true

instance (n : String) : Decidable (IsIdentifier n) :=
  decidable_of_iff (n.toList.head?.any isWordStart = true ∧ ∀ c ∈ n.toList, isWordPart c = true)
    ⟨fun h => ⟨h.1, h.2⟩, fun h => ⟨h.1, h.2⟩⟩

/-- A name, as it is. -/
def name (n : String) : Language Char :=
  {text | IsIdentifier n ∧ text = n.toList}

/-- Decimal digits, with a minus before them for a negative number. The number is a signed word. -/
def numeral (k : Int) : Language Char :=
  {text | ∃ digits : List Char, digits ≠ [] ∧ (∀ d ∈ digits, d.isDigit = true) ∧ isWord k = true ∧
    (text = digits ∧ k = Decimal.ofDigits digits ∨
      text = '-' :: digits ∧ k = -Decimal.ofDigits digits)}

/-- A comment up to the end of the line, or nothing. -/
def comment : Language Char :=
  1 + sign "//" * ⊤

/-- The end of a statement. -/
def ending : Language Char :=
  space * sign ";" * space * comment

/-- The texts that do not start with one of these characters. -/
def avoiding (p : Char → Bool) : Language Char :=
  {text | ∀ c ∈ text.head?, p c = false}

/-! ### Members -/

theorem mem_space {text : List Char} : text ∈ space ↔ isAllBlank text = true := Iff.rfl

theorem mem_gap {text : List Char} : text ∈ gap ↔ text ≠ [] ∧ isAllBlank text = true := Iff.rfl

theorem mem_sign {wanted : String} {text : List Char} :
    text ∈ sign wanted ↔ text = wanted.toList := Iff.rfl

theorem mem_name {n : String} {text : List Char} :
    text ∈ name n ↔ IsIdentifier n ∧ text = n.toList := Iff.rfl

theorem mem_top (text : List Char) : text ∈ (⊤ : Language Char) := trivial

theorem mem_comment {text : List Char} : text ∈ comment ↔ text = [] ∨ ['/', '/'] <+: text := by
  rw [comment, Language.mem_add, Language.mem_one, Language.mem_mul]
  refine or_congr_right ⟨?_, ?_⟩
  · rintro ⟨_, rfl, rest, -, rfl⟩
    exact ⟨rest, rfl⟩
  · rintro ⟨rest, rfl⟩
    exact ⟨_, rfl, rest, mem_top rest, rfl⟩

theorem nil_mem_avoiding (p : Char → Bool) : [] ∈ avoiding p := by
  rintro _ ⟨⟩

theorem cons_mem_avoiding {p : Char → Bool} {c : Char} {rest : List Char} :
    c :: rest ∈ avoiding p ↔ p c = false := by
  constructor
  · exact fun h => h c rfl
  · rintro h _ ⟨⟩
    exact h

theorem nil_mem_space : [] ∈ space := rfl

theorem gap_mul_space : gap * space = gap := by
  ext text
  rw [Language.mem_mul]
  constructor
  · rintro ⟨a, ⟨hne, ha⟩, b, hb, rfl⟩
    rw [mem_gap, isAllBlank, List.all_append, Bool.and_eq_true]
    exact ⟨by simp [hne], ha, hb⟩
  · exact fun h => ⟨text, h, [], nil_mem_space, by simp⟩

theorem IsIdentifier.isWordText {n : String} (h : IsIdentifier n) : IsWordText n where
  ne_nil hnil := by simpa [hnil] using h.starts
  isWordPart := h.isWordPart

theorem name_eq_sign {n : String} (h : IsIdentifier n) : name n = sign n := by
  ext text
  rw [mem_name, mem_sign]
  exact and_iff_right h

/-! ### First characters -/

/-- All texts of the language start with a character that is not one of these. -/
def Opens (p : Char → Bool) (L : Language Char) : Prop :=
  ∀ text ∈ L, ∃ c rest, text = c :: rest ∧ p c = false

section Opens

variable {p : Char → Bool} {L M : Language Char}

theorem Opens.mul (h : Opens p L) (M : Language Char) : Opens p (L * M) := by
  intro text htext
  obtain ⟨a, ha, b, -, rfl⟩ := Language.mem_mul.1 htext
  obtain ⟨c, rest, rfl, hc⟩ := h a ha
  exact ⟨c, rest ++ b, rfl, hc⟩

theorem Opens.add (hL : Opens p L) (hM : Opens p M) : Opens p (L + M) :=
  fun text htext => htext.elim (hL text) (hM text)

theorem Opens.le_avoiding (h : Opens p L) : L ≤ avoiding p := by
  intro text htext
  obtain ⟨c, rest, rfl, hc⟩ := h text htext
  rintro _ ⟨⟩
  exact hc

/-- White space does not matter if it is not one of the characters. -/
theorem Opens.space_mul (hp : ∀ c, isBlank c = true → p c = false) (h : Opens p L) :
    Opens p (space * L) := by
  intro text htext
  obtain ⟨a, ha, b, hb, rfl⟩ := Language.mem_mul.1 htext
  cases a with
  | nil => exact h b hb
  | cons c a => exact ⟨c, a ++ b, rfl, hp c (isAllBlank_iff.1 ha c List.mem_cons_self)⟩

theorem opens_gap (hp : ∀ c, isBlank c = true → p c = false) : Opens p gap := by
  rintro text ⟨hne, hblank⟩
  obtain ⟨c, rest, rfl⟩ := List.exists_cons_of_ne_nil hne
  exact ⟨c, rest, rfl, hp c (isAllBlank_iff.1 hblank c List.mem_cons_self)⟩

theorem opens_sign {wanted : String} (h : wanted.toList.head?.any (!p ·) = true) :
    Opens p (sign wanted) := by
  rintro _ rfl
  cases hwanted : wanted.toList with
  | nil => simp [hwanted] at h
  | cons c rest => exact ⟨c, rest, rfl, by simpa [hwanted] using h⟩

theorem opens_name {n : String} (hp : ∀ c, isWordStart c = true → p c = false) :
    Opens p (name n) := by
  rintro _ ⟨hn, rfl⟩
  have hstart := hn.starts
  cases htext : n.toList with
  | nil => simp [htext] at hstart
  | cons c rest => exact ⟨c, rest, rfl, hp c (by simpa [htext] using hstart)⟩

theorem opens_numeral {k : Int} (hdigit : ∀ c, c.isDigit = true → p c = false)
    (hminus : p '-' = false) : Opens p (numeral k) := by
  rintro text ⟨digits, hne, hdigits, -, ⟨rfl, -⟩ | ⟨rfl, -⟩⟩
  · obtain ⟨c, rest, rfl⟩ := List.exists_cons_of_ne_nil hne
    exact ⟨c, rest, rfl, hdigit c (hdigits c List.mem_cons_self)⟩
  · exact ⟨'-', digits, rfl, hminus⟩

end Opens

theorem isBlank_of_isWordPart {c : Char} (h : isWordPart c = true) : isBlank c = false :=
  (LineReader.isSolid_of_isWordPart h).1

theorem isWordPart_of_isBlank {c : Char} (h : isBlank c = true) : isWordPart c = false := by
  by_contra hc
  rw [isBlank_of_isWordPart (by simpa using hc)] at h
  cases h

theorem opens_isBlank_typeWord : Opens isBlank typeWord :=
  (opens_sign (by decide)).add ((opens_sign (by decide)).add (opens_sign (by decide)))

theorem opens_isBlank_name (n : String) : Opens isBlank (name n) :=
  opens_name fun _ h => isBlank_of_isWordPart (LineReader.isWordPart_of_isWordStart h)

theorem opens_isBlank_numeral (k : Int) : Opens isBlank (numeral k) :=
  opens_numeral (fun _ h => isBlank_of_isWordPart (LineReader.isWordPart_of_isDigit h)) (by decide)

/-- White space in front of a text that starts with none can be found in one way. -/
theorem trimStart_append {blanks text : List Char} (hblanks : blanks ∈ space)
    (htext : ∀ c ∈ text.head?, isBlank c = false) : trimStart (blanks ++ text) = text := by
  rw [trimStart, List.dropWhile_append_of_pos (isAllBlank_iff.1 hblanks)]
  cases text with
  | nil => rfl
  | cons c rest => exact trimStart_cons_of_not_isBlank (htext c rfl) rest

/-- In front of a text that starts with no white space, none is asked for. -/
theorem mem_space_mul_iff {L : Language Char} (hL : Opens isBlank L) {text : List Char}
    (htext : trimStart text = text) : text ∈ space * L ↔ text ∈ L := by
  rw [Language.mem_mul]
  constructor
  · rintro ⟨blanks, hblanks, a, ha, rfl⟩
    rw [trimStart_append hblanks (hL.le_avoiding ha)] at htext
    exact htext ▸ ha
  · exact fun h => ⟨[], nil_mem_space, text, h, rfl⟩

/-! ### Signs of a text -/

/-- The characters of a text that are neither white space nor part of a word or of an integer. -/
def marks (text : List Char) : List Char :=
  text.filter fun c => !(isBlank c || isWordPart c || c == '-')

/-- The texts of the language hold no signs. -/
def IsUnmarked (L : Language Char) : Prop :=
  ∀ text ∈ L, marks text = []

/-- The signs of every text of the language start in this way. -/
def StartsMarks (start : List Char) (L : Language Char) : Prop :=
  ∀ text ∈ L, start <+: marks text

theorem marks_append (a b : List Char) : marks (a ++ b) = marks a ++ marks b :=
  List.filter_append ..

theorem marks_eq_nil {text : List Char}
    (h : ∀ c ∈ text, isBlank c = true ∨ isWordPart c = true ∨ c = '-') : marks text = [] := by
  refine List.filter_eq_nil_iff.2 fun c hc => ?_
  simpa [or_iff_not_imp_left] using h c hc

theorem isUnmarked_space : IsUnmarked space :=
  fun _ h => marks_eq_nil fun c hc => .inl (isAllBlank_iff.1 h c hc)

theorem isUnmarked_gap : IsUnmarked gap :=
  fun _ h => isUnmarked_space _ h.2

theorem isUnmarked_name (n : String) : IsUnmarked (name n) := by
  rintro _ ⟨hn, rfl⟩
  exact marks_eq_nil fun c hc => .inr (.inl (hn.isWordPart c hc))

theorem isUnmarked_sign {wanted : String} (h : marks wanted.toList = []) :
    IsUnmarked (sign wanted) := by
  rintro _ rfl
  exact h

theorem isUnmarked_typeWord : IsUnmarked typeWord := by
  rintro text (h | h | h)
  · exact isUnmarked_sign (by decide) text h
  · exact isUnmarked_sign (by decide) text h
  · exact isUnmarked_sign (by decide) text h

theorem isUnmarked_numeral (k : Int) : IsUnmarked (numeral k) := by
  have hdigit : ∀ {digits : List Char}, (∀ d ∈ digits, d.isDigit = true) →
      ∀ c ∈ digits, isBlank c = true ∨ isWordPart c = true ∨ c = '-' :=
    fun h c hc => .inr (.inl (LineReader.isWordPart_of_isDigit (h c hc)))
  rintro text ⟨digits, -, hdigits, -, ⟨rfl, -⟩ | ⟨rfl, -⟩⟩
  · exact marks_eq_nil (hdigit hdigits)
  · exact marks_eq_nil (List.forall_mem_cons.2 ⟨.inr (.inr rfl), hdigit hdigits⟩)

section Marks

variable {L M : Language Char} {start : List Char}

theorem IsUnmarked.mul (hL : IsUnmarked L) (hM : IsUnmarked M) : IsUnmarked (L * M) := by
  intro text htext
  obtain ⟨a, ha, b, hb, rfl⟩ := Language.mem_mul.1 htext
  rw [marks_append, hL a ha, hM b hb]
  rfl

theorem IsUnmarked.startsMarks (hL : IsUnmarked L) (hM : StartsMarks start M) :
    StartsMarks start (L * M) := by
  intro text htext
  obtain ⟨a, ha, b, hb, rfl⟩ := Language.mem_mul.1 htext
  rw [marks_append, hL a ha]
  exact hM b hb

theorem StartsMarks.sign_mul (wanted : String) (hM : StartsMarks start M) :
    StartsMarks (marks wanted.toList ++ start) (sign wanted * M) := by
  intro text htext
  obtain ⟨_, rfl, b, hb, rfl⟩ := Language.mem_mul.1 htext
  rw [marks_append]
  exact (List.prefix_append_right_inj _).2 (hM b hb)

theorem startsMarks_sign (wanted : String) (M : Language Char) :
    StartsMarks (marks wanted.toList) (sign wanted * M) := by
  have hM : StartsMarks [] M := fun _ _ => List.nil_prefix
  simpa using hM.sign_mul wanted

theorem StartsMarks.add (hL : StartsMarks start L) (hM : StartsMarks start M) :
    StartsMarks start (L + M) :=
  fun text htext => htext.elim (hL text) (hM text)

end Marks

end Grammar

/-! ## Readers of languages -/

namespace LineReader

open Grammar

variable {α β : Type}

/-- The reader yields `a` exactly where a text of `L` comes first and what is left is in `F`. -/
def Reads (p : LineReader α) (a : α) (L F : Language Char) : Prop :=
  ∀ text rest, p text = some (a, rest) ↔ rest ∈ F ∧ ∃ front ∈ L, front ++ rest = text

namespace Reads

variable {p q : LineReader α} {f : α → LineReader β} {a : α} {b : β} {L M N F G : Language Char}

theorem congr (h : Reads p a L F) {L' : Language Char} (hL : L = L') : Reads p a L' F :=
  hL ▸ h

/-- A reader may leave to the next one what it could have read itself. -/
theorem bind_absorb (hp : Reads p a L F) (hf : Reads (f a) b (N * M) G) (hLN : L * N = L)
    (hN : [] ∈ N) (hfollow : M * G ≤ F) (honly : ∀ a', Gives (fun b' => b' = b → a' = a) (f a')) :
    Reads (p >>= f) b (L * M) G := by
  intro text rest
  rw [bind_eq_some_iff]
  constructor
  · rintro ⟨a', middle, hread, hrest⟩
    obtain rfl : a' = a := honly a' _ _ _ hrest rfl
    obtain ⟨-, front, hfront, rfl⟩ := (hp _ _).1 hread
    obtain ⟨hG, next, hnext, rfl⟩ := (hf _ _).1 hrest
    obtain ⟨n, hn, m, hm, rfl⟩ := Language.mem_mul.1 hnext
    have hmore : front ++ n ∈ L := hLN ▸ Language.append_mem_mul hfront hn
    exact ⟨hG, front ++ n ++ m, Language.append_mem_mul hmore hm, by simp⟩
  · rintro ⟨hG, front, hfront, rfl⟩
    obtain ⟨l, hl, m, hm, rfl⟩ := Language.mem_mul.1 hfront
    refine ⟨a, m ++ rest, (hp _ _).2 ⟨hfollow (Language.append_mem_mul hm hG), l, hl, by simp⟩,
      (hf _ _).2 ⟨hG, m, ?_, rfl⟩⟩
    simpa using Language.append_mem_mul hN hm

theorem bind (hp : Reads p a L F) (hf : Reads (f a) b M G) (hfollow : M * G ≤ F)
    (honly : ∀ a', Gives (fun b' => b' = b → a' = a) (f a')) : Reads (p >>= f) b (L * M) G :=
  hp.bind_absorb (hf.congr (one_mul M).symm) (mul_one L) Language.nil_mem_one hfollow honly

/-- After a part that yields nothing. -/
theorem next {p : LineReader Unit} {f : Unit → LineReader β} (hp : Reads p () L F)
    (hf : Reads (f ()) b M G) (hfollow : M * G ≤ F) : Reads (p >>= f) b (L * M) G :=
  hp.bind hf hfollow fun _ _ _ _ _ _ => rfl

theorem bind_pure (hp : Reads p a L F) (b : β) (h : ∀ a' : α, a' = a) :
    Reads (p >>= fun _ => Pure.pure b) b L F := by
  intro text rest
  rw [← hp text rest, bind_eq_some_iff]
  constructor
  · rintro ⟨a', middle, hread, hrest⟩
    cases hrest
    exact h a' ▸ hread
  · exact fun hread => ⟨a, rest, hread, rfl⟩

/-- The second reader is only asked where the first one fails. -/
theorem orElse (hp : Reads p a L F) (hq : Reads q a M F) (hnone : ∀ text ∈ M * F, p text = none) :
    Reads (p <|> q) a (L + M) F := by
  intro text rest
  rw [orElse_apply]
  constructor
  · intro hread
    cases htext : p text with
    | none =>
      rw [htext] at hread
      obtain ⟨hF, front, hfront, hfull⟩ := (hq text rest).1 hread
      exact ⟨hF, front, .inr hfront, hfull⟩
    | some x =>
      rw [htext] at hread
      cases hread
      obtain ⟨hF, front, hfront, hfull⟩ := (hp text rest).1 htext
      exact ⟨hF, front, .inl hfront, hfull⟩
  · rintro ⟨hF, front, hfront, rfl⟩
    obtain hfront | hfront := hfront
    · rw [(hp _ _).2 ⟨hF, front, hfront, rfl⟩]
      rfl
    · rw [hnone _ (Language.append_mem_mul hfront hF)]
      exact (hq _ _).2 ⟨hF, front, hfront, rfl⟩

theorem read?_eq_some_iff (hp : Reads p a L F) {text : List Char} :
    p.read? text = some a ↔ text ∈ L * F := by
  rw [read?, Option.map_eq_some_iff, Language.mem_mul]
  constructor
  · rintro ⟨⟨_, rest⟩, hread, rfl⟩
    obtain ⟨hF, front, hfront, hfull⟩ := (hp text rest).1 hread
    exact ⟨front, hfront, rest, hF, hfull⟩
  · rintro ⟨front, hfront, rest, hF, hfull⟩
    exact ⟨(a, rest), (hp text rest).2 ⟨hF, front, hfront, hfull⟩, rfl⟩

end Reads

/-! ### Readers of parts -/

theorem reads_sign {wanted : String} (hwanted : Opens isBlank (Grammar.sign wanted)) :
    Reads (sign wanted) () (space * Grammar.sign wanted) ⊤ := by
  intro text rest
  rw [sign_apply, exactly_eq_some_iff]
  constructor
  · intro h
    obtain ⟨blanks, hblanks, htext⟩ := exists_eq_trimStart text
    exact ⟨mem_top rest, blanks ++ wanted.toList, Language.append_mem_mul hblanks rfl,
      by rw [htext, h, List.append_assoc]⟩
  · rintro ⟨-, front, hfront, rfl⟩
    obtain ⟨blanks, hblanks, _, rfl, rfl⟩ := Language.mem_mul.1 hfront
    rw [List.append_assoc]
    exact trimStart_append hblanks
      ((hwanted.mul ⊤).le_avoiding (Language.append_mem_mul rfl (mem_top rest)))

theorem reads_word {wanted : String} (hwanted : Opens isBlank (Grammar.sign wanted)) :
    Reads (word wanted) () (space * Grammar.sign wanted) (avoiding isWordPart) := by
  intro text rest
  have hhead : ∀ {t : List Char}, t.head?.any isWordPart = false ↔ t ∈ avoiding isWordPart := by
    intro t
    cases t with
    | nil => exact iff_of_true rfl (by rintro c ⟨⟩)
    | cons c t => exact ⟨by rintro h _ ⟨⟩; exact h, fun h => h c rfl⟩
  rw [word, bind_eq_some_iff, ← hhead]
  constructor
  · rintro ⟨_, middle, hread, hrest⟩
    split at hrest
    next => cases hrest
    next hnot =>
      cases hrest
      exact ⟨by simpa using hnot, ((reads_sign hwanted _ _).1 hread).2⟩
  · rintro ⟨hrest, hfront⟩
    exact ⟨(), rest, (reads_sign hwanted _ _).2 ⟨mem_top rest, hfront⟩, by rw [hrest]; rfl⟩

theorem reads_blanks : Reads blanks () gap (avoiding isBlank) := by
  intro text rest
  constructor
  · intro h
    obtain ⟨hhead, hread⟩ : text.head?.any isBlank = true ∧ trimStart text = rest := by
      unfold blanks at h
      split at h
      next hhead =>
        cases h
        exact ⟨hhead, rfl⟩
      next => cases h
    obtain ⟨front, hfront, htext⟩ := exists_eq_trimStart text
    rw [hread] at htext
    have hrest : rest ∈ avoiding isBlank := by
      cases rest with
      | nil => rintro _ ⟨⟩
      | cons c rest =>
        rintro _ ⟨⟩
        exact isBlank_head_trimStart hread
    refine ⟨hrest, front, ⟨?_, hfront⟩, htext.symm⟩
    rintro rfl
    -- A text that starts with white space is not the rest that is left of it.
    rw [htext] at hhead
    cases rest with
    | nil => cases hhead
    | cons c rest => exact absurd (hrest c rfl) (by simpa using hhead)
  · rintro ⟨hrest, front, ⟨hne, hblank⟩, rfl⟩
    obtain ⟨c, front, rfl⟩ := List.exists_cons_of_ne_nil hne
    have hc : isBlank c = true := isAllBlank_iff.1 hblank c List.mem_cons_self
    have hhead : (c :: front ++ rest).head?.any isBlank = true := hc
    rw [blanks, if_pos hhead, skipBlanks_apply, trimStart_append hblank hrest]

theorem isIdentifier_takeWhile {text : List Char} (h : text.head?.any isWordStart = true) :
    IsIdentifier (String.ofList (text.takeWhile isWordPart)) := by
  cases text with
  | nil => cases h
  | cons c rest =>
    have hc : isWordStart c = true := h
    refine ⟨?_, fun d hd => List.mem_takeWhile_imp (by simpa using hd)⟩
    rw [String.toList_ofList, List.takeWhile_cons_of_pos (isWordPart_of_isWordStart hc)]
    exact hc

theorem reads_identifier (n : String) :
    Reads identifier n (space * name n) (avoiding isWordPart) := by
  intro text rest
  rw [identifier, bind_apply, skipBlanks_apply, Option.bind_some]
  constructor
  · intro h
    split at h
    next hhead =>
      obtain ⟨rfl, rfl⟩ : String.ofList ((trimStart text).takeWhile isWordPart) = n ∧
          (trimStart text).dropWhile isWordPart = rest := by simpa using h
      obtain ⟨blanks, hblanks, htext⟩ := exists_eq_trimStart text
      refine ⟨fun c hc => ?_, _, Language.append_mem_mul hblanks
        ⟨isIdentifier_takeWhile hhead, rfl⟩, ?_⟩
      · have hnot := List.head?_dropWhile_not isWordPart (trimStart text)
        rw [Option.mem_def.1 hc] at hnot
        simpa using hnot
      · rw [String.toList_ofList, List.append_assoc, List.takeWhile_append_dropWhile, ← htext]
    next => cases h
  · rintro ⟨hrest, front, hfront, rfl⟩
    obtain ⟨blanks, hblanks, _, ⟨hn, rfl⟩, rfl⟩ := Language.mem_mul.1 hfront
    have htrim : trimStart (blanks ++ n.toList ++ rest) = n.toList ++ rest := by
      rw [List.append_assoc, trimStart_append hblanks]
      exact ((opens_isBlank_name n).mul ⊤).le_avoiding
        (Language.append_mem_mul ⟨hn, rfl⟩ (mem_top rest))
    have hhead : (n.toList ++ rest).head?.any isWordStart = true := by
      obtain ⟨c, more, hcons, -⟩ := hn.isWordText.exists_cons
      have hstart := hn.starts
      rw [hcons] at hstart ⊢
      exact hstart
    rw [htrim, if_pos hhead, hn.isWordText.takeWhile hrest, hn.isWordText.dropWhile hrest,
      String.ofList_toList]

/-- What may not come right after an integer. -/
def goesOnNumeral (c : Char) : Bool :=
  isWordPart c || c == '.'

theorem minus_of_ne {text : List Char} (h : ∀ c ∈ text.head?, c ≠ '-') :
    minus text = some (false, text) := by
  unfold minus
  split
  next => exact absurd rfl (h '-' rfl)
  next => rfl

/-- An integer is read after its minus. -/
theorem integer_eq_some_iff {text rest : List Char} {k : Int} :
    integer text = some (k, rest) ↔ ∃ negative digits,
      minus (trimStart text) = some (negative, digits ++ rest) ∧ rest ∈ avoiding goesOnNumeral ∧
      digits ≠ [] ∧ (∀ d ∈ digits, d.isDigit = true) ∧ isWord k = true ∧
      k = if negative then -(Decimal.ofDigits digits : Int) else Decimal.ofDigits digits := by
  constructor
  · intro h
    simp only [integer, bind_eq_some_iff] at h
    obtain ⟨_, _, ⟨⟩, negative, signed, hminus, _, _, ⟨⟩, hread⟩ := h
    generalize hk : (if negative then _ else _ : Int) = n at hread
    split at hread
    next => cases hread
    next hguard =>
      obtain ⟨rfl, rfl⟩ := Prod.mk.inj (Option.some.inj hread)
      simp only [Bool.or_eq_true, List.isEmpty_iff, Bool.not_eq_true', not_or,
        Bool.not_eq_true, Bool.not_eq_false] at hguard
      obtain ⟨⟨hne, hhead⟩, hword⟩ := hguard
      refine ⟨negative, signed.takeWhile Char.isDigit, ?_, fun c hc => ?_, hne,
        fun d => List.mem_takeWhile_imp, hword, hk.symm⟩
      · rw [List.takeWhile_append_dropWhile, hminus]
      · rw [Option.mem_def.1 hc] at hhead
        exact hhead
  · rintro ⟨negative, digits, hminus, hrest, hne, hdigits, hword, hk⟩
    have hhead : rest.head?.any goesOnNumeral = false := by
      cases rest with
      | nil => rfl
      | cons c rest => exact hrest c rfl
    have hstop : rest.takeWhile Char.isDigit = [] ∧ rest.dropWhile Char.isDigit = rest := by
      cases rest with
      | nil => exact ⟨rfl, rfl⟩
      | cons c rest =>
        have hc : isWordPart c = false := (Bool.or_eq_false_iff.1 (hrest c rfl)).1
        have hdigit : ¬c.isDigit = true := by simp [isDigit_eq_false_of_not_isWordPart hc]
        exact ⟨List.takeWhile_cons_of_neg hdigit, List.dropWhile_cons_of_neg hdigit⟩
    have hguard : (digits.isEmpty || rest.head?.any goesOnNumeral || !isWord k) = false := by
      simp [hne, hhead, hword]
    rw [integer, bind_apply, skipBlanks_apply, Option.bind_some, bind_apply, hminus,
      Option.bind_some, bind_apply, LineReader.digits, Option.bind_some,
      List.takeWhile_append_of_pos hdigits, List.dropWhile_append_of_pos hdigits, hstop.1, hstop.2,
      List.append_nil]
    dsimp only
    rw [← hk]
    exact if_neg (by rw [Bool.not_eq_true]; exact hguard)

theorem reads_integer (k : Int) :
    Reads integer k (space * numeral k) (avoiding goesOnNumeral) := by
  intro text rest
  rw [integer_eq_some_iff]
  constructor
  · rintro ⟨negative, digits, hminus, hrest, hne, hdigits, hword, hk⟩
    obtain ⟨blanks, hblanks, htext⟩ := exists_eq_trimStart text
    refine ⟨hrest, ?_⟩
    unfold minus at hminus
    split at hminus
    next more hmore =>
      cases hminus
      exact ⟨blanks ++ '-' :: digits, Language.append_mem_mul hblanks
        ⟨_, hne, hdigits, hword, .inr ⟨rfl, hk⟩⟩, by rw [htext, hmore]; simp⟩
    next =>
      obtain ⟨rfl, htrim⟩ := Prod.mk.inj (Option.some.inj hminus)
      exact ⟨blanks ++ digits, Language.append_mem_mul hblanks
        ⟨_, hne, hdigits, hword, .inl ⟨rfl, hk⟩⟩, by rw [htext, htrim]; simp⟩
  · rintro ⟨hrest, front, hfront, rfl⟩
    obtain ⟨blanks, hblanks, number, hnumber, rfl⟩ := Language.mem_mul.1 hfront
    have htrim : trimStart (blanks ++ number ++ rest) = number ++ rest := by
      rw [List.append_assoc, trimStart_append hblanks]
      exact ((opens_isBlank_numeral k).mul ⊤).le_avoiding
        (Language.append_mem_mul hnumber (mem_top rest))
    obtain ⟨digits, hne, hdigits, hword, ⟨rfl, hk⟩ | ⟨rfl, hk⟩⟩ := hnumber
    · refine ⟨false, _, ?_, hrest, hne, hdigits, hword, hk⟩
      rw [htrim]
      refine minus_of_ne fun c hc => ?_
      obtain ⟨d, more, rfl⟩ := List.exists_cons_of_ne_nil hne
      cases hc
      rintro rfl
      exact absurd (hdigits _ List.mem_cons_self) (by decide)
    · refine ⟨true, digits, ?_, hrest, hne, hdigits, hword, hk⟩
      rw [htrim]
      rfl

/-- What may come right after a comparison. -/
def afterComparison : Comparison → Language Char
  | .less | .greater => avoiding (· == '=')
  | .lessEqual | .greaterEqual => ⊤

/-- Where the longer sign stands, the shorter one is not read. -/
theorem comparison_eq_some_iff {c : Comparison} {text rest : List Char} :
    comparison text = some (c, rest) ↔
      rest ∈ afterComparison c ∧ trimStart text = c.symbol.toList ++ rest := by
  have hsome : ∀ (wanted : String) (x : Comparison),
      (do sign wanted; return x : LineReader Comparison) text = some (c, rest) ↔
        x = c ∧ trimStart text = wanted.toList ++ rest := by
    intro wanted x
    rw [bind_eq_some_iff]
    constructor
    · rintro ⟨_, _, hread, ⟨⟩⟩
      exact ⟨rfl, exactly_eq_some_iff.1 hread⟩
    · rintro ⟨rfl, hread⟩
      exact ⟨(), rest, exactly_eq_some_iff.2 hread, rfl⟩
  have hnone : ∀ (wanted : String) (x : Comparison),
      (do sign wanted; return x : LineReader Comparison) text = none ↔
        ¬wanted.toList <+: trimStart text := by
    intro wanted x
    rw [bind_apply, sign_apply, exactly, ← List.isPrefixOf_iff_prefix]
    split
    next h => exact iff_of_false (Option.some_ne_none _) (not_not.2 h)
    next h => exact iff_of_true rfl h
  -- A sign of two characters is there if its second one comes after its first one.
  have hlong : ∀ d : Char, [d, '='] <+: d :: rest ↔ rest ∉ avoiding (· == '=') := by
    intro d
    cases rest with
    | nil => simp [nil_mem_avoiding]
    | cons e rest =>
      rw [cons_mem_avoiding, List.cons_prefix_cons, List.cons_prefix_cons, Bool.not_eq_false,
        beq_iff_eq, eq_comm (a := e)]
      simp
  simp only [comparison, orElse_apply, Option.orElse_eq_orElse, Option.orElse_eq_or,
    Option.or_eq_some_iff, hsome, hnone]
  generalize trimStart text = u
  cases c
  all_goals
    simp only [afterComparison, Comparison.symbol, String.reduceToList, List.cons_append,
      List.nil_append, reduceCtorEq, true_and, false_and, and_false, false_or, or_false]
  case less =>
    constructor
    · rintro ⟨hshort, -, rfl⟩
      exact ⟨not_not.1 (mt (hlong '<').2 hshort), rfl⟩
    · rintro ⟨hrest, rfl⟩
      exact ⟨fun h => (hlong '<').1 h hrest, by simp [List.cons_prefix_cons], rfl⟩
  case lessEqual => exact (and_iff_right (mem_top rest)).symm
  case greater =>
    constructor
    · rintro ⟨-, hshort, -, rfl⟩
      exact ⟨not_not.1 (mt (hlong '>').2 hshort), rfl⟩
    · rintro ⟨hrest, rfl⟩
      exact ⟨by simp [List.cons_prefix_cons], fun h => (hlong '>').1 h hrest,
        by simp [List.cons_prefix_cons], rfl⟩
  case greaterEqual =>
    constructor
    · exact fun h => ⟨mem_top rest, h.2⟩
    · rintro ⟨-, rfl⟩
      exact ⟨by simp [List.cons_prefix_cons], rfl⟩

theorem reads_comparison (c : Comparison) :
    Reads comparison c (space * Grammar.sign c.symbol) (afterComparison c) := by
  intro text rest
  rw [comparison_eq_some_iff]
  refine and_congr_right fun hrest => ?_
  have hsymbol : Opens isBlank (Grammar.sign c.symbol) := by
    cases c <;> exact opens_sign (by decide)
  rw [← exactly_eq_some_iff, ← sign_apply, reads_sign hsymbol text rest]
  exact and_iff_right (mem_top rest)

theorem reads_ending : Reads ending () space comment := by
  intro text rest
  rw [ending_apply]
  constructor
  · intro h
    split at h
    next hend =>
      cases h
      obtain ⟨blanks, hblanks, htext⟩ := exists_eq_trimStart text
      exact ⟨mem_comment.2 hend, blanks, hblanks, htext.symm⟩
    next => cases h
  · rintro ⟨hrest, blanks, hblanks, rfl⟩
    have hopens : ∀ c ∈ rest.head?, isBlank c = false := by
      obtain rfl | ⟨more, rfl⟩ := mem_comment.1 hrest
      · rintro _ ⟨⟩
      · rintro _ ⟨⟩
        decide
    have htrim := trimStart_append hblanks hopens
    rw [htrim, if_pos]
    rw [IsEnd, htrim]
    exact mem_comment.1 hrest

theorem reads_terminator :
    Reads terminator () (space * Grammar.sign ";" * space) comment :=
  (reads_sign (opens_sign (by decide))).next reads_ending fun _ _ => mem_top _

/-! ### Declared types -/

theorem reads_typeWord :
    Reads (word "int" <|> word "long" <|> word "short") () (space * typeWord)
      (avoiding isWordPart) := by
  -- The three words start differently, so that at most one of them is there.
  have hnone : ∀ {wanted other : String} {c : Char}, wanted.toList.head?.any (· ≠ c) = true →
      other.toList.head? = some c → isBlank c = false →
      ∀ text ∈ space * Grammar.sign other * avoiding isWordPart, word wanted text = none := by
    intro wanted other c hwanted hother hc text htext
    obtain ⟨front, hfront, rest, -, rfl⟩ := Language.mem_mul.1 htext
    obtain ⟨blanks, hblanks, _, rfl, rfl⟩ := Language.mem_mul.1 hfront
    obtain ⟨more, hmore⟩ := List.head?_eq_some_iff.1 hother
    have htrimmed : trimStart (blanks ++ other.toList ++ rest) = c :: (more ++ rest) := by
      rw [hmore, List.append_assoc]
      exact trimStart_append hblanks (by rintro _ ⟨⟩; exact hc)
    exact bind_of_eq_none (sign_eq_none htrimmed hwanted) _
  have hword : ∀ {wanted : String}, wanted.toList.head?.any (!isBlank ·) = true →
      Reads (word wanted) () (space * Grammar.sign wanted) (avoiding isWordPart) :=
    fun h => reads_word (opens_sign h)
  refine ((hword (by decide)).orElse ((hword (by decide)).orElse (hword (by decide))
    (hnone (c := 's') (by decide) (by decide) (by decide))) ?_).congr ?_
  · intro text htext
    rw [add_mul] at htext
    obtain h | h := htext
    · exact hnone (c := 'l') (by decide) (by decide) (by decide) text h
    · exact hnone (c := 's') (by decide) (by decide) (by decide) text h
  · rw [typeWord, mul_add, mul_add]

theorem reads_declarationWord :
    Reads declarationWord () (space * typeWord * gap) (avoiding isBlank) :=
  reads_typeWord.next reads_blanks
    ((opens_gap fun _ => isWordPart_of_isBlank).mul _).le_avoiding

end LineReader

end CLike

end TraceTutor
