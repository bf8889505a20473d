import Mathlib.Data.List.DropRight
import TraceTutor.Text.Blank

/-!
# Laws of white space and lines

A text is its trimmed part between two blanks (`exists_eq_trim`), and trimming is done after the
first time. The number of lines counts line feeds: a character with `n` line feeds before it stands
in line `n + 1`, which is one of the lines of the text (`count_lt_length_lines`).
-/

namespace TraceTutor.Text

/-- A statement about all characters of a text is decided along the text. There are too many
characters to decide it for each of them. -/
instance (priority := 2000) decidableForallMem {p : Char → Prop} [DecidablePred p]
    (text : List Char) : Decidable (∀ c ∈ text, p c) :=
  List.decidableBAll p text

/-! ## Trimming -/

theorem isAllBlank_iff {text : List Char} :
    isAllBlank text = true ↔ ∀ c ∈ text, isBlank c = true :=
  List.all_eq_true

theorem trimStart_cons_of_not_isBlank {c : Char} (h : isBlank c = false) (text : List Char) :
    trimStart (c :: text) = c :: text :=
  List.dropWhile_cons_of_neg (by simp [h])

theorem trimStart_eq_nil_iff {text : List Char} :
    trimStart text = [] ↔ isAllBlank text = true := by
  rw [trimStart, List.dropWhile_eq_nil_iff, isAllBlank_iff]

theorem trimEnd_eq_nil_iff {text : List Char} :
    trimEnd text = [] ↔ isAllBlank text = true := by
  rw [trimEnd, List.reverse_eq_nil_iff, ← trimStart, trimStart_eq_nil_iff]
  simp [isAllBlank]

theorem trimStart_trimStart (text : List Char) : trimStart (trimStart text) = trimStart text :=
  List.dropWhile_idempotent _ _

theorem isBlank_head_trimStart {text rest : List Char} {c : Char}
    (h : trimStart text = c :: rest) : isBlank c = false := by
  have hhead := List.head?_dropWhile_not isBlank text
  rw [show text.dropWhile isBlank = c :: rest from h] at hhead
  simpa using hhead

theorem exists_eq_trimStart (text : List Char) :
    ∃ blanks, isAllBlank blanks = true ∧ text = blanks ++ trimStart text :=
  ⟨text.takeWhile isBlank, isAllBlank_iff.2 fun _ => List.mem_takeWhile_imp,
    List.takeWhile_append_dropWhile.symm⟩

theorem exists_eq_trimEnd (text : List Char) :
    ∃ blanks, isAllBlank blanks = true ∧ text = trimEnd text ++ blanks := by
  obtain ⟨blanks, hblanks, h⟩ := exists_eq_trimStart text.reverse
  refine ⟨blanks.reverse, by simpa [isAllBlank] using hblanks, ?_⟩
  rw [trimEnd, ← List.reverse_append]
  exact (List.reverse_eq_iff.1 h)

theorem exists_eq_trim (text : List Char) :
    ∃ before after, isAllBlank before = true ∧ isAllBlank after = true ∧
      text = before ++ (trim text ++ after) := by
  obtain ⟨before, hbefore, h⟩ := exists_eq_trimStart text
  obtain ⟨after, hafter, h'⟩ := exists_eq_trimEnd (trimStart text)
  exact ⟨before, after, hbefore, hafter, h.trans (congrArg (before ++ ·) h')⟩

theorem trimStart_trim (text : List Char) : trimStart (trim text) = trim text := by
  obtain ⟨after, -, h⟩ := exists_eq_trimEnd (trimStart text)
  rw [trim]
  cases htrim : trimEnd (trimStart text) with
  | nil => rfl
  | cons c rest =>
    rw [htrim] at h
    exact trimStart_cons_of_not_isBlank (isBlank_head_trimStart h) rest

theorem isPrefix_trimEnd (text : List Char) : trimEnd text <+: text := by
  obtain ⟨blanks, -, h⟩ := exists_eq_trimEnd text
  exact ⟨blanks, h.symm⟩

theorem trimEnd_append (text more : List Char) :
    trimEnd (text ++ more) =
      if trimEnd more = [] then trimEnd text else text ++ trimEnd more := by
  unfold trimEnd
  rw [List.reverse_append, List.dropWhile_append]
  by_cases h : more.reverse.dropWhile isBlank = []
  · simp [h]
  · simp [h, List.reverse_append]

/-- A text without white space, and not empty. -/
structure IsSolidText (text : List Char) : Prop where
  ne_nil : text ≠ []
  isBlank : ∀ c ∈ text, isBlank c = false

namespace IsSolidText

variable {text : List Char}

theorem cons {c : Char} (hc : Text.isBlank c = false) (h : ∀ d ∈ text, Text.isBlank d = false) :
    IsSolidText (c :: text) :=
  ⟨List.cons_ne_nil c text, List.forall_mem_cons.2 ⟨hc, h⟩⟩

theorem append (h : IsSolidText text) {more : List Char}
    (hmore : ∀ c ∈ more, Text.isBlank c = false) : IsSolidText (text ++ more) :=
  ⟨by simp [h.ne_nil], List.forall_mem_append.2 ⟨h.isBlank, hmore⟩⟩

theorem trimStart_append (h : IsSolidText text) (more : List Char) :
    trimStart (text ++ more) = text ++ more := by
  obtain ⟨c, rest, rfl⟩ := List.exists_cons_of_ne_nil h.ne_nil
  exact trimStart_cons_of_not_isBlank (h.isBlank c List.mem_cons_self) (rest ++ more)

theorem trimEnd_append (h : IsSolidText text) (more : List Char) :
    trimEnd (text ++ more) = text ++ trimEnd more := by
  have hall : trimEnd text = text := by
    unfold trimEnd
    rw [List.dropWhile_eq_self_iff.2, List.reverse_reverse]
    intro hpos
    simpa using h.isBlank _ (List.mem_reverse.1 (List.getElem_mem hpos))
  rw [Text.trimEnd_append]
  split
  next hmore => rw [hmore, hall, List.append_nil]
  next => rfl

end IsSolidText

/-! ## Lines -/

theorem lines_feed (text : List Char) : lines ('\n' :: text) = [] :: lines text := by
  rw [lines]

theorem lines_return_feed (text : List Char) :
    lines ('\r' :: '\n' :: text) = [] :: lines text := by
  rw [lines]

theorem length_lines_cons (c : Char) (text : List Char) :
    (lines (c :: text)).length =
      if c = '\n' then (lines text).length + 1 else max 1 (lines text).length := by
  by_cases hc : c = '\n'
  · rw [if_pos hc, hc, lines_feed, List.length_cons]
  · rw [if_neg hc]
    by_cases hreturn : ∃ rest, c = '\r' ∧ text = '\n' :: rest
    · obtain ⟨rest, rfl, rfl⟩ := hreturn
      rw [lines_return_feed, lines_feed, List.length_cons]
      omega
    · rw [lines.eq_4 c text hc fun rest hc' h => hreturn ⟨rest, hc', h⟩]
      split
      next hnil => simp [hnil]
      next hcons => simp [hcons]

theorem count_lt_length_lines (before : List Char) {text : List Char} (h : text ≠ []) :
    before.count '\n' < (lines (before ++ text)).length := by
  induction before with
  | nil => exact List.length_pos_iff.2 (lines_ne_nil h)
  | cons c before ih =>
    rw [List.cons_append, length_lines_cons]
    by_cases hc : c = '\n'
    · rw [if_pos hc, hc, List.count_cons_self]
      omega
    · rw [if_neg hc, List.count_cons_of_ne (Ne.symm hc ∘ Eq.symm)]
      omega

end TraceTutor.Text
