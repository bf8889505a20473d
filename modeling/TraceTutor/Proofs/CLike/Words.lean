import Mathlib.Data.List.Forall2
import Mathlib.Data.List.SplitBy
import TraceTutor.CLike.Output
import TraceTutor.Proofs.CLike.LineReader

/-!
# Renamed words

The words of a text are its longest parts of letters, digits and underscores. `renameWords x y`
writes `y` wherever a whole word is `x`.

`RenamedText` relates a text to the one with `x` renamed, step by step from the front, so that a
reader can be followed on both at once. In the texts that a program writes, values stand in the
place of words, and they stay as they are. The relation goes both ways (`RenamedText.symm`), it is
kept by trimming, and it holds between a text and what `renameWords` makes of it
(`renamed_renameWords`).
-/

namespace TraceTutor

namespace CLike

open Text

/-! ## Words -/

theorem ne_of_isWordPart {c d : Char} (hc : isWordPart c = true) (hd : isWordPart d = false) :
    c ≠ d := by
  rintro rfl
  rw [hc] at hd
  cases hd

/-- Some characters of words, at least one. -/
structure IsWordText (w : String) : Prop where
  ne_nil : w.toList ≠ []
  isWordPart : ∀ c ∈ w.toList, isWordPart c = true

/-- No word in front of the text goes on in it. -/
def EndsWord (text : List Char) : Prop :=
  ∀ c ∈ text.head?, isWordPart c = false

theorem endsWord_nil : EndsWord [] := by
  intro c hc
  cases hc

theorem endsWord_cons {c : Char} (h : isWordPart c = false) (rest : List Char) :
    EndsWord (c :: rest) := by
  intro d hd
  cases hd
  exact h

theorem EndsWord.of_prefix {text part : List Char} (h : EndsWord text) (hpart : part <+: text) :
    EndsWord part := by
  obtain ⟨rest, rfl⟩ := hpart
  cases part with
  | nil => exact endsWord_nil
  | cons c part => exact endsWord_cons (h c rfl) part

theorem EndsWord.append {text more : List Char} (h : EndsWord text) (hmore : EndsWord more) :
    EndsWord (text ++ more) := by
  cases text with
  | nil => exact hmore
  | cons c text => exact endsWord_cons (h c rfl) (text ++ more)

namespace IsWordText

variable {w w' : String} {s s' : List Char}

theorem exists_cons (h : IsWordText w) :
    ∃ c rest, w.toList = c :: rest ∧ CLike.isWordPart c = true := by
  obtain ⟨c, rest, hw⟩ := List.exists_cons_of_ne_nil h.ne_nil
  exact ⟨c, rest, hw, h.isWordPart c (hw ▸ List.mem_cons_self)⟩

theorem isSolidText (h : IsWordText w) : IsSolidText w.toList :=
  ⟨h.ne_nil, fun c hc => (LineReader.isSolid_of_isWordPart (h.isWordPart c hc)).1⟩

theorem takeWhile (h : IsWordText w) (hs : EndsWord s) :
    (w.toList ++ s).takeWhile CLike.isWordPart = w.toList := by
  rw [List.takeWhile_append_of_pos h.isWordPart]
  cases s with
  | nil => simp
  | cons c s => simp [hs c rfl]

theorem dropWhile (h : IsWordText w) (hs : EndsWord s) :
    (w.toList ++ s).dropWhile CLike.isWordPart = s := by
  rw [List.dropWhile_append_of_pos h.isWordPart]
  cases s with
  | nil => rfl
  | cons c s => simp [hs c rfl]

/-- A text starts with one word at most. -/
theorem append_inj (h : IsWordText w) (h' : IsWordText w') (hs : EndsWord s) (hs' : EndsWord s')
    (heq : w.toList ++ s = w'.toList ++ s') : w = w' ∧ s = s' := by
  have htake := congrArg (List.takeWhile CLike.isWordPart) heq
  have hdrop := congrArg (List.dropWhile CLike.isWordPart) heq
  rw [h.takeWhile hs, h'.takeWhile hs'] at htake
  rw [h.dropWhile hs, h'.dropWhile hs'] at hdrop
  exact ⟨String.toList_inj.1 htake, hdrop⟩

theorem append_ne_cons (h : IsWordText w) {c : Char} (hc : CLike.isWordPart c = false) :
    w.toList ++ s ≠ c :: s' := by
  obtain ⟨d, rest, hw, hd⟩ := h.exists_cons
  rw [hw, List.cons_append]
  exact fun heq => ne_of_isWordPart hd hc (List.cons.inj heq).1

theorem append_ne_nil (h : IsWordText w) : w.toList ++ s ≠ [] := by
  simp [h.ne_nil]

end IsWordText

/-! ## Renaming -/

/-- The name in place of another one where `x` is called `y`. -/
def rename (x y name : String) : String :=
  if name = x then y else name

theorem rename_of_ne {x y name : String} (h : name ≠ x) : rename x y name = name :=
  if_neg h

theorem rename_inj {x y a b : String} (ha : a ≠ y) (hb : b ≠ y) :
    rename x y a = rename x y b ↔ a = b := by
  unfold rename
  split_ifs with hax hbx hbx
  · simp [hax, hbx]
  · exact iff_of_false (Ne.symm hb) fun h => hbx (h ▸ hax)
  · exact iff_of_false ha fun h => hax (h ▸ hbx)
  · rfl

theorem rename_ne {x y name : String} (h : name ≠ y) : rename x y name ≠ x := by
  unfold rename
  split_ifs with hx
  · exact fun hy => h (hx.trans hy.symm)
  · exact hx

/-- A name that is neither of the two is called so before and after. -/
theorem rename_eq_iff {x y name other : String} (hx : other ≠ x) (hy : other ≠ y) :
    rename x y name = other ↔ name = other := by
  unfold rename
  split_ifs with h
  · exact iff_of_false (Ne.symm hy) fun h' => hx (h'.symm.trans h)
  · rfl

theorem rename_rename {x y name : String} (h : name ≠ y) : rename y x (rename x y name) = name := by
  by_cases hx : name = x
  · simp [rename, hx]
  · simp [rename, hx, h]

theorem IsWordText.rename {x y w : String} (h : IsWordText w) (hy : IsWordText y) :
    IsWordText (rename x y w) := by
  unfold CLike.rename
  split_ifs
  · exact hy
  · exact h

/-- The words of a text and what stands between them, in order. -/
def parts (text : List Char) : List (List Char) :=
  text.splitBy fun a b => isWordPart a == isWordPart b

/-- A text where every whole word `x` is replaced by `y`. -/
def renameWords (x y : String) (text : List Char) : List Char :=
  (parts text).flatMap fun part => (rename x y (String.ofList part)).toList

/-- A program where every whole word `x` is replaced by `y`. -/
def renameSource (x y source : String) : String :=
  String.ofList (renameWords x y source.toList)

example : renameSource "i" "n" "while (i < 10) i_i = i1;" = "while (n < 10) i_i = i1;" := by
  decide +kernel

/-! ## The relation between the texts -/

/-- The second text is the first one where the word `x` is `y`, which the first one does not have.
Values that are shown in the place of words are the same in both. -/
inductive RenamedText (Shown : List Char → Prop) (x y : String) : List Char → List Char → Prop
  | nil : RenamedText Shown x y [] []
  | other {c : Char} {s t : List Char} (hc : isWordPart c = false)
      (h : RenamedText Shown x y s t) : RenamedText Shown x y (c :: s) (c :: t)
  | word {w : String} {s t : List Char} (hw : IsWordText w) (hfresh : w ≠ y) (hs : EndsWord s)
      (h : RenamedText Shown x y s t) :
      RenamedText Shown x y (w.toList ++ s) ((rename x y w).toList ++ t)
  | value {v s t : List Char} (hv : Shown v) (hs : EndsWord s) (h : RenamedText Shown x y s t) :
      RenamedText Shown x y (v ++ s) (v ++ t)

/-- The relation for texts without values. -/
abbrev Renamed (x y : String) : List Char → List Char → Prop :=
  RenamedText (fun _ => False) x y

namespace RenamedText

variable {Shown : List Char → Prop} {x y : String} {s t : List Char}

theorem endsWord (h : RenamedText Shown x y s t) (hs : EndsWord s) : EndsWord t := by
  induction h with
  | nil => exact endsWord_nil
  | other hc => exact endsWord_cons hc _
  | word hw =>
    obtain ⟨c, rest, hcons, hc⟩ := hw.exists_cons
    rw [hcons] at hs
    exact absurd (hs c rfl) (by simp [hc])
  | @value v s t _ hend _ ih =>
    cases v with
    | nil => exact ih hend
    | cons c v => exact endsWord_cons (hs c rfl) (v ++ t)

theorem symm (hy : IsWordText y) (h : RenamedText Shown x y s t) : RenamedText Shown y x t s := by
  induction h with
  | nil => exact .nil
  | other hc _ ih => exact .other hc ih
  | @word w s t hw hfresh hs h ih =>
    have hword := RenamedText.word (hw.rename hy) (rename_ne hfresh) (h.endsWord hs) ih
    rwa [rename_rename hfresh] at hword
  | value hv hs h ih => exact .value hv (h.endsWord hs) ih

theorem append {s' t' : List Char} (h : RenamedText Shown x y s t) (hs' : EndsWord s')
    (h' : RenamedText Shown x y s' t') : RenamedText Shown x y (s ++ s') (t ++ t') := by
  induction h with
  | nil => exact h'
  | other hc _ ih => exact .other hc ih
  | word hw hfresh hs _ ih =>
    rw [List.append_assoc, List.append_assoc]
    exact .word hw hfresh (hs.append hs') ih
  | value hv hs _ ih =>
    rw [List.append_assoc, List.append_assoc]
    exact .value hv (hs.append hs') ih

theorem others {between : List Char} (hbetween : ∀ c ∈ between, isWordPart c = false)
    (h : RenamedText Shown x y s t) : RenamedText Shown x y (between ++ s) (between ++ t) := by
  induction between with
  | nil => exact h
  | cons c between ih =>
    obtain ⟨hc, hbetween⟩ := List.forall_mem_cons.1 hbetween
    exact .other hc (ih hbetween)

/-! ### Trimming -/

section Trimming

variable (hx : IsWordText x) (hy : IsWordText y) (hShown : ∀ v, Shown v → IsSolidText v)
include hx hy hShown

omit hx in
theorem eq_nil (h : RenamedText Shown x y s t) (ht : t = []) : s = [] := by
  cases h with
  | nil => rfl
  | other => cases ht
  | word hw => exact absurd ht (hw.rename hy).append_ne_nil
  | value hv => exact absurd (List.append_eq_nil_iff.1 ht).1 (hShown _ hv).ne_nil

theorem eq_nil_iff (h : RenamedText Shown x y s t) : s = [] ↔ t = [] :=
  ⟨(h.symm hy).eq_nil hx hShown, h.eq_nil hy hShown⟩

omit hx in
theorem trimStart (h : RenamedText Shown x y s t) :
    RenamedText Shown x y (Text.trimStart s) (Text.trimStart t) := by
  induction h with
  | nil => exact .nil
  | @other c s t hc h ih =>
    by_cases hblank : isBlank c = true
    · simpa only [Text.trimStart, List.dropWhile_cons_of_pos hblank] using ih
    · simpa only [Text.trimStart, List.dropWhile_cons_of_neg hblank] using h.other hc
  | word hw hfresh hs h =>
    rw [hw.isSolidText.trimStart_append, (hw.rename hy).isSolidText.trimStart_append]
    exact .word hw hfresh hs h
  | value hv hs h =>
    rw [(hShown _ hv).trimStart_append, (hShown _ hv).trimStart_append]
    exact .value hv hs h

theorem trimEnd (h : RenamedText Shown x y s t) :
    RenamedText Shown x y (Text.trimEnd s) (Text.trimEnd t) := by
  induction h with
  | nil => exact .nil
  | @other c s t hc h ih =>
    have hnil := ih.eq_nil_iff hx hy hShown
    rw [← List.singleton_append, ← List.singleton_append (l := t), trimEnd_append, trimEnd_append]
    by_cases ht : Text.trimEnd t = []
    · rw [if_pos (hnil.2 ht), if_pos ht]
      by_cases hblank : isBlank c = true
      · simp [Text.trimEnd, hblank, RenamedText.nil]
      · simpa [Text.trimEnd, hblank] using RenamedText.nil.other hc
    · rw [if_neg fun hs => ht (hnil.1 hs), if_neg ht]
      exact ih.other hc
  | word hw hfresh hs h ih =>
    rw [hw.isSolidText.trimEnd_append, (hw.rename hy).isSolidText.trimEnd_append]
    exact .word hw hfresh (hs.of_prefix (isPrefix_trimEnd _)) ih
  | value hv hs h ih =>
    rw [(hShown _ hv).trimEnd_append, (hShown _ hv).trimEnd_append]
    exact .value hv (hs.of_prefix (isPrefix_trimEnd _)) ih

theorem trim (h : RenamedText Shown x y s t) :
    RenamedText Shown x y (Text.trim s) (Text.trim t) :=
  (h.trimStart hy hShown).trimEnd hx hy hShown

end Trimming

end RenamedText

/-! ## The renamed text -/

section RenameWords

variable {x y : String}

/-- What a part of a text starts with tells whether it is a word. -/
theorem isWordPart_of_isChain {c : Char} {rest : List Char}
    (h : (c :: rest).IsChain fun a b => (isWordPart a == isWordPart b) = true) :
    ∀ d ∈ rest, isWordPart d = isWordPart c := by
  induction rest generalizing c with
  | nil => simp
  | cons d rest ih =>
    obtain ⟨hd, hrest⟩ := List.isChain_cons_cons.1 h
    have hd : isWordPart d = isWordPart c := (beq_iff_eq.1 hd).symm
    intro e he
    rcases List.mem_cons.1 he with rfl | he
    · exact hd
    · exact (ih hrest e he).trans hd

theorem endsWord_flatten {part : List Char} {more : List (List Char)}
    (hpart : ∀ c ∈ part, isWordPart c = true)
    (h : (part :: more).IsChain fun a b =>
      ∃ ha hb, (isWordPart (a.getLast ha) == isWordPart (b.head hb)) = false) :
    EndsWord more.flatten := by
  cases more with
  | nil => exact endsWord_nil
  | cons next more =>
    obtain ⟨⟨hne, hnext, hdiffer⟩, -⟩ := List.isChain_cons_cons.1 h
    obtain ⟨d, rest, rfl⟩ := List.exists_cons_of_ne_nil hnext
    rw [hpart _ (List.getLast_mem hne), List.head_cons] at hdiffer
    exact endsWord_cons (by simpa using hdiffer) _

/-- The second text of the relation is what replacing whole words makes of the first one. -/
theorem renamed_renameWords (hx : IsWordText x) {text : List Char}
    (hfresh : y.toList ∉ parts text) : Renamed x y text (renameWords x y text) := by
  obtain ⟨htext, hne, hsame, hdiffer⟩ := List.splitBy_eq_iff.1 (Eq.refl (parts text))
  rw [renameWords]
  conv_lhs => rw [htext]
  clear htext
  generalize parts text = all at hne hsame hdiffer hfresh ⊢
  induction all with
  | nil => exact .nil
  | cons part more ih =>
    obtain ⟨hpart, hmore⟩ := List.forall_mem_cons.1 hsame
    rw [List.mem_cons, not_or] at hne hfresh
    have hrest := ih hne.2 hmore hdiffer.tail hfresh.2
    obtain ⟨c, rest, rfl⟩ := List.exists_cons_of_ne_nil (Ne.symm hne.1)
    have hkind : ∀ d ∈ c :: rest, isWordPart d = isWordPart c :=
      List.forall_mem_cons.2 ⟨rfl, isWordPart_of_isChain hpart⟩
    rw [List.flatten_cons, List.flatMap_cons]
    by_cases hc : isWordPart c = true
    · have hw : IsWordText (String.ofList (c :: rest)) :=
        ⟨by simp, fun d hd => (hkind d (by simpa using hd)).trans hc⟩
      have hy : String.ofList (c :: rest) ≠ y := by
        rintro rfl
        exact hfresh.1 (by rw [String.toList_ofList])
      have hword := RenamedText.word (x := x) hw hy
        (endsWord_flatten (fun d hd => (hkind d hd).trans hc) hdiffer) hrest
      rwa [String.toList_ofList] at hword
    · have hne : String.ofList (c :: rest) ≠ x := by
        rintro rfl
        exact hc (hx.isWordPart c (by simp))
      rw [rename_of_ne hne, String.toList_ofList]
      exact .others (fun d hd => (hkind d hd).trans (by simpa using hc)) hrest

end RenameWords

/-! ## Texts without values -/

namespace Renamed

variable {x y : String} {s t : List Char}

/-- The induction over the relation, where there are no values. -/
@[elab_as_elim]
theorem induct {motive : (s t : List Char) → Renamed x y s t → Prop}
    (nil : motive [] [] .nil)
    (other : ∀ {c : Char} {s t : List Char} (hc : isWordPart c = false) (h : Renamed x y s t),
      motive s t h → motive (c :: s) (c :: t) (.other hc h))
    (word : ∀ {w : String} {s t : List Char} (hw : IsWordText w) (hfresh : w ≠ y)
      (hs : EndsWord s) (h : Renamed x y s t), motive s t h →
      motive (w.toList ++ s) ((rename x y w).toList ++ t) (.word hw hfresh hs h))
    {s t : List Char} (h : Renamed x y s t) : motive s t h := by
  induction h with
  | nil => exact nil
  | other hc h ih => exact other hc h ih
  | word hw hfresh hs h ih => exact word hw hfresh hs h ih
  | value hv => exact hv.elim

theorem trimStart (hy : IsWordText y) (h : Renamed x y s t) :
    Renamed x y (Text.trimStart s) (Text.trimStart t) :=
  RenamedText.trimStart hy (fun _ h => h.elim) h

theorem trim (hx : IsWordText x) (hy : IsWordText y) (h : Renamed x y s t) :
    Renamed x y (Text.trim s) (Text.trim t) :=
  RenamedText.trim hx hy (fun _ h => h.elim) h

theorem isEmpty_eq (hx : IsWordText x) (hy : IsWordText y) (h : Renamed x y s t) :
    s.isEmpty = t.isEmpty := by
  rw [Bool.eq_iff_iff, List.isEmpty_iff, List.isEmpty_iff]
  exact h.eq_nil_iff hx hy fun _ h => h.elim

/-! ### What the first text starts with -/

theorem nil_left (h : Renamed x y [] t) : t = [] := by
  generalize hs : ([] : List Char) = u at h
  cases h using induct with
  | nil => rfl
  | other => cases hs
  | word hw => exact absurd hs.symm hw.append_ne_nil

theorem cons_left {c : Char} (hc : isWordPart c = false) (h : Renamed x y (c :: s) t) :
    ∃ t', t = c :: t' ∧ Renamed x y s t' := by
  generalize hs : c :: s = u at h
  cases h using induct with
  | nil => cases hs
  | other _ h =>
    cases hs
    exact ⟨_, rfl, h⟩
  | word hw => exact absurd hs.symm (hw.append_ne_cons hc)

theorem word_left {w : String} (hw : IsWordText w) (hs : EndsWord s)
    (h : Renamed x y (w.toList ++ s) t) :
    ∃ t', t = (rename x y w).toList ++ t' ∧ Renamed x y s t' := by
  generalize heq : w.toList ++ s = u at h
  cases h using induct with
  | nil => exact absurd heq hw.append_ne_nil
  | other hc => exact absurd heq (hw.append_ne_cons hc)
  | word hw' _ hs' h =>
    obtain ⟨rfl, rfl⟩ := hw.append_inj hw' hs hs' heq
    exact ⟨_, rfl, h⟩

/-- What stands before a character and after it may be compared on its own. -/
theorem append_cons_left {a b : List Char} {c : Char} (hc : isWordPart c = false)
    (h : Renamed x y (a ++ c :: b) t) :
    ∃ a' b', t = a' ++ c :: b' ∧ Renamed x y a a' ∧ Renamed x y b b' := by
  generalize hs : a ++ c :: b = u at h
  induction h using induct generalizing a with
  | nil => simp at hs
  | @other d s t hd h ih =>
    cases a with
    | nil =>
      cases hs
      exact ⟨[], t, rfl, .nil, h⟩
    | cons e a =>
      obtain ⟨rfl, htail⟩ := List.cons.inj hs
      obtain ⟨a', b', rfl, ha, hb⟩ := ih htail
      exact ⟨e :: a', b', rfl, ha.other hd, hb⟩
  | @word w s t hw hfresh hend h ih =>
    rcases List.append_eq_append_iff.1 hs with ⟨more, hword, hrest⟩ | ⟨more, rfl, hrest⟩
    · -- The character is not in the word.
      cases more with
      | nil =>
        obtain ⟨a', b', rfl, ha, hb⟩ := ih (a := []) hrest
        have ha' := ha.nil_left
        subst ha'
        rw [List.append_nil] at hword
        exact ⟨_, b', rfl, by simpa [hword] using RenamedText.word hw hfresh endsWord_nil .nil, hb⟩
      | cons d more =>
        obtain ⟨rfl, -⟩ := List.cons.inj hrest
        exact absurd rfl (ne_of_isWordPart (hw.isWordPart c (by simp [hword])) hc)
    · obtain ⟨a', b', rfl, ha, hb⟩ := ih hrest.symm
      refine ⟨_, b', (List.append_assoc _ _ _).symm, ?_, hb⟩
      exact .word hw hfresh (hend.of_prefix (hrest ▸ List.prefix_append _ _)) ha

end Renamed

end CLike

end TraceTutor
