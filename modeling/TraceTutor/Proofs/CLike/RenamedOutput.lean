import TraceTutor.Proofs.CLike.RenamedLines
import TraceTutor.Proofs.NameMap
import TraceTutor.Proofs.Value.Text

/-!
# Output of renamed variables

The text of an output statement is the only place where a line-stepped program looks a word up. In a
renamed program the renamed word finds the same value (`Renamed.substituteNames`), so that the two
outputs differ in the words that no value has replaced (`renderOutput_renamed`).
-/

namespace TraceTutor

namespace CLike

open Text

/-! ## Variables -/

/-- The words that a line-stepped program cannot do without. -/
def reservedWords : List String :=
  ["int", "long", "short", "while", "cout", "endl", "std", "factorial"]

/-- A name that a program may give to a variable. -/
structure IsVariable (x : String) : Prop where
  starts : x.toList.head?.any isWordStart = true
  isWordPart : x.toList.all isWordPart = true
  notReserved : x ∉ reservedWords

instance (x : String) : Decidable (IsVariable x) :=
  decidable_of_iff (x.toList.head?.any isWordStart = true ∧ x.toList.all isWordPart = true ∧
      x ∉ reservedWords)
    ⟨fun h => ⟨h.1, h.2.1, h.2.2⟩, fun h => ⟨h.starts, h.isWordPart, h.notReserved⟩⟩

theorem IsVariable.isWordText {x : String} (h : IsVariable x) : IsWordText x where
  ne_nil hnil := by simpa [hnil] using h.starts
  isWordPart := List.all_eq_true.1 h.isWordPart

theorem IsVariable.not_all_isDigit {x : String} (h : IsVariable x) :
    ¬x.toList.all Char.isDigit = true := by
  obtain ⟨c, rest, hcons, -⟩ := h.isWordText.exists_cons
  have hstart : isWordStart c = true := by simpa [hcons] using h.starts
  simp [hcons, LineReader.isDigit_eq_false_of_isWordStart hstart]

theorem IsVariable.ne {x w : String} (h : IsVariable x) (hw : w ∈ reservedWords) : w ≠ x := by
  rintro rfl
  exact h.notReserved hw

/-- Renaming a variable changes a word only into one that starts alike. -/
theorem starts_rename {x y w : String} (hx : IsVariable x) (hy : IsVariable y) :
    (rename x y w).toList.head?.any isWordStart = w.toList.head?.any isWordStart := by
  unfold rename
  split_ifs with h
  · rw [h, hx.starts, hy.starts]
  · rfl

/-- The second bindings are the first ones where the variable `x` is `y`. All values in them are
numbers or `null`. -/
structure Bindings.Renamed (x y : String) (b b' : Bindings) : Prop where
  entries_eq : b'.entries = b.entries.map (Prod.map (rename x y) id)
  fresh : y ∉ b.names
  isNumeric : ∀ entry ∈ b.entries, entry.2.IsNumeric

namespace Bindings.Renamed

variable {x y : String} {b b' : Bindings}

theorem empty (x y : String) : Bindings.Renamed x y .empty .empty :=
  ⟨rfl, List.not_mem_nil, fun _ h => (List.not_mem_nil h).elim⟩

theorem lookup_map {entries : List (String × Value)} (hfresh : y ∉ entries.map Prod.fst)
    {name : String} (hname : name ≠ y) :
    (entries.map (Prod.map (rename x y) id)).lookup (rename x y name) = entries.lookup name := by
  induction entries with
  | nil => rfl
  | cons entry rest ih =>
    obtain ⟨key, v⟩ := entry
    rw [List.map_cons, List.mem_cons, not_or] at hfresh
    have hkey := rename_inj (x := x) hname (Ne.symm hfresh.1)
    rw [List.map_cons, Prod.map_apply, NameMap.lookup_cons_ite, NameMap.lookup_cons_ite,
      ih hfresh.2]
    simp only [hkey, id]

theorem get?_eq (h : Bindings.Renamed x y b b') {name : String} (hname : name ≠ y) :
    b'.get? (rename x y name) = b.get? name := by
  rw [NameMap.get?, NameMap.get?, h.entries_eq]
  exact lookup_map h.fresh hname

theorem contains_eq (h : Bindings.Renamed x y b b') {name : String} (hname : name ≠ y) :
    b'.contains (rename x y name) = b.contains name := by
  rw [NameMap.contains, NameMap.contains, h.get?_eq hname]

theorem isNumeric_of_get? (h : Bindings.Renamed x y b b') {name : String} {v : Value}
    (hv : b.get? name = some v) : v.IsNumeric :=
  h.isNumeric (name, v) ((NameMap.lookup_eq_some_iff_mem b.nodup_names).1 hv)

theorem map_setEntry {entries : List (String × Value)} (hfresh : y ∉ entries.map Prod.fst)
    {name : String} (hname : name ≠ y) (v : Value) :
    NameMap.setEntry (rename x y name) v (entries.map (Prod.map (rename x y) id)) =
      (NameMap.setEntry name v entries).map (Prod.map (rename x y) id) := by
  induction entries with
  | nil => rfl
  | cons entry rest ih =>
    obtain ⟨key, w⟩ := entry
    rw [List.map_cons, List.mem_cons, not_or] at hfresh
    have hkey := rename_inj (x := x) (Ne.symm hfresh.1) hname
    rw [List.map_cons, Prod.map_apply]
    unfold NameMap.setEntry
    simp only [hkey, ih hfresh.2]
    split <;> rfl

theorem set (h : Bindings.Renamed x y b b') {name : String} (hname : name ≠ y) {v : Value}
    (hv : v.IsNumeric) : Bindings.Renamed x y (b.set name v) (b'.set (rename x y name) v) := by
  refine ⟨?_, ?_, ?_⟩
  · rw [NameMap.entries_set, NameMap.entries_set, h.entries_eq]
    exact map_setEntry h.fresh hname v
  · intro hmem
    exact (NameMap.mem_names_setEntry.1 hmem).elim (Ne.symm hname) h.fresh
  · intro entry hentry
    rcases NameMap.mem_setEntry hentry with rfl | hentry
    · exact hv
    · exact h.isNumeric entry hentry

end Bindings.Renamed

/-! ## Substitution -/

/-- The text that a program shows for a value that it computes. -/
def ShownValue (text : List Char) : Prop :=
  ∃ v : Value, v.IsNumeric ∧ text = v.display.toList

theorem ShownValue.isSolidText {text : List Char} (h : ShownValue text) : IsSolidText text := by
  obtain ⟨v, hv, rfl⟩ := h
  exact Value.isSolidText_display hv

/-- The relation for texts that a program writes: where no value has taken the place of the word
`x`, it is `y`. -/
abbrev RenamedOutput (x y : String) : List Char → List Char → Prop :=
  RenamedText ShownValue x y

theorem substituteNamesWithin_eq (b : Bindings) {fuel : Nat} {text : List Char}
    (h : text.length ≤ fuel) : substituteNamesWithin b fuel text = substituteNames b text := by
  suffices hall : ∀ fuel fuel' text, text.length ≤ fuel → text.length ≤ fuel' →
      substituteNamesWithin b fuel text = substituteNamesWithin b fuel' text from
    hall fuel text.length text h le_rfl
  intro fuel
  induction fuel with
  | zero =>
    intro fuel' text h _
    rw [List.length_eq_zero_iff.1 (Nat.le_zero.1 h)]
    cases fuel' <;> rfl
  | succ fuel ih =>
    intro fuel' text h h'
    cases text with
    | nil => cases fuel' <;> rfl
    | cons c rest =>
      cases fuel' with
      | zero => cases h'
      | succ fuel' =>
        have hdrop := (List.dropWhile_sublist isWordPart (l := rest)).length_le
        simp only [List.length_cons] at h h'
        rw [substituteNamesWithin, substituteNamesWithin, ih fuel' rest (by omega) (by omega),
          ih fuel' (rest.dropWhile isWordPart) (by omega) (by omega)]

theorem substituteNames_cons (b : Bindings) {c : Char} (hc : isWordPart c = false)
    (rest : List Char) : substituteNames b (c :: rest) = c :: substituteNames b rest := by
  rw [substituteNames, List.length_cons, substituteNamesWithin, if_neg (by simp [hc])]
  rfl

/-- The value that takes the place of a word. -/
def wordValue? (b : Bindings) (w : String) : Option Value :=
  if w.toList.head?.any isWordStart then b.get? w else none

theorem substituteNames_word (b : Bindings) {w : String} (hw : IsWordText w) {s : List Char}
    (hs : EndsWord s) : substituteNames b (w.toList ++ s) =
      (wordValue? b w).elim w.toList (·.display.toList) ++ substituteNames b s := by
  have htake := hw.takeWhile hs
  have hdrop := hw.dropWhile hs
  obtain ⟨c, rest, hcons, hc⟩ := hw.exists_cons
  rw [hcons, List.cons_append, List.takeWhile_cons_of_pos hc, List.cons_inj_right] at htake
  rw [hcons, List.cons_append, List.dropWhile_cons_of_pos hc] at hdrop
  have hword : String.ofList (c :: rest) = w := by rw [← hcons, String.ofList_toList]
  have hlength : s.length ≤ (rest ++ s).length := by simp
  rw [hcons, List.cons_append, substituteNames, List.length_cons, substituteNamesWithin,
    if_pos hc, htake, hdrop, substituteNamesWithin_eq b hlength]
  dsimp only
  rw [hword, wordValue?, hcons]
  rfl

theorem EndsWord.substituteNames (b : Bindings) {s : List Char} (hs : EndsWord s) :
    EndsWord (CLike.substituteNames b s) := by
  cases s with
  | nil => exact endsWord_nil
  | cons c s =>
    rw [substituteNames_cons b (hs c rfl)]
    exact endsWord_cons (hs c rfl) _

section Substitution

variable {x y : String} (hx : IsVariable x) (hy : IsVariable y) {b b' : Bindings}
  (hb : Bindings.Renamed x y b b')
include hx hy hb

theorem wordValue?_rename {w : String} (hw : w ≠ y) :
    wordValue? b' (rename x y w) = wordValue? b w := by
  rw [wordValue?, wordValue?, starts_rename hx hy, hb.get?_eq hw]

/-- The values of renamed variables take the places of their renamed names. -/
theorem Renamed.substituteNames {s t : List Char} (h : Renamed x y s t) :
    RenamedOutput x y (CLike.substituteNames b s) (CLike.substituteNames b' t) := by
  induction h using Renamed.induct with
  | nil => exact .nil
  | other hc _ ih =>
    rw [substituteNames_cons b hc, substituteNames_cons b' hc]
    exact .other hc ih
  | @word w s t hw hfresh hs h ih =>
    rw [substituteNames_word b hw hs,
      substituteNames_word b' (hw.rename hy.isWordText) (h.endsWord hs),
      wordValue?_rename hx hy hb hfresh]
    cases hvalue : wordValue? b w with
    | none => exact .word hw hfresh (hs.substituteNames b) ih
    | some v =>
      have hget : b.get? w = some v := by
        unfold wordValue? at hvalue
        split at hvalue
        · exact hvalue
        · cases hvalue
      exact .value ⟨v, hb.isNumeric_of_get? hget, rfl⟩ (hs.substituteNames b) ih

end Substitution

/-! ## Output -/

theorem isWordText_reserved {w : String} (h : w ∈ reservedWords) : IsWordText w := by
  have hall : ∀ w ∈ reservedWords, w.toList ≠ [] ∧ ∀ c ∈ w.toList, isWordPart c = true := by decide
  exact ⟨(hall w h).1, (hall w h).2⟩

theorem Renamed.reserved_left {x y : String} (hx : IsVariable x) {w : String}
    (hw : w ∈ reservedWords) {s t : List Char} (hs : EndsWord s)
    (h : Renamed x y (w.toList ++ s) t) : ∃ t', t = w.toList ++ t' ∧ Renamed x y s t' := by
  have hrest := Renamed.word_left (isWordText_reserved hw) hs h
  rwa [rename_of_ne (hx.ne hw)] at hrest

theorem RenamedText.intersperse {Shown : List Char → Prop} {x y : String} {ps qs : List (List Char)}
    (h : List.Forall₂ (RenamedText Shown x y) ps qs) :
    RenamedText Shown x y (ps.intersperse [' ']).flatten (qs.intersperse [' ']).flatten := by
  induction h with
  | nil => exact .nil
  | @cons p q ps qs hp hps ih =>
    cases hps with
    | nil => simpa using hp
    | cons hp' hps =>
      simp only [List.intersperse_cons_cons, List.flatten_cons] at ih ⊢
      exact hp.append (endsWord_cons rfl _) (ih.other rfl)

/-- Whether a piece is the end of a line. -/
def IsEndl (piece : List Char) : Prop :=
  piece = "endl".toList ∨ piece = "std::endl".toList

theorem Renamed.isEndl {x y : String} (hx : IsVariable x) {s t : List Char} (h : Renamed x y s t)
    (hs : IsEndl s) : IsEndl t := by
  have hend : ∀ {t}, Renamed x y "endl".toList t → t = "endl".toList := by
    intro t h
    obtain ⟨t, rfl, hrest⟩ :=
      Renamed.reserved_left hx (w := "endl") (by decide) endsWord_nil (by simpa using h)
    rw [Renamed.nil_left hrest, List.append_nil]
  rcases hs with rfl | rfl
  · exact .inl (hend h)
  · have hsplit : "std::endl".toList = "std".toList ++ ':' :: ':' :: "endl".toList := rfl
    rw [hsplit] at h
    obtain ⟨t, rfl, hcolons⟩ :=
      Renamed.reserved_left hx (w := "std") (by decide) (endsWord_cons rfl _) h
    obtain ⟨t, rfl, hcolon⟩ := Renamed.cons_left rfl hcolons
    obtain ⟨t, rfl, hlast⟩ := Renamed.cons_left rfl hcolon
    rw [hend hlast]
    exact .inr rfl

section Output

variable {x y : String} (hx : IsVariable x) (hy : IsVariable y)
include hx hy

theorem isEndl_iff {s t : List Char} (h : Renamed x y s t) : IsEndl s ↔ IsEndl t :=
  ⟨Renamed.isEndl hx h, Renamed.isEndl hy (h.symm hy.isWordText)⟩

variable {b b' : Bindings} (hb : Bindings.Renamed x y b b')
include hb

theorem pieceText?_renamed {s t : List Char} (h : Renamed x y s t) :
    Option.Rel (RenamedOutput x y) (pieceText? b s) (pieceText? b' t) := by
  have htrim := h.trim hx.isWordText hy.isWordText
  have hend := isEndl_iff hx hy htrim
  unfold IsEndl at hend
  unfold pieceText?
  dsimp only
  simp only [hend]
  split
  · exact .none
  · exact .some (((Renamed.unquote hy.isWordText htrim).substituteNames hx hy hb).trim
      hx.isWordText hy.isWordText fun _ h => h.isSolidText)

theorem renderOutput_renamed {s t : List Char} (h : Renamed x y s t) :
    RenamedOutput x y (renderOutput b s).toList (renderOutput b' t).toList := by
  have hpieces : List.Forall₂ (Renamed x y) (splitInsertions s) (splitInsertions t) :=
    Renamed.splitInsertionsFrom hy.isWordText h QuoteState.isProper_outside
  have htexts : List.Forall₂ (RenamedOutput x y) ((splitInsertions s).filterMap (pieceText? b))
      ((splitInsertions t).filterMap (pieceText? b')) :=
    List.rel_filterMap (fun _ _ h => pieceText?_renamed hx hy hb h) hpieces
  have hshown := List.rel_filter (p := fun t => !t.isEmpty) (q := fun t => !t.isEmpty)
    (fun _ _ h => by
      simpa using not_congr (h.eq_nil_iff hx.isWordText hy.isWordText fun _ h => h.isSolidText))
    htexts
  unfold renderOutput
  rw [String.toList_ofList, String.toList_ofList]
  exact RenamedText.intersperse hshown

end Output

end CLike

end TraceTutor
