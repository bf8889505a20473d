import TraceTutor.Proofs.CLike.Braces
import TraceTutor.Proofs.CLike.Words

/-!
# Scans of renamed lines

The scans of a line-stepped program look at the characters between the words only: a word takes a
scan to a state that does not depend on the word (`scan_word`). So the lines of a renamed program
are the renamed lines (`Renamed.lines`), their braces are the same (`Renamed.braceDelta_eq`), and
the arguments of an output statement end at the same semicolon (`Renamed.splitAtSemicolon`) and fall
into the same pieces (`Renamed.splitInsertionsFrom`).
-/

namespace TraceTutor

namespace CLike

open Text

/-! ## Pieces of texts -/

theorem consFirst_eq (c : Char) (pieces : List (List Char)) :
    consFirst c pieces = (c :: pieces.head?.getD []) :: pieces.tail := by
  cases pieces <;> rfl

theorem foldr_consFirst {word : List Char} (hne : word ≠ []) (pieces : List (List Char)) :
    word.foldr consFirst pieces = (word ++ pieces.head?.getD []) :: pieces.tail := by
  induction word with
  | nil => exact absurd rfl hne
  | cons c word ih =>
    rw [List.foldr_cons, consFirst_eq]
    by_cases h : word = []
    · subst h
      rfl
    · rw [ih h]
      rfl

namespace Renamed

variable {x y : String} {s t : List Char} {ps qs : List (List Char)}

theorem first (h : List.Forall₂ (Renamed x y) ps qs) :
    Renamed x y (ps.head?.getD []) (qs.head?.getD []) ∧
      List.Forall₂ (Renamed x y) ps.tail qs.tail := by
  cases h with
  | nil => exact ⟨.nil, .nil⟩
  | cons hp hps => exact ⟨hp, hps⟩

theorem consFirst {c : Char} (hc : isWordPart c = false) (h : List.Forall₂ (Renamed x y) ps qs) :
    List.Forall₂ (Renamed x y) (CLike.consFirst c ps) (CLike.consFirst c qs) := by
  rw [consFirst_eq, consFirst_eq]
  exact .cons ((first h).1.other hc) (first h).2

theorem consWord (hy : IsWordText y) {w : String} (hw : IsWordText w) (hfresh : w ≠ y)
    (hend : EndsWord (ps.head?.getD [])) (h : List.Forall₂ (Renamed x y) ps qs) :
    List.Forall₂ (Renamed x y) (w.toList.foldr CLike.consFirst ps)
      ((rename x y w).toList.foldr CLike.consFirst qs) := by
  rw [foldr_consFirst hw.ne_nil, foldr_consFirst (hw.rename hy).ne_nil]
  exact .cons (.word hw hfresh hend (first h).1) (first h).2

theorem head?_eq_some_iff (hy : IsWordText y) {c : Char} (hc : isWordPart c = false)
    (h : Renamed x y s t) : s.head? = some c ↔ t.head? = some c := by
  have hword : ∀ {w : String}, IsWordText w → ∀ rest, (w.toList ++ rest).head? ≠ some c := by
    intro w hw rest hhead
    obtain ⟨tail, htail⟩ := List.head?_eq_some_iff.1 hhead
    exact hw.append_ne_cons hc htail
  cases h using induct with
  | nil => rfl
  | other => rfl
  | word hw => exact iff_of_false (hword hw _) (hword (hw.rename hy) _)

end Renamed

/-! ## Lines -/

theorem lines_cons (c : Char) (text : List Char) :
    lines (c :: text) = if c = '\n' then [] :: lines text
      else if c = '\r' ∧ text.head? = some '\n' then lines text
      else consFirst c (lines text) := by
  by_cases hc : c = '\n'
  · rw [if_pos hc, hc, lines_feed]
  rw [if_neg hc]
  by_cases hreturn : c = '\r' ∧ text.head? = some '\n'
  · obtain ⟨rfl, hhead⟩ := hreturn
    obtain ⟨rest, rfl⟩ := List.head?_eq_some_iff.1 hhead
    rw [if_pos ⟨rfl, rfl⟩, lines_return_feed, lines_feed]
  · rw [if_neg hreturn, lines.eq_4 c text hc fun rest hc' h => hreturn ⟨hc', by rw [h]; rfl⟩]
    rfl

theorem lines_word {word : List Char} (hword : ∀ c ∈ word, isWordPart c = true)
    (s : List Char) : lines (word ++ s) = word.foldr consFirst (lines s) := by
  induction word with
  | nil => rfl
  | cons c word ih =>
    obtain ⟨hc, hword⟩ := List.forall_mem_cons.1 hword
    have hfeed : c ≠ '\n' := ne_of_isWordPart hc rfl
    have hreturn : c ≠ '\r' := ne_of_isWordPart hc rfl
    rw [List.cons_append, lines_cons, if_neg hfeed, if_neg fun h => hreturn h.1, ih hword,
      List.foldr_cons]

theorem endsWord_first_line {s : List Char} (hs : EndsWord s) :
    EndsWord ((lines s).head?.getD []) := by
  cases s with
  | nil => exact endsWord_nil
  | cons c s =>
    rw [lines_cons]
    split_ifs with hfeed hreturn
    · exact endsWord_nil
    · obtain ⟨rest, rfl⟩ := List.head?_eq_some_iff.1 hreturn.2
      rw [lines_feed]
      exact endsWord_nil
    · rw [consFirst_eq]
      exact endsWord_cons (hs c rfl) _

theorem Renamed.lines {x y : String} {s t : List Char} (hy : IsWordText y) (h : Renamed x y s t) :
    List.Forall₂ (Renamed x y) (Text.lines s) (Text.lines t) := by
  induction h using Renamed.induct with
  | nil => exact .nil
  | @other c s t hc h ih =>
    have hfeed : s.head? = some '\n' ↔ t.head? = some '\n' := head?_eq_some_iff hy rfl h
    simp only [lines_cons, hfeed]
    split_ifs
    · exact .cons .nil ih
    · exact ih
    · exact consFirst hc ih
  | word hw hfresh hs h ih =>
    rw [lines_word hw.isWordPart, lines_word (hw.rename hy).isWordPart]
    exact consWord hy hw hfresh (endsWord_first_line hs) ih

/-! ## Quotes -/

namespace QuoteState

/-- No character of words closes the literal. -/
def IsProper : QuoteState → Prop
  | outside => True
  | inside quote => isWordPart quote = false
  | escaped quote => isWordPart quote = false

/-- The state after a word. -/
def pass : QuoteState → QuoteState
  | outside => outside
  | inside quote => inside quote
  | escaped quote => inside quote

theorem isProper_outside : outside.IsProper := trivial

theorem IsProper.advance {state : QuoteState} (h : state.IsProper) (c : Char) :
    (state.advance c).IsProper := by
  cases state with
  | outside =>
    show IsProper (if c = '"' ∨ c = '\'' then .inside c else .outside)
    split
    next hquote => rcases hquote with rfl | rfl <;> exact rfl
    next => trivial
  | inside quote =>
    show IsProper
      (if c = '\\' then .escaped quote else if c = quote then .outside else .inside quote)
    split_ifs
    · exact h
    · trivial
    · exact h
  | escaped quote => exact h

theorem IsProper.pass {state : QuoteState} (h : state.IsProper) : state.pass.IsProper := by
  cases state <;> exact h

theorem advance_of_isWordPart {state : QuoteState} (h : state.IsProper) {c : Char}
    (hc : isWordPart c = true) : state.advance c = state.pass := by
  cases state with
  | outside =>
    have hplain := LineReader.isPlain_of_isWordPart hc
    exact if_neg fun h => h.elim hplain.2.2.1 hplain.2.2.2.1
  | inside quote =>
    have hbackslash : c ≠ '\\' := ne_of_isWordPart hc rfl
    have hquote : c ≠ quote := ne_of_isWordPart hc h
    exact (if_neg hbackslash).trans (if_neg hquote)
  | escaped quote => rfl

theorem pass_pass (state : QuoteState) : state.pass.pass = state.pass := by
  cases state <;> rfl

end QuoteState

/-- A scan over a word ends in a state that does not depend on the word. -/
theorem scan_word {β : Type} {scan : QuoteState → List Char → β} (add : Char → β → β)
    (hscan : ∀ state c rest, isWordPart c = true →
      scan state (c :: rest) = add c (scan (state.advance c) rest))
    {state : QuoteState} (hstate : state.IsProper) {w : String} (hw : IsWordText w)
    (s : List Char) : scan state (w.toList ++ s) = w.toList.foldr add (scan state.pass s) := by
  obtain ⟨hne, hall⟩ := hw
  generalize w.toList = word at hne hall
  induction word generalizing state with
  | nil => exact absurd rfl hne
  | cons c rest ih =>
    obtain ⟨hc, hrest⟩ := List.forall_mem_cons.1 hall
    rw [List.cons_append, hscan state c _ hc, QuoteState.advance_of_isWordPart hstate hc,
      List.foldr_cons]
    by_cases h : rest = []
    · subst h
      rfl
    · rw [ih hstate.pass h hrest, QuoteState.pass_pass]

/-! ## Braces -/

section Braces

variable {x y : String} {s t : List Char}

theorem countBracesFrom_word {state : QuoteState} (hstate : state.IsProper) {w : String}
    (hw : IsWordText w) (s : List Char) :
    countBracesFrom state (w.toList ++ s) = countBracesFrom state.pass s := by
  have hscan : ∀ state c rest, isWordPart c = true →
      countBracesFrom state (c :: rest) = countBracesFrom (state.advance c) rest := by
    intro state c rest hc
    obtain ⟨hopen, hclose, -, -, hslash⟩ := LineReader.isPlain_of_isWordPart hc
    simp [countBracesFrom, hopen, hclose, hslash]
  rw [scan_word (fun _ counts => counts) hscan hstate hw]
  induction w.toList with
  | nil => rfl
  | cons c rest ih => exact ih

theorem Renamed.countBracesFrom_eq (hy : IsWordText y) (h : Renamed x y s t) {state : QuoteState}
    (hstate : state.IsProper) : countBracesFrom state s = countBracesFrom state t := by
  induction h using Renamed.induct generalizing state with
  | nil => rfl
  | @other c s t hc h ih =>
    have hslash : s.head? = some '/' ↔ t.head? = some '/' := head?_eq_some_iff hy rfl h
    simp only [countBracesFrom, ih (hstate.advance c), hslash]
  | word hw hfresh hs h ih =>
    rw [countBracesFrom_word hstate hw, countBracesFrom_word hstate (hw.rename hy), ih hstate.pass]

theorem Renamed.braceDelta_eq (hy : IsWordText y) (h : Renamed x y s t) :
    braceDelta s = braceDelta t := by
  have hcounts := h.countBracesFrom_eq hy QuoteState.isProper_outside
  rw [braceDelta, braceDelta, countBraces, countBraces, hcounts]

end Braces

/-! ## Semicolons -/

theorem fst_append_snd_splitAtSemicolon (state : QuoteState) (text : List Char) :
    (splitAtSemicolon state text).1 ++ (splitAtSemicolon state text).2 = text := by
  induction text generalizing state with
  | nil => rfl
  | cons c text ih =>
    rw [splitAtSemicolon]
    split
    next => rfl
    next => exact congrArg (c :: ·) (ih (state.advance c))

theorem splitAtSemicolon_word {state : QuoteState} (hstate : state.IsProper) {w : String}
    (hw : IsWordText w) (s : List Char) :
    splitAtSemicolon state (w.toList ++ s) =
      (w.toList ++ (splitAtSemicolon state.pass s).1, (splitAtSemicolon state.pass s).2) := by
  have hscan : ∀ state c rest, isWordPart c = true → splitAtSemicolon state (c :: rest) =
      (c :: (splitAtSemicolon (state.advance c) rest).1,
        (splitAtSemicolon (state.advance c) rest).2) := by
    intro state c rest hc
    have hsemicolon : c ≠ ';' := ne_of_isWordPart hc rfl
    rw [splitAtSemicolon, if_neg fun h => hsemicolon h.2]
  rw [scan_word (fun c parts => (c :: parts.1, parts.2)) hscan hstate hw]
  induction w.toList with
  | nil => rfl
  | cons c rest ih => rw [List.foldr_cons, ih, List.cons_append]

theorem Renamed.splitAtSemicolon {x y : String} {s t : List Char} (hy : IsWordText y)
    (h : Renamed x y s t) {state : QuoteState} (hstate : state.IsProper) :
    Renamed x y (CLike.splitAtSemicolon state s).1 (CLike.splitAtSemicolon state t).1 ∧
      Renamed x y (CLike.splitAtSemicolon state s).2 (CLike.splitAtSemicolon state t).2 := by
  induction h using Renamed.induct generalizing state with
  | nil => exact ⟨.nil, .nil⟩
  | @other c s t hc h ih =>
    rw [CLike.splitAtSemicolon, CLike.splitAtSemicolon]
    split
    next => exact ⟨.nil, h.other hc⟩
    next => exact ⟨(ih (hstate.advance c)).1.other hc, (ih (hstate.advance c)).2⟩
  | @word w s t hw hfresh hs h ih =>
    rw [splitAtSemicolon_word hstate hw, splitAtSemicolon_word hstate (hw.rename hy)]
    have hfirst : (CLike.splitAtSemicolon state.pass s).1 <+: s :=
      ⟨_, fst_append_snd_splitAtSemicolon state.pass s⟩
    exact ⟨.word hw hfresh (hs.of_prefix hfirst) (ih hstate.pass).1, (ih hstate.pass).2⟩

/-! ## Insertions -/

theorem splitInsertionsFrom_cons (state : QuoteState) (c : Char) (rest : List Char) :
    splitInsertionsFrom state (c :: rest) =
      if state = .outside ∧ c = '<' ∧ rest.head? = some '<' then
        [] :: splitInsertionsFrom .outside rest.tail
      else consFirst c (splitInsertionsFrom (state.advance c) rest) := by
  split
  next h =>
    obtain ⟨rfl, rfl, hhead⟩ := h
    obtain ⟨rest, rfl⟩ := List.head?_eq_some_iff.1 hhead
    rw [splitInsertionsFrom]
    rfl
  next h =>
    rw [splitInsertionsFrom]
    rintro tail rfl rfl rfl
    exact h ⟨rfl, rfl, rfl⟩

theorem splitInsertionsFrom_word {state : QuoteState} (hstate : state.IsProper) {w : String}
    (hw : IsWordText w) (s : List Char) :
    splitInsertionsFrom state (w.toList ++ s) =
      w.toList.foldr consFirst (splitInsertionsFrom state.pass s) := by
  refine scan_word consFirst (fun state c rest hc => ?_) hstate hw s
  have hangle : c ≠ '<' := ne_of_isWordPart hc rfl
  rw [splitInsertionsFrom_cons, if_neg fun h => hangle h.2.1]

theorem endsWord_first_insertion (state : QuoteState) {s : List Char} (hs : EndsWord s) :
    EndsWord ((splitInsertionsFrom state s).head?.getD []) := by
  cases s with
  | nil =>
    rw [splitInsertionsFrom]
    exact endsWord_nil
  | cons c s =>
    rw [splitInsertionsFrom_cons]
    split_ifs
    · exact endsWord_nil
    · rw [consFirst_eq]
      exact endsWord_cons (hs c rfl) _

theorem Renamed.splitInsertionsFrom {x y : String} (hy : IsWordText y) {s t : List Char}
    (h : Renamed x y s t) {state : QuoteState} (hstate : state.IsProper) :
    List.Forall₂ (Renamed x y) (CLike.splitInsertionsFrom state s)
      (CLike.splitInsertionsFrom state t) := by
  -- The sign takes two characters, so that the induction is on the length.
  induction hlength : s.length using Nat.strong_induction_on generalizing s t state with
  | _ n ih =>
    subst hlength
    cases h using Renamed.induct with
    | nil =>
      rw [CLike.splitInsertionsFrom]
      exact .cons .nil .nil
    | @other c s t hc h =>
      have hangle : s.head? = some '<' ↔ t.head? = some '<' := head?_eq_some_iff hy rfl h
      simp only [splitInsertionsFrom_cons, ← hangle]
      split
      next hsign =>
        obtain ⟨rest, rfl⟩ := List.head?_eq_some_iff.1 hsign.2.2
        obtain ⟨rest', rfl, hrest⟩ := Renamed.cons_left rfl h
        exact .cons .nil (ih rest.length (by simp only [List.length_cons]; omega) hrest trivial rfl)
      next => exact consFirst hc (ih s.length (by simp) h (hstate.advance c) rfl)
    | @word w s t hw hfresh hs h =>
      have hpos : 0 < w.toList.length := List.length_pos_iff.2 hw.ne_nil
      rw [splitInsertionsFrom_word hstate hw, splitInsertionsFrom_word hstate (hw.rename hy)]
      exact consWord hy hw hfresh (endsWord_first_insertion _ hs)
        (ih s.length (by rw [List.length_append]; omega) h hstate.pass rfl)
  
/-! ## Quoted pieces -/

/-- Whether a character starts and ends a literal. -/
def IsQuote (c : Char) : Prop :=
  c = '"' ∨ c = '\''

theorem unquote_of_quoted {quote : Char} (hquote : IsQuote quote) (inner : List Char) :
    unquote (quote :: (inner ++ [quote])) = inner := by
  rcases hquote with rfl | rfl <;> simp [unquote, List.getLast?_cons]

theorem unquote_of_not_quoted {piece : List Char}
    (h : ∀ quote inner, IsQuote quote → piece ≠ quote :: (inner ++ [quote])) :
    unquote piece = piece := by
  unfold unquote
  split
  next hquoted =>
    exfalso
    simp only [Bool.and_eq_true, Bool.or_eq_true, decide_eq_true_eq, beq_iff_eq] at hquoted
    obtain ⟨⟨hlength, hends⟩, hquote⟩ := hquoted
    cases piece with
    | nil => simp at hlength
    | cons quote rest =>
      rcases List.eq_nil_or_concat' rest with rfl | ⟨inner, last, rfl⟩
      · simp at hlength
      · obtain rfl : quote = last := by simpa [List.getLast?_cons] using hends
        exact h quote inner (by simpa [IsQuote] using hquote) rfl
  next => rfl

theorem Renamed.unquote {x y : String} {s t : List Char} (hy : IsWordText y)
    (h : Renamed x y s t) : Renamed x y (CLike.unquote s) (CLike.unquote t) := by
  have hquoted : ∀ {x y : String} {s t : List Char} {quote : Char} {inner : List Char},
      Renamed x y s t → IsQuote quote → s = quote :: (inner ++ [quote]) →
      ∃ inner', t = quote :: (inner' ++ [quote]) ∧ Renamed x y inner inner' := by
    rintro x y s t quote inner h hquote rfl
    have hpart : isWordPart quote = false := by rcases hquote with rfl | rfl <;> rfl
    obtain ⟨t, rfl, htail⟩ := Renamed.cons_left hpart h
    obtain ⟨inner', rest, rfl, hinner, hrest⟩ := Renamed.append_cons_left hpart htail
    exact ⟨inner', by rw [Renamed.nil_left hrest], hinner⟩
  by_cases hs : ∃ quote inner, IsQuote quote ∧ s = quote :: (inner ++ [quote])
  · obtain ⟨quote, inner, hquote, rfl⟩ := hs
    obtain ⟨inner', rfl, hinner⟩ := hquoted h hquote rfl
    rwa [unquote_of_quoted hquote, unquote_of_quoted hquote]
  · have hs' : ∀ quote inner, IsQuote quote → s ≠ quote :: (inner ++ [quote]) :=
      fun quote inner hquote h => hs ⟨quote, inner, hquote, h⟩
    have ht' : ∀ quote inner, IsQuote quote → t ≠ quote :: (inner ++ [quote]) := by
      intro quote inner hquote ht
      obtain ⟨inner', hs, -⟩ := hquoted (h.symm hy) hquote ht
      exact hs' quote inner' hquote hs
    rwa [unquote_of_not_quoted hs', unquote_of_not_quoted ht']

end CLike

end TraceTutor
