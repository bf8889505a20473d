import Mathlib.Data.String.Basic
import TraceTutor.Viewer.Highlight

/-!
# Highlighting keeps the text

The styled texts of a line, one after another, are the line (`plainText_highlight`): a character is
either pending or in one of the texts.

`Scan` highlights a line by positions: it counts characters, cuts texts out of the line between two
byte offsets, and passes a backslash and the character after it at once, which may lead beyond the
end. No cut divides a character or lies outside of the line, and every round of the scan brings it
closer to its end (`Scan.exists_progress`). What it ends with is the same highlighting
(`highlight_keeps_text`).
-/

namespace TraceTutor

namespace Viewer

/-! ## The text of a highlighted line -/

/-- The characters of styled texts, one after another. -/
def plainText (spans : List Span) : List Char :=
  spans.flatMap fun s => s.text.toList

theorem plainText_append (before after : List Span) :
    plainText (before ++ after) = plainText before ++ plainText after :=
  List.flatMap_append

theorem plainText_cons (s : Span) (spans : List Span) :
    plainText (s :: spans) = s.text.toList ++ plainText spans :=
  List.flatMap_cons

namespace Pending

/-- The characters that are pending, in order. -/
def text : Pending → List Char
  | word text | literal _ text | escape _ text => text.reverse

theorem plainText_complete (p : Pending) (isFunction : Bool) :
    plainText (p.complete isFunction) = p.text := by
  cases p with
  | word text => cases text <;> simp [plainText, complete, Pending.text]
  | literal quote text => simp [plainText, complete, Pending.text]
  | escape quote text => simp [plainText, complete, Pending.text]

/-- Every character that is pending or still to come is in one of the texts. -/
theorem plainText_highlight (p : Pending) (rest : List Char) :
    plainText (p.highlight rest) = p.text ++ rest := by
  induction rest generalizing p with
  | nil => rw [highlight, plainText_complete, List.append_nil]
  | cons c rest ih =>
    cases p with
    | escape quote text =>
      rw [highlight, ih]
      simp [Pending.text]
    | literal quote text =>
      rw [highlight]
      split
      · rw [plainText_append, plainText_complete, ih]
        simp [Pending.text]
      split <;>
      · rw [ih]
        simp [Pending.text]
    | word text =>
      rw [highlight]
      split
      · rw [plainText_append, plainText_complete, plainText_cons, String.toList_ofList]
        simp [plainText]
      split
      · rw [plainText_append, plainText_complete, ih]
        simp [Pending.text]
      split
      · rw [ih]
        simp [Pending.text]
      · rw [plainText_append, plainText_complete, plainText_cons, String.toList_singleton, ih]
        simp [Pending.text]

end Pending

/-! ## Cuts between bytes -/

open String (utf8Len)

/-- The text behind so many bytes, if these end between two characters. -/
def dropBytes? : Nat → List Char → Option (List Char)
  | 0, text => some text
  | _ + 1, [] => none
  | n + 1, c :: text =>
    if c.utf8Size ≤ n + 1 then dropBytes? (n + 1 - c.utf8Size) text else none

/-- The text of so many bytes, if these end between two characters. -/
def takeBytes? : Nat → List Char → Option (List Char)
  | 0, _ => some []
  | _ + 1, [] => none
  | n + 1, c :: text =>
    if c.utf8Size ≤ n + 1 then (takeBytes? (n + 1 - c.utf8Size) text).map (c :: ·) else none

/-- The text between two byte offsets of a line, if both lie between two characters. -/
def slice? (chars : List Char) (start stop : Nat) : Option (List Char) :=
  if start ≤ stop then (dropBytes? start chars).bind (takeBytes? (stop - start)) else none

/-- The byte offset of the character at a position, and that of the end beyond the last one. -/
def byteOffset (chars : List Char) (position : Nat) : Nat :=
  utf8Len (chars.take position)

theorem dropBytes?_append (text more : List Char) :
    dropBytes? (utf8Len text) (text ++ more) = some more := by
  induction text with
  | nil => rw [String.utf8Len_nil, List.nil_append, dropBytes?]
  | cons c text ih =>
    obtain ⟨n, hn⟩ := Nat.exists_eq_add_of_lt (Nat.add_pos_right (utf8Len text) c.utf8Size_pos)
    rw [String.utf8Len_cons, List.cons_append, hn, Nat.zero_add, dropBytes?, if_pos (by omega),
      show n + 1 - c.utf8Size = utf8Len text by omega, ih]

theorem takeBytes?_append (text more : List Char) :
    takeBytes? (utf8Len text) (text ++ more) = some text := by
  induction text with
  | nil => rw [String.utf8Len_nil, takeBytes?]
  | cons c text ih =>
    obtain ⟨n, hn⟩ := Nat.exists_eq_add_of_lt (Nat.add_pos_right (utf8Len text) c.utf8Size_pos)
    rw [String.utf8Len_cons, List.cons_append, hn, Nat.zero_add, takeBytes?, if_pos (by omega),
      show n + 1 - c.utf8Size = utf8Len text by omega, ih, Option.map_some]

/-- A cut at the offsets of two positions divides no character. -/
theorem slice?_byteOffset (chars : List Char) {start stop : Nat} (h : start ≤ stop) :
    slice? chars (byteOffset chars start) (byteOffset chars stop) =
      some ((chars.take stop).drop start) := by
  have hstart : chars.take stop = chars.take start ++ (chars.take stop).drop start := by
    conv_lhs => rw [← List.take_append_drop start (chars.take stop)]
    rw [List.take_take, Nat.min_eq_left h]
  have hstop : chars.drop start = (chars.take stop).drop start ++ chars.drop stop := by
    apply List.append_cancel_left
    rw [List.take_append_drop start, ← List.append_assoc, ← hstart, List.take_append_drop]
  have hoffset : byteOffset chars stop =
      byteOffset chars start + utf8Len ((chars.take stop).drop start) := by
    unfold byteOffset
    conv_lhs => rw [hstart]
    exact String.utf8Len_append _ _
  have hdrop : dropBytes? (byteOffset chars start) chars = some (chars.drop start) := by
    have hsplit := dropBytes?_append (chars.take start) (chars.drop start)
    rwa [List.take_append_drop] at hsplit
  unfold slice?
  rw [if_pos (by omega), hdrop, hoffset, Nat.add_sub_cancel_left, Option.bind_some, hstop,
    takeBytes?_append]

/-! ## The scan by positions -/

/-- How far a scan has come. -/
inductive Scan where
  /-- At a position outside of literals, with the pending characters of a word, the latest first. -/
  | between (position : Nat) (word : List Char) (spans : List Span)
  /-- At a position in a literal that starts with a quote at another one. -/
  | inside (quote : Char) (start position : Nat) (spans : List Span)
  | done (spans : List Span)

namespace Scan

/-- The text of the line between two positions, as a styled text behind those so far. -/
def cut? (chars : List Char) (start stop : Nat) (style : Style) (spans : List Span) :
    Option (List Span) :=
  (slice? chars (byteOffset chars start) (byteOffset chars stop)).map fun text =>
    spans ++ [⟨String.ofList text, style⟩]

/-- One round of the loop over the line, or of the one over the inside of a literal. -/
def round (chars : List Char) : Scan → Option Scan
  | between position word spans =>
    let flushed isFunction := spans ++ (Pending.word word).complete isFunction
    match chars[position]? with
    | none => some (done (flushed false))
    | some c =>
      if c = '/' ∧ chars[position + 1]? = some '/' then
        (cut? chars position chars.length (.ink Theme.comment) (flushed false)).map done
      else if c = '"' ∨ c = '\'' ∨ c = '`' then
        some (inside c position (position + 1) (flushed false))
      else if isWordCharacter c then some (between (position + 1) (c :: word) spans)
      else
        some (between (position + 1) []
          (flushed (c = '(') ++ [⟨String.singleton c, signStyle c⟩]))
  | inside quote start position spans =>
    let closed :=
      let stop := min (position + 1) chars.length
      (cut? chars start stop (.ink Theme.string) spans).map (between stop [])
    match chars[position]? with
    | none => closed
    | some c =>
      if c = quote then closed
      else some (inside quote start (position + if c = '\\' then 2 else 1) spans)
  | done spans => some (done spans)

variable {chars : List Char} {s : Scan}

/-- What a scan is going to have made of the line, by the highlighting of the rest. -/
def outcome (chars : List Char) : Scan → List Span
  | between position word spans => spans ++ (Pending.word word).highlight (chars.drop position)
  | inside quote start position spans =>
    spans ++ (Pending.literal quote ((chars.take position).drop start).reverse).highlight
      (chars.drop position)
  | done spans => spans

/-- A literal starts before the position. -/
def IsPlaced (chars : List Char) : Scan → Prop
  | between _ _ _ | done _ => True
  | inside _ start position _ => start < position ∧ start < chars.length

/-- More than the rounds that are still to come. -/
def measure (chars : List Char) : Scan → Nat
  | between position _ _ => 2 * (chars.length - position) + 1
  | inside _ _ position _ => 2 * (chars.length - position) + 2
  | done _ => 0

/-! ### One round -/

/-- What a round makes of a scan: it is still placed, has the same outcome and is closer to its
end. -/
structure Progress (chars : List Char) (s s' : Scan) : Prop where
  placed : s'.IsPlaced chars
  outcome_eq : s'.outcome chars = s.outcome chars
  measure_lt : s'.measure chars < s.measure chars

theorem cut?_eq {start stop : Nat} (h : start ≤ stop) (style : Style) (spans : List Span) :
    cut? chars start stop style spans =
      some (spans ++ [⟨String.ofList ((chars.take stop).drop start), style⟩]) := by
  unfold cut?
  rw [slice?_byteOffset chars h, Option.map_some]

theorem drop_eq_cons {position : Nat} {c : Char} (h : chars[position]? = some c) :
    chars.drop position = c :: chars.drop (position + 1) := by
  obtain ⟨hlt, rfl⟩ := List.getElem?_eq_some_iff.1 h
  exact List.drop_eq_getElem_cons hlt

theorem lt_length {position : Nat} {c : Char} (h : chars[position]? = some c) :
    position < chars.length :=
  (List.getElem?_eq_some_iff.1 h).1

/-- One more character of a literal. -/
theorem drop_take_succ {start position : Nat} {c : Char} (h : chars[position]? = some c)
    (hstart : start ≤ position) :
    (chars.take (position + 1)).drop start = (chars.take position).drop start ++ [c] := by
  have hlength : start ≤ (chars.take position).length := by
    rw [List.length_take]
    have hlt := lt_length h
    omega
  rw [List.take_add_one, h, Option.toList_some, List.drop_append_of_le_length hlength]

/-- The rounds of the loop over the line: its end, a comment, the start of a literal, a character of
a word, and a sign. -/
theorem progress_between (position : Nat) (word : List Char) (spans : List Span) :
    ∃ s', round chars (between position word spans) = some s' ∧
      Progress chars (between position word spans) s' := by
  cases hc : chars[position]? with
  | none =>
    have hdrop : chars.drop position = [] := List.drop_eq_nil_iff.2 (List.getElem?_eq_none_iff.1 hc)
    simp only [round, hc]
    refine ⟨_, rfl, trivial, ?_, Nat.succ_pos _⟩
    rw [outcome, outcome, hdrop, Pending.highlight]
  | some c =>
    have hlt := lt_length hc
    have hdrop := drop_eq_cons hc
    have hnext : chars[position + 1]? = (chars.drop (position + 1)).head? := List.head?_drop.symm
    have hmeasure :
        2 * (chars.length - (position + 1)) + 2 < 2 * (chars.length - position) + 1 := by
      omega
    simp only [round, hc, hnext]
    by_cases hcomment : c = '/' ∧ (chars.drop (position + 1)).head? = some '/'
    · have hrest : (chars.take chars.length).drop position = c :: chars.drop (position + 1) := by
        rw [List.take_length, hdrop]
      rw [if_pos hcomment, cut?_eq hlt.le, hrest]
      refine ⟨_, rfl, trivial, ?_, Nat.succ_pos _⟩
      rw [outcome, outcome, hdrop, Pending.highlight, if_pos hcomment, List.append_assoc]
    rw [if_neg hcomment]
    by_cases hquote : c = '"' ∨ c = '\'' ∨ c = '`'
    · have hfirst : (chars.take (position + 1)).drop position = [c] := by
        rw [drop_take_succ hc le_rfl, List.drop_eq_nil_of_le (List.length_take_le ..),
          List.nil_append]
      rw [if_pos hquote]
      refine ⟨_, rfl, ⟨Nat.lt_succ_self _, hlt⟩, ?_, hmeasure⟩
      rw [outcome, outcome, hdrop, Pending.highlight, if_neg hcomment, if_pos hquote, hfirst,
        List.append_assoc, List.reverse_singleton]
    rw [if_neg hquote]
    by_cases hword : isWordCharacter c = true
    · rw [if_pos hword]
      refine ⟨_, rfl, trivial, ?_, Nat.lt_of_succ_lt hmeasure⟩
      rw [outcome, outcome, hdrop, Pending.highlight, if_neg hcomment, if_neg hquote, if_pos hword]
    · rw [if_neg hword]
      refine ⟨_, rfl, trivial, ?_, Nat.lt_of_succ_lt hmeasure⟩
      rw [outcome, outcome, hdrop, Pending.highlight, if_neg hcomment, if_neg hquote, if_neg hword,
        List.append_assoc, List.append_assoc, List.singleton_append]

/-- The end of a literal: its quote, or the end of the line. -/
theorem progress_closed {quote : Char} {start position : Nat} {spans : List Span}
    (hstart : start < position) (hlength : start < chars.length)
    (hend : ∀ c ∈ chars[position]?, c = quote) :
    ∃ s', (cut? chars start (min (position + 1) chars.length) (.ink Theme.string) spans).map
        (between (min (position + 1) chars.length) []) = some s' ∧
      Progress chars (inside quote start position spans) s' := by
  rw [cut?_eq (by omega), Option.map_some]
  refine ⟨_, rfl, trivial, ?_, ?_⟩
  · rw [outcome, outcome]
    cases hc : chars[position]? with
    | none =>
      have hle := List.getElem?_eq_none_iff.1 hc
      rw [Nat.min_eq_right (by omega), List.take_length, List.drop_length,
        List.take_of_length_le hle, List.drop_of_length_le hle]
      simp [Pending.highlight, Pending.complete]
    | some c =>
      have hlt := lt_length hc
      obtain rfl := hend c hc
      rw [Nat.min_eq_left hlt, drop_eq_cons hc, Pending.highlight, if_pos rfl,
        drop_take_succ hc hstart.le]
      simp [Pending.complete]
  · show 2 * (chars.length - min (position + 1) chars.length) + 1 <
      2 * (chars.length - position) + 2
    omega

/-- A literal goes on behind a backslash and one more character, if there is one. -/
theorem highlight_escape {quote c : Char} {start position : Nat} (hc : chars[position]? = some c)
    (hstart : start ≤ position) :
    (Pending.escape quote (c :: ((chars.take position).drop start).reverse)).highlight
        (chars.drop (position + 1)) =
      (Pending.literal quote ((chars.take (position + 2)).drop start).reverse).highlight
        (chars.drop (position + 2)) := by
  have hescape : ((chars.take (position + 1)).drop start).reverse =
      c :: ((chars.take position).drop start).reverse := by
    rw [drop_take_succ hc hstart, List.reverse_append, List.reverse_singleton,
      List.singleton_append]
  rw [← hescape]
  cases hd : chars[position + 1]? with
  | none =>
    have hle := List.getElem?_eq_none_iff.1 hd
    have hdrop : chars.drop (position + 2) = [] := List.drop_of_length_le (by omega)
    have htake : chars.take (position + 2) = chars := List.take_of_length_le (by omega)
    rw [List.drop_of_length_le hle, hdrop, List.take_of_length_le hle, htake]
    rfl
  | some d =>
    rw [drop_eq_cons hd, Pending.highlight, drop_take_succ hd (by omega), List.reverse_append,
      List.reverse_singleton, List.singleton_append]

/-- The rounds of the loop over the inside of a literal: its end, and one character or two. -/
theorem progress_inside {quote : Char} {start position : Nat} {spans : List Span}
    (hstart : start < position) (hlength : start < chars.length) :
    ∃ s', round chars (inside quote start position spans) = some s' ∧
      Progress chars (inside quote start position spans) s' := by
  cases hc : chars[position]? with
  | none =>
    simp only [round, hc]
    exact progress_closed hstart hlength (by simp [hc])
  | some c =>
    have hlt := lt_length hc
    have hdrop := drop_eq_cons hc
    simp only [round, hc]
    by_cases hquote : c = quote
    · rw [if_pos hquote]
      exact progress_closed hstart hlength (by simp [hc, hquote])
    rw [if_neg hquote]
    refine ⟨_, rfl, ⟨by split <;> omega, hlength⟩, ?_, ?_⟩
    · rw [outcome, outcome, hdrop, Pending.highlight, if_neg hquote]
      by_cases hescape : c = '\\'
      · rw [if_pos hescape, if_pos hescape, highlight_escape hc hstart.le]
      · rw [if_neg hescape, if_neg hescape, drop_take_succ hc hstart.le]
        simp
    · rw [measure, measure]
      split <;> omega

/-- Before it is done, a scan can make one more round, and then it is closer to its end. -/
theorem exists_progress (hplaced : s.IsPlaced chars) (hmeasure : 0 < s.measure chars) :
    ∃ s', round chars s = some s' ∧ Progress chars s s' := by
  cases s with
  | between position word spans => exact progress_between position word spans
  | inside quote start position spans => exact progress_inside hplaced.1 hplaced.2
  | done spans => exact absurd hmeasure (Nat.lt_irrefl 0)

/-! ### The whole scan -/

/-- The scan is done after so many rounds, with these texts. -/
inductive Ends (chars : List Char) : Nat → Scan → List Span → Prop
  | done (spans : List Span) : Ends chars 0 (done spans) spans
  | round {rounds : Nat} {s s' : Scan} {spans : List Span} :
    round chars s = some s' → Ends chars rounds s' spans → Ends chars (rounds + 1) s spans

theorem exists_ends (hplaced : s.IsPlaced chars) :
    ∃ rounds ≤ s.measure chars, Ends chars rounds s (s.outcome chars) := by
  induction hm : s.measure chars using Nat.strong_induction_on generalizing s with
  | _ m ih =>
    rcases Nat.eq_zero_or_pos m with rfl | hpos
    · cases s with
      | done spans => exact ⟨0, le_rfl, .done spans⟩
      | between => exact absurd hm (Nat.succ_ne_zero _)
      | inside => exact absurd hm (Nat.succ_ne_zero _)
    · obtain ⟨s', hround, hprogress⟩ := exists_progress hplaced (hm ▸ hpos)
      obtain ⟨rounds, hle, hends⟩ := ih _ (hm ▸ hprogress.measure_lt) hprogress.placed rfl
      rw [hprogress.outcome_eq] at hends
      have hlt := hprogress.measure_lt
      exact ⟨rounds + 1, by omega, .round hround hends⟩

end Scan

/-- The texts of a highlighted line are the line. Scanned by positions, any line is highlighted in
this way: no cut fails, and the scan ends after at most two rounds for each character and one
more. -/
theorem highlight_keeps_text (line : List Char) :
    plainText (highlight line) = line ∧
    ∃ rounds ≤ 2 * line.length + 1, Scan.Ends line rounds (.between 0 [] []) (highlight line) := by
  refine ⟨(Pending.word []).plainText_highlight line, ?_⟩
  exact Scan.exists_ends (s := .between 0 [] []) trivial

/-- An escaped quote, and a backslash at the end of a literal that is never closed. -/
example :
    (highlight "é=f(\"π\\\"\")+'ü\\".toList).map Span.text =
      ["é", "=", "f", "(", "\"π\\\"\"", ")", "+", "'ü\\"] := by
  decide +kernel

end Viewer

end TraceTutor
