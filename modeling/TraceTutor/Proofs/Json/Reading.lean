import TraceTutor.Proofs.Json.Layout
import TraceTutor.Proofs.Json.Numeral

/-!
# Reading what was written

However a document is laid out, reading the text yields the document again (`read?_of_isWrittenAs`),
except that every number becomes what its numeral denotes (`reread`). That is so up to `maxDepth`
arrays and objects around each other; a document that nests deeper has no value
(`readToValue?_of_isWrittenAs`).
-/

namespace TraceTutor.Document

/-! ## Strings -/

/-- The characters that are escaped by a letter, or by themselves. -/
def shortEscapes : List Char :=
  ['"', '\\', '\n', '\r', '\t', '\x08', '\x0c']

/-- The piece that the escaped form of a character is read as. -/
def pieceOf (c : Char) : StringPiece :=
  if c.toNat < 0x20 && !shortEscapes.contains c then .unit c.toNat else .char c

theorem exists_unescape?_of_mem_shortEscapes {c : Char} (h : c ∈ shortEscapes) :
    ∃ letter ∈ ['"', '\\', 'n', 'r', 't', 'b', 'f'],
      escapeChar c = ['\\', letter] ∧ unescape? letter = some c := by
  simp only [shortEscapes, List.mem_cons, List.not_mem_nil, or_false] at h
  rcases h with rfl | rfl | rfl | rfl | rfl | rfl | rfl
  · exact ⟨'"', by simp, rfl, rfl⟩
  · exact ⟨'\\', by simp, rfl, rfl⟩
  · exact ⟨'n', by simp, rfl, rfl⟩
  · exact ⟨'r', by simp, rfl, rfl⟩
  · exact ⟨'t', by simp, rfl, rfl⟩
  · exact ⟨'b', by simp, rfl, rfl⟩
  · exact ⟨'f', by simp, rfl, rfl⟩

theorem hexDigit?_digitChar : ∀ n < 16, hexDigit? (Nat.digitChar n) = some n := by
  decide

section

variable {c : Char} (text : List Char)

theorem readPieces?_shortEscape (h : c ∈ shortEscapes) :
    readPieces? (escapeChar c ++ text) =
      (readPieces? text).map fun (pieces, rest) => (.char c :: pieces, rest) := by
  obtain ⟨letter, hletter, hescape, hunescape⟩ := exists_unescape?_of_mem_shortEscapes h
  have hu : letter ≠ 'u' := by
    rintro rfl
    exact absurd hletter (by decide)
  rw [hescape]
  cases hread : readPieces? text with
  | none => simp [readPieces?, hu, hunescape, hread]
  | some result => simp [readPieces?, hu, hunescape, hread]

theorem readPieces?_control (h : c ∉ shortEscapes) (hlow : c.toNat < 0x20) :
    readPieces? (escapeChar c ++ text) =
      (readPieces? text).map fun (pieces, rest) => (.unit c.toNat :: pieces, rest) := by
  have hhigh := hexDigit?_digitChar (c.toNat / 16) (by omega)
  have hrest := hexDigit?_digitChar (c.toNat % 16) (by omega)
  have hzero : hexDigit? '0' = some 0 := rfl
  have hsum : c.toNat / 16 * 16 + c.toNat % 16 = c.toNat := by omega
  simp only [shortEscapes, List.mem_cons, List.not_mem_nil, or_false, not_or] at h
  cases hread : readPieces? text with
  | none => simp [escapeChar, h, hlow, readPieces?, hhigh, hrest, hzero, hread]
  | some result => simp [escapeChar, h, hlow, readPieces?, hhigh, hrest, hzero, hread, hsum]

theorem readPieces?_plain (h : c ∉ shortEscapes) (hlow : ¬c.toNat < 0x20) :
    readPieces? (escapeChar c ++ text) =
      (readPieces? text).map fun (pieces, rest) => (.char c :: pieces, rest) := by
  simp only [shortEscapes, List.mem_cons, List.not_mem_nil, or_false, not_or] at h
  cases hread : readPieces? text with
  | none => simp [escapeChar, h, hlow, readPieces?, hread]
  | some result => simp [escapeChar, h, hlow, readPieces?, hread]

end

theorem readPieces?_escapeChar (c : Char) (text : List Char) :
    readPieces? (escapeChar c ++ text) =
      (readPieces? text).map fun (pieces, rest) => (pieceOf c :: pieces, rest) := by
  unfold pieceOf
  by_cases hshort : c ∈ shortEscapes
  · simp [hshort, readPieces?_shortEscape]
  by_cases hlow : c.toNat < 0x20
  · simp [hshort, hlow, readPieces?_control]
  · simp [hshort, hlow, readPieces?_plain]

/-- The piece of a character is joined to that character, whatever follows: no control character is
half of a surrogate pair. -/
theorem joinPieces?_pieceOf (c : Char) (pieces : List StringPiece) :
    joinPieces? (pieceOf c :: pieces) = (joinPieces? pieces).map (c :: ·) := by
  unfold pieceOf
  by_cases hcontrol : (c.toNat < 0x20 && !shortEscapes.contains c) = true
  · have hlow : c.toNat < 0x20 := by simp_all
    have hhigh : ¬0xd800 ≤ c.toNat := by omega
    have hsecond : ¬0xdc00 ≤ c.toNat := by omega
    rw [if_pos hcontrol]
    rcases pieces with - | ⟨piece | n, pieces⟩
    · simp [joinPieces?, hhigh]
    · simp [joinPieces?, hhigh]
    · simp [joinPieces?, hhigh, hsecond]
  · rw [if_neg hcontrol]
    simp [joinPieces?]

theorem readPieces?_flatMap_escapeChar (chars rest : List Char) :
    readPieces? (chars.flatMap escapeChar ++ '"' :: rest) = some (chars.map pieceOf, rest) := by
  induction chars with
  | nil => rfl
  | cons c chars ih =>
    rw [List.flatMap_cons, List.append_assoc, readPieces?_escapeChar, ih]
    rfl

theorem joinPieces?_map_pieceOf (chars : List Char) :
    joinPieces? (chars.map pieceOf) = some chars := by
  induction chars with
  | nil => rfl
  | cons c chars ih => rw [List.map_cons, joinPieces?_pieceOf, ih, Option.map_some]

/-! ## Space -/

theorem skipSpace_append {gap : List Char} (h : IsGap gap) (rest : List Char) :
    skipSpace (gap ++ rest) = skipSpace rest :=
  List.dropWhile_append_of_pos h

theorem skipSpace_cons {c : Char} (h : isSpace c = false) (rest : List Char) :
    skipSpace (c :: rest) = c :: rest := by
  unfold skipSpace
  rw [List.dropWhile_cons_of_neg (by simp [h])]

/-! ## Nesting -/

mutual

/-- How many arrays and objects lie around each other at most. -/
def depth : Document → Nat
  | array items => itemsDepth items + 1
  | object fields => fieldsDepth fields + 1
  | _ => 0

def itemsDepth : List Document → Nat
  | [] => 0
  | item :: items => max item.depth (itemsDepth items)

def fieldsDepth : List (String × Document) → Nat
  | [] => 0
  | (_, item) :: fields => max item.depth (fieldsDepth fields)

end

/-! ## Numbers -/

/-- What the numeral of a number denotes. -/
def rereadNumber (n : Number) : Document :=
  match readNumeral? (writeNumber n) with
  | some (x, _) => x.toDocument
  | none => unreadable

mutual

/-- The document with every number replaced by what its numeral denotes. A part that denotes nothing
is written as `null`. -/
def reread : Document → Document
  | number n => rereadNumber n
  | array items => array (rereadItems items)
  | object fields => object (rereadFields fields)
  | unreadable => null
  | d => d

def rereadItems : List Document → List Document
  | [] => []
  | item :: items => item.reread :: rereadItems items

def rereadFields : List (String × Document) → List (String × Document)
  | [] => []
  | (key, item) :: fields => (key, item.reread) :: rereadFields fields

end

mutual

/-- The document as it is read where it was written inside `depth` arrays and objects: in addition
to `reread`, what is nested too deep denotes nothing. -/
def rereadInside (depth : Nat) : Document → Document
  | number n => rereadNumber n
  | array items => guardDepth depth (array (rereadItemsInside (depth + 1) items))
  | object fields => guardDepth depth (object (rereadFieldsInside (depth + 1) fields))
  | unreadable => null
  | d => d

def rereadItemsInside (depth : Nat) : List Document → List Document
  | [] => []
  | item :: items => item.rereadInside depth :: rereadItemsInside depth items

def rereadFieldsInside (depth : Nat) : List (String × Document) → List (String × Document)
  | [] => []
  | (key, item) :: fields => (key, item.rereadInside depth) :: rereadFieldsInside depth fields

end

theorem guardDepth_of_lt {depth : Nat} (h : depth < maxDepth) (d : Document) :
    guardDepth depth d = d :=
  if_pos h

mutual

/-- Nothing is too deep in a document that nests within the bound. -/
theorem rereadInside_eq_reread : ∀ {d : Document} {depth : Nat}, depth + d.depth ≤ maxDepth →
    d.rereadInside depth = d.reread
  | array items, depth, h => by
    rw [Document.depth] at h
    rw [rereadInside, guardDepth_of_lt (by omega), rereadItemsInside_eq (by omega), reread]
  | object fields, depth, h => by
    rw [Document.depth] at h
    rw [rereadInside, guardDepth_of_lt (by omega), rereadFieldsInside_eq (by omega), reread]
  | null, _, _ | bool _, _, _ | number _, _, _ | string _, _, _ | unreadable, _, _ => rfl

theorem rereadItemsInside_eq : ∀ {items : List Document} {depth : Nat},
    depth + itemsDepth items ≤ maxDepth → rereadItemsInside depth items = rereadItems items
  | [], _, _ => rfl
  | item :: items, depth, h => by
    rw [itemsDepth] at h
    rw [rereadItemsInside, rereadInside_eq_reread (by omega), rereadItemsInside_eq (by omega),
      rereadItems]

theorem rereadFieldsInside_eq : ∀ {fields : List (String × Document)} {depth : Nat},
    depth + fieldsDepth fields ≤ maxDepth → rereadFieldsInside depth fields = rereadFields fields
  | [], _, _ => rfl
  | (key, item) :: fields, depth, h => by
    rw [fieldsDepth] at h
    rw [rereadFieldsInside, rereadInside_eq_reread (by omega), rereadFieldsInside_eq (by omega),
      rereadFields]

end

mutual

/-- A document that nests beyond the bound has no value. -/
theorem toValue?_rereadInside : ∀ {d : Document} {depth : Nat}, maxDepth < depth + d.depth →
    depth ≤ maxDepth → (d.rereadInside depth).toValue? = none
  | array items, depth, h, _ => by
    rw [Document.depth] at h
    rw [rereadInside]
    unfold guardDepth
    split
    next hlt => rw [toValue?, toValues?_rereadItemsInside (by omega) (by omega), Option.map_none]
    next => rfl
  | object fields, depth, h, _ => by
    rw [Document.depth] at h
    rw [rereadInside]
    unfold guardDepth
    split
    next hlt =>
      rw [toValue?, toValueFields?_rereadFieldsInside (by omega) (by omega), Option.map_none]
    next => rfl
  | null, _, h, hle | bool _, _, h, hle | number _, _, h, hle | string _, _, h, hle
  | unreadable, _, h, hle => absurd h (Nat.not_lt.2 hle)

theorem toValues?_rereadItemsInside : ∀ {items : List Document} {depth : Nat},
    maxDepth < depth + itemsDepth items → depth ≤ maxDepth →
    toValues? (rereadItemsInside depth items) = none
  | [], _, h, hle => absurd h (Nat.not_lt.2 hle)
  | item :: items, depth, h, hle => by
    rw [itemsDepth] at h
    rw [rereadItemsInside, toValues?]
    by_cases hitem : maxDepth < depth + item.depth
    · rw [toValue?_rereadInside hitem hle]
    · rw [toValues?_rereadItemsInside (by omega) hle]
      split <;> simp_all

theorem toValueFields?_rereadFieldsInside : ∀ {fields : List (String × Document)} {depth : Nat},
    maxDepth < depth + fieldsDepth fields → depth ≤ maxDepth →
    toValueFields? (rereadFieldsInside depth fields) = none
  | [], _, h, hle => absurd h (Nat.not_lt.2 hle)
  | (key, item) :: fields, depth, h, hle => by
    rw [fieldsDepth] at h
    rw [rereadFieldsInside, toValueFields?]
    by_cases hitem : maxDepth < depth + item.depth
    · rw [toValue?_rereadInside hitem hle]
    · rw [toValueFields?_rereadFieldsInside (by omega) hle]
      split <;> simp_all

end

/-- Every number is written as a numeral. -/
theorem exists_numeral_writeNumber (n : Number) :
    ∃ x : Numeral, x.IsWellFormed ∧ writeNumber n = x.text := by
  cases n with
  | int n => exact ⟨.ofInt n, Numeral.isWellFormed_ofInt n, (Numeral.text_ofInt n).symm⟩
  | float x =>
    obtain ⟨numeral, htext, hspells⟩ := Numeral.exists_spells_writeNumber x
    exact ⟨numeral, hspells.wellFormed, htext⟩

theorem readNumeral?_writeNumber (n : Number) {rest : List Char} (hrest : EndsNumeral rest) :
    ∃ x : Numeral, readNumeral? (writeNumber n ++ rest) = some (x, rest) ∧
      x.toDocument = rereadNumber n := by
  obtain ⟨x, hx, htext⟩ := exists_numeral_writeNumber n
  refine ⟨x, htext ▸ readNumeral?_text hx hrest, ?_⟩
  have halone := readNumeral?_text hx endsNumeral_nil
  rw [List.append_nil, ← htext] at halone
  unfold rereadNumber
  rw [halone]

/-! ## Documents -/

/-- Whether the character can stand at the start of a numeral. -/
def startsNumeral (c : Char) : Bool :=
  c == '-' || c.isDigit

theorem exists_start_writeNumber (n : Number) :
    ∃ c rest, writeNumber n = c :: rest ∧ startsNumeral c = true := by
  obtain ⟨x, hx, htext⟩ := exists_numeral_writeNumber n
  rw [htext]
  obtain ⟨c, digits, hcons⟩ := List.exists_cons_of_ne_nil hx.whole.ne_nil
  have hdigit : c.isDigit = true := hx.whole.isDigit c (by rw [hcons]; exact List.mem_cons_self)
  unfold Numeral.text
  cases x.negative with
  | true => exact ⟨'-', _, rfl, rfl⟩
  | false => exact ⟨c, _, by rw [hcons]; rfl, by simp [startsNumeral, hdigit]⟩

/-- Whether the character can stand at the start of a document. -/
def startsDocument (c : Char) : Bool :=
  startsNumeral c || ['n', 't', 'f', '"', '[', '{'].contains c

theorem exists_start_of_hasLayout {d : Document} {text : List Char} (h : d.HasLayout text) :
    ∃ c rest, text = c :: rest ∧ startsDocument c = true := by
  cases h with
  | null => exact ⟨'n', _, rfl, rfl⟩
  | bool b =>
    cases b with
    | true => exact ⟨'t', _, rfl, rfl⟩
    | false => exact ⟨'f', _, rfl, rfl⟩
  | number n =>
    obtain ⟨c, rest, hwrite, hstart⟩ := exists_start_writeNumber n
    exact ⟨c, rest, hwrite, by simp [startsDocument, hstart]⟩
  | string s => exact ⟨'"', _, rfl, rfl⟩
  | array hbody => exact ⟨'[', _, rfl, rfl⟩
  | object hbody => exact ⟨'{', _, rfl, rfl⟩
  | unreadable => exact ⟨'n', _, rfl, rfl⟩

theorem isSpace_of_startsDocument {c : Char} (h : startsDocument c = true) : isSpace c = false := by
  rw [Bool.eq_false_iff]
  intro hspace
  simp only [isSpace, Bool.or_eq_true, beq_iff_eq] at hspace
  rcases hspace with ((rfl | rfl) | rfl) | rfl <;> cases h

theorem isSpace_eq_false_of_continuesNumeral {c : Char} (h : isSpace c = true) :
    continuesNumeral c = false := by
  simp only [isSpace, Bool.or_eq_true, beq_iff_eq] at h
  rcases h with ((rfl | rfl) | rfl) | rfl <;> rfl

/-- A numeral ends before space, and before a sign that no numeral has. -/
theorem endsNumeral_append {gap : List Char} (hgap : IsGap gap) {rest : List Char}
    (hrest : EndsNumeral rest) : EndsNumeral (gap ++ rest) := by
  cases gap with
  | nil => exact hrest
  | cons c gap =>
    exact endsNumeral_cons (isSpace_eq_false_of_continuesNumeral (hgap c List.mem_cons_self)) _

theorem readValue?_append {gap : List Char} (hgap : IsGap gap) (fuel depth : Nat)
    (text : List Char) : readValue? fuel depth (gap ++ text) = readValue? fuel depth text := by
  cases fuel with
  | zero => rfl
  | succ fuel =>
    unfold readValue?
    rw [skipSpace_append hgap]

theorem readItems?_append {gap : List Char} (hgap : IsGap gap) (fuel depth : Nat)
    (text : List Char) : readItems? fuel depth (gap ++ text) = readItems? fuel depth text := by
  cases fuel with
  | zero => rfl
  | succ fuel =>
    unfold readItems?
    rw [readValue?_append hgap]

theorem readFields?_append {gap : List Char} (hgap : IsGap gap) (fuel depth : Nat)
    (text : List Char) : readFields? fuel depth (gap ++ text) = readFields? fuel depth text := by
  cases fuel with
  | zero => rfl
  | succ fuel =>
    unfold readFields?
    rw [skipSpace_append hgap]

theorem readValue?_writeNumber (n : Number) (fuel depth : Nat) {rest : List Char}
    (hrest : EndsNumeral rest) :
    readValue? (fuel + 1) depth (writeNumber n ++ rest) = some (rereadNumber n, rest) := by
  obtain ⟨x, hread, hx⟩ := readNumeral?_writeNumber n hrest
  obtain ⟨c, more, hwrite, hstart⟩ := exists_start_writeNumber n
  have hspace : isSpace c = false :=
    isSpace_of_startsDocument (by simp [startsDocument, hstart])
  rw [hwrite, List.cons_append] at hread ⊢
  unfold readValue?
  rw [skipSpace_cons hspace]
  split
  case h_7 => simp [hread, hx]
  all_goals
    rename_i heq
    obtain rfl := (List.cons.inj heq).1
    cases hstart

theorem readValue?_writeString (s : String) (fuel depth : Nat) (rest : List Char) :
    readValue? (fuel + 1) depth (writeString s rest) = some (string s, rest) := by
  have hpieces := readPieces?_flatMap_escapeChar s.toList rest
  unfold readValue? writeString
  rw [skipSpace_cons rfl]
  simp [hpieces, joinPieces?_map_pieceOf]

theorem exists_start_of_itemsLayout {item : Document} {items : List Document} {body : List Char}
    (h : ItemsLayout (item :: items) body) (rest : List Char) :
    ∃ gap c more, IsGap gap ∧ body ++ rest = gap ++ c :: more ∧ startsDocument c = true := by
  cases h with
  | last hbefore htext hafter =>
    obtain ⟨c, more, rfl, hstart⟩ := exists_start_of_hasLayout htext
    exact ⟨_, c, _, hbefore, List.append_assoc _ _ _, hstart⟩
  | more hbefore htext hafter hbody =>
    obtain ⟨c, more, rfl, hstart⟩ := exists_start_of_hasLayout htext
    exact ⟨_, c, _, hbefore, List.append_assoc _ _ _, hstart⟩

theorem exists_start_of_fieldsLayout {field : String × Document}
    {fields : List (String × Document)} {body : List Char}
    (h : FieldsLayout (field :: fields) body) (rest : List Char) :
    ∃ gap more, IsGap gap ∧ body ++ rest = gap ++ '"' :: more := by
  cases h with
  | last hbefore => exact ⟨_, _, hbefore, List.append_assoc _ _ _⟩
  | more hbefore => exact ⟨_, _, hbefore, List.append_assoc _ _ _⟩

theorem endsNumeral_of_mem {c : Char} (h : c ∈ [',', ']', '\x7d']) (rest : List Char) :
    EndsNumeral (c :: rest) := by
  refine endsNumeral_cons ?_ rest
  simp only [List.mem_cons, List.not_mem_nil, or_false] at h
  rcases h with rfl | rfl | rfl <;> rfl

/-- The reader finds the document at the start of a text, whatever follows it. -/
def ReadsAs (fuel depth : Nat) (text : List Char) (d : Document) : Prop :=
  ∀ rest, EndsNumeral rest → readValue? fuel depth (text ++ rest) = some (d, rest)

section

variable {fuel depth : Nat} {body rest : List Char}

theorem readValue?_array_nil (hgap : IsGap body) :
    readValue? (fuel + 1) depth ('[' :: (body ++ ']' :: rest)) =
      some (guardDepth depth (array []), rest) := by
  unfold readValue?
  rw [skipSpace_cons rfl]
  simp [skipSpace_append hgap, skipSpace_cons, isSpace]

theorem readValue?_array_cons {item : Document} {items items' : List Document}
    (hbody : ItemsLayout (item :: items) body)
    (hitems : readItems? fuel (depth + 1) (body ++ ']' :: rest) = some (items', rest)) :
    readValue? (fuel + 1) depth ('[' :: (body ++ ']' :: rest)) =
      some (guardDepth depth (array items'), rest) := by
  obtain ⟨gap, c, more, hgap, hstart, hc⟩ := exists_start_of_itemsLayout hbody (']' :: rest)
  have hclose : c ≠ ']' := by
    rintro rfl
    cases hc
  rw [hstart, readItems?_append hgap] at hitems
  unfold readValue?
  rw [skipSpace_cons rfl, hstart]
  simp [skipSpace_append hgap, skipSpace_cons (isSpace_of_startsDocument hc), hclose, hitems]

theorem readValue?_object_nil (hgap : IsGap body) :
    readValue? (fuel + 1) depth ('{' :: (body ++ '}' :: rest)) =
      some (guardDepth depth (object []), rest) := by
  unfold readValue?
  rw [skipSpace_cons rfl]
  simp [skipSpace_append hgap, skipSpace_cons, isSpace]

theorem readValue?_object_cons {field : String × Document}
    {fields fields' : List (String × Document)} (hbody : FieldsLayout (field :: fields) body)
    (hfields : readFields? fuel (depth + 1) (body ++ '}' :: rest) = some (some fields', rest)) :
    readValue? (fuel + 1) depth ('{' :: (body ++ '}' :: rest)) =
      some (guardDepth depth (object fields'), rest) := by
  obtain ⟨gap, more, hgap, hstart⟩ := exists_start_of_fieldsLayout hbody ('}' :: rest)
  rw [hstart, readFields?_append hgap] at hfields
  unfold readValue?
  rw [skipSpace_cons rfl, hstart]
  simp [skipSpace_append hgap, skipSpace_cons, hfields, isSpace]

variable {before text after : List Char} {item : Document} (hbefore : IsGap before)
  (hafter : IsGap after)
include hbefore hafter

theorem readItems?_last (hitem : ReadsAs fuel depth text item) :
    readItems? (fuel + 1) depth (before ++ (text ++ after) ++ ']' :: rest) =
      some ([item], rest) := by
  have hend := endsNumeral_append hafter (endsNumeral_of_mem (c := ']') (by decide) rest)
  unfold readItems?
  rw [List.append_assoc, readValue?_append hbefore, List.append_assoc, hitem _ hend]
  simp [skipSpace_append hafter, skipSpace_cons, isSpace]

theorem readItems?_more {items : List Document} (hitem : ReadsAs fuel depth text item)
    (hitems : readItems? fuel depth (body ++ ']' :: rest) = some (items, rest)) :
    readItems? (fuel + 1) depth (before ++ (text ++ (after ++ ',' :: body)) ++ ']' :: rest) =
      some (item :: items, rest) := by
  have hend := endsNumeral_append hafter
    (endsNumeral_of_mem (c := ',') (by decide) (body ++ ']' :: rest))
  unfold readItems?
  rw [List.append_assoc, readValue?_append hbefore, List.append_assoc, List.append_assoc,
    List.cons_append, hitem _ hend]
  simp [skipSpace_append hafter, skipSpace_cons, isSpace, hitems]

variable {key : String} {colon gap : List Char} (hcolon : IsGap colon) (hgap : IsGap gap)
include hcolon hgap

theorem readFields?_last (hitem : ReadsAs fuel depth text item) :
    readFields? (fuel + 1) depth
      (before ++ writeString key (colon ++ ':' :: (gap ++ (text ++ after))) ++ '}' :: rest) =
      some (some [(key, item)], rest) := by
  have hend := endsNumeral_append hafter (endsNumeral_of_mem (c := '}') (by decide) rest)
  have hread : readValue? fuel depth (gap ++ (text ++ (after ++ '}' :: rest))) =
      some (item, after ++ '}' :: rest) :=
    (readValue?_append hgap ..).trans (hitem _ hend)
  unfold readFields?
  rw [List.append_assoc, skipSpace_append hbefore, ← writeString_append]
  unfold writeString
  rw [skipSpace_cons rfl]
  simp [readPieces?_flatMap_escapeChar, joinPieces?_map_pieceOf, skipSpace_append hcolon,
    skipSpace_append hafter, skipSpace_cons, isSpace, hread]

theorem readFields?_more {fields : List (String × Document)} (hitem : ReadsAs fuel depth text item)
    (hfields : readFields? fuel depth (body ++ '}' :: rest) = some (some fields, rest)) :
    readFields? (fuel + 1) depth
      (before ++ writeString key (colon ++ ':' :: (gap ++ (text ++ (after ++ ',' :: body)))) ++
        '}' :: rest) =
      some (some ((key, item) :: fields), rest) := by
  have hend := endsNumeral_append hafter
    (endsNumeral_of_mem (c := ',') (by decide) (body ++ '}' :: rest))
  have hread : readValue? fuel depth (gap ++ (text ++ (after ++ ',' :: (body ++ '}' :: rest)))) =
      some (item, after ++ ',' :: (body ++ '}' :: rest)) :=
    (readValue?_append hgap ..).trans (hitem _ hend)
  unfold readFields?
  rw [List.append_assoc, skipSpace_append hbefore, ← writeString_append]
  unfold writeString
  rw [skipSpace_cons rfl]
  simp [readPieces?_flatMap_escapeChar, joinPieces?_map_pieceOf, skipSpace_append hcolon,
    skipSpace_append hafter, skipSpace_cons, isSpace, hread, hfields]

end

theorem length_pos_of_hasLayout {d : Document} {text : List Char} (h : d.HasLayout text) :
    0 < text.length := by
  obtain ⟨c, rest, rfl, -⟩ := exists_start_of_hasLayout h
  exact Nat.succ_pos _

mutual

/-- A document is read from the text that it is laid out as. Twice the length of the text is enough
fuel, since every array, object, item and field has a sign of its own. -/
theorem readsAs_of_hasLayout : ∀ (d : Document) {text : List Char} {fuel depth : Nat},
    d.HasLayout text → 2 * text.length ≤ fuel → ReadsAs fuel depth text (d.rereadInside depth)
  | _, _, 0, _, htext, hfuel => by
    have hpos := length_pos_of_hasLayout htext
    omega
  | null, _, fuel + 1, depth, .null, _ => fun rest _ => rfl
  | bool b, _, fuel + 1, depth, .bool _, _ => fun rest _ => by
    cases b <;> rfl
  | unreadable, _, fuel + 1, depth, .unreadable, _ => fun rest _ => rfl
  | number n, _, fuel + 1, depth, .number _, _ => fun rest hrest =>
    readValue?_writeNumber n fuel depth hrest
  | string s, _, fuel + 1, depth, .string _, _ => fun rest _ => by
    rw [← writeString_append, List.nil_append]
    exact readValue?_writeString s fuel depth rest
  | array [], _, fuel + 1, depth, .array (.empty hgap), _ => fun rest _ => by
    rw [List.cons_append, List.append_assoc]
    exact readValue?_array_nil hgap
  | array (item :: items), _, fuel + 1, depth, .array hbody, hfuel => fun rest _ => by
    rw [List.length_cons, List.length_append, List.length_singleton] at hfuel
    rw [List.cons_append, List.append_assoc]
    refine readValue?_array_cons hbody ?_
    exact readItems?_of_itemsLayout item items hbody (by omega) rest
  | object [], _, fuel + 1, depth, .object (.empty hgap), _ => fun rest _ => by
    rw [List.cons_append, List.append_assoc]
    exact readValue?_object_nil hgap
  | object (field :: fields), _, fuel + 1, depth, .object hbody, hfuel => fun rest _ => by
    rw [List.length_cons, List.length_append, List.length_singleton] at hfuel
    rw [List.cons_append, List.append_assoc]
    refine readValue?_object_cons hbody ?_
    exact readFields?_of_fieldsLayout field fields hbody (by omega) rest

theorem readItems?_of_itemsLayout : ∀ (item : Document) (items : List Document)
    {body : List Char} {fuel depth : Nat}, ItemsLayout (item :: items) body →
    2 * body.length + 1 ≤ fuel → ∀ rest,
    readItems? fuel depth (body ++ ']' :: rest) =
      some (rereadItemsInside depth (item :: items), rest)
  | item, [], _, fuel + 1, depth, .last hbefore htext hafter, hfuel, rest => by
    rw [List.length_append, List.length_append] at hfuel
    have hitem : ReadsAs fuel depth _ (item.rereadInside depth) :=
      readsAs_of_hasLayout item htext (by omega)
    exact readItems?_last hbefore hafter hitem
  | item, next :: items, _, fuel + 1, depth, .more hbefore htext hafter hbody, hfuel, rest => by
    rw [List.length_append, List.length_append, List.length_append, List.length_cons] at hfuel
    have hitem : ReadsAs fuel depth _ (item.rereadInside depth) :=
      readsAs_of_hasLayout item htext (by omega)
    refine readItems?_more hbefore hafter hitem ?_
    exact readItems?_of_itemsLayout next items hbody (by omega) rest

theorem readFields?_of_fieldsLayout : ∀ (field : String × Document)
    (fields : List (String × Document)) {body : List Char} {fuel depth : Nat},
    FieldsLayout (field :: fields) body → 2 * body.length + 1 ≤ fuel → ∀ rest,
    readFields? fuel depth (body ++ '}' :: rest) =
      some (some (rereadFieldsInside depth (field :: fields)), rest)
  | (key, item), [], _, fuel + 1, depth, .last hbefore hcolon hgap htext hafter, hfuel, rest => by
    simp only [writeString, List.length_append, List.length_cons] at hfuel
    have hitem : ReadsAs fuel depth _ (item.rereadInside depth) :=
      readsAs_of_hasLayout item htext (by omega)
    exact readFields?_last hbefore hafter hcolon hgap hitem
  | (key, item), next :: fields, _, fuel + 1, depth,
    .more hbefore hcolon hgap htext hafter hbody, hfuel, rest => by
    simp only [writeString, List.length_append, List.length_cons] at hfuel
    have hitem : ReadsAs fuel depth _ (item.rereadInside depth) :=
      readsAs_of_hasLayout item htext (by omega)
    refine readFields?_more hbefore hafter hcolon hgap hitem ?_
    exact readFields?_of_fieldsLayout next fields hbody (by omega) rest

end

/-- The text holds the document, laid out in some way, and nothing but space around it. -/
def IsWrittenAs (d : Document) (text : String) : Prop :=
  ∃ before core after, IsGap before ∧ d.HasLayout core ∧ IsGap after ∧
    text.toList = before ++ (core ++ after)

theorem isWrittenAs_of_hasLayout {d : Document} {text : String} (h : d.HasLayout text.toList) :
    d.IsWrittenAs text :=
  ⟨[], text.toList, [], isGap_nil, h, isGap_nil, by simp⟩

theorem isWrittenAs_compact (d : Document) : d.IsWrittenAs d.compact :=
  isWrittenAs_of_hasLayout d.hasLayout_compact

theorem isWrittenAs_pretty (d : Document) : d.IsWrittenAs d.pretty :=
  isWrittenAs_of_hasLayout d.hasLayout_pretty

/-- Reading the text of a document yields the document, but for what is nested too deep. -/
theorem read?_eq_rereadInside {d : Document} {text : String} (h : d.IsWrittenAs text) :
    read? text = some (d.rereadInside 0) := by
  obtain ⟨before, core, after, hbefore, hcore, hafter, htext⟩ := h
  have hend : EndsNumeral after := by
    have hend := endsNumeral_append hafter endsNumeral_nil
    rwa [List.append_nil] at hend
  have hspace : skipSpace after = [] := by
    have hskip := skipSpace_append hafter []
    rwa [List.append_nil] at hskip
  have hread : readValue? (2 * text.toList.length + 2) 0 text.toList =
      some (d.rereadInside 0, after) := by
    have hfuel : 2 * core.length ≤ 2 * text.toList.length + 2 := by
      simp only [htext, List.length_append]
      omega
    have hcore : ReadsAs (2 * text.toList.length + 2) 0 core (d.rereadInside 0) :=
      readsAs_of_hasLayout d hcore hfuel
    rw [← hcore after hend, htext, readValue?_append hbefore]
  unfold read?
  simp [hread, hspace]

theorem read?_of_isWrittenAs {d : Document} {text : String} (h : d.IsWrittenAs text)
    (hdepth : d.depth ≤ maxDepth) : read? text = some d.reread := by
  rw [read?_eq_rereadInside h, rereadInside_eq_reread (by omega)]

/-- A text that is nested too deep holds no value. -/
theorem readToValue?_of_isWrittenAs {d : Document} {text : String} (h : d.IsWrittenAs text)
    (hdepth : maxDepth < d.depth) : readToValue? text = none := by
  have hread := read?_eq_rereadInside h
  have hvalue : (d.rereadInside 0).toValue? = none :=
    toValue?_rereadInside (by omega) (Nat.zero_le maxDepth)
  unfold readToValue?
  simp [hread, hvalue]

end TraceTutor.Document
