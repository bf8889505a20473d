import Mathlib.Data.Nat.Basic
import TraceTutor.Json.Reader

/-!
# Layouts of a document

The text of a document may have space between any two of its parts. `HasLayout` says which texts a
document can be laid out as. Both writers keep to it, the compact one (`hasLayout_compact`) and the
one that writes an item a line (`hasLayout_pretty`).
-/

namespace TraceTutor.Document

/-- Space between the parts of a document, possibly none. -/
def IsGap (text : List Char) : Prop :=
  ∀ c ∈ text, isSpace c = true

theorem isGap_nil : IsGap [] := by
  intro c hc
  cases hc

theorem isGap_space : IsGap [' '] :=
  List.forall_mem_singleton.2 rfl

mutual

/-- The document can be laid out as the text. The text starts and ends with the document itself. -/
inductive HasLayout : Document → List Char → Prop
  | null : HasLayout null "null".toList
  | bool (b : Bool) : HasLayout (bool b) (if b then "true".toList else "false".toList)
  | number (n : Number) : HasLayout (number n) (writeNumber n)
  | string (s : String) : HasLayout (string s) (writeString s [])
  | array {items : List Document} {body : List Char} :
      ItemsLayout items body → HasLayout (array items) ('[' :: (body ++ [']']))
  | object {fields : List (String × Document)} {body : List Char} :
      FieldsLayout fields body → HasLayout (object fields) ('{' :: (body ++ ['}']))
  | unreadable : HasLayout unreadable "null".toList

/-- The items of an array can be laid out as the text between its brackets. -/
inductive ItemsLayout : List Document → List Char → Prop
  | empty {gap : List Char} : IsGap gap → ItemsLayout [] gap
  | last {item : Document} {before text after : List Char} :
      IsGap before → HasLayout item text → IsGap after →
      ItemsLayout [item] (before ++ (text ++ after))
  | more {item next : Document} {items : List Document} {before text after body : List Char} :
      IsGap before → HasLayout item text → IsGap after → ItemsLayout (next :: items) body →
      ItemsLayout (item :: next :: items) (before ++ (text ++ (after ++ ',' :: body)))

/-- The fields of an object can be laid out as the text between its braces. -/
inductive FieldsLayout : List (String × Document) → List Char → Prop
  | empty {gap : List Char} : IsGap gap → FieldsLayout [] gap
  | last {key : String} {item : Document} {before colon gap text after : List Char} :
      IsGap before → IsGap colon → IsGap gap → HasLayout item text → IsGap after →
      FieldsLayout [(key, item)]
        (before ++ writeString key (colon ++ ':' :: (gap ++ (text ++ after))))
  | more {key : String} {item : Document} {next : String × Document}
      {fields : List (String × Document)} {before colon gap text after body : List Char} :
      IsGap before → IsGap colon → IsGap gap → HasLayout item text → IsGap after →
      FieldsLayout (next :: fields) body →
      FieldsLayout ((key, item) :: next :: fields)
        (before ++ writeString key (colon ++ ':' :: (gap ++ (text ++ (after ++ ',' :: body)))))

end

/-! ## Writing -/

theorem writeString_append (s : String) (rest more : List Char) :
    writeString s (rest ++ more) = writeString s rest ++ more := by
  simp [writeString]

mutual

/-- Compact text is a layout without space. -/
theorem exists_layout_write : ∀ d : Document,
    ∃ text, d.HasLayout text ∧ ∀ rest, d.write rest = text ++ rest
  | null => ⟨_, .null, fun rest => rfl⟩
  | bool b => ⟨_, .bool b, fun rest => rfl⟩
  | number n => ⟨_, .number n, fun rest => rfl⟩
  | string s => ⟨_, .string s, fun rest => by simp [write, ← writeString_append]⟩
  | array items => by
    obtain ⟨body, hbody, hwrite⟩ := exists_layout_writeItems items
    exact ⟨_, .array hbody, fun rest => by simp [write, hwrite]⟩
  | object fields => by
    obtain ⟨body, hbody, hwrite⟩ := exists_layout_writeFields fields
    exact ⟨_, .object hbody, fun rest => by simp [write, hwrite]⟩
  | unreadable => ⟨_, .unreadable, fun rest => rfl⟩

theorem exists_layout_writeItems : ∀ items : List Document,
    ∃ body, ItemsLayout items body ∧ ∀ rest, writeItems items rest = body ++ rest
  | [] => ⟨[], .empty isGap_nil, fun rest => rfl⟩
  | [item] => by
    obtain ⟨text, htext, hwrite⟩ := exists_layout_write item
    exact ⟨_, .last isGap_nil htext isGap_nil, fun rest => by simp [writeItems, hwrite]⟩
  | item :: next :: items => by
    obtain ⟨text, htext, hwrite⟩ := exists_layout_write item
    obtain ⟨body, hbody, hitems⟩ := exists_layout_writeItems (next :: items)
    exact ⟨_, .more isGap_nil htext isGap_nil hbody, fun rest => by
      simp [writeItems, hwrite, ← hitems]⟩

theorem exists_layout_writeFields : ∀ fields : List (String × Document),
    ∃ body, FieldsLayout fields body ∧ ∀ rest, writeFields fields rest = body ++ rest
  | [] => ⟨[], .empty isGap_nil, fun rest => rfl⟩
  | [(key, item)] => by
    obtain ⟨text, htext, hwrite⟩ := exists_layout_write item
    exact ⟨_, .last isGap_nil isGap_nil isGap_nil htext isGap_nil, fun rest => by
      simp [writeFields, hwrite, ← writeString_append]⟩
  | (key, item) :: next :: fields => by
    obtain ⟨text, htext, hwrite⟩ := exists_layout_write item
    obtain ⟨body, hbody, hfields⟩ := exists_layout_writeFields (next :: fields)
    exact ⟨_, .more isGap_nil isGap_nil isGap_nil htext isGap_nil hbody, fun rest => by
      simp [writeFields, hwrite, ← hfields, ← writeString_append]⟩

end

/-- The compact text of a document is a layout of it. -/
theorem hasLayout_compact (d : Document) : d.HasLayout d.compact.toList := by
  obtain ⟨text, htext, hwrite⟩ := exists_layout_write d
  simpa [compact, hwrite] using htext

/-! ## Indentation -/

theorem isGap_newline (depth : Nat) : IsGap (newline depth []) := by
  intro c hc
  rcases List.mem_cons.1 hc with rfl | hc
  · rfl
  · rw [List.append_nil] at hc
    rw [List.eq_of_mem_replicate hc]
    rfl

theorem newline_eq_append (depth : Nat) (rest : List Char) :
    newline depth rest = newline depth [] ++ rest := by
  simp [newline]

mutual

theorem exists_layout_writeIndented : ∀ (d : Document) (depth : Nat),
    ∃ text, d.HasLayout text ∧ ∀ rest, d.writeIndented depth rest = text ++ rest
  | null, _ => exists_layout_write null
  | bool b, _ => exists_layout_write (bool b)
  | number n, _ => exists_layout_write (number n)
  | string s, _ => exists_layout_write (string s)
  | array [], _ => ⟨_, .array (.empty isGap_nil), fun rest => rfl⟩
  | array (item :: items), depth => by
    have hgap := isGap_newline depth
    obtain ⟨body, hbody, hindent⟩ := exists_layout_indentItems (item :: items) (depth + 1) hgap
    refine ⟨_, .array hbody, fun rest => ?_⟩
    rw [writeIndented, newline_eq_append, hindent]
    simp
  | object [], _ => ⟨_, .object (.empty isGap_nil), fun rest => rfl⟩
  | object (field :: fields), depth => by
    have hgap := isGap_newline depth
    obtain ⟨body, hbody, hindent⟩ := exists_layout_indentFields (field :: fields) (depth + 1) hgap
    refine ⟨_, .object hbody, fun rest => ?_⟩
    rw [writeIndented, newline_eq_append, hindent]
    simp
  | unreadable, _ => exists_layout_write unreadable

theorem exists_layout_indentItems : ∀ (items : List Document) (depth : Nat) {gap : List Char},
    IsGap gap →
    ∃ body, ItemsLayout items body ∧ ∀ rest, indentItems depth items (gap ++ rest) = body ++ rest
  | [], _, gap, hgap => ⟨gap, .empty hgap, fun rest => rfl⟩
  | [item], depth, gap, hgap => by
    obtain ⟨text, htext, hwrite⟩ := exists_layout_writeIndented item depth
    refine ⟨_, .last (isGap_newline depth) htext hgap, fun rest => ?_⟩
    rw [indentItems, newline_eq_append, hwrite]
    simp
  | item :: next :: items, depth, gap, hgap => by
    obtain ⟨text, htext, hwrite⟩ := exists_layout_writeIndented item depth
    obtain ⟨body, hbody, hitems⟩ := exists_layout_indentItems (next :: items) depth hgap
    refine ⟨_, .more (isGap_newline depth) htext isGap_nil hbody, fun rest => ?_⟩
    rw [indentItems, newline_eq_append, hwrite, hitems]
    simp

theorem exists_layout_indentFields : ∀ (fields : List (String × Document)) (depth : Nat)
    {gap : List Char}, IsGap gap →
    ∃ body, FieldsLayout fields body ∧
      ∀ rest, indentFields depth fields (gap ++ rest) = body ++ rest
  | [], _, gap, hgap => ⟨gap, .empty hgap, fun rest => rfl⟩
  | [(key, item)], depth, gap, hgap => by
    obtain ⟨text, htext, hwrite⟩ := exists_layout_writeIndented item depth
    refine ⟨_, .last (isGap_newline depth) isGap_nil isGap_space htext hgap, fun rest => ?_⟩
    rw [indentFields, newline_eq_append, hwrite]
    simp [← writeString_append]
  | (key, item) :: next :: fields, depth, gap, hgap => by
    obtain ⟨text, htext, hwrite⟩ := exists_layout_writeIndented item depth
    obtain ⟨body, hbody, hfields⟩ := exists_layout_indentFields (next :: fields) depth hgap
    refine ⟨_, .more (isGap_newline depth) isGap_nil isGap_space htext isGap_nil hbody,
      fun rest => ?_⟩
    rw [indentFields, newline_eq_append, hwrite, hfields]
    simp [← writeString_append]

end

/-- The text with an item a line is a layout of the document. -/
theorem hasLayout_pretty (d : Document) : d.HasLayout d.pretty.toList := by
  obtain ⟨text, htext, hwrite⟩ := exists_layout_writeIndented d 0
  simpa [pretty, hwrite] using htext

end TraceTutor.Document
