import TraceTutor.Proofs.Json.Values

/-!
# Compact texts are unambiguous

No two documents without doubles have the same compact text (`compact_inj`). The first character of
a text tells the kind of the document (`kind_eq_of_write_eq`), and what is written can be told from
what follows it (`isDelimited`): a string ends at its first quote that is not escaped, a numeral
where it cannot go on, and an array or object at the bracket behind its last part. Neither the
reader's bound on nesting nor its rounding of numbers matters here.
-/

namespace TraceTutor.Document

/-! ## Kinds -/

inductive Kind where
  | null
  | bool
  | number
  | string
  | array
  | object
deriving DecidableEq, Repr

/-- A part that denotes nothing is written as `null`. -/
def kind : Document → Kind
  | null => .null
  | bool _ => .bool
  | number _ => .number
  | string _ => .string
  | array _ => .array
  | object _ => .object
  | unreadable => .null

/-- The kind of the documents that the character can stand at the start of. -/
def Kind.ofStart? (c : Char) : Option Kind :=
  if startsNumeral c then some .number
  else if c == 'n' then some .null
  else if c == 't' || c == 'f' then some .bool
  else if c == '"' then some .string
  else if c == '[' then some .array
  else if c == '\x7b' then some .object
  else none

theorem exists_start_write (d : Document) (rest : List Char) :
    ∃ c tail, d.write rest = c :: tail ∧ Kind.ofStart? c = some d.kind := by
  cases d with
  | null => exact ⟨'n', _, rfl, rfl⟩
  | bool b =>
    cases b with
    | true => exact ⟨'t', _, rfl, rfl⟩
    | false => exact ⟨'f', _, rfl, rfl⟩
  | number n =>
    obtain ⟨c, digits, hwrite, hstart⟩ := exists_start_writeNumber n
    refine ⟨c, digits ++ rest, ?_, if_pos hstart⟩
    show writeNumber n ++ rest = c :: (digits ++ rest)
    rw [hwrite, List.cons_append]
  | string s => exact ⟨'"', _, rfl, rfl⟩
  | array items => exact ⟨'[', _, by rw [write], rfl⟩
  | object fields => exact ⟨'\x7b', _, by rw [write], rfl⟩
  | unreadable => exact ⟨'n', _, rfl, rfl⟩

theorem kind_eq_of_write_eq {d d' : Document} {rest rest' : List Char}
    (h : d.write rest = d'.write rest') : d.kind = d'.kind := by
  obtain ⟨c, tail, hwrite, hkind⟩ := exists_start_write d rest
  obtain ⟨c', tail', hwrite', hkind'⟩ := exists_start_write d' rest'
  obtain ⟨rfl, -⟩ := List.cons.inj (hwrite.symm.trans (h.trans hwrite'))
  exact Option.some.inj (hkind.symm.trans hkind')

/-! ## Leaves -/

theorem writeString_inj {s s' : String} {rest rest' : List Char}
    (h : writeString s rest = writeString s' rest') : s = s' ∧ rest = rest' := by
  have hread := congrArg readPieces? (List.cons.inj h).2
  rw [readPieces?_flatMap_escapeChar, readPieces?_flatMap_escapeChar, Option.some.injEq] at hread
  obtain ⟨hpieces, hrest⟩ := Prod.mk.inj hread
  have hjoin := congrArg joinPieces? hpieces
  rw [joinPieces?_map_pieceOf, joinPieces?_map_pieceOf, Option.some.injEq] at hjoin
  exact ⟨String.toList_inj.1 hjoin, hrest⟩

theorem Numeral.ofInt_inj {m n : Int} (h : ofInt m = ofInt n) : m = n := by
  obtain ⟨hsign, hdigits, -, -⟩ := Numeral.mk.inj h
  have habs : m.natAbs = n.natAbs := by
    rw [← Decimal.ofDigits_toDigits m.natAbs, hdigits, Decimal.ofDigits_toDigits]
  have hneg : m < 0 ↔ n < 0 := decide_eq_decide.1 hsign
  omega

theorem writeInt_inj {m n : Int} {rest rest' : List Char} (hrest : EndsNumeral rest)
    (hrest' : EndsNumeral rest') (h : writeInt m ++ rest = writeInt n ++ rest') :
    m = n ∧ rest = rest' := by
  have hread := readNumeral?_text (Numeral.isWellFormed_ofInt m) hrest
  have hread' := readNumeral?_text (Numeral.isWellFormed_ofInt n) hrest'
  rw [Numeral.text_ofInt] at hread hread'
  rw [h, hread', Option.some.injEq] at hread
  obtain ⟨hnumeral, rfl⟩ := Prod.mk.inj hread
  exact ⟨(Numeral.ofInt_inj hnumeral).symm, rfl⟩

/-! ## Separated lists -/

section

variable {α : Type} {w : α → List Char → List Char} {p : α → Prop}

/-- What is written for `a` can be told from what follows it, and from what is written for anything
else with the property. What follows does not continue a numeral. -/
def IsDelimited (w : α → List Char → List Char) (p : α → Prop) (a : α) : Prop :=
  ∀ {b : α} {rest rest' : List Char}, p b → EndsNumeral rest → EndsNumeral rest' →
    w a rest = w b rest' → a = b ∧ rest = rest'

/-- A list with commas between its members, in front of `rest`. -/
def writeSeparated (w : α → List Char → List Char) : List α → List Char → List Char
  | [], rest => rest
  | [a], rest => w a rest
  | a :: b :: more, rest => w a (',' :: writeSeparated w (b :: more) rest)

/-- What follows the first member of a list that ends with a bracket. -/
theorem writeSeparated_cons {close : Char} (hclose : close ∈ [',', ']', '\x7d']) (a : α)
    (more : List α) (rest : List Char) : ∃ after,
      writeSeparated w (a :: more) (close :: rest) = w a after ∧ EndsNumeral after ∧
        after = if more.isEmpty then close :: rest
          else ',' :: writeSeparated w more (close :: rest) := by
  cases more with
  | nil => exact ⟨_, rfl, endsNumeral_of_mem hclose _, rfl⟩
  | cons b more => exact ⟨_, rfl, endsNumeral_of_mem (c := ',') (by decide) _, rfl⟩

/-- A list that ends with a bracket is delimited if its members are and none starts with that
bracket. By induction on the list. -/
theorem writeSeparated_inj {close : Char} (hclose : close ∈ [',', ']', '\x7d'])
    (hcomma : close ≠ ',') (hstart : ∀ a rest, (w a rest).head? ≠ some close) {as bs : List α}
    {rest rest' : List Char} (has : ∀ a ∈ as, IsDelimited w p a) (hbs : ∀ b ∈ bs, p b)
    (h : writeSeparated w as (close :: rest) = writeSeparated w bs (close :: rest')) :
    as = bs ∧ rest = rest' := by
  induction as generalizing bs with
  | nil =>
    cases bs with
    | nil => exact ⟨rfl, (List.cons.inj h).2⟩
    | cons b bs =>
      obtain ⟨after, hwrite, -⟩ := writeSeparated_cons (w := w) hclose b bs rest'
      exact absurd (congrArg List.head? (h.trans hwrite)).symm (hstart b after)
  | cons a as ih =>
    obtain ⟨after, hwrite, hends, hafter⟩ := writeSeparated_cons (w := w) hclose a as rest
    cases bs with
    | nil => exact absurd (congrArg List.head? (hwrite.symm.trans h)) (hstart a after)
    | cons b bs =>
      obtain ⟨after', hwrite', hends', hafter'⟩ := writeSeparated_cons (w := w) hclose b bs rest'
      obtain ⟨hhead, hmore⟩ := List.forall_mem_cons.1 has
      obtain ⟨hb, hothers⟩ := List.forall_mem_cons.1 hbs
      obtain ⟨rfl, hrest⟩ := hhead hb hends hends' (hwrite.symm.trans (h.trans hwrite'))
      rw [hafter, hafter'] at hrest
      cases as with
      | nil =>
        cases bs with
        | nil => exact ⟨rfl, (List.cons.inj hrest).2⟩
        | cons => exact absurd (List.cons.inj hrest).1 hcomma
      | cons =>
        cases bs with
        | nil => exact absurd (List.cons.inj hrest).1.symm hcomma
        | cons =>
          obtain ⟨hlists, hrest⟩ := ih hmore hothers (List.cons.inj hrest).2
          exact ⟨congrArg _ hlists, hrest⟩

end

/-! ## Documents -/

/-- All parts of the document are readable, and its numbers are integers. -/
def HasNoFloat (d : Document) : Prop :=
  d.EveryLeaf (IsReadable Number.IsInt)

/-- A field of an object, in front of `rest`. -/
def writeField (field : String × Document) (rest : List Char) : List Char :=
  writeString field.1 (':' :: field.2.write rest)

theorem writeItems_eq : ∀ (items : List Document) (rest : List Char),
    writeItems items rest = writeSeparated write items rest
  | [], _ => rfl
  | [item], rest => by rw [writeItems, writeSeparated]
  | item :: next :: items, rest => by
    rw [writeItems, writeSeparated, writeItems_eq (next :: items)]

theorem writeFields_eq : ∀ (fields : List (String × Document)) (rest : List Char),
    writeFields fields rest = writeSeparated writeField fields rest
  | [], _ => rfl
  | [field], rest => by rw [writeFields, writeSeparated, writeField]
  | field :: next :: fields, rest => by
    rw [writeFields, writeSeparated, writeFields_eq (next :: fields), writeField]

theorem isDelimited_array {items : List Document}
    (h : ∀ item ∈ items, IsDelimited write HasNoFloat item) :
    IsDelimited write HasNoFloat (array items) := by
  intro d rest rest' hd _ _ hwrite
  have hkind := kind_eq_of_write_eq hwrite
  cases d with
  | array others =>
    rw [write, write, writeItems_eq, writeItems_eq] at hwrite
    have hstart : ∀ (d : Document) rest, (d.write rest).head? ≠ some ']' := by
      intro d rest heq
      obtain ⟨c, tail, hwrite, hkind⟩ := exists_start_write d rest
      rw [hwrite] at heq
      cases heq
      cases hkind
    obtain ⟨rfl, hrest⟩ := writeSeparated_inj (by decide) (by decide) hstart h
      (everyItemLeaf_iff.1 hd) (List.cons.inj hwrite).2
    exact ⟨rfl, hrest⟩
  | unreadable => exact hd.elim
  | _ => cases hkind

theorem isDelimited_field {field : String × Document}
    (h : IsDelimited write HasNoFloat field.2) :
    IsDelimited writeField (fun field => field.2.HasNoFloat) field := by
  intro other rest rest' hother hrest hrest' hwrite
  obtain ⟨hkey, hmore⟩ := writeString_inj hwrite
  obtain ⟨hitem, hrest⟩ := h hother hrest hrest' (List.cons.inj hmore).2
  exact ⟨Prod.ext hkey hitem, hrest⟩

theorem isDelimited_object {fields : List (String × Document)}
    (h : ∀ field ∈ fields, IsDelimited write HasNoFloat field.2) :
    IsDelimited write HasNoFloat (object fields) := by
  intro d rest rest' hd _ _ hwrite
  have hkind := kind_eq_of_write_eq hwrite
  cases d with
  | object others =>
    rw [write, write, writeFields_eq, writeFields_eq] at hwrite
    have hstart : ∀ (field : String × Document) rest,
        (writeField field rest).head? ≠ some '\x7d' := by
      intro field rest heq
      cases heq
    obtain ⟨rfl, hrest⟩ := writeSeparated_inj (by decide) (by decide) hstart
      (fun field hfield => isDelimited_field (h field hfield)) (everyFieldLeaf_iff.1 hd)
      (List.cons.inj hwrite).2
    exact ⟨rfl, hrest⟩
  | unreadable => exact hd.elim
  | _ => cases hkind

theorem isDelimited_null : IsDelimited write HasNoFloat null := by
  intro d rest rest' hd _ _ hwrite
  have hkind := kind_eq_of_write_eq hwrite
  cases d with
  | null => exact ⟨rfl, List.append_cancel_left hwrite⟩
  | unreadable => exact hd.elim
  | _ => cases hkind

theorem isDelimited_bool (b : Bool) : IsDelimited write HasNoFloat (bool b) := by
  intro d rest rest' hd _ _ hwrite
  have hkind := kind_eq_of_write_eq hwrite
  cases d with
  | bool b' =>
    cases b <;> cases b'
    · exact ⟨rfl, List.append_cancel_left hwrite⟩
    · exact absurd (List.cons.inj hwrite).1 (by decide)
    · exact absurd (List.cons.inj hwrite).1 (by decide)
    · exact ⟨rfl, List.append_cancel_left hwrite⟩
  | unreadable => exact hd.elim
  | _ => cases hkind

theorem isDelimited_int (n : Int) : IsDelimited write HasNoFloat (int n) := by
  intro d rest rest' hd hrest hrest' hwrite
  have hkind := kind_eq_of_write_eq hwrite
  cases d with
  | number m =>
    cases m with
    | int m =>
      obtain ⟨rfl, hrest⟩ := writeInt_inj hrest hrest' hwrite
      exact ⟨rfl, hrest⟩
    | float x => exact hd.elim
  | unreadable => exact hd.elim
  | _ => cases hkind

theorem isDelimited_string (s : String) : IsDelimited write HasNoFloat (string s) := by
  intro d rest rest' hd _ _ hwrite
  have hkind := kind_eq_of_write_eq hwrite
  cases d with
  | string s' =>
    obtain ⟨rfl, hrest⟩ := writeString_inj hwrite
    exact ⟨rfl, hrest⟩
  | unreadable => exact hd.elim
  | _ => cases hkind

mutual

/-- By induction on the document: its parts are delimited within it. -/
theorem isDelimited : ∀ {d : Document}, d.HasNoFloat → IsDelimited write HasNoFloat d
  | null, _ => isDelimited_null
  | bool b, _ => isDelimited_bool b
  | number (.int n), _ => isDelimited_int n
  | string s, _ => isDelimited_string s
  | array _, h => isDelimited_array (isDelimited_of_mem h)
  | object _, h => isDelimited_object (isDelimited_of_mem_fields h)

theorem isDelimited_of_mem : ∀ {items : List Document},
    EveryItemLeaf (IsReadable Number.IsInt) items →
      ∀ item ∈ items, IsDelimited write HasNoFloat item
  | _ :: _, h => List.forall_mem_cons.2 ⟨isDelimited h.1, isDelimited_of_mem h.2⟩
  | [], _ => nofun

theorem isDelimited_of_mem_fields : ∀ {fields : List (String × Document)},
    EveryFieldLeaf (IsReadable Number.IsInt) fields →
      ∀ field ∈ fields, IsDelimited write HasNoFloat field.2
  | (_, _) :: _, h => List.forall_mem_cons.2 ⟨isDelimited h.1, isDelimited_of_mem_fields h.2⟩
  | [], _ => nofun

end

/-- A document without doubles is known by its compact text. -/
theorem compact_inj {d d' : Document} (hd : d.HasNoFloat) (hd' : d'.HasNoFloat)
    (h : d.compact = d'.compact) : d = d' := by
  have hwrite : d.write [] = d'.write [] := String.ofList_inj.1 h
  exact (isDelimited hd hd' endsNumeral_nil endsNumeral_nil hwrite).1

end TraceTutor.Document
