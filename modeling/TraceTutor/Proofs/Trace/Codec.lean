import TraceTutor.Proofs.Bindings
import TraceTutor.Proofs.Json.Words
import TraceTutor.Proofs.Trace.Normal
import TraceTutor.Trace.Document

/-!
# The codec of traces

A record is read from its fields under any of their names and in any order
(`Document.record?_of_spellsRecord`). A trace is what its document denotes
(`Trace.ofDocument?_toDocument`), and without doubles it comes back from its text
(`Trace.text_roundTrip`).
-/

namespace TraceTutor

/-! ## Records -/

/-- A list of computations succeeds exactly if each of them does. -/
theorem mapM_eq_some_iff {α β : Type} {f : α → Option β} {xs : List α} {ys : List β} :
    xs.mapM f = some ys ↔ List.Forall₂ (fun x y => f x = some y) xs ys := by
  induction xs generalizing ys with
  | nil => simp [eq_comm]
  | cons x xs ih =>
    simp only [List.mapM_cons, Option.bind_eq_bind, Option.bind_eq_some_iff, Option.pure_def,
      Option.some.injEq, List.forall₂_cons_left_iff, ih]
    constructor
    · rintro ⟨y, hy, ys, hys, rfl⟩
      exact ⟨y, ys, hy, hys, rfl⟩
    · rintro ⟨y, ys, hy, hys, rfl⟩
      exact ⟨y, hy, ys, hys, rfl⟩

theorem exists_of_mem_mapM {α β : Type} {f : α → Option β} {xs : List α} {ys : List β} {y : β}
    (h : xs.mapM f = some ys) (hy : y ∈ ys) : ∃ x ∈ xs, f x = some y := by
  induction mapM_eq_some_iff.1 h with
  | nil => cases hy
  | cons hfirst hrest ih =>
    rcases List.mem_cons.1 hy with rfl | hy
    · exact ⟨_, List.mem_cons_self, hfirst⟩
    · obtain ⟨x, hx, hxy⟩ := ih (mapM_eq_some_iff.2 hrest) hy
      exact ⟨x, List.mem_cons_of_mem _ hx, hxy⟩

namespace Document

/-- The fields hold each part of a record once, under one of the spellings of its name, and no field
under the spellings of a missing part. Fields of other names do not matter. -/
def SpellsRecord (names : List (List String)) (parts : List (Option Document))
    (fields : List (String × Document)) : Prop :=
  List.Forall₂ (fun spellings part =>
    (fields.filter fun field => spellings.contains field.1).map Prod.snd = part.toList) names parts

variable {names : List (List String)} {parts : List (Option Document)}
  {fields fields' : List (String × Document)}

theorem record?_of_spellsRecord (h : SpellsRecord names parts fields) :
    (object fields).record? names = some parts := by
  refine mapM_eq_some_iff.2 (h.imp fun spellings part hpart => ?_)
  cases part with
  | none =>
    rw [List.map_eq_nil_iff.1 hpart]
  | some d =>
    obtain ⟨field, hfield, rfl⟩ := List.map_eq_singleton_iff.1 hpart
    rw [hfield]

/-- The order of the fields does not matter. -/
theorem SpellsRecord.of_perm (h : SpellsRecord names parts fields) (hperm : fields'.Perm fields) :
    SpellsRecord names parts fields' := by
  refine h.imp fun spellings part hpart => ?_
  have hfilter := (hperm.filter fun field => spellings.contains field.1).map Prod.snd
  rw [hpart] at hfilter
  cases part with
  | none => exact List.perm_nil.1 hfilter
  | some d => exact List.perm_singleton.1 hfilter

theorem toNat?_nat {n : Nat} (h : n < wordCount) : (nat n).toNat? = some n := by
  unfold nat toNat?
  simp [h]

theorem mapM_toString?_map_string (items : List String) :
    (items.map string).mapM toString? = some items :=
  mapM_eq_some_iff.2 (List.forall₂_map_left_iff.2 (List.forall₂_same.2 fun _ _ => rfl))

/-- The parts of a record are parts of its document. -/
theorem everyLeaf_of_record? {p : Document → Prop} {d : Document} (hd : d.EveryLeaf p)
    (h : d.record? names = some parts) {item : Document} (hitem : some item ∈ parts) :
    item.EveryLeaf p := by
  cases d with
  | object fields =>
    obtain ⟨spellings, -, hpart⟩ := exists_of_mem_mapM h hitem
    split at hpart
    · cases hpart
    next field hfilter =>
      have hfield : field ∈ fields :=
        List.mem_of_mem_filter (hfilter ▸ List.mem_singleton_self field)
      cases hpart
      exact everyFieldLeaf_iff.1 hd field hfield
    · cases hpart
  | array items =>
    simp only [record?] at h
    split at h
    · cases h
      rcases List.mem_append.1 hitem with hitem | hitem
      · obtain ⟨found, hfound, heq⟩ := List.mem_map.1 hitem
        cases heq
        exact everyItemLeaf_iff.1 hd _ hfound
      · cases List.eq_of_mem_replicate hitem
    · cases h
  | _ => cases h

theorem lt_of_toNat? {d : Document} {n : Nat} (h : d.toNat? = some n) : n < wordCount := by
  unfold toNat? at h
  split at h
  next m =>
    split at h
    next hrange =>
      cases h
      simp only [Bool.and_eq_true, decide_eq_true_eq] at hrange
      exact hrange.2
    next => cases h
  next => cases h

theorem lt_of_elim_toNat? {part : Option Document} {n : Nat}
    (h : part.elim (some 0) toNat? = some n) : n < wordCount := by
  cases part with
  | none =>
    cases h
    decide
  | some d => exact lt_of_toNat? h

end Document

open Document

/-! ## Bindings -/

/-- A value as a program can hold it: in normal form, and with words for integers. -/
structure Value.IsSound (v : Value) : Prop where
  normal : v.IsNormal
  numbers : v.NumbersIn Number.FitsWord

namespace Bindings

theorem toDocument_eq (b : Bindings) : b.toDocument = .object (ofValueFields b.entries) := by
  unfold toDocument
  rw [ofValueFields_eq_map]

/-- Fields of normal values are read as bindings, in their order. -/
theorem ofDocument?_ofValueFields {entries : List (String × Value)}
    (hnormal : ∀ entry ∈ entries, entry.2.IsNormal) :
    ofDocument? (.object (ofValueFields entries)) = some (.ofList entries) := by
  have hfields := toValueFields?_ofValueFields (Value.fieldsNormal_iff.2 hnormal)
  exact congrArg (Option.map NameMap.ofList) hfields

theorem ofDocument?_toDocument {b : Bindings} (h : b.AllValues Value.IsSound) :
    ofDocument? b.toDocument = some b := by
  rw [toDocument_eq, ofDocument?_ofValueFields fun entry hentry => (h entry hentry).normal,
    NameMap.ofList_entries]

/-- Bindings that are left out or read are sound. -/
theorem allValues_of_elim_ofDocument? {part : Option Document} {b : Bindings}
    (hpart : ∀ d, part = some d → d.FitsWords)
    (h : part.elim (some .empty) ofDocument? = some b) : b.AllValues Value.IsSound := by
  cases part with
  | none =>
    cases h
    exact allValues_empty _
  | some d =>
    have hd := hpart d rfl
    cases d with
    | null =>
      cases h
      exact allValues_empty _
    | object fields =>
      obtain ⟨values, hvalues, rfl⟩ := Option.map_eq_some_iff.1 h
      have hnormal := Value.fieldsNormal_iff.1 (fieldsNormal_of_toValueFields? hvalues)
      have hnumbers := Value.fieldNumbersIn_iff.1 (fieldNumbersIn_of_toValueFields? hd hvalues)
      exact allValues_ofList fun entry hentry => ⟨hnormal entry hentry, hnumbers entry hentry⟩
    | _ => cases h

end Bindings

/-! ## Calls -/

/-- A call as a program can hold it. -/
structure Frame.IsSound (f : Frame) : Prop where
  line_lt : f.line < wordCount
  values : f.bindings.AllValues Value.IsSound

namespace Frame

/-- The spellings of the fields of a call. -/
def spellings : List (List String) :=
  [["name", "functionName"], ["bindings", "variables"], ["sourceLine", "line"]]

/-- The parts of a call, given those of its bindings. -/
def parts (f : Frame) (bindings : Document) : List (Option Document) :=
  [some (.string f.name), some bindings, some (.nat f.line)]

theorem ofDocument?_of_spells {f : Frame} {bindings : Document} {fields : List (String × Document)}
    (h : SpellsRecord spellings (f.parts bindings) fields)
    (hbindings : Bindings.ofDocument? bindings = some f.bindings) (hline : f.line < wordCount) :
    ofDocument? (.object fields) = some f := by
  have hrecord := record?_of_spellsRecord h
  unfold spellings parts at hrecord
  unfold ofDocument?
  simp [hrecord, hbindings, toNat?_nat hline, toString?]

theorem spells_toDocument (f : Frame) : ∃ fields, f.toDocument = .object fields ∧
    (fields.map Prod.fst).Nodup ∧ SpellsRecord spellings (f.parts f.bindings.toDocument) fields :=
  ⟨_, rfl, by simp, .cons rfl (.cons rfl (.cons rfl .nil))⟩

theorem ofDocument?_toDocument {f : Frame} (h : f.IsSound) : ofDocument? f.toDocument = some f := by
  obtain ⟨fields, hfields, -, hspells⟩ := spells_toDocument f
  rw [hfields]
  exact ofDocument?_of_spells hspells (Bindings.ofDocument?_toDocument h.values) h.line_lt

theorem isSound_of_ofDocument? {d : Document} {f : Frame} (hd : d.FitsWords)
    (h : ofDocument? d = some f) : f.IsSound := by
  unfold ofDocument? at h
  obtain ⟨parts, hrecord, h⟩ := Option.bind_eq_some_iff.1 h
  split at h
  next name bindings line =>
    simp only [Option.bind_eq_bind, Option.bind_eq_some_iff] at h
    obtain ⟨_, -, _, -, b, hb, n, hn, hf⟩ := h
    cases hf
    have hpart : ∀ d, bindings = some d → d.FitsWords := fun d hsome =>
      everyLeaf_of_record? hd hrecord (by simp [hsome])
    exact ⟨lt_of_elim_toNat? hn, Bindings.allValues_of_elim_ofDocument? hpart hb⟩
  next => cases h

end Frame

/-! ## Snapshots -/

/-- A snapshot as a program can hold it. -/
structure Snapshot.IsSound (s : Snapshot) : Prop where
  index_lt : s.index < wordCount
  line_lt : s.line < wordCount
  values : s.bindings.AllValues Value.IsSound
  frames : ∀ f ∈ s.callStack, f.IsSound

namespace Snapshot

/-- The parts of a snapshot, given those of its bindings and of its calls. -/
def parts (s : Snapshot) (bindings : Document) (frames : List Document) : List (Option Document) :=
  [some (.nat s.index), some (.nat s.line), some bindings, some (.array frames),
    some (.strings s.emitted), s.condition.map .string, s.note.map .string]

theorem ofDocument?_of_spells {s : Snapshot} {bindings : Document} {frames : List Document}
    {fields : List (String × Document)}
    (h : SpellsRecord fieldNames (s.parts bindings frames) fields)
    (hbindings : Bindings.ofDocument? bindings = some s.bindings)
    (hframes : List.Forall₂ (fun d f => Frame.ofDocument? d = some f) frames s.callStack)
    (hindex : s.index < wordCount) (hline : s.line < wordCount) :
    ofDocument? (.object fields) = some s := by
  have hrecord := record?_of_spellsRecord h
  have hstack : listOf? Frame.ofDocument? (.array frames) = some s.callStack :=
    mapM_eq_some_iff.2 hframes
  have hemitted : listOf? toString? (strings s.emitted) = some s.emitted :=
    mapM_toString?_map_string s.emitted
  have hoption : ∀ text : Option String,
      (text.map Document.string).elim (some none) (toOption? toString?) = some text := by
    intro text
    cases text <;> rfl
  unfold parts at hrecord
  unfold ofDocument?
  simp [hrecord, hbindings, hstack, hemitted, toNat?_nat hindex, toNat?_nat hline, hoption]

theorem spells_toDocument (s : Snapshot) : ∃ fields, s.toDocument = .object fields ∧
    (fields.map Prod.fst).Nodup ∧
    SpellsRecord fieldNames
      (s.parts s.bindings.toDocument (s.callStack.map Frame.toDocument)) fields := by
  refine ⟨_, rfl, ?_,
    .cons ?_ (.cons ?_ (.cons ?_ (.cons ?_ (.cons ?_ (.cons ?_ (.cons ?_ .nil))))))⟩
  · cases s.condition <;> cases s.note <;> simp [optionalField]
  all_goals cases s.condition <;> cases s.note <;> rfl

theorem ofDocument?_toDocument {s : Snapshot} (h : s.IsSound) :
    ofDocument? s.toDocument = some s := by
  obtain ⟨fields, hfields, -, hspells⟩ := spells_toDocument s
  have hbindings := Bindings.ofDocument?_toDocument h.values
  have hframes : List.Forall₂ (fun d f => Frame.ofDocument? d = some f)
      (s.callStack.map Frame.toDocument) s.callStack :=
    List.forall₂_map_left_iff.2 (List.forall₂_same.2 fun f hf =>
      Frame.ofDocument?_toDocument (h.frames f hf))
  rw [hfields]
  exact ofDocument?_of_spells hspells hbindings hframes h.index_lt h.line_lt

/-- What is read from a list is read from a part of it. -/
theorem exists_of_mem_listOf? {p : Document → Prop} {α : Type} {read : Document → Option α}
    {d : Document} {ys : List α} {y : α} (hd : d.EveryLeaf p) (h : listOf? read d = some ys)
    (hy : y ∈ ys) : ∃ item, item.EveryLeaf p ∧ read item = some y := by
  obtain ⟨items, hitems, hread⟩ := Option.bind_eq_some_iff.1 h
  obtain ⟨item, hitem, hfound⟩ := exists_of_mem_mapM hread hy
  cases d with
  | array found =>
    cases hitems
    exact ⟨item, everyItemLeaf_iff.1 hd item hitem, hfound⟩
  | _ => cases hitems

theorem isSound_of_ofDocument? {d : Document} {s : Snapshot} (hd : d.FitsWords)
    (h : ofDocument? d = some s) : s.IsSound := by
  unfold ofDocument? at h
  obtain ⟨parts, hrecord, h⟩ := Option.bind_eq_some_iff.1 h
  split at h
  next index line bindings callStack emitted condition note =>
    simp only [Option.bind_eq_bind, Option.bind_eq_some_iff] at h
    obtain ⟨i, hi, n, hn, b, hb, frames, hframes, _, -, _, -, _, -, hs⟩ := h
    cases hs
    have hbindings : ∀ d, bindings = some d → d.FitsWords := fun d hsome =>
      everyLeaf_of_record? hd hrecord (by simp [hsome])
    have hstack : ∀ d, callStack = some d → d.FitsWords := fun d hsome =>
      everyLeaf_of_record? hd hrecord (by simp [hsome])
    refine ⟨lt_of_elim_toNat? hi, lt_of_elim_toNat? hn,
      Bindings.allValues_of_elim_ofDocument? hbindings hb, fun f hf => ?_⟩
    cases callStack with
    | none =>
      cases hframes
      cases hf
    | some d =>
      obtain ⟨item, hitem, hread⟩ := exists_of_mem_listOf? (hstack d rfl) hframes hf
      exact Frame.isSound_of_ofDocument? hitem hread
  next => cases h

end Snapshot

/-! ## Traces -/

/-- A trace as a program can hold it. -/
def Trace.IsSound (t : Trace) : Prop :=
  ∀ s ∈ t, s.IsSound

/-- There is no double in any value that the trace shows. -/
def Trace.HasNoFloat (t : Trace) : Prop :=
  ∀ s ∈ t, s.bindings.AllValues (Value.NumbersIn Number.IsInt) ∧
    ∀ f ∈ s.callStack, f.bindings.AllValues (Value.NumbersIn Number.IsInt)

namespace Trace

theorem ofDocument?_toDocument {t : Trace} (h : t.IsSound) : ofDocument? t.toDocument = some t :=
  mapM_eq_some_iff.2 (List.forall₂_map_left_iff.2 (List.forall₂_same.2 fun s hs =>
    Snapshot.ofDocument?_toDocument (h s hs)))

theorem isSound_of_ofDocument? {d : Document} {t : Trace} (hd : d.FitsWords)
    (h : ofDocument? d = some t) : t.IsSound := by
  intro s hs
  obtain ⟨item, hitem, hread⟩ := Snapshot.exists_of_mem_listOf? hd h hs
  exact Snapshot.isSound_of_ofDocument? hitem hread

end Trace

/-! ## Writing and reading -/

/-- Everything in the document denotes something, and its numbers are integers and words. -/
def Document.IsExact (d : Document) : Prop :=
  d.EveryLeaf (IsReadable fun n => n.FitsWord ∧ n.IsInt)

theorem Document.isExact_nat {n : Nat} (h : n < wordCount) : (nat n).IsExact := by
  have hlow : -wordBound ≤ (n : Int) := by
    unfold wordBound
    omega
  have hhigh : (n : Int) < wordCount := by exact_mod_cast h
  exact ⟨⟨hlow, hhigh⟩, trivial⟩

theorem Bindings.isExact_toDocument {b : Bindings} (h : b.AllValues Value.IsSound)
    (hints : b.AllValues (Value.NumbersIn Number.IsInt)) : b.toDocument.IsExact := by
  rw [toDocument_eq]
  refine everyFieldLeaf_ofValueFields (Value.fieldNumbersIn_iff.2 fun entry hentry => ?_)
  exact (h entry hentry).numbers.and (hints entry hentry)

theorem Frame.isExact_toDocument {f : Frame} (h : f.IsSound)
    (hints : f.bindings.AllValues (Value.NumbersIn Number.IsInt)) : f.toDocument.IsExact :=
  ⟨trivial, Bindings.isExact_toDocument h.values hints, isExact_nat h.line_lt, trivial⟩

theorem Snapshot.isExact_toDocument {s : Snapshot} (h : s.IsSound)
    (hints : s.bindings.AllValues (Value.NumbersIn Number.IsInt))
    (hframes : ∀ f ∈ s.callStack, f.bindings.AllValues (Value.NumbersIn Number.IsInt)) :
    s.toDocument.IsExact := by
  have hstack : (array (s.callStack.map Frame.toDocument)).IsExact := by
    refine everyItemLeaf_iff.2 (List.forall_mem_map.2 fun f hf => ?_)
    exact Frame.isExact_toDocument (h.frames f hf) (hframes f hf)
  have hemitted : (strings s.emitted).IsExact :=
    everyItemLeaf_iff.2 (List.forall_mem_map.2 fun _ _ => trivial)
  have hoption : ∀ name text, ∀ field ∈ optionalField name text, field.2.IsExact := by
    intro name text field hfield
    cases text with
    | none => cases hfield
    | some text =>
      rw [List.mem_singleton.1 hfield]
      trivial
  refine everyFieldLeaf_iff.2 (List.forall_mem_append.2 ⟨List.forall_mem_append.2 ⟨?_, ?_⟩, ?_⟩)
  · simp only [List.forall_mem_cons]
    exact ⟨isExact_nat h.index_lt, isExact_nat h.line_lt,
      Bindings.isExact_toDocument h.values hints, hstack, hemitted, fun _ hfield => absurd hfield List.not_mem_nil⟩
  · exact hoption "condition" s.condition
  · exact hoption "note" s.note

theorem Trace.isExact_toDocument {t : Trace} (h : t.IsSound) (hints : t.HasNoFloat) :
    t.toDocument.IsExact :=
  everyItemLeaf_iff.2 (List.forall_mem_map.2 fun s hs =>
    Snapshot.isExact_toDocument (h s hs) (hints s hs).1 (hints s hs).2)

/-! ## The text of a trace -/

namespace Trace

/-- The compact text of a trace. -/
def text (t : Trace) : String :=
  t.toDocument.compact

/-- The trace that a text holds, where it is read strictly. -/
def ofText? (text : String) : Option Trace :=
  (read? text).bind ofDocument?

/-- Whatever is read can be held by a program. -/
theorem isSound_of_ofText? {text : String} {t : Trace} (h : ofText? text = some t) : t.IsSound := by
  obtain ⟨d, hread, hd⟩ := Option.bind_eq_some_iff.1 h
  exact isSound_of_ofDocument? (fitsWords_of_read? hread) hd

/-- The text of the trace holds it completely. -/
structure IsPortable (t : Trace) : Prop where
  noFloat : t.HasNoFloat
  depth_le : t.toDocument.depth ≤ maxDepth

/-- A trace is read back from its text. -/
theorem ofText?_text {t : Trace} (h : t.IsSound) (hportable : t.IsPortable) :
    ofText? t.text = some t := by
  have hread := read?_of_isWrittenAs (isWrittenAs_compact t.toDocument) hportable.depth_le
  rw [reread_eq_self (isExact_toDocument h hportable.noFloat)] at hread
  unfold ofText? text
  rw [hread, Option.bind_some, ofDocument?_toDocument h]

/-- A trace without doubles is determined by its text, in every detail and in the order of its
names. Where it was read from any text at all, its own text is read as the same trace and does not
change any more. -/
theorem text_roundTrip {t : Trace} (h : t.IsPortable) :
    (t.IsSound → ofText? t.text = some t ∧
      ∀ t' : Trace, t'.IsSound → t'.IsPortable → t'.text = t.text → t' = t) ∧
    ∀ source, ofText? source = some t →
      ofText? t.text = some t ∧ (ofText? t.text).map text = some t.text := by
  refine ⟨fun hsound => ?_, fun source hsource => ?_⟩
  · have hback := ofText?_text hsound h
    refine ⟨hback, fun t' hsound' h' htext => ?_⟩
    have hback' := ofText?_text hsound' h'
    rw [htext, hback] at hback'
    exact (Option.some.inj hback').symm
  · have hback := ofText?_text (isSound_of_ofText? hsource) h
    exact ⟨hback, by rw [hback, Option.map_some]⟩

/-- A trace with the extreme words, with characters that are escaped, with names that are out of
order, with a call, and with a missing condition and note. -/
def edgeTrace : Trace :=
  [⟨1, 3, .ofList [("z", .int (-9223372036854775808)), ("a", .int 18446744073709551615),
      ("\"", .object [("a", .string "\x01\x7f\n\\é𝄞"), ("b", .array [.null, .bool true])])],
    [⟨"f", .ofList [("n", .int 0)], 2⟩], ["", "\t"], none, none⟩,
   ⟨2, 18446744073709551615, .empty, [], [], some "a < 1", some ""⟩]

theorem allValues_edgeTrace {p : Value → Prop} (hint : ∀ n : Int, -wordBound ≤ n → n < wordCount →
      p (.int n))
    (hobject : p (.object [("a", .string "\x01\x7f\n\\é𝄞"), ("b", .array [.null, .bool true])])) :
    ∀ s ∈ edgeTrace, s.bindings.AllValues p ∧ ∀ f ∈ s.callStack, f.bindings.AllValues p := by
  intro s hs
  rcases List.mem_cons.1 hs with rfl | hs
  · have hparameter : Bindings.AllValues p (.ofList [("n", .int 0)]) :=
      Bindings.allValues_ofList (List.forall_mem_singleton.2 (hint 0 (by decide) (by decide)))
    refine ⟨Bindings.allValues_ofList ?_, List.forall_mem_singleton.2 hparameter⟩
    simp only [List.forall_mem_cons]
    exact ⟨hint _ (by decide) (by decide), hint _ (by decide) (by decide), hobject,
      List.forall_mem_nil _⟩
  · rw [List.mem_singleton.1 hs]
    exact ⟨Bindings.allValues_empty p, List.forall_mem_nil _⟩

theorem isSound_edgeTrace : edgeTrace.IsSound := by
  have hvalues := allValues_edgeTrace (p := Value.IsSound)
    (fun n hlow hhigh => ⟨trivial, hlow, hhigh⟩)
    ⟨⟨by decide, by simp [Value.IsNormal, Value.FieldsNormal, Value.ItemsNormal]⟩,
      by simp [Value.NumbersIn, Value.FieldNumbersIn, Value.ItemNumbersIn]⟩
  intro s hs
  obtain ⟨hbindings, hframes⟩ := hvalues s hs
  have hlines : s.index < wordCount ∧ s.line < wordCount ∧
      ∀ f ∈ s.callStack, f.line < wordCount := by
    simp only [edgeTrace, List.mem_cons, List.not_mem_nil, or_false] at hs
    rcases hs with rfl | rfl
    · decide
    · decide
  exact ⟨hlines.1, hlines.2.1, hbindings, fun f hf => ⟨hlines.2.2 f hf, hframes f hf⟩⟩

theorem isPortable_edgeTrace : edgeTrace.IsPortable where
  noFloat := allValues_edgeTrace (fun _ _ _ => trivial)
    (by simp [Value.NumbersIn, Value.FieldNumbersIn, Value.ItemNumbersIn])
  depth_le := by decide +kernel

theorem text_roundTrip_edgeTrace :
    edgeTrace.IsPortable ∧ edgeTrace.IsSound ∧ ofText? edgeTrace.text = some edgeTrace ∧
      (ofText? edgeTrace.text).map text = some edgeTrace.text := by
  obtain ⟨hsound, hsource⟩ := text_roundTrip isPortable_edgeTrace
  have hback := (hsound isSound_edgeTrace).1
  exact ⟨isPortable_edgeTrace, isSound_edgeTrace, hsource edgeTrace.text hback⟩

end Trace

end TraceTutor
