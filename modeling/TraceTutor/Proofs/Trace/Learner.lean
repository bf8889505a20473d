import TraceTutor.Proofs.Discrepancy
import TraceTutor.Proofs.Json.Double
import TraceTutor.Proofs.Trace.Codec
import TraceTutor.Session

/-!
# Saved traces as learners' traces

A trace that was saved and is loaded as a learner's trace is the same again, up to the order of the
names in its bindings (`Trace.ofLearnerText_of_isSavedAs`): the learner's document is read as a
value, which sorts them. What is around the trace in its document counts toward the nesting that a
reader bears (`Trace.ofLearnerText_eq_nil`).
-/

namespace TraceTutor

open Document

/-! ## Documents that pass through values -/

namespace Document

theorem toValues?_eq_some_iff {items : List Document} {values : List Value} :
    toValues? items = some values ↔
      List.Forall₂ (fun item v => item.toValue? = some v) items values := by
  induction items generalizing values with
  | nil => simp [toValues?, eq_comm]
  | cons item items ih =>
    unfold toValues?
    rw [List.forall₂_cons_left_iff]
    constructor
    · intro h
      split at h
      next v vs hv hvs =>
        cases h
        exact ⟨v, vs, hv, ih.1 hvs, rfl⟩
      next => cases h
    · rintro ⟨v, vs, hv, hvs, rfl⟩
      rw [hv, ih.2 hvs]

theorem toValueFields?_eq_some_iff {fields : List (String × Document)}
    {values : List (String × Value)} : toValueFields? fields = some values ↔
      List.Forall₂ (fun field value => value.1 = field.1 ∧ field.2.toValue? = some value.2)
        fields values := by
  induction fields generalizing values with
  | nil => simp [toValueFields?, eq_comm]
  | cons field fields ih =>
    obtain ⟨key, item⟩ := field
    unfold toValueFields?
    rw [List.forall₂_cons_left_iff]
    constructor
    · intro h
      split at h
      next v vs hv hvs =>
        cases h
        exact ⟨(key, v), vs, ⟨rfl, hv⟩, ih.1 hvs, rfl⟩
      next => cases h
    · rintro ⟨⟨_, v⟩, vs, ⟨rfl, hv⟩, hvs, rfl⟩
      rw [hv, ih.2 hvs]

/-- The value that is read where the document was written. -/
def reloaded? (d : Document) : Option Value :=
  d.reread.toValue?

theorem rereadItems_eq_map : ∀ items : List Document, rereadItems items = items.map reread
  | [] => rfl
  | item :: items => by rw [rereadItems, rereadItems_eq_map items, List.map_cons]

theorem rereadFields_eq_map : ∀ fields : List (String × Document),
    rereadFields fields = fields.map fun field => (field.1, field.2.reread)
  | [] => rfl
  | (key, item) :: fields => by rw [rereadFields, rereadFields_eq_map fields, List.map_cons]

mutual

theorem exists_reloaded? : ∀ {d : Document}, d.EveryLeaf (IsReadable Number.IsMachine) →
    ∃ v, d.reloaded? = some v
  | .null, _ => ⟨_, rfl⟩
  | .bool b, _ => ⟨_, rfl⟩
  | .string s, _ => ⟨_, rfl⟩
  | .number n, h => by
    obtain ⟨m, hm⟩ := exists_rereadNumber h
    exact ⟨.number m, by rw [reloaded?, reread, hm, toValue?]⟩
  | .array items, h => by
    obtain ⟨values, hvalues⟩ := exists_reloadedItems? h
    exact ⟨.array values, by rw [reloaded?, reread, toValue?, hvalues, Option.map_some]⟩
  | .object fields, h => by
    obtain ⟨values, hvalues⟩ := exists_reloadedFields? h
    exact ⟨.ofFields values, by rw [reloaded?, reread, toValue?, hvalues, Option.map_some]⟩

theorem exists_reloadedItems? : ∀ {items : List Document},
    EveryItemLeaf (IsReadable Number.IsMachine) items →
    ∃ values, toValues? (rereadItems items) = some values
  | [], _ => ⟨[], rfl⟩
  | item :: items, h => by
    obtain ⟨v, hv⟩ := exists_reloaded? h.1
    obtain ⟨values, hvalues⟩ := exists_reloadedItems? h.2
    have hv : item.reread.toValue? = some v := hv
    exact ⟨v :: values, by rw [rereadItems, toValues?, hv, hvalues]⟩

theorem exists_reloadedFields? : ∀ {fields : List (String × Document)},
    EveryFieldLeaf (IsReadable Number.IsMachine) fields →
    ∃ values, toValueFields? (rereadFields fields) = some values
  | [], _ => ⟨[], rfl⟩
  | (key, item) :: fields, h => by
    obtain ⟨v, hv⟩ := exists_reloaded? h.1
    obtain ⟨values, hvalues⟩ := exists_reloadedFields? h.2
    have hv : item.reread.toValue? = some v := hv
    exact ⟨(key, v) :: values, by rw [rereadFields, toValueFields?, hv, hvalues]⟩

end

/-- The document of the value that is read where the document was written. -/
def reloaded (d : Document) : Document :=
  d.reloaded?.elim unreadable ofValue

theorem reloaded_eq {d : Document} {v : Value} (h : d.reloaded? = some v) :
    d.reloaded = ofValue v := by
  unfold reloaded
  rw [h, Option.elim_some]

theorem reloaded_nat {n : Nat} (h : n < wordCount) : (nat n).reloaded = nat n := by
  have hexact := reread_eq_self (isExact_nat h)
  unfold reloaded reloaded?
  rw [hexact]
  rfl

/-- The items of an array are reloaded one by one. -/
theorem reloaded_array {items : List Document}
    (h : (array items).EveryLeaf (IsReadable Number.IsMachine)) :
    ∃ values, (array items).reloaded? = some (.array values) ∧
      values.map ofValue = items.map reloaded := by
  obtain ⟨values, hvalues⟩ := exists_reloadedItems? h
  refine ⟨values, congrArg (Option.map Value.array) hvalues, ?_⟩
  rw [rereadItems_eq_map, toValues?_eq_some_iff, List.forall₂_map_left_iff] at hvalues
  rw [← List.forall₂_eq_eq_eq, List.forall₂_map_left_iff, List.forall₂_map_right_iff]
  exact hvalues.flip.imp fun v item hv => (reloaded_eq hv).symm

theorem reloaded_strings (items : List String) : (strings items).reloaded = strings items := by
  have hreadable : (strings items).EveryLeaf (IsReadable Number.IsMachine) :=
    everyItemLeaf_iff.2 (List.forall_mem_map.2 fun _ _ => trivial)
  obtain ⟨values, hvalues, hmap⟩ := reloaded_array hreadable
  have hstrings : (items.map string).map reloaded = items.map string := by
    rw [List.map_map]
    rfl
  refine (reloaded_eq hvalues).trans ?_
  rw [ofValue, ofValues_eq_map, hmap, hstrings, strings]

/-- The fields of an object are reloaded one by one, and sorted. -/
theorem reloaded_object {fields : List (String × Document)}
    (h : (object fields).EveryLeaf (IsReadable Number.IsMachine))
    (hnodup : (fields.map Prod.fst).Nodup) :
    ∃ sorted, (object fields).reloaded? = some (.object sorted) ∧
      (sorted.map Prod.fst).Perm (fields.map Prod.fst) ∧
      (ofValueFields sorted).Perm (fields.map fun field => (field.1, field.2.reloaded)) := by
  obtain ⟨values, hvalues⟩ := exists_reloadedFields? h
  have hkeys : values.map Prod.fst = fields.map Prod.fst := by
    rw [map_fst_of_toValueFields? hvalues, rereadFields_eq_map, List.map_map]
    rfl
  obtain ⟨sorted, hsorted, hperm⟩ := Value.exists_perm_ofFields (hkeys ▸ hnodup)
  refine ⟨sorted, (congrArg (Option.map Value.ofFields) hvalues).trans (congrArg some hsorted),
    hkeys ▸ hperm.map Prod.fst, ?_⟩
  rw [rereadFields_eq_map, toValueFields?_eq_some_iff, List.forall₂_map_left_iff] at hvalues
  rw [ofValueFields_eq_map]
  refine (hperm.map _).trans (List.Perm.of_eq ?_)
  rw [← List.forall₂_eq_eq_eq, List.forall₂_map_left_iff, List.forall₂_map_right_iff]
  exact hvalues.flip.imp fun value field hv => Prod.ext hv.1 (reloaded_eq hv.2).symm

theorem SpellsRecord.reloaded {names : List (List String)} {parts : List (Option Document)}
    {fields : List (String × Document)} (h : SpellsRecord names parts fields) :
    SpellsRecord names (parts.map (Option.map Document.reloaded))
      (fields.map fun field => (field.1, field.2.reloaded)) := by
  refine List.forall₂_map_right_iff.2 (h.imp fun spellings part hpart => ?_)
  calc ((fields.map fun field => (field.1, field.2.reloaded)).filter
          fun field => spellings.contains field.1).map Prod.snd
      = ((fields.filter fun field => spellings.contains field.1).map Prod.snd).map
          Document.reloaded := by
        rw [List.filter_map, List.map_map, List.map_map]
        rfl
    _ = part.toList.map Document.reloaded := by rw [hpart]
    _ = (part.map Document.reloaded).toList := by cases part <;> rfl

end Document

/-! ## Equality up to order -/

/-- The bindings have the same entries, in whatever order. -/
def Bindings.SameUpToOrder (a b : Bindings) : Prop :=
  a.entries.Perm b.entries

/-- The calls differ in the order of names alone. -/
structure Frame.SameUpToOrder (f g : Frame) : Prop where
  name_eq : f.name = g.name
  bindings : f.bindings.SameUpToOrder g.bindings
  line_eq : f.line = g.line

/-- The snapshots differ in the order of names alone. -/
structure Snapshot.SameUpToOrder (s s' : Snapshot) : Prop where
  index_eq : s.index = s'.index
  line_eq : s.line = s'.line
  bindings : s.bindings.SameUpToOrder s'.bindings
  callStack : List.Forall₂ Frame.SameUpToOrder s.callStack s'.callStack
  emitted_eq : s.emitted = s'.emitted
  condition_eq : s.condition = s'.condition
  note_eq : s.note = s'.note

/-! ## Saved traces -/

/-- The document spells a call: its fields have any of their names and any order, and further fields
may stand among them. -/
def Frame.IsSpelledAs (f : Frame) (d : Document) : Prop :=
  ∃ fields, d = .object fields ∧ (fields.map Prod.fst).Nodup ∧
    SpellsRecord spellings (f.parts f.bindings.toDocument) fields

/-- The document spells a snapshot, in the same sense. -/
def Snapshot.IsSpelledAs (s : Snapshot) (d : Document) : Prop :=
  ∃ frames fields, List.Forall₂ Frame.IsSpelledAs s.callStack frames ∧ d = .object fields ∧
    (fields.map Prod.fst).Nodup ∧
    SpellsRecord fieldNames (s.parts s.bindings.toDocument frames) fields

/-- The document holds a trace for a learner: as an array, or as the array under `trace` or
`traceSteps` in an object. -/
inductive Trace.IsSavedAs (t : Trace) : Document → Prop
  | bare {steps : List Document} : List.Forall₂ Snapshot.IsSpelledAs t steps →
      IsSavedAs t (.array steps)
  | underTrace {steps : List Document} {fields : List (String × Document)} :
      List.Forall₂ Snapshot.IsSpelledAs t steps → (fields.map Prod.fst).Nodup →
      ("trace", .array steps) ∈ fields → IsSavedAs t (.object fields)
  | underTraceSteps {steps : List Document} {fields : List (String × Document)} :
      List.Forall₂ Snapshot.IsSpelledAs t steps → (fields.map Prod.fst).Nodup →
      "trace" ∉ fields.map Prod.fst → ("traceSteps", .array steps) ∈ fields →
      IsSavedAs t (.object fields)

theorem Frame.isSpelledAs_toDocument (f : Frame) : f.IsSpelledAs f.toDocument :=
  f.spells_toDocument

theorem Snapshot.isSpelledAs_toDocument (s : Snapshot) : s.IsSpelledAs s.toDocument := by
  obtain ⟨fields, hfields, hnodup, hspells⟩ := s.spells_toDocument
  refine ⟨_, fields, ?_, hfields, hnodup, hspells⟩
  exact List.forall₂_map_right_iff.2 (List.forall₂_same.2 fun f _ => f.isSpelledAs_toDocument)

theorem Trace.forall₂_isSpelledAs (t : Trace) :
    List.Forall₂ Snapshot.IsSpelledAs t (t.map Snapshot.toDocument) :=
  List.forall₂_map_right_iff.2 (List.forall₂_same.2 fun s _ => s.isSpelledAs_toDocument)

/-- A trace is saved by its own document. -/
theorem Trace.isSavedAs_toDocument (t : Trace) : t.IsSavedAs t.toDocument :=
  .bare t.forall₂_isSpelledAs

/-- A trace is saved by the report on its run. -/
theorem Report.isSavedAs_toDocument (r : Report) (elapsed : Nat) :
    r.run.trace.IsSavedAs (r.toDocument elapsed) := by
  refine .underTrace r.run.trace.forall₂_isSpelledAs ?_ (List.mem_append_left _
    (List.mem_append_left _ ?_))
  · cases r.run.fault <;> simp [Snapshot.optionalField]
  · simp [Trace.toDocument]

/-! ## Loading -/

namespace Bindings

theorem exists_ofDocument?_reloaded {b : Bindings} (h : b.AllValues Value.IsSound)
    (hints : b.AllValues (Value.NumbersIn Number.IsInt)) :
    ∃ b', ofDocument? b.toDocument.reloaded = some b' ∧ b'.SameUpToOrder b := by
  have hnormal : ∀ entry ∈ b.entries, entry.2.IsNormal := fun entry hentry =>
    (h entry hentry).normal
  have hreread := reread_eq_self (isExact_toDocument h hints)
  obtain ⟨sorted, hsorted, hperm⟩ := Value.exists_perm_ofFields b.nodup_names
  have hreloaded : b.toDocument.reloaded = .object (ofValueFields sorted) := by
    refine reloaded_eq (v := .object sorted) ?_
    unfold reloaded?
    rw [hreread, toDocument_eq, toValue?,
      toValueFields?_ofValueFields (Value.fieldsNormal_iff.2 hnormal), Option.map_some, hsorted]
  have hsortedNormal : ∀ entry ∈ sorted, entry.2.IsNormal := fun entry hentry =>
    hnormal entry (hperm.mem_iff.1 hentry)
  have hread := ofDocument?_ofValueFields hsortedNormal
  refine ⟨_, hreloaded ▸ hread, ?_⟩
  unfold SameUpToOrder
  rw [NameMap.entries_ofList ((hperm.map Prod.fst).nodup_iff.2 b.nodup_names)]
  exact hperm

end Bindings

namespace Frame

theorem exists_ofDocument?_reloaded {f : Frame} {d : Document} (hd : f.IsSpelledAs d)
    (hreadable : d.EveryLeaf (IsReadable Number.IsMachine)) (h : f.IsSound)
    (hints : f.bindings.AllValues (Value.NumbersIn Number.IsInt)) :
    ∃ f', ofDocument? d.reloaded = some f' ∧ f'.SameUpToOrder f := by
  obtain ⟨fields, rfl, hnodup, hspells⟩ := hd
  obtain ⟨sorted, hsorted, -, hperm⟩ := reloaded_object hreadable hnodup
  obtain ⟨b', hb', hsame⟩ := Bindings.exists_ofDocument?_reloaded h.values hints
  have hparts : (f.parts f.bindings.toDocument).map (Option.map Document.reloaded) =
      Frame.parts ⟨f.name, b', f.line⟩ f.bindings.toDocument.reloaded := by
    have hline := reloaded_nat h.line_lt
    simp [parts, hline]
    rfl
  have hspells := (hparts ▸ hspells.reloaded).of_perm hperm
  refine ⟨⟨f.name, b', f.line⟩, ?_, rfl, hsame, rfl⟩
  rw [reloaded_eq hsorted, ofValue]
  exact ofDocument?_of_spells hspells hb' h.line_lt

end Frame

/-- Lists whose members correspond have a list of what each pair of members yields. -/
theorem exists_forall₂_of_forall₂ {α β γ : Type} {R : α → β → Prop} {P : β → γ → Prop}
    {Q : γ → α → Prop} {as : List α} {bs : List β} (h : List.Forall₂ R as bs)
    (hstep : ∀ a ∈ as, ∀ b ∈ bs, R a b → ∃ c, P b c ∧ Q c a) :
    ∃ cs, List.Forall₂ P bs cs ∧ List.Forall₂ Q cs as := by
  induction h with
  | nil => exact ⟨[], .nil, .nil⟩
  | cons hab _ ih =>
    obtain ⟨c, hc, hca⟩ := hstep _ List.mem_cons_self _ List.mem_cons_self hab
    obtain ⟨cs, hcs, hcas⟩ := ih fun a ha b hb =>
      hstep a (List.mem_cons_of_mem _ ha) b (List.mem_cons_of_mem _ hb)
    exact ⟨c :: cs, .cons hc hcs, .cons hca hcas⟩

namespace Snapshot

theorem exists_ofDocument?_reloaded {s : Snapshot} {d : Document} (hd : s.IsSpelledAs d)
    (hreadable : d.EveryLeaf (IsReadable Number.IsMachine)) (h : s.IsSound)
    (hints : s.bindings.AllValues (Value.NumbersIn Number.IsInt))
    (hframeInts : ∀ f ∈ s.callStack, f.bindings.AllValues (Value.NumbersIn Number.IsInt)) :
    ∃ s', ofDocument? d.reloaded = some s' ∧ s'.SameUpToOrder s := by
  obtain ⟨frames, fields, hframes, rfl, hnodup, hspells⟩ := hd
  obtain ⟨sorted, hsorted, -, hperm⟩ := reloaded_object hreadable hnodup
  obtain ⟨b', hb', hsame⟩ := Bindings.exists_ofDocument?_reloaded h.values hints
  have harray : (array frames).EveryLeaf (IsReadable Number.IsMachine) :=
    everyLeaf_of_record? hreadable (record?_of_spellsRecord hspells) (by simp [parts])
  obtain ⟨values, hvalues, hmap⟩ := reloaded_array harray
  have hcalls : ∀ f ∈ s.callStack, ∀ d ∈ frames, f.IsSpelledAs d →
      ∃ f', Frame.ofDocument? d.reloaded = some f' ∧ f'.SameUpToOrder f := fun f hf d hd hspelled =>
    Frame.exists_ofDocument?_reloaded hspelled (everyItemLeaf_iff.1 harray d hd) (h.frames f hf)
      (hframeInts f hf)
  obtain ⟨callStack, hcallStack, hsameCalls⟩ := exists_forall₂_of_forall₂ hframes hcalls
  let s' : Snapshot := { s with bindings := b', callStack := callStack }
  have hparts : (s.parts s.bindings.toDocument frames).map (Option.map Document.reloaded) =
      s'.parts s.bindings.toDocument.reloaded (frames.map Document.reloaded) := by
    have hindex := reloaded_nat h.index_lt
    have hline := reloaded_nat h.line_lt
    have hemitted := reloaded_strings s.emitted
    have hstack : (array frames).reloaded = array (frames.map Document.reloaded) := by
      rw [reloaded_eq hvalues, ofValue, ofValues_eq_map, hmap]
    have htext : ∀ text : Option String,
        (text.map Document.string).map Document.reloaded = text.map Document.string := by
      intro text
      cases text <;> rfl
    simp [parts, s', hindex, hline, hemitted, hstack, -Option.map_map, htext]
  refine ⟨s', ?_, rfl, rfl, hsame, hsameCalls, rfl, rfl, rfl⟩
  rw [reloaded_eq hsorted, ofValue]
  exact ofDocument?_of_spells ((hparts ▸ hspells.reloaded).of_perm hperm) hb'
    (List.forall₂_map_left_iff.2 hcallStack) h.index_lt h.line_lt

end Snapshot

namespace Trace

theorem ofLearner_of_forall₂ {document : Value} {t : Trace}
    (h : List.Forall₂ (fun d s => Snapshot.ofDocument? d = some s)
      ((learnerSteps document).map ofValue) t) : ofLearner document = t := by
  rw [List.forall₂_map_left_iff] at h
  unfold ofLearner
  refine List.ext_getElem (by rw [List.length_mapIdx, h.length_eq]) fun i hi hi' => ?_
  have hstep := h.get (by simpa using hi) hi'
  rw [List.get_eq_getElem, List.get_eq_getElem] at hstep
  rw [List.getElem_mapIdx, hstep, Option.getD_some]

/-- An array under a key of an object is still there where the object is read as a value. -/
theorem exists_reloaded_array {fields : List (String × Document)} {key : String}
    {steps : List Document} (hreadable : (object fields).EveryLeaf (IsReadable Number.IsMachine))
    (hnodup : (fields.map Prod.fst).Nodup) (hmem : (key, array steps) ∈ fields) :
    ∃ sorted values, (object fields).reloaded? = some (.object sorted) ∧
      (sorted.map Prod.fst).Perm (fields.map Prod.fst) ∧
      sorted.lookup key = some (.array values) ∧ values.map ofValue = steps.map reloaded := by
  obtain ⟨sorted, hsorted, hkeys, hperm⟩ := reloaded_object hreadable hnodup
  obtain ⟨values, hvalues, hmap⟩ := reloaded_array (everyFieldLeaf_iff.1 hreadable _ hmem)
  rw [ofValueFields_eq_map] at hperm
  have hfound : (key, ofValue (.array values)) ∈
      sorted.map fun field => (field.1, ofValue field.2) :=
    hperm.mem_iff.2 (List.mem_map.2 ⟨_, hmem, Prod.ext rfl (reloaded_eq hvalues)⟩)
  obtain ⟨⟨_, v⟩, hfield, heq⟩ := List.mem_map.1 hfound
  obtain ⟨rfl, hv⟩ := Prod.mk.inj heq
  cases v with
  | array found =>
    have hitems : ofValues found = ofValues values := Document.array.inj hv
    rw [ofValues_eq_map, ofValues_eq_map] at hitems
    exact ⟨sorted, found, hsorted, hkeys,
      (NameMap.lookup_eq_some_iff_mem (hkeys.nodup_iff.2 hnodup)).2 hfield, hitems.trans hmap⟩
  | _ => cases hv

/-- The steps of a saved trace, where the document is read as a value. -/
theorem exists_learnerSteps {t : Trace} {d : Document} (hd : t.IsSavedAs d)
    (hreadable : d.EveryLeaf (IsReadable Number.IsMachine)) :
    ∃ steps v, List.Forall₂ Snapshot.IsSpelledAs t steps ∧
      (array steps).EveryLeaf (IsReadable Number.IsMachine) ∧ d.reloaded? = some v ∧
      (learnerSteps v).map ofValue = steps.map reloaded := by
  cases hd with
  | bare hsteps =>
    obtain ⟨values, hvalues, hmap⟩ := reloaded_array hreadable
    exact ⟨_, _, hsteps, hreadable, hvalues, hmap⟩
  | underTrace hsteps hnodup hmem =>
    obtain ⟨sorted, values, hsorted, -, hlookup, hmap⟩ :=
      exists_reloaded_array hreadable hnodup hmem
    refine ⟨_, _, hsteps, everyFieldLeaf_iff.1 hreadable _ hmem, hsorted, ?_⟩
    simpa [learnerSteps, hlookup] using hmap
  | underTraceSteps hsteps hnodup habsent hmem =>
    obtain ⟨sorted, values, hsorted, hkeys, hlookup, hmap⟩ :=
      exists_reloaded_array hreadable hnodup hmem
    have hnone : sorted.lookup "trace" = none := by
      refine List.lookup_eq_none_iff.2 fun field hfield => ?_
      have hkey := hkeys.mem_iff.1 (List.mem_map_of_mem hfield)
      have hne : field.1 ≠ "trace" := fun heq => habsent (heq ▸ hkey)
      simpa using hne.symm
    refine ⟨_, _, hsteps, everyFieldLeaf_iff.1 hreadable _ hmem, hsorted, ?_⟩
    simpa [learnerSteps, hlookup, hnone] using hmap

/-- A saved trace is the same trace for a learner, up to the order of names. -/
theorem ofLearnerText_sameUpToOrder {t : Trace} {d : Document} {text : String} (hd : t.IsSavedAs d)
    (htext : d.IsWrittenAs text) (hdepth : d.depth ≤ maxDepth)
    (hreadable : d.EveryLeaf (IsReadable Number.IsMachine)) (h : t.IsSound) (hints : t.HasNoFloat) :
    List.Forall₂ Snapshot.SameUpToOrder (ofLearnerText text) t := by
  obtain ⟨steps, v, hspelled, hsteps, hv, hmap⟩ := exists_learnerSteps hd hreadable
  have hstep : ∀ s ∈ t, ∀ d ∈ steps, s.IsSpelledAs d →
      ∃ s', Snapshot.ofDocument? d.reloaded = some s' ∧ s'.SameUpToOrder s := by
    intro s hs d hd hspelled
    exact Snapshot.exists_ofDocument?_reloaded hspelled (everyItemLeaf_iff.1 hsteps d hd) (h s hs)
      (hints s hs).1 (hints s hs).2
  obtain ⟨t', hread, hsame⟩ := exists_forall₂_of_forall₂ hspelled hstep
  have hlearner : ofLearner v = t' := by
    refine ofLearner_of_forall₂ ?_
    rw [hmap, List.forall₂_map_left_iff]
    exact hread
  have hvalue : readToValue? text = some v := by
    unfold readToValue?
    rw [read?_of_isWrittenAs htext hdepth]
    exact hv
  unfold ofLearnerText
  rw [hvalue, Option.elim_some, hlearner]
  exact hsame

end Trace

/-! ## No discrepancies -/

/-- Traces that differ in the order of names alone have no discrepancies. -/
theorem discrepancies_eq_nil_of_sameUpToOrder {t t' : Trace} (ht : t.IsNormal)
    (h : List.Forall₂ Snapshot.SameUpToOrder t' t) : discrepancies t' t = [] := by
  refine List.eq_nil_iff_forall_not_mem.2 fun d hd => ?_
  obtain ⟨position, hl, hg, -, hbetween⟩ := mem_discrepancies.1 hd
  have hsame : t'[position].SameUpToOrder t[position] := h.get hl hg
  have hdiffer := hbetween.differ
  rw [NameMap.get?_eq_of_perm hsame.bindings] at hdiffer
  cases hv : t[position].bindings.get? d.name with
  | none =>
    rw [hv] at hdiffer
    cases hdiffer
  | some v =>
    have hnormal := ht _ (List.getElem_mem hg) d.name v hv
    have hequal : Slot.same (some v) (some v) = true := Value.same_refl hnormal
    rw [hv, hequal] at hdiffer
    cases hdiffer

theorem Trace.IsSound.isNormal {t : Trace} (h : t.IsSound) : t.IsNormal := by
  intro s hs name v hv
  have hentry := (NameMap.lookup_eq_some_iff_mem s.bindings.nodup_names).1 hv
  exact ((h s hs).values _ hentry).normal

/-! ## Saving and loading -/

namespace Trace

/-- A trace without doubles survives being saved and loaded as a learner's trace. Its own document
and the report on its run save it. Whatever text is written for a document that saves it, under
whichever names, it is loaded as the same trace up to the order of names, as long as that document,
with what is around the trace in it, nests within the bound. So no discrepancy is found between the
two. -/
theorem ofLearnerText_of_isSavedAs {t : Trace} (h : t.IsSound) (hints : t.HasNoFloat) :
    t.IsSavedAs t.toDocument ∧
    (∀ (r : Report) (elapsed : Nat), r.run.trace = t → t.IsSavedAs (r.toDocument elapsed)) ∧
    ∀ (d : Document) (text : String), t.IsSavedAs d → d.IsWrittenAs text → d.depth ≤ maxDepth →
      d.EveryLeaf (IsReadable Number.IsMachine) →
      List.Forall₂ Snapshot.SameUpToOrder (ofLearnerText text) t ∧
        discrepancies (ofLearnerText text) t = [] := by
  refine ⟨isSavedAs_toDocument t, fun r elapsed hr => ?_, ?_⟩
  · subst hr
    exact Report.isSavedAs_toDocument r elapsed
  · intro d text hd htext hdepth hreadable
    have hsame := ofLearnerText_sameUpToOrder hd htext hdepth hreadable h hints
    exact ⟨hsame, discrepancies_eq_nil_of_sameUpToOrder h.isNormal hsame⟩

/-- A trace of one snapshot with a call, a condition and no note. -/
def callTrace : Trace :=
  [⟨1, 2, .ofList [("b", .int 1), ("a", .string "x")], [⟨"f", .empty, 2⟩], ["1"], some "b < 3",
    none⟩]

/-- The trace under the older names, with its fields out of order, next to a double. -/
def legacyDocument : Document :=
  .object [("score", .number (.float ⟨false, Finite64.one⟩)),
    ("traceSteps", .array [.object [("output", .strings ["1"]),
      ("stack", .array [.object [("line", .nat 2), ("variables", .object []),
        ("functionName", .string "f")]]),
      ("variables", .object [("b", .int 1), ("a", .string "x")]), ("condition", .string "b < 3"),
      ("line", .nat 2), ("step", .nat 1)]])]

theorem isSavedAs_legacyDocument : callTrace.IsSavedAs legacyDocument := by
  have hcall : Frame.IsSpelledAs ⟨"f", .empty, 2⟩ (.object [("line", .nat 2),
      ("variables", .object []), ("functionName", .string "f")]) :=
    ⟨_, rfl, by decide, .cons rfl (.cons rfl (.cons rfl .nil))⟩
  refine .underTraceSteps (.cons ⟨_, _, .cons hcall .nil, rfl, by decide, ?_⟩ .nil) (by decide)
    (by decide) (List.mem_cons_of_mem _ List.mem_cons_self)
  exact .cons rfl (.cons rfl (.cons rfl (.cons rfl (.cons rfl (.cons rfl (.cons rfl .nil))))))

theorem allValues_callTrace {p : Value → Prop} (hint : p (.int 1)) (hstring : p (.string "x")) :
    ∀ s ∈ callTrace, s.bindings.AllValues p ∧ ∀ f ∈ s.callStack, f.bindings.AllValues p := by
  refine List.forall_mem_singleton.2 ⟨Bindings.allValues_ofList ?_, ?_⟩
  · exact List.forall_mem_cons.2 ⟨hint, List.forall_mem_singleton.2 hstring⟩
  · exact List.forall_mem_singleton.2 (Bindings.allValues_empty p)

theorem isSound_callTrace : callTrace.IsSound := by
  have hvalues := allValues_callTrace (p := Value.IsSound)
    ⟨trivial, by decide, by decide⟩ ⟨trivial, trivial⟩
  refine List.forall_mem_singleton.2 ?_
  obtain ⟨hbindings, hframes⟩ := hvalues _ List.mem_cons_self
  refine ⟨by decide, by decide, hbindings, List.forall_mem_singleton.2 ?_⟩
  exact ⟨by decide, hframes _ List.mem_cons_self⟩

theorem hasNoFloat_callTrace : callTrace.HasNoFloat :=
  allValues_callTrace trivial trivial

theorem ofLearnerText_legacyDocument :
    callTrace.IsSound ∧ callTrace.HasNoFloat ∧ callTrace.IsSavedAs legacyDocument ∧
    List.Forall₂ Snapshot.SameUpToOrder (ofLearnerText legacyDocument.pretty) callTrace ∧
      discrepancies (ofLearnerText legacyDocument.pretty) callTrace = [] := by
  obtain ⟨-, -, hload⟩ := ofLearnerText_of_isSavedAs isSound_callTrace hasNoFloat_callTrace
  have hscore : Finite64.IsRepresentable ⟨false, Finite64.one⟩ :=
    ⟨by decide +kernel, by decide +kernel⟩
  have hreadable : legacyDocument.EveryLeaf (IsReadable Number.IsMachine) := by
    simp [legacyDocument, strings, nat, Document.int, EveryLeaf, EveryItemLeaf, EveryFieldLeaf,
      IsReadable, Number.IsMachine, wordBound, wordCount, hscore]
  exact ⟨isSound_callTrace, hasNoFloat_callTrace, isSavedAs_legacyDocument,
    hload legacyDocument legacyDocument.pretty isSavedAs_legacyDocument
      (isWrittenAs_pretty legacyDocument) (by decide +kernel) hreadable⟩

/-! ## Too much nesting -/

/-- Nothing is loaded from a document that nests beyond the bound. -/
theorem ofLearnerText_eq_nil {d : Document} {text : String} (htext : d.IsWrittenAs text)
    (hdepth : maxDepth < d.depth) : ofLearnerText text = [] := by
  unfold ofLearnerText
  rw [readToValue?_of_isWrittenAs htext hdepth, Option.elim_none]

/-- Arrays around each other. -/
def nested : Nat → Value
  | 0 => .array []
  | n + 1 => .array [nested n]

theorem isSound_nested (n : Nat) : (nested n).IsSound := by
  induction n with
  | zero => exact ⟨trivial, trivial⟩
  | succ n ih => exact ⟨⟨ih.normal, trivial⟩, ⟨ih.numbers, trivial⟩⟩

theorem numbersIn_nested (p : Number → Prop) (n : Nat) : (nested n).NumbersIn p := by
  induction n with
  | zero => trivial
  | succ n ih => exact ⟨ih, trivial⟩

/-- A trace whose document nests just within the bound. -/
def deepTrace : Trace :=
  [⟨1, 1, .ofList [("x", nested 123)], [], [], none, none⟩]

theorem allValues_deepTrace {p : Value → Prop} (h : p (nested 123)) :
    ∀ s ∈ deepTrace, s.bindings.AllValues p ∧ ∀ f ∈ s.callStack, f.bindings.AllValues p :=
  List.forall_mem_singleton.2
    ⟨Bindings.allValues_ofList (List.forall_mem_singleton.2 h), List.forall_mem_nil _⟩

/-- The bound is on the whole document: one object around a trace that stays within it can be too
much. -/
theorem ofLearnerText_deepTrace :
    deepTrace.IsSound ∧ deepTrace.HasNoFloat ∧ deepTrace.toDocument.depth ≤ maxDepth ∧
    deepTrace.IsSavedAs (.object [("trace", deepTrace.toDocument)]) ∧
    ¬List.Forall₂ Snapshot.SameUpToOrder
      (ofLearnerText (compact (.object [("trace", deepTrace.toDocument)]))) deepTrace := by
  have hbindings := (allValues_deepTrace (isSound_nested 123) _ List.mem_cons_self).1
  have hsound : deepTrace.IsSound :=
    List.forall_mem_singleton.2 ⟨by decide, by decide, hbindings, List.forall_mem_nil _⟩
  have hints : deepTrace.HasNoFloat := allValues_deepTrace (numbersIn_nested _ 123)
  have hsaved : deepTrace.IsSavedAs (.object [("trace", deepTrace.toDocument)]) :=
    .underTrace deepTrace.forall₂_isSpelledAs (by decide) List.mem_cons_self
  refine ⟨hsound, hints, by decide +kernel, hsaved, fun h => ?_⟩
  rw [ofLearnerText_eq_nil (isWrittenAs_compact _) (by decide +kernel)] at h
  cases h

end Trace

end TraceTutor
