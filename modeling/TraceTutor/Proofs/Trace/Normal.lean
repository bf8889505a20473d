import TraceTutor.Proofs.Value.Normal
import TraceTutor.Trace.Document

/-!
# Traces that are read from documents

Whatever a document holds, the values that are read from it are in normal form, and so is the trace
of a learner (`Trace.isNormal_ofLearnerText`): a document may repeat the fields of an object or give
them in any order, but reading it sorts them and keeps the last one of each key.
-/

namespace TraceTutor

/-! ## Values -/

namespace Document

open Value

mutual

theorem isNormal_of_toValue? : ∀ {d : Document} {v : Value}, d.toValue? = some v → v.IsNormal
  | .null, _, h | .bool _, _, h | .number _, _, h | .string _, _, h => by
    unfold toValue? at h
    cases h
    trivial
  | .array items, v, h => by
    unfold toValue? at h
    obtain ⟨values, hvalues, rfl⟩ := Option.map_eq_some_iff.1 h
    exact itemsNormal_of_toValues? hvalues
  | .object fields, v, h => by
    unfold toValue? at h
    obtain ⟨values, hvalues, rfl⟩ := Option.map_eq_some_iff.1 h
    exact isNormal_ofFields (fieldsNormal_iff.1 (fieldsNormal_of_toValueFields? hvalues))
  | .unreadable, _, h => by
    unfold toValue? at h
    cases h

theorem itemsNormal_of_toValues? : ∀ {ds : List Document} {vs : List Value},
    toValues? ds = some vs → ItemsNormal vs
  | [], _, h => by
    unfold toValues? at h
    cases h
    trivial
  | d :: ds, _, h => by
    unfold toValues? at h
    split at h
    next v vs hv hvs =>
      cases h
      exact ⟨isNormal_of_toValue? hv, itemsNormal_of_toValues? hvs⟩
    next => cases h

theorem fieldsNormal_of_toValueFields? : ∀ {ds : List (String × Document)}
    {vs : List (String × Value)}, toValueFields? ds = some vs → FieldsNormal vs
  | [], _, h => by
    unfold toValueFields? at h
    cases h
    trivial
  | (key, d) :: ds, _, h => by
    unfold toValueFields? at h
    split at h
    next v vs hv hvs =>
      cases h
      exact ⟨isNormal_of_toValue? hv, fieldsNormal_of_toValueFields? hvs⟩
    next => cases h

end

end Document

/-! ## Traces -/

theorem Bindings.isNormal_of_ofDocument? {d : Document} {b : Bindings}
    (h : ofDocument? d = some b) : b.IsNormal := by
  cases d with
  | null =>
    cases h
    exact isNormal_empty
  | object fields =>
    obtain ⟨values, hvalues, rfl⟩ := Option.map_eq_some_iff.1 h
    exact isNormal_empty.setAll
      (Value.fieldsNormal_iff.1 (Document.fieldsNormal_of_toValueFields? hvalues))
  | _ => cases h

theorem Snapshot.isNormal_bindings_of_ofDocument? {d : Document} {s : Snapshot}
    (h : ofDocument? d = some s) : s.bindings.IsNormal := by
  unfold ofDocument? at h
  obtain ⟨parts, -, h⟩ := Option.bind_eq_some_iff.1 h
  split at h
  next index line bindings callStack emitted condition note =>
    simp only [Option.bind_eq_bind, Option.bind_eq_some_iff] at h
    obtain ⟨_, -, _, -, b, hb, _, -, _, -, _, -, _, -, hs⟩ := h
    cases hs
    cases bindings with
    | none =>
      cases hb
      exact Bindings.isNormal_empty
    | some d => exact Bindings.isNormal_of_ofDocument? hb
  next => cases h

theorem Trace.isNormal_ofLearner (document : Value) : (ofLearner document).IsNormal := by
  intro s hs
  obtain ⟨position, h, rfl⟩ := List.mem_mapIdx.1 hs
  cases hread : Snapshot.ofDocument? (.ofValue (learnerSteps document)[position]) with
  | none => exact Bindings.isNormal_empty
  | some s => exact Snapshot.isNormal_bindings_of_ofDocument? hread

theorem Trace.isNormal_ofLearnerText (text : String) : (ofLearnerText text).IsNormal := by
  unfold ofLearnerText
  cases Document.readToValue? text with
  | none => exact fun s hs => absurd hs List.not_mem_nil
  | some document => exact isNormal_ofLearner document

end TraceTutor
