import Mathlib.Data.List.Nodup
import TraceTutor.Discrepancy
import TraceTutor.Proofs.Value.Equality

/-!
# The difference of two traces

`discrepancies` is the difference of two traces position by position: it holds a discrepancy for
every variable bound at a position of both traces whose values there differ, each once and in a
fixed order (`discrepancies_eq_difference`). It sees the same differences from either side, with
predicted and actual values swapped (`discrepancies_swap`).
-/

namespace TraceTutor

/-! ## What is compared, and in which order -/

/-- The order of the variables at a position: those of the generated snapshot in their order, and
then those that only the learner bound, in theirs. -/
inductive NameBefore (predicted actual : Bindings) (v w : String) : Prop
  | generated : List.Sublist [v, w] actual.names → NameBefore predicted actual v w
  | mixed : v ∈ actual.names → w ∉ actual.names → NameBefore predicted actual v w
  | learner : v ∉ actual.names → w ∉ actual.names → List.Sublist [v, w] predicted.names →
      NameBefore predicted actual v w

theorem NameBefore.ne {predicted actual : Bindings} {v w : String}
    (h : NameBefore predicted actual v w) : v ≠ w := by
  rintro rfl
  cases h with
  | generated hsublist => simpa using hsublist.nodup actual.nodup_names
  | mixed hv hw => exact hw hv
  | learner _ _ hsublist => simpa using hsublist.nodup predicted.nodup_names

theorem mem_comparedNames {predicted actual : Bindings} {name : String} :
    name ∈ comparedNames predicted actual ↔
      predicted.contains name = true ∨ actual.contains name = true := by
  rw [comparedNames, List.mem_append, List.mem_filter, NameMap.not_contains_iff_not_mem_names,
    NameMap.contains_iff_mem_names, NameMap.contains_iff_mem_names]
  by_cases hactual : name ∈ actual.names
  · exact ⟨fun _ => .inr hactual, fun _ => .inl hactual⟩
  · exact ⟨fun h => .inl (h.resolve_left hactual).1,
      fun h => .inr ⟨h.resolve_right hactual, hactual⟩⟩

theorem pairwise_comparedNames (predicted actual : Bindings) :
    (comparedNames predicted actual).Pairwise (NameBefore predicted actual) := by
  have hunbound : ∀ {name}, name ∈ predicted.names.filter (fun name => !actual.contains name) →
      name ∉ actual.names :=
    fun hname => (NameMap.not_contains_iff_not_mem_names _ _).1 (List.mem_filter.1 hname).2
  refine List.pairwise_append.2 ⟨?_, ?_, fun v hv w hw => .mixed hv (hunbound hw)⟩
  · exact List.pairwise_iff_forall_sublist.2 .generated
  · refine List.pairwise_iff_forall_sublist.2 fun {v w} hsublist => ?_
    have hv := hunbound (hsublist.subset List.mem_cons_self)
    have hw := hunbound (hsublist.subset (List.mem_cons_of_mem _ List.mem_cons_self))
    exact .learner hv hw (hsublist.trans List.filter_sublist)

/-! ## One position -/

namespace Discrepancy

/-- The discrepancy tells of a variable that one of two snapshots binds, and of its values in both,
which differ. -/
structure IsBetween (predicted actual : Bindings) (d : Discrepancy) : Prop where
  bound : predicted.contains d.name = true ∨ actual.contains d.name = true
  predicted_eq : d.predicted = predicted.get? d.name
  actual_eq : d.actual = actual.get? d.name
  differ : Slot.same (predicted.get? d.name) (actual.get? d.name) = false

end Discrepancy

theorem mem_discrepanciesAt {step : Nat} {predicted actual : Bindings} {d : Discrepancy} :
    d ∈ discrepanciesAt step predicted actual ↔ d.step = step ∧ d.IsBetween predicted actual := by
  unfold discrepanciesAt
  rw [List.mem_filterMap]
  constructor
  · rintro ⟨name, hname, hd⟩
    dsimp only at hd
    split at hd
    next => cases hd
    next hdiffer =>
      cases hd
      exact ⟨rfl, mem_comparedNames.1 hname, rfl, rfl, Bool.eq_false_iff.2 hdiffer⟩
  · rintro ⟨rfl, hd⟩
    refine ⟨d.name, mem_comparedNames.2 hd.bound, ?_⟩
    dsimp only
    rw [if_neg (Bool.eq_false_iff.1 hd.differ), ← hd.predicted_eq, ← hd.actual_eq]

theorem pairwise_discrepanciesAt (step : Nat) (predicted actual : Bindings) :
    (discrepanciesAt step predicted actual).Pairwise fun d d' =>
      NameBefore predicted actual d.name d'.name := by
  refine List.pairwise_filterMap.2 ((pairwise_comparedNames predicted actual).imp ?_)
  intro v w hbefore d hd d' hd'
  dsimp only at hd hd'
  split at hd
  · cases hd
  · split at hd'
    · cases hd'
    · cases hd
      cases hd'
      exact hbefore

/-! ## All positions -/

namespace Discrepancy

/-- The order in which discrepancies are reported: by position, and by variable within one. -/
inductive Before (learner generated : Trace) (d d' : Discrepancy) : Prop
  | step : d.step < d'.step → Before learner generated d d'
  | name (position : Nat) (hl : position < learner.length) (hg : position < generated.length) :
      d.step = position + 1 → d'.step = position + 1 →
      NameBefore learner[position].bindings generated[position].bindings d.name d'.name →
      Before learner generated d d'

end Discrepancy

section

variable {learner generated : Trace}

theorem mem_discrepancies {d : Discrepancy} : d ∈ discrepancies learner generated ↔
    ∃ (position : Nat) (hl : position < learner.length) (hg : position < generated.length),
      d.step = position + 1 ∧
      d.IsBetween learner[position].bindings generated[position].bindings := by
  unfold discrepancies
  rw [List.mem_flatten]
  constructor
  · rintro ⟨ds, hds, hd⟩
    obtain ⟨position, h, rfl⟩ := List.mem_mapIdx.1 hds
    rw [List.length_zip] at h
    rw [List.getElem_zip] at hd
    obtain ⟨hl, hg⟩ := lt_min_iff.1 h
    exact ⟨position, hl, hg, mem_discrepanciesAt.1 hd⟩
  · rintro ⟨position, hl, hg, hd⟩
    have h : position < (learner.zip generated).length := by
      rw [List.length_zip]
      exact lt_min hl hg
    refine ⟨_, List.mem_mapIdx.2 ⟨position, h, rfl⟩, ?_⟩
    rw [List.getElem_zip]
    exact mem_discrepanciesAt.2 hd

theorem pairwise_discrepancies (learner generated : Trace) :
    (discrepancies learner generated).Pairwise (Discrepancy.Before learner generated) := by
  refine List.pairwise_flatten.2 ⟨fun ds hds => ?_, ?_⟩
  · obtain ⟨position, h, rfl⟩ := List.mem_mapIdx.1 hds
    obtain ⟨hl, hg⟩ := lt_min_iff.1 (List.length_zip ▸ h)
    rw [List.getElem_zip]
    refine (pairwise_discrepanciesAt _ _ _).imp_of_mem fun {d d'} hd hd' hbefore => ?_
    exact .name position hl hg (mem_discrepanciesAt.1 hd).1 (mem_discrepanciesAt.1 hd').1 hbefore
  · refine List.pairwise_iff_getElem.2 fun i j hi hj hlt d hd d' hd' => .step ?_
    rw [List.getElem_mapIdx, mem_discrepanciesAt] at hd hd'
    rw [hd.1, hd'.1]
    omega

theorem nodup_discrepancies (learner generated : Trace) :
    ((discrepancies learner generated).map fun d => (d.step, d.name)).Nodup := by
  refine List.pairwise_map.2 ((pairwise_discrepancies learner generated).imp ?_)
  intro d d' hbefore heq
  obtain ⟨hstep, hname⟩ := Prod.mk.inj heq
  cases hbefore with
  | step hlt => omega
  | name position hl hg _ _ hbefore => exact hbefore.ne hname

/-- The discrepancies of two traces are those of the variables that are bound at a position of both
and have differing values there, a missing value differing from every value. Each of them is
reported once, by position, and by the order of the variables within one position. -/
theorem discrepancies_eq_difference (learner generated : Trace) :
    (∀ d, d ∈ discrepancies learner generated ↔
      ∃ (position : Nat) (hl : position < learner.length) (hg : position < generated.length),
        d.step = position + 1 ∧
        d.IsBetween learner[position].bindings generated[position].bindings) ∧
    ((discrepancies learner generated).map fun d => (d.step, d.name)).Nodup ∧
    (discrepancies learner generated).Pairwise (Discrepancy.Before learner generated) :=
  ⟨fun _ => mem_discrepancies, nodup_discrepancies learner generated,
    pairwise_discrepancies learner generated⟩

end

/-! ## The other side -/

namespace Discrepancy

/-- The discrepancy as it shows from the other side. -/
def swap (d : Discrepancy) : Discrepancy :=
  { d with predicted := d.actual, actual := d.predicted }

theorem swap_swap (d : Discrepancy) : d.swap.swap = d := rfl

theorem swap_injective : Function.Injective swap :=
  Function.LeftInverse.injective swap_swap

theorem IsBetween.swap {predicted actual : Bindings} (hp : predicted.IsNormal)
    (ha : actual.IsNormal) {d : Discrepancy} (h : d.IsBetween predicted actual) :
    d.swap.IsBetween actual predicted where
  bound := h.bound.symm
  predicted_eq := h.actual_eq
  actual_eq := h.predicted_eq
  differ := by
    have hsame := Slot.same_comm (ha d.name) (hp d.name)
    exact hsame.trans h.differ

end Discrepancy

section

variable {a b : Trace}

theorem swap_mem_discrepancies (ha : a.IsNormal) (hb : b.IsNormal) {d : Discrepancy}
    (h : d ∈ discrepancies a b) : d.swap ∈ discrepancies b a := by
  obtain ⟨position, hl, hg, hstep, hd⟩ := mem_discrepancies.1 h
  have hna := ha _ (List.getElem_mem hl)
  have hnb := hb _ (List.getElem_mem hg)
  exact mem_discrepancies.2 ⟨position, hg, hl, hstep, hd.swap hna hnb⟩

theorem mem_discrepancies_iff_swap (ha : a.IsNormal) (hb : b.IsNormal) (d : Discrepancy) :
    d ∈ discrepancies a b ↔ d.swap ∈ discrepancies b a :=
  ⟨swap_mem_discrepancies ha hb, fun h => d.swap_swap ▸ swap_mem_discrepancies hb ha h⟩

theorem perm_map_swap_discrepancies (ha : a.IsNormal) (hb : b.IsNormal) :
    ((discrepancies a b).map Discrepancy.swap).Perm (discrepancies b a) := by
  have hnodup : ∀ t t' : Trace, (discrepancies t t').Nodup :=
    fun t t' => (nodup_discrepancies t t').of_map _
  refine (List.perm_ext_iff_of_nodup ((hnodup a b).map Discrepancy.swap_injective)
    (hnodup b a)).2 fun d => ?_
  rw [mem_discrepancies_iff_swap hb ha, List.mem_map]
  constructor
  · rintro ⟨d, hd, rfl⟩
    exact hd
  · intro hd
    exact ⟨d.swap, hd, d.swap_swap⟩

/-- Two traces differ at the same positions in the same variables from either side, with predicted
and actual values swapped. -/
theorem discrepancies_swap (ha : a.IsNormal) (hb : b.IsNormal) :
    (∀ d, d ∈ discrepancies a b ↔ d.swap ∈ discrepancies b a) ∧
    (discrepancies a b).length = (discrepancies b a).length := by
  refine ⟨mem_discrepancies_iff_swap ha hb, ?_⟩
  rw [← (perm_map_swap_discrepancies ha hb).length_eq, List.length_map]

end

/-- A trace of one snapshot with a number and an object of two fields. -/
def pointTrace (other : String) : Trace :=
  [⟨1, 1, .ofList [("n", .int 1), ("point", .ofFields [("x", .int 1), (other, .array [])])], [], [],
    none, none⟩]

theorem isNormal_pointTrace (other : String) : (pointTrace other).IsNormal := by
  have hpoint : (Value.ofFields [("x", .int 1), (other, .array [])]).IsNormal :=
    Value.isNormal_ofFields (by simp [Value.int, Value.IsNormal, Value.ItemsNormal])
  intro s hs
  rw [List.mem_singleton.1 hs]
  refine Bindings.isNormal_empty.setAll (List.forall_mem_cons.2 ⟨?_, List.forall_mem_singleton.2 ?_⟩)
  · trivial
  · exact hpoint

theorem discrepancies_swap_pointTrace :
    (pointTrace "y").IsNormal ∧ (pointTrace "z").IsNormal ∧
    (discrepancies (pointTrace "y") (pointTrace "z")).map Discrepancy.name = ["point"] ∧
    (∀ d, d ∈ discrepancies (pointTrace "y") (pointTrace "z") ↔
      d.swap ∈ discrepancies (pointTrace "z") (pointTrace "y")) ∧
    (discrepancies (pointTrace "z") (pointTrace "y")).length = 1 := by
  have hy := isNormal_pointTrace "y"
  have hz := isNormal_pointTrace "z"
  have hname : (discrepancies (pointTrace "y") (pointTrace "z")).map Discrepancy.name = ["point"] := by
    decide +kernel
  obtain ⟨hswap, hlength⟩ := discrepancies_swap hy hz
  refine ⟨hy, hz, hname, hswap, ?_⟩
  rw [← hlength, ← List.length_map Discrepancy.name, hname]
  rfl

end TraceTutor
