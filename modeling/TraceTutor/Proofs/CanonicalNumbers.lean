import TraceTutor.Proofs.CLike.Values
import TraceTutor.Proofs.Script.Values
import TraceTutor.Proofs.Value.Canonical
import TraceTutor.Script.StaticAnalysis

/-!
# Canonical numbers in traces

The static analysis, too, makes values by operators and by reading literals, so that a property
that operators keep holds of all values in its trace (`Script.allValues_analyze`). All numbers in
the trace of a program are therefore canonical, whichever language it is in (`traces_canonical`):
no integer is kept as a double, and none is beyond the signed words.
-/

namespace TraceTutor

namespace Script

variable {P : Value → Prop}

/-! ## Expressions without side effects -/

mutual

theorem of_evaluatePure? (hP : Value.IsClosed P) {bindings : Bindings}
    (hbindings : bindings.AllValues P) : ∀ {e : Expr} {v : Value}, e.LiteralsIn P →
      evaluatePure? bindings e = some v → P v
  | .literal w, v, h, hv => Option.some.inj hv ▸ h
  | .name name, v, _, hv => by
    unfold evaluatePure? at hv
    split at hv
    · cases hv
      exact hP.null
    · exact hbindings.of_get? hv
  | .array items, v, h, hv => by
    obtain ⟨values, hvalues, rfl⟩ := Option.map_eq_some_iff.1 hv
    exact hP.array_iff.2 (of_evaluatePureAll? hP hbindings h hvalues)
  | .object fields, v, h, hv => by
    obtain ⟨values, hvalues, rfl⟩ := Option.map_eq_some_iff.1 hv
    exact hP.ofFields (of_evaluatePureFields? hP hbindings h hvalues)
  | .unary op operand, v, _, hv => by
    obtain ⟨w, -, rfl⟩ := Option.map_eq_some_iff.1 hv
    exact hP.unary op w
  | .binary op left right, v, h, hv => by
    obtain ⟨l, hl, hv⟩ := Option.bind_eq_some_iff.1 hv
    have hleft := of_evaluatePure? hP hbindings h.1 hl
    split at hv
    · split at hv
      · exact of_evaluatePure? hP hbindings h.2 hv
      · exact Option.some.inj hv ▸ hleft
    · split at hv
      · exact Option.some.inj hv ▸ hleft
      · exact of_evaluatePure? hP hbindings h.2 hv
    · obtain ⟨r, -, hv⟩ := Option.bind_eq_some_iff.1 hv
      exact hP.binary hv
  | .ternary condition yes no, v, h, hv => by
    obtain ⟨test, -, hv⟩ := Option.bind_eq_some_iff.1 hv
    split at hv
    · exact of_evaluatePure? hP hbindings h.2.1 hv
    · exact of_evaluatePure? hP hbindings h.2.2 hv
  | .index target i, v, h, hv => by
    obtain ⟨t, ht, hv⟩ := Option.bind_eq_some_iff.1 hv
    obtain ⟨j, -, hv⟩ := Option.bind_eq_some_iff.1 hv
    exact hP.item (of_evaluatePure? hP hbindings h.1 ht) (except_toOption_eq_some_iff.1 hv)
  | .member target property, v, h, hv => by
    obtain ⟨t, ht, hv⟩ := Option.bind_eq_some_iff.1 hv
    have htarget : target.LiteralsIn P := h
    exact hP.property (of_evaluatePure? hP hbindings htarget ht) (except_toOption_eq_some_iff.1 hv)
  | .call callee args, v, _, hv => by
    unfold evaluatePure? at hv
    split at hv
    · obtain ⟨values, -, hv⟩ := Option.bind_eq_some_iff.1 hv
      exact hP.mathCall hv
    · cases hv

theorem of_evaluatePureAll? (hP : Value.IsClosed P) {bindings : Bindings}
    (hbindings : bindings.AllValues P) : ∀ {items : List Expr} {values : List Value},
      Expr.ItemLiteralsIn P items → evaluatePureAll? bindings items = some values →
        ∀ v ∈ values, P v
  | [], values, _, hvalues => Option.some.inj hvalues ▸ nofun
  | e :: rest, values, h, hvalues => by
    obtain ⟨v, hv, hvalues⟩ := Option.bind_eq_some_iff.1 hvalues
    obtain ⟨others, hothers, hvalues⟩ := Option.bind_eq_some_iff.1 hvalues
    cases hvalues
    exact List.forall_mem_cons.2
      ⟨of_evaluatePure? hP hbindings h.1 hv, of_evaluatePureAll? hP hbindings h.2 hothers⟩

theorem of_evaluatePureFields? (hP : Value.IsClosed P) {bindings : Bindings}
    (hbindings : bindings.AllValues P) : ∀ {fields : List (String × Expr)}
      {values : List (String × Value)}, Expr.FieldLiteralsIn P fields →
        evaluatePureFields? bindings fields = some values → ∀ field ∈ values, P field.2
  | [], values, _, hvalues => Option.some.inj hvalues ▸ nofun
  | (key, e) :: rest, values, h, hvalues => by
    obtain ⟨v, hv, hvalues⟩ := Option.bind_eq_some_iff.1 hvalues
    obtain ⟨others, hothers, hvalues⟩ := Option.bind_eq_some_iff.1 hvalues
    cases hvalues
    exact List.forall_mem_cons.2
      ⟨of_evaluatePure? hP hbindings h.1 hv, of_evaluatePureFields? hP hbindings h.2 hothers⟩

end

/-! ## Initializers -/

variable (hP : Value.IsClosed P)
include hP

theorem of_literal? {text : List Char} {v : Value} (h : literal? text = some v) : P v := by
  unfold literal? at h
  split at h
  · cases h
    exact hP.bool true
  split at h
  · cases h
    exact hP.bool false
  split at h
  · cases h
    exact hP.null
  split at h
  · dsimp only at h
    split at h
    next hword =>
      cases h
      exact hP.int hword
    next => cases h
  split at h
  · obtain ⟨x, -, rfl⟩ := Option.map_eq_some_iff.1 h
    exact hP.ofBinary64 x
  split at h
  · cases h
    exact hP.string _
  split at h
  · cases h
    exact hP.array_iff.2 nofun
  · cases h
    exact hP.ofFields (List.forall_mem_nil _)
  · cases h

theorem of_initialValue? {bindings : Bindings} (hbindings : bindings.AllValues P)
    {text : List Char} {v : Value} (h : initialValue? bindings text = some v) : P v := by
  unfold initialValue? at h
  split at h
  next w hliteral =>
    cases h
    exact of_literal? hP hliteral
  next =>
    split at h
    next e hparse =>
      exact of_evaluatePure? hP hbindings (literalsIn_of_parseExpression hP hparse) h
    next => cases h

/-! ## Static analysis -/

namespace Analysis

/-- The property holds of all values that are bound and that are recorded. -/
structure AllValues (P : Value → Prop) (a : Analysis) : Prop where
  bindings : a.bindings.AllValues P
  recorder : a.recorder.AllValues P

namespace AllValues

variable {a : Analysis}

omit hP in
theorem capture (h : a.AllValues P) (line : Nat) (note : String) :
    AllValues P (a.capture line note) :=
  ⟨h.bindings, h.recorder.commit h.bindings _ _ _⟩

theorem declare (h : a.AllValues P) (line : Nat) (name : String) (initial : List Char) :
    AllValues P (a.declare line name initial) := by
  have hset : ∀ v, P v → AllValues P { a with bindings := a.bindings.set name v } :=
    fun v hv => ⟨h.bindings.set hv name, h.recorder⟩
  unfold Analysis.declare
  split
  next v hv => exact (hset v (of_initialValue? hP h.bindings hv)).capture line _
  next => exact (hset .null hP.null).capture line _

theorem readLine (h : a.AllValues P) (line : Nat) (text : List Char) :
    AllValues P (a.readLine line text) :=
  readLine_induction h (h.declare hP line) (fun _ note ha => ha.capture line note) text

/-- By induction on the lines. -/
theorem readLines (h : a.AllValues P) (line : Nat) (lines : List (List Char)) :
    AllValues P (a.readLines line lines) := by
  induction lines generalizing a line with
  | nil => exact h
  | cons text rest ih => exact ih (h.readLine hP line text) (line + 1)

end AllValues

end Analysis

/-- A property that operators keep holds of all values in the trace of an analysis. -/
theorem allValues_analyze (source : String) : (analyze source).AllValues P := by
  have hread : Analysis.AllValues P (Analysis.empty.readLines 1 (Text.lines source.toList)) :=
    Analysis.AllValues.readLines hP ⟨Bindings.allValues_empty P, .empty⟩ 1 _
  unfold analyze
  dsimp only
  split
  · exact (hread.recorder.commit (Bindings.allValues_empty P) _ _ _).trace
  · exact hread.recorder.trace

theorem allValues_runOrAnalyze (limits : Limits) (source : String) :
    (runOrAnalyze limits source).trace.AllValues P := by
  unfold runOrAnalyze
  dsimp only
  split
  · exact allValues_analyze hP source
  · exact allValues_run hP limits source

end Script

/-! ## Traces of programs -/

/-- All objects that a trace shows are in normal form. -/
theorem traces_isNormal (limits : Limits) (source : String) :
    (CLike.run limits source).trace.IsNormal ∧
      (Script.runOrAnalyze limits source).trace.IsNormal :=
  ⟨(CLike.allValues_run Value.isClosed_isNormal limits source).isNormal,
    (Script.allValues_runOrAnalyze Value.isClosed_isNormal limits source).isNormal⟩

/-- All numbers that a trace shows are canonical, at any depth within the values of its bindings and
of its frames. -/
theorem traces_canonical (limits : Limits) (source : String) :
    (CLike.run limits source).trace.AllValues (Value.NumbersIn Number.IsCanonical) ∧
      (Script.runOrAnalyze limits source).trace.AllValues (Value.NumbersIn Number.IsCanonical) :=
  ⟨CLike.allValues_run Value.isClosed_canonical limits source,
    Script.allValues_runOrAnalyze Value.isClosed_canonical limits source⟩

end TraceTutor
