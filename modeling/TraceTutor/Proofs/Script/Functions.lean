import TraceTutor.Proofs.Script.Footprint

/-!
# Functions that calls leave behind

A run has one table of functions. A call defines there what the body declares, and does not take it
back when it ends. So after a call a name means what it meant before, or a function that some body
declares (`defines_callWithin`), and the functions that the called body declares at its top stay
callable (`exists_get?_callWithin`). A name of which no body declares another function means what it
meant before (`callWithin_keeps_function`).
-/

namespace TraceTutor

open Script

namespace Machine

variable {program : Program} {m : Machine}

/-- The statements of the bodies of all functions. -/
def bodies (m : Machine) : List Stmt :=
  m.procedures.entries.flatMap fun entry => entry.2.body

theorem functionsIn_bodies (m : Machine) : m.FunctionsIn m.bodies := by
  intro name p hp
  have hentry : (name, p) ∈ m.procedures.entries :=
    (NameMap.lookup_eq_some_iff_mem m.procedures.nodup_names).1 hp
  exact statements_mono fun s hs => List.mem_flatMap.2 ⟨(name, p), hentry, hs⟩

/-- What a body declares at its top is defined when the body starts. -/
theorem exists_get?_hoist {body : List Stmt} (hbody : statements body ⊆ statements program)
    {l : Location} {name : String} {params : List String} {inner : List Stmt}
    (h : .function l name params inner ∈ body) :
    ∃ p, Declares program name p ∧ (m.hoist body).procedures.get? name = some p := by
  induction body generalizing m with
  | nil => cases h
  | cons s rest ih =>
    have hrest : statements rest ⊆ statements program :=
      List.Subset.trans (statements_mono (List.subset_cons_self s rest)) hbody
    rcases List.mem_cons.1 h with rfl | hlater
    · have hdeclared : Declares program name ⟨params, inner⟩ :=
        ⟨l, hbody (subset_statements _ (List.mem_cons_self ..))⟩
      -- A later declaration of the name may take its place.
      rcases Defines.hoist (m := m.define name ⟨params, inner⟩) hrest name with hsame | hagain
      · refine ⟨_, hdeclared, hsame.trans ?_⟩
        rw [define, NameMap.get?_set, if_pos rfl]
      · exact hagain
    · cases s with
      | function => exact ih hrest hlater
      | _ => exact ih hrest hlater

theorem Defines.exists_get? {m' : Machine} (h : m.Defines program m') {name : String}
    (hm : ∃ p, Declares program name p ∧ m.procedures.get? name = some p) :
    ∃ p, Declares program name p ∧ m'.procedures.get? name = some p := by
  rcases h name with hsame | hdeclared
  · rwa [hsame]
  · exact hdeclared

end Machine

namespace Script

open Exec

section

variable (limits : Limits) (levels : Nat) (name : String) (args : List Slot) (line : Nat)
  (m : Machine)

/-- After a call a name means what it meant before, or a function that a body declares. -/
theorem defines_callWithin :
    m.Defines m.bodies (callWithin limits levels name args line m).machine :=
  (footprint_callWithin limits levels name args line m m.functionsIn_bodies).defines

/-- A function that the called body declares at its top is not gone after the call. -/
theorem exists_get?_callWithin {p : Procedure} (hp : m.procedures.get? name = some p)
    {l : Location} {key : String} {params : List String} {inner : List Stmt}
    (h : .function l key params inner ∈ p.body) :
    ∃ q, Declares m.bodies key q ∧
      (callWithin limits (levels + 1) name args line m).machine.procedures.get? key = some q := by
  have hbody := m.functionsIn_bodies name p hp
  have hstart : (m.enterCall name p args line).FunctionsIn m.bodies :=
    (Machine.Defines.enterCall hbody name args line).functionsIn m.functionsIn_bodies
  have hrun := footprint_execBlock (footprint_callWithin limits levels) limits.stepBudget p.body
    hbody _ hstart
  unfold callWithin Exec.visit
  rw [bind_of_ok (find_of_get? hp)]
  -- The call ends with the functions that its body ends with.
  exact Preserves.machine_bind
    (fun m' => ∃ q, Declares m.bodies key q ∧ m'.procedures.get? key = some q)
    (hrun.defines.exists_get? (Machine.exists_get?_hoist hbody h)) fun _ _ hm' => hm'

/-- A call that could define no other function of a name leaves it the function that it has. -/
theorem callWithin_keeps_function {key : String}
    (h : ∀ p, Declares m.bodies key p → m.procedures.get? key = some p) :
    (callWithin limits levels name args line m).machine.procedures.get? key =
      m.procedures.get? key := by
  rcases defines_callWithin limits levels name args line m key with hsame | ⟨p, hp, hdefined⟩
  · exact hsame
  · rw [hdefined, h p hp]

end

/-- A function, and another one with a helper of its own under a name that is not used elsewhere. -/
def ownHelper : Program :=
  [.function ⟨1, 1⟩ "helper" [] [.ret ⟨2, 3⟩ (some (.literal (.int 1)))],
    .function ⟨4, 1⟩ "outer" []
      [.function ⟨5, 3⟩ "inner" [] [.ret ⟨6, 5⟩ (some (.literal (.int 2)))],
        .ret ⟨8, 3⟩ (some (.call (.name "inner") []))]]

/-- No statement declares a function of the name. -/
def declaresNone (name : String) (program : Program) : Bool :=
  (statements program).all fun
    | .function _ declared _ _ => declared != name
    | _ => true

theorem not_declares_of_declaresNone {name : String} {program : Program}
    (h : declaresNone name program = true) (p : Procedure) : ¬ Declares program name p := by
  rintro ⟨l, hmem⟩
  have hother := List.all_eq_true.1 h _ hmem
  simp at hother

theorem callWithin_keeps_function_ownHelper :
    (callWithin .standard 8 "outer" [] 10 (Machine.initial.hoist ownHelper)).result.isOk = true ∧
    (callWithin .standard 8 "outer" [] 10
      (Machine.initial.hoist ownHelper)).machine.procedures.contains "inner" = true ∧
    (callWithin .standard 8 "outer" [] 10
      (Machine.initial.hoist ownHelper)).machine.procedures.get? "helper" =
        (Machine.initial.hoist ownHelper).procedures.get? "helper" := by
  have hnone : declaresNone "helper" (Machine.initial.hoist ownHelper).bodies = true := by
    decide +kernel
  refine ⟨by decide +kernel, by decide +kernel, ?_⟩
  exact callWithin_keeps_function .standard 8 "outer" [] 10 (Machine.initial.hoist ownHelper)
    fun p hp => absurd hp (not_declares_of_declaresNone hnone p)

/-! ## A function that is replaced -/

/-- A script that uses a function before and after a call whose body declares one of its name. -/
def replacedHelper : String :=
  "function helper() \x7b\n  return 1;\n\x7d\nfunction outer() \x7b\n" ++
    "  function helper() \x7b\n    return 2;\n  \x7d\n  return helper();\n\x7d\n" ++
    "let a = outer();\nlet b = helper();\nconsole.log(a, b);\n"

/-- The lines of the body of a function. -/
def Procedure.lines (p : Procedure) : List Nat :=
  p.body.map fun s => s.location.line

/-- A call of `outer` that returns leaves `helper` the function that the body of `outer` declares. -/
theorem call_replaces_helper :
    ∃ program, parseProgram replacedHelper = .ok program ∧
      (call .standard "outer" [] 10 (Machine.initial.hoist program)).result.isOk = true ∧
      (call .standard "outer" [] 10
        (Machine.initial.hoist program)).machine.procedures.get? "helper" ≠
          (Machine.initial.hoist program).procedures.get? "helper" ∧
      (run .standard replacedHelper).output = ["2 2"] := by
  have hfacts : (parseProgram replacedHelper).toOption.map (fun program =>
      let m := Machine.initial.hoist program
      let o := call .standard "outer" [] 10 m
      (o.result.isOk, (o.machine.procedures.get? "helper").map Procedure.lines,
        (m.procedures.get? "helper").map Procedure.lines,
        (Outcome.toRun (lastLine replacedHelper) (execute .standard program)).output)) =
          some (true, some [6], some [2], ["2 2"]) := by
    decide +kernel
  obtain ⟨program, hprogram, hprogramFacts⟩ := except_exists_of_map_toOption hfacts
  simp only [Prod.mk.injEq] at hprogramFacts
  obtain ⟨hresult, hafter, hbefore, houtput⟩ := hprogramFacts
  refine ⟨program, hprogram, hresult, fun hsame => ?_, ?_⟩
  · rw [hsame, hbefore] at hafter
    cases hafter
  · unfold run
    rw [hprogram]
    exact houtput

end Script

end TraceTutor
