import TraceTutor.Script.Program

/-!
# The statements of a program

`Script.statements` lists the statements of a program at any depth: in bodies, branches, heads of
loops and functions. Whatever is inside of a statement of the list is in the list
(`Script.inner_subset_of_mem`).
-/

namespace TraceTutor

mutual

/-- The statements inside of a statement, at any depth. -/
def Stmt.inner : Stmt → List Stmt
  | .block _ body => Script.statements body
  | .cond _ _ yes no => Script.statements yes ++ Script.optionalStatements no
  | .whileLoop _ _ body => Script.statements body
  | .forLoop _ initial _ update body =>
    Stmt.clauseStatements initial ++ (Stmt.clauseStatements update ++ Script.statements body)
  | .function _ _ _ body => Script.statements body
  | _ => []

/-- A clause of a loop head, if it is there, with the statements inside of it. -/
def Stmt.clauseStatements : Option Stmt → List Stmt
  | none => []
  | some s => s :: s.inner

/-- All statements of a program or a body. -/
def Script.statements : List Stmt → List Stmt
  | [] => []
  | s :: rest => s :: (s.inner ++ Script.statements rest)

/-- All statements of a body that may be left out. -/
def Script.optionalStatements : Option (List Stmt) → List Stmt
  | none => []
  | some body => Script.statements body

end

namespace Script

theorem subset_statements (body : List Stmt) : body ⊆ statements body := by
  induction body with
  | nil => exact fun _ h => h
  | cons s rest ih =>
    rw [statements]
    exact List.cons_subset_cons s (List.subset_append_of_subset_right _ ih)

theorem mem_statements {x : Stmt} {body : List Stmt} :
    x ∈ statements body ↔ ∃ s ∈ body, x = s ∨ x ∈ s.inner := by
  induction body with
  | nil => simp [statements]
  | cons s rest ih => simp only [statements, List.mem_cons, List.mem_append, ih, exists_eq_or_imp,
      or_assoc]

theorem statements_mono {body body' : List Stmt} (h : body ⊆ body') :
    statements body ⊆ statements body' := by
  intro x hx
  obtain ⟨s, hs, hinner⟩ := mem_statements.1 hx
  exact mem_statements.2 ⟨s, h hs, hinner⟩

end Script

mutual

theorem Stmt.inner_subset_of_mem {x : Stmt} : ∀ s : Stmt, x ∈ s.inner → x.inner ⊆ s.inner
  | .block _ body, h => Script.inner_subset_of_mem body h
  | .cond _ _ yes no, h => by
    simp only [Stmt.inner, List.mem_append] at h ⊢
    rcases h with h | h
    · exact List.subset_append_of_subset_left _ (Script.inner_subset_of_mem yes h)
    · exact List.subset_append_of_subset_right _ (Script.inner_subset_of_mem_optional no h)
  | .whileLoop _ _ body, h => Script.inner_subset_of_mem body h
  | .forLoop _ initial _ update body, h => by
    simp only [Stmt.inner, List.mem_append] at h ⊢
    rcases h with h | h | h
    · exact List.subset_append_of_subset_left _ (Stmt.inner_subset_of_mem_clause initial h)
    · exact List.subset_append_of_subset_right _
        (List.subset_append_of_subset_left _ (Stmt.inner_subset_of_mem_clause update h))
    · exact List.subset_append_of_subset_right _
        (List.subset_append_of_subset_right _ (Script.inner_subset_of_mem body h))
  | .function _ _ _ body, h => Script.inner_subset_of_mem body h

theorem Stmt.inner_subset_of_mem_clause {x : Stmt} :
    ∀ s : Option Stmt, x ∈ Stmt.clauseStatements s → x.inner ⊆ Stmt.clauseStatements s
  | some s, h => by
    rcases List.mem_cons.1 h with rfl | h
    · exact List.subset_cons_self _ _
    · exact List.subset_cons_of_subset _ (Stmt.inner_subset_of_mem s h)

/-- Whatever is inside of a statement of a program is a statement of the program. -/
theorem Script.inner_subset_of_mem {x : Stmt} :
    ∀ body : List Stmt, x ∈ Script.statements body → x.inner ⊆ Script.statements body
  | s :: rest, h => by
    simp only [Script.statements, List.mem_cons, List.mem_append] at h ⊢
    rcases h with rfl | h | h
    · exact List.subset_cons_of_subset _ (List.subset_append_left _ _)
    · exact List.subset_cons_of_subset _
        (List.subset_append_of_subset_left _ (Stmt.inner_subset_of_mem s h))
    · exact List.subset_cons_of_subset _
        (List.subset_append_of_subset_right _ (Script.inner_subset_of_mem rest h))

theorem Script.inner_subset_of_mem_optional {x : Stmt} : ∀ body : Option (List Stmt),
    x ∈ Script.optionalStatements body → x.inner ⊆ Script.optionalStatements body
  | some body, h => Script.inner_subset_of_mem body h

end

end TraceTutor
