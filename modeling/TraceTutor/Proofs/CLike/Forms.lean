import TraceTutor.Proofs.CLike.Classification
import TraceTutor.Proofs.CLike.Grammar

/-!
# Forms of statements

Every kind of statement has a form: a language that says how its lines are written
(`Statement.form`). A line is a statement exactly if it has the form of that statement and the
variables that it needs are bound (`classify_eq_iff_isSaidBy`).
-/

namespace TraceTutor

namespace CLike

open Text Grammar

/-! ## Forms -/

/-- An assignment of an integer. -/
def Grammar.assignment (n : String) (k : Int) : Language Char :=
  name n * space * sign "=" * space * numeral k * ending

/-- An assignment of the factorial of an integer. -/
def Grammar.factorialAssignment (n : String) (k : Int) : Language Char :=
  name n * space * sign "=" * space * sign "factorial" * space * sign "(" * space * numeral k *
    space * sign ")" * ending

namespace Statement

/-- How a statement is written, without white space around it. -/
def form : Statement → Language Char
  | .declare n k => typeWord * gap * assignment n k
  | .assign n k => assignment n k
  | .increment n => name n * space * sign "++" * ending
  | .addAssign a b => name a * space * sign "+=" * space * name b * ending
  | .loopHead c => sign "while" * space * sign "(" * space * name c.name * space *
      sign c.comparison.symbol * space * numeral c.limit * space * sign ")" * space *
      sign "\x7b" * space * comment
  | .closeBrace => sign "\x7d"
  | .factorialCall n k => (1 + typeWord * gap) * factorialAssignment n k
  | .noOp | .output _ | .unrecognized => 0

/-- The kinds of statements that have a form. Lines of output are described by what they write. -/
def HasForm : Statement → Prop
  | .noOp | .output _ | .unrecognized => False
  | _ => True

/-- The names that stand in the places of variables. -/
def variableNames : Statement → List String
  | .declare n _ | .assign n _ | .increment n | .factorialCall n _ => [n]
  | .addAssign a b => [a, b]
  | .loopHead c => [c.name]
  | .noOp | .closeBrace | .output _ | .unrecognized => []

/-- The variables that a statement changes in place are bound. -/
def IsBound (b : Bindings) : Statement → Prop
  | .assign n _ | .increment n => b.contains n = true
  | .addAssign target operand => b.contains target = true ∧ b.contains operand = true
  | _ => True

end Statement

/-- How a line of output starts. -/
def outputStart : Language Char :=
  (1 + sign "std::" * space) * sign "cout" * space * sign "<<"

theorem opens_outputStart {p : Char → Bool} (hs : p 's' = false) (hc : p 'c' = false) :
    Opens p outputStart := by
  simp only [outputStart, add_mul, one_mul, mul_assoc]
  refine ((opens_sign ?_).mul _).add ((opens_sign ?_).mul _)
  · simp [hc]
  · simp [hs]

/-! ## Readers of statements -/

namespace LineReader

variable {α : Type} {a : α} {p : LineReader α} {L M : Language Char} {text : List Char}

theorem goesOnNumeral_of_isBlank {c : Char} (h : isBlank c = true) : goesOnNumeral c = false := by
  rw [goesOnNumeral, isWordPart_of_isBlank h, Bool.false_or, beq_eq_false_iff_ne]
  rintro rfl
  exact absurd h (by decide)

theorem opens_isWordPart_sign {wanted : String}
    (h : wanted.toList.head?.any (!isWordPart ·) = true) :
    Opens isWordPart (space * Grammar.sign wanted) :=
  (opens_sign h).space_mul fun _ => isWordPart_of_isBlank

/-- A name ends where a sign follows. -/
theorem sign_follows_name {wanted : String} {M F : Language Char}
    (h : wanted.toList.head?.any (!isWordPart ·) = true) :
    space * Grammar.sign wanted * M * F ≤ avoiding isWordPart :=
  (((opens_isWordPart_sign h).mul M).mul F).le_avoiding

/-- An integer ends where a sign follows that is no point. -/
theorem sign_follows_integer {wanted : String} {M F : Language Char}
    (h : wanted.toList.head?.any (!goesOnNumeral ·) = true) :
    space * Grammar.sign wanted * M * F ≤ avoiding goesOnNumeral :=
  ((((opens_sign h).space_mul fun _ => goesOnNumeral_of_isBlank).mul M).mul F).le_avoiding

theorem reads_assignment (n : String) (k : Int) :
    Reads assignment (n, k) (space * (name n * (space * Grammar.sign "=" *
      (space * numeral k * (space * Grammar.sign ";" * space))))) comment := by
  refine ((reads_identifier n).bind ((reads_sign (opens_sign (by decide))).next
    ((reads_integer k).bind (reads_terminator.bind_pure (n, k) fun _ => rfl) ?_ ?_) ?_) ?_ ?_).congr
      (mul_assoc _ _ _)
  · exact sign_follows_integer (by decide)
  · exact fun _ => .andThen fun _ => .pure fun h => (Prod.mk.inj h).2
  · exact fun _ _ => mem_top _
  · exact sign_follows_name (by decide)
  · exact fun _ => .andThen fun _ => .andThen fun _ => .andThen fun _ =>
      .pure fun h => (Prod.mk.inj h).1

/-- What follows the word of a type takes the white space before it for its own. -/
theorem Reads.declared {M F : Language Char} {α : Type} {a : α} {p : LineReader α}
    (h : Reads p a (space * M) F) (hM : Opens isBlank M) :
    Reads (declarationWord >>= fun _ => p) a (space * typeWord * gap * M) F :=
  reads_declarationWord.bind_absorb h (by rw [mul_assoc, gap_mul_space]) nil_mem_space
    (hM.mul F).le_avoiding fun _ _ _ _ _ _ => rfl

theorem reads_declaration (n : String) (k : Int) :
    Reads declaration (n, k) (space * typeWord * gap * (name n * (space * Grammar.sign "=" *
      (space * numeral k * (space * Grammar.sign ";" * space))))) comment :=
  (reads_assignment n k).declared ((opens_isBlank_name n).mul _)

theorem reads_increment (n : String) :
    Reads increment n (space * name n * (space * Grammar.sign "++" *
      (space * Grammar.sign ";" * space))) comment := by
  refine (reads_identifier n).bind ((reads_sign (opens_sign (by decide))).next
    (reads_terminator.bind_pure n fun _ => rfl) ?_) ?_ ?_
  · exact fun _ _ => mem_top _
  · exact sign_follows_name (by decide)
  · exact fun _ => .andThen fun _ => .andThen fun _ => .pure id

theorem reads_addAssignment (x y : String) :
    Reads addAssignment (x, y) (space * name x * (space * Grammar.sign "+=" *
      (space * name y * (space * Grammar.sign ";" * space)))) comment := by
  refine (reads_identifier x).bind ((reads_sign (opens_sign (by decide))).next
    ((reads_identifier y).bind (reads_terminator.bind_pure (x, y) fun _ => rfl) ?_ ?_) ?_) ?_ ?_
  · exact sign_follows_name (by decide)
  · exact fun _ => .andThen fun _ => .pure fun h => (Prod.mk.inj h).2
  · exact fun _ _ => mem_top _
  · exact sign_follows_name (by decide)
  · exact fun _ => .andThen fun _ => .andThen fun _ => .andThen fun _ =>
      .pure fun h => (Prod.mk.inj h).1

theorem opens_equals_numeral (k : Int) : Opens (· == '=') (space * numeral k) := by
  refine (opens_numeral (fun c hc => ?_) (by decide)).space_mul fun c hc => ?_
  all_goals
    rw [beq_eq_false_iff_ne]
    rintro rfl
    exact absurd hc (by decide)

theorem le_afterComparison (k : Int) (M : Language Char) :
    ∀ c, space * numeral k * M ≤ afterComparison c
  | .less | .greater => ((opens_equals_numeral k).mul M).le_avoiding
  | .lessEqual | .greaterEqual => fun _ _ => mem_top _

theorem opens_isWordPart_symbol :
    ∀ c : Comparison, Opens isWordPart (space * Grammar.sign c.symbol)
  | .less | .greater | .lessEqual | .greaterEqual => opens_isWordPart_sign (by decide)

theorem reads_loopHead (c : LoopCondition) :
    Reads loopHead c (space * Grammar.sign "while" * (space * Grammar.sign "(" *
      (space * name c.name * (space * Grammar.sign c.comparison.symbol * (space * numeral c.limit *
        (space * Grammar.sign ")" * (space * Grammar.sign "\x7b" * space))))))) comment := by
  refine (reads_word (opens_sign (by decide))).next ((reads_sign (opens_sign (by decide))).next
    ((reads_identifier _).bind ((reads_comparison _).bind ((reads_integer _).bind
      ((reads_sign (opens_sign (by decide))).next ((reads_sign (opens_sign (by decide))).next
        (reads_ending.bind_pure c fun _ => rfl) ?_) ?_) ?_ ?_) ?_ ?_) ?_ ?_) ?_) ?_
  · exact fun _ _ => mem_top _
  · exact fun _ _ => mem_top _
  · exact sign_follows_integer (by decide)
  · exact fun _ => .andThen fun _ => .andThen fun _ => .andThen fun _ =>
      .pure fun h => congrArg LoopCondition.limit h
  · rw [mul_assoc]
    exact le_afterComparison _ _ _
  · exact fun _ => .andThen fun _ => .andThen fun _ => .andThen fun _ => .andThen fun _ =>
      .pure fun h => congrArg LoopCondition.comparison h
  · exact (((opens_isWordPart_symbol _).mul _).mul _).le_avoiding
  · exact fun _ => .andThen fun _ => .andThen fun _ => .andThen fun _ => .andThen fun _ =>
      .andThen fun _ => .pure fun h => congrArg LoopCondition.name h
  · exact fun _ _ => mem_top _
  · exact sign_follows_name (by decide)

/-- What follows the name of the factorial function. -/
def factorialArgument (target : String) : LineReader (String × Int) := do
  sign "("
  let argument ← integer
  sign ")"
  terminator
  return (target, argument)

theorem factorialAssignment_eq_bind : factorialAssignment = (do
    let target ← identifier
    sign "="
    let callee ← identifier
    if callee = "factorial" then factorialArgument target else failure) := by
  unfold factorialAssignment
  refine congrArg _ (funext fun target => congrArg _ (funext fun _ => congrArg _ ?_))
  funext callee
  rw [ite_not]
  rfl

theorem reads_factorialArgument (n : String) (k : Int) :
    Reads (factorialArgument n) (n, k) (space * Grammar.sign "(" * (space * numeral k *
      (space * Grammar.sign ")" * (space * Grammar.sign ";" * space)))) comment := by
  refine (reads_sign (opens_sign (by decide))).next ((reads_integer k).bind
    ((reads_sign (opens_sign (by decide))).next
      (reads_terminator.bind_pure (n, k) fun _ => rfl) ?_) ?_ ?_) ?_
  · exact fun _ _ => mem_top _
  · exact sign_follows_integer (by decide)
  · exact fun _ => .andThen fun _ => .andThen fun _ => .pure fun h => (Prod.mk.inj h).2
  · exact fun _ _ => mem_top _

theorem gives_factorialArgument (target n : String) (k : Int) :
    Gives (fun b => b = (n, k) → target = n) (factorialArgument target) :=
  .andThen fun _ => .andThen fun _ => .andThen fun _ => .andThen fun _ =>
    .pure fun h => (Prod.mk.inj h).1

theorem reads_factorialAssignment (n : String) (k : Int) :
    Reads factorialAssignment (n, k) (space * (name n * (space * Grammar.sign "=" *
      (space * name "factorial" * (space * Grammar.sign "(" * (space * numeral k *
        (space * Grammar.sign ")" * (space * Grammar.sign ";" * space)))))))) comment := by
  rw [factorialAssignment_eq_bind]
  refine ((reads_identifier n).bind ((reads_sign (opens_sign (by decide))).next
    ((reads_identifier "factorial").bind (reads_factorialArgument n k) ?_ ?_) ?_) ?_ ?_).congr
      (mul_assoc _ _ _)
  · exact sign_follows_name (by decide)
  · exact fun _ => .ite (fun hcallee _ _ _ _ _ => hcallee) fun _ => .failure
  · exact fun _ _ => mem_top _
  · exact sign_follows_name (by decide)
  · exact fun target => .andThen fun _ => .andThen fun _ =>
      .ite (fun _ => gives_factorialArgument target n k) fun _ => .failure

/-! ### Lines of output -/

/-- What leads to the arguments of an output statement. -/
def outputHead : LineReader Unit := do
  ((do sign "std::"; word "cout") <|> word "cout")
  sign "<<"

/-- The arguments of an output statement, and its end. -/
def outputTail : LineReader (List Char) := do
  let arguments ← fun text => some (splitAtSemicolon .outside text)
  terminator
  return arguments

theorem output_eq_bind : output = outputHead >>= fun _ => outputTail := by
  funext text
  unfold output outputHead
  rw [bind_apply, bind_apply, bind_apply, Option.bind_assoc]
  rfl

/-- What a text is split at is a semicolon. -/
theorem splitAtSemicolon_snd (state : QuoteState) (text : List Char) :
    (splitAtSemicolon state text).2 = [] ∨
      ∃ after, (splitAtSemicolon state text).2 = ';' :: after := by
  induction text generalizing state with
  | nil => exact .inl rfl
  | cons c text ih =>
    simp only [splitAtSemicolon]
    split
    next hc => exact .inr ⟨text, by rw [hc.2]⟩
    next => exact ih _

theorem terminator_semicolon {after rest : List Char} :
    terminator (';' :: after) = some ((), rest) ↔ IsEnd after ∧ trimStart after = rest := by
  have hsign : sign ";" (';' :: after) = some ((), after) := by
    rw [sign_apply, trimStart_cons_of_not_isBlank (by decide)]
    exact exactly_eq_some_iff.2 rfl
  rw [terminator, bind_of_eq_some hsign, ending_apply]
  split
  next h => simp [h]
  next h => simp [h]

/-- A line of output has arguments up to its first semicolon outside of literals, and nothing but an
ending after it. -/
theorem read?_output_eq_some_iff {text arguments : List Char} :
    output.read? text = some arguments ↔ ∃ rest after, outputHead text = some ((), rest) ∧
      splitAtSemicolon .outside rest = (arguments, ';' :: after) ∧ IsEnd after := by
  rw [read?, output_eq_bind, Option.map_eq_some_iff]
  constructor
  · rintro ⟨⟨_, last⟩, hread, rfl⟩
    obtain ⟨_, rest, hhead, htail⟩ := bind_eq_some_iff.1 hread
    obtain ⟨_, stop, hsplit, htail⟩ := bind_eq_some_iff.1 htail
    obtain ⟨_, _, hend, ⟨⟩⟩ := bind_eq_some_iff.1 htail
    have hsplit := Option.some.inj hsplit
    obtain hnil | ⟨after, hafter⟩ := splitAtSemicolon_snd .outside rest
    · rw [hsplit] at hnil
      cases hnil
      cases hend
    · rw [hsplit] at hafter
      cases hafter
      exact ⟨rest, after, hhead, hsplit, (terminator_semicolon.1 hend).1⟩
  · rintro ⟨rest, after, hhead, hsplit, hend⟩
    refine ⟨(arguments, trimStart after), bind_eq_some_iff.2 ⟨(), rest, hhead, ?_⟩, rfl⟩
    refine bind_eq_some_iff.2 ⟨arguments, ';' :: after, congrArg some hsplit, ?_⟩
    exact bind_eq_some_iff.2 ⟨(), _, terminator_semicolon.2 ⟨hend, rfl⟩, rfl⟩

theorem reads_outputHead : Reads outputHead () (space * outputStart) ⊤ := by
  have hcout : Reads (word "cout") () (space * Grammar.sign "cout") (avoiding isWordPart) :=
    reads_word (opens_sign (by decide))
  have hstd : Reads (do sign "std::"; word "cout") ()
      (space * Grammar.sign "std::" * (space * Grammar.sign "cout")) (avoiding isWordPart) :=
    (reads_sign (opens_sign (by decide))).next hcout fun _ _ => mem_top _
  refine ((hstd.orElse hcout fun text htext => ?_).next (reads_sign (opens_sign (by decide)))
    ?_).congr ?_
  · obtain ⟨front, hfront, rest, -, rfl⟩ := Language.mem_mul.1 htext
    obtain ⟨blanks, hblanks, _, rfl, rfl⟩ := Language.mem_mul.1 hfront
    have htrimmed : trimStart (blanks ++ "cout".toList ++ rest) =
        'c' :: ("out".toList ++ rest) := by
      rw [List.append_assoc]
      exact trimStart_append hblanks (by rintro _ ⟨⟩; decide)
    exact bind_of_eq_none (sign_eq_none htrimmed (by decide)) _
  · exact ((opens_isWordPart_sign (by decide)).mul _).le_avoiding
  · simp only [outputStart, add_mul, mul_add, one_mul, mul_assoc]
    exact add_comm _ _

/-! ### Trimmed lines -/

theorem opens_isBlank_factorialAssignment (n : String) (k : Int) :
    Opens isBlank (Grammar.factorialAssignment n k) := by
  simp only [Grammar.factorialAssignment, mul_assoc]
  exact (opens_isBlank_name n).mul _

theorem opens_form : ∀ s : Statement, Opens isBlank s.form
  | .declare _ _ => (opens_isBlank_typeWord.mul _).mul _
  | .assign n _ | .increment n | .addAssign n _ => by
    simp only [Statement.form, Grammar.assignment, mul_assoc]
    exact (opens_isBlank_name n).mul _
  | .loopHead _ => by
    simp only [Statement.form, mul_assoc]
    exact (opens_sign (by decide)).mul _
  | .closeBrace => opens_sign (by decide)
  | .factorialCall n k => by
    simp only [Statement.form, add_mul, one_mul]
    exact (opens_isBlank_factorialAssignment n k).add ((opens_isBlank_typeWord.mul _).mul _)
  | .noOp | .output _ | .unrecognized => fun _ h => h.elim

theorem Reads.read?_eq_some_iff_of_trimmed {F : Language Char} (h : Reads p a L F)
    (hL : L * F = space * M) (hM : Opens isBlank M) (htext : trimStart text = text) :
    p.read? text = some a ↔ text ∈ M := by
  rw [h.read?_eq_some_iff, hL, mem_space_mul_iff hM htext]

section Trimmed

variable (htext : trimStart text = text)
include htext

theorem read?_declaration {n : String} {k : Int} :
    declaration.read? text = some (n, k) ↔ text ∈ (Statement.declare n k).form :=
  (reads_declaration n k).read?_eq_some_iff_of_trimmed
    (by simp only [Statement.form, Grammar.assignment, Grammar.ending, mul_assoc]) (opens_form _)
    htext

theorem read?_assignment {n : String} {k : Int} :
    assignment.read? text = some (n, k) ↔ text ∈ (Statement.assign n k).form :=
  (reads_assignment n k).read?_eq_some_iff_of_trimmed
    (by simp only [Statement.form, Grammar.assignment, Grammar.ending, mul_assoc]) (opens_form _)
    htext

theorem read?_increment {n : String} :
    increment.read? text = some n ↔ text ∈ (Statement.increment n).form :=
  (reads_increment n).read?_eq_some_iff_of_trimmed
    (by simp only [Statement.form, Grammar.ending, mul_assoc]) (opens_form _) htext

theorem read?_addAssignment {x y : String} :
    addAssignment.read? text = some (x, y) ↔ text ∈ (Statement.addAssign x y).form :=
  (reads_addAssignment x y).read?_eq_some_iff_of_trimmed
    (by simp only [Statement.form, Grammar.ending, mul_assoc]) (opens_form _) htext

theorem read?_loopHead {c : LoopCondition} :
    loopHead.read? text = some c ↔ text ∈ (Statement.loopHead c).form :=
  (reads_loopHead c).read?_eq_some_iff_of_trimmed
    (by simp only [Statement.form, mul_assoc]) (opens_form _) htext

theorem mem_outputStart_of_outputHead {rest : List Char} (h : outputHead text = some ((), rest)) :
    text ∈ outputStart * ⊤ := by
  obtain ⟨-, front, hfront, hfull⟩ := (reads_outputHead text rest).1 h
  have hmem : text ∈ space * outputStart * ⊤ :=
    hfull ▸ Language.append_mem_mul hfront (mem_top rest)
  rw [mul_assoc] at hmem
  exact (mem_space_mul_iff ((opens_outputStart (by decide) (by decide)).mul ⊤) htext).1 hmem

theorem mem_outputStart_of_read? {arguments : List Char}
    (h : output.read? text = some arguments) : text ∈ outputStart * ⊤ := by
  rw [read?, output_eq_bind, Option.map_eq_some_iff] at h
  obtain ⟨⟨_, _⟩, hread, -⟩ := h
  obtain ⟨_, rest, hhead, -⟩ := bind_eq_some_iff.1 hread
  exact mem_outputStart_of_outputHead htext hhead

/-! ### First names -/

theorem read?_identifier {n : String} {M : Language Char} (hM : Opens isWordPart M)
    (h : text ∈ name n * M) : identifier.read? text = some n := by
  rw [(reads_identifier n).read?_eq_some_iff, mul_assoc,
    mem_space_mul_iff ((opens_isBlank_name n).mul _) htext]
  exact mul_le_mul_right hM.le_avoiding (name n) h

theorem read?_identifier_of_typeWord {M : Language Char} (h : text ∈ typeWord * gap * M) :
    ∃ w ∈ typeWords, identifier.read? text = some w := by
  have hgap : Opens isWordPart (gap * M) := (opens_gap fun _ => isWordPart_of_isBlank).mul M
  have hword : ∀ w ∈ typeWords, text ∈ Grammar.sign w * (gap * M) →
      ∃ w ∈ typeWords, identifier.read? text = some w := by
    intro w hw hmem
    have hname : IsIdentifier w := (by decide : ∀ w ∈ typeWords, IsIdentifier w) w hw
    exact ⟨w, hw, read?_identifier htext hgap (name_eq_sign hname ▸ hmem)⟩
  simp only [typeWord, add_mul, mul_assoc] at h
  obtain h | h | h := h
  · exact hword "int" (by decide) h
  · exact hword "long" (by decide) h
  · exact hword "short" (by decide) h

/-! ### Factorials -/

theorem read?_factorialAssignment {n : String} {k : Int} :
    factorialAssignment.read? text = some (n, k) ↔ text ∈ Grammar.factorialAssignment n k := by
  refine (reads_factorialAssignment n k).read?_eq_some_iff_of_trimmed ?_
    (opens_isBlank_factorialAssignment n k) htext
  rw [name_eq_sign (by decide : IsIdentifier "factorial")]
  simp only [Grammar.factorialAssignment, Grammar.ending, mul_assoc]

theorem read?_declaredFactorial {n : String} {k : Int} :
    (declarationWord >>= fun _ => factorialAssignment).read? text = some (n, k) ↔
      text ∈ typeWord * gap * Grammar.factorialAssignment n k := by
  refine ((reads_factorialAssignment n k).declared
    ((opens_isBlank_name n).mul _)).read?_eq_some_iff_of_trimmed ?_
    ((opens_isBlank_typeWord.mul _).mul _) htext
  rw [name_eq_sign (by decide : IsIdentifier "factorial")]
  simp only [Grammar.factorialAssignment, Grammar.ending, mul_assoc]

/-- Where a name comes first that is no word of a type, no type is declared. -/
theorem declarationWord_eq_none {n : String} {M : Language Char} (hM : Opens isWordPart M)
    (h : text ∈ name n * M) (hn : n ∉ typeWords) : declarationWord text = none := by
  rw [Option.eq_none_iff_forall_ne_some]
  rintro ⟨_, rest⟩ hread
  obtain ⟨-, front, hfront, hfull⟩ := (reads_declarationWord text rest).1 hread
  have hmem : text ∈ space * (typeWord * (gap * ⊤)) := by
    rw [← hfull, ← mul_assoc, ← mul_assoc]
    exact Language.append_mem_mul hfront (mem_top rest)
  rw [mem_space_mul_iff (opens_isBlank_typeWord.mul _) htext, ← mul_assoc] at hmem
  obtain ⟨w, hw, hfirst⟩ := read?_identifier_of_typeWord htext hmem
  rw [read?_identifier htext hM h] at hfirst
  exact hn (Option.some.inj hfirst ▸ hw)

theorem mem_form_of_read?_factorialCall {n : String} {k : Int}
    (h : factorialCall.read? text = some (n, k)) : text ∈ (Statement.factorialCall n k).form := by
  rw [Statement.form, add_mul, one_mul]
  unfold read? factorialCall at h
  split at h
  next rest hword =>
    refine .inr ((read?_declaredFactorial htext).1 ?_)
    rw [read?, bind_of_eq_some hword]
    exact h
  next => exact .inl ((read?_factorialAssignment htext).1 h)

theorem read?_factorialCall {n : String} {k : Int} (hn : n ∉ typeWords)
    (h : text ∈ (Statement.factorialCall n k).form) : factorialCall.read? text = some (n, k) := by
  rw [Statement.form, add_mul, one_mul] at h
  obtain h | h := h
  · have hfirst := h
    simp only [Grammar.factorialAssignment, mul_assoc] at hfirst
    have hnone := declarationWord_eq_none htext
      (((opens_sign (by decide)).mul _).space_mul fun _ => isWordPart_of_isBlank) hfirst hn
    rw [read?, factorialCall, hnone]
    exact (read?_factorialAssignment htext).2 h
  · obtain ⟨⟨_, rest⟩, hread, hvalue⟩ :=
      Option.map_eq_some_iff.1 ((read?_declaredFactorial htext).2 h)
    obtain ⟨_, middle, hword, hrest⟩ := bind_eq_some_iff.1 hread
    rw [read?, factorialCall, hword]
    exact Option.map_eq_some_iff.2 ⟨_, hrest, hvalue⟩

end Trimmed

end LineReader

/-! ## Signs of statements -/

/-- How the signs of a statement start. -/
def Statement.opening : Statement → List Char
  | .declare _ _ | .assign _ _ => ['=', ';']
  | .increment _ => ['+', '+']
  | .addAssign _ _ => ['+', '=']
  | .loopHead _ => ['(']
  | .closeBrace => ['}']
  | .factorialCall _ _ => ['=', '(']
  | .noOp | .output _ | .unrecognized => []

theorem startsMarks_assignment (n : String) (k : Int) :
    StartsMarks ['=', ';'] (assignment n k) := by
  simp only [assignment, ending, mul_assoc]
  exact (isUnmarked_name n).startsMarks <| isUnmarked_space.startsMarks <| .sign_mul "=" <|
    isUnmarked_space.startsMarks <| (isUnmarked_numeral k).startsMarks <|
    isUnmarked_space.startsMarks <| startsMarks_sign ";" _

theorem startsMarks_factorialAssignment (n : String) (k : Int) :
    StartsMarks ['=', '('] (factorialAssignment n k) := by
  simp only [factorialAssignment, mul_assoc]
  exact (isUnmarked_name n).startsMarks <| isUnmarked_space.startsMarks <| .sign_mul "=" <|
    isUnmarked_space.startsMarks <| (isUnmarked_sign (by decide)).startsMarks <|
    isUnmarked_space.startsMarks <| startsMarks_sign "(" _

theorem startsMarks_form : ∀ s : Statement, StartsMarks s.opening s.form
  | .declare n k =>
    (isUnmarked_typeWord.mul isUnmarked_gap).startsMarks (startsMarks_assignment n k)
  | .assign n k => startsMarks_assignment n k
  | .increment n => by
    simp only [Statement.form, mul_assoc]
    exact (isUnmarked_name n).startsMarks <| isUnmarked_space.startsMarks <| startsMarks_sign "++" _
  | .addAssign a _ => by
    simp only [Statement.form, mul_assoc]
    exact (isUnmarked_name a).startsMarks <| isUnmarked_space.startsMarks <| startsMarks_sign "+=" _
  | .loopHead _ => by
    simp only [Statement.form, mul_assoc]
    exact (isUnmarked_sign (by decide)).startsMarks <| isUnmarked_space.startsMarks <|
      startsMarks_sign "(" _
  | .closeBrace => by
    rintro _ rfl
    exact ⟨[], rfl⟩
  | .factorialCall n k => by
    simp only [Statement.form, add_mul, one_mul]
    exact (startsMarks_factorialAssignment n k).add <|
      (isUnmarked_typeWord.mul isUnmarked_gap).startsMarks (startsMarks_factorialAssignment n k)
  | .noOp | .output _ | .unrecognized => fun _ h => h.elim

theorem marks_outputStart {text : List Char} (h : text ∈ outputStart * ⊤) :
    [':', ':'] <+: marks text ∨ ['<', '<'] <+: marks text := by
  have hstd : StartsMarks [':', ':'] (sign "std::" * (space * (sign "cout" *
      (space * (sign "<<" * ⊤))))) := startsMarks_sign "std::" _
  have hcout : StartsMarks ['<', '<'] (sign "cout" * (space * (sign "<<" * ⊤))) :=
    (isUnmarked_sign (by decide)).startsMarks <| isUnmarked_space.startsMarks <|
      startsMarks_sign "<<" _
  simp only [outputStart, add_mul, one_mul, mul_assoc] at h
  exact h.elim (fun h => .inr (hcout text h)) fun h => .inl (hstd text h)

/-- How the signs of a statement or of a line of output may start. -/
def openings : List (List Char) :=
  [['=', ';'], ['+', '+'], ['+', '='], ['('], ['}'], ['=', '('], [':', ':'], ['<', '<']]

theorem Statement.HasForm.opening_mem : ∀ {s : Statement}, s.HasForm → s.opening ∈ openings
  | .declare _ _, _ | .assign _ _, _ | .increment _, _ | .addAssign _ _, _ | .loopHead _, _
  | .closeBrace, _ | .factorialCall _ _, _ => by simp [openings, Statement.opening]

theorem hasForm_of_mem_form {text : List Char} : ∀ {s : Statement}, text ∈ s.form → s.HasForm
  | .declare _ _, _ | .assign _ _, _ | .increment _, _ | .addAssign _ _, _ | .loopHead _, _
  | .closeBrace, _ | .factorialCall _ _, _ => trivial
  | .noOp, h | .output _, h | .unrecognized, h => h

/-- None of the openings starts another one. -/
theorem eq_of_opens_marks {text x y : List Char} (hx : x ∈ openings) (hy : y ∈ openings)
    (hxtext : x <+: marks text) (hytext : y <+: marks text) : x = y := by
  have hfree : ∀ x ∈ openings, ∀ y ∈ openings, x <+: y → x = y := by decide
  obtain h | h := List.prefix_or_prefix_of_prefix hxtext hytext
  · exact hfree x hx y hy h
  · exact (hfree y hy x hx h).symm

/-- A line of output is written like no other statement. -/
theorem not_mem_form_of_mem_outputStart {text : List Char} (h : text ∈ outputStart * ⊤)
    (s : Statement) : text ∉ s.form := by
  intro hform
  have hs := hasForm_of_mem_form hform
  obtain ⟨start, hstart, hopening, htext⟩ : ∃ start ∈ openings, start ≠ s.opening ∧
      start <+: marks text := by
    refine (marks_outputStart h).elim (fun h => ⟨_, by simp [openings], ?_, h⟩)
      fun h => ⟨_, by simp [openings], ?_, h⟩
    all_goals cases s <;> simp [Statement.opening]
  exact hopening (eq_of_opens_marks hstart hs.opening_mem htext (startsMarks_form s text hform))

/-! ## Statements and their forms -/

/-- The statement is written as the text, and the variables that it needs are bound. -/
structure Statement.IsSaidBy (bindings : Bindings) (text : List Char) (s : Statement) : Prop where
  mem_form : text ∈ s.form
  isBound : s.IsBound bindings

section Said

variable {bindings : Bindings} {text : List Char} {s s' : Statement}

/-- A line that is read as a statement has its form, or it is one of output. -/
theorem isSaidBy_of_statement? (htext : trimStart text = text)
    (h : statement? bindings text = some s) :
    s.IsSaidBy bindings text ∨ ∃ arguments, LineReader.output.read? text = some arguments ∧
      s = .output (renderOutput bindings arguments) := by
  unfold statement? at h
  simp only [Option.orElse_eq_orElse, Option.orElse_eq_or, Option.or_eq_some_iff,
    Option.map_eq_some_iff, Option.filter_eq_some_iff] at h
  obtain ⟨_, hread, rfl⟩ | ⟨-, ⟨_, ⟨hread, hbound⟩, rfl⟩ | ⟨-, h⟩⟩ := h
  · exact .inl ⟨(LineReader.read?_declaration htext).1 hread, trivial⟩
  · exact .inl ⟨(LineReader.read?_assignment htext).1 hread, hbound⟩
  obtain ⟨_, ⟨hread, hbound⟩, rfl⟩ | ⟨-, ⟨_, ⟨hread, hbound⟩, rfl⟩ | ⟨-, h⟩⟩ := h
  · exact .inl ⟨(LineReader.read?_increment htext).1 hread, hbound⟩
  · exact .inl ⟨(LineReader.read?_addAssignment htext).1 hread, Bool.and_eq_true_iff.1 hbound⟩
  obtain ⟨_, hread, rfl⟩ | ⟨-, h | ⟨-, ⟨arguments, hread, rfl⟩ | ⟨-, _, hread, rfl⟩⟩⟩ := h
  · exact .inl ⟨(LineReader.read?_loopHead htext).1 hread, trivial⟩
  · obtain ⟨rfl, hbrace⟩ := Option.ite_none_right_eq_some.1 h
    cases hbrace
    exact .inl ⟨rfl, trivial⟩
  · exact .inr ⟨arguments, hread, rfl⟩
  · exact .inl ⟨LineReader.mem_form_of_read?_factorialCall htext hread, trivial⟩

theorem isInert_of_mem_outputStart (h : text ∈ outputStart * ⊤) : isInert text = false := by
  have hopens : Opens (fun c => c == '/' || c == '#' || c == 'u') outputStart :=
    opens_outputStart (by decide) (by decide)
  obtain ⟨c, rest, rfl, hc⟩ := hopens.mul ⊤ text h
  simp only [Bool.or_eq_false_iff, beq_eq_false_iff_ne] at hc
  obtain ⟨⟨hslash, hhash⟩, hu⟩ := hc
  simp [isInert, List.isPrefixOf, Ne.symm hslash, Ne.symm hhash, Ne.symm hu]

theorem classify_of_read?_output {line arguments : List Char}
    (h : LineReader.output.read? (trim line) = some arguments) :
    classify bindings line = .output (renderOutput bindings arguments) := by
  have hstart := LineReader.mem_outputStart_of_read? (trimStart_trim line) h
  have hsome : statement? bindings (trim line) ≠ none := by
    intro hnone
    simp only [statement?, Option.orElse_eq_orElse, Option.orElse_eq_or, Option.or_eq_none_iff,
      Option.map_eq_none_iff] at hnone
    obtain ⟨-, -, -, -, -, -, hnone, -⟩ := hnone
    rw [h] at hnone
    cases hnone
  obtain ⟨s, hs⟩ := Option.ne_none_iff_exists'.1 hsome
  rw [classify, classifyTrimmed, isInert_of_mem_outputStart hstart, hs]
  obtain hsaid | ⟨arguments', hread, rfl⟩ := isSaidBy_of_statement? (trimStart_trim line) hs
  · exact absurd hsaid.mem_form (not_mem_form_of_mem_outputStart hstart s)
  · cases h.symm.trans hread
    rfl

/-- No variable is called like a type, if the text is a statement. -/
def HasNoTypeNames (text : List Char) : Prop :=
  ∀ s : Statement, text ∈ s.form → ∀ n ∈ s.variableNames, n ∉ typeWords

theorem statement?_ne_none (htext : trimStart text = text) (hnames : HasNoTypeNames text)
    (h : s.IsSaidBy bindings text) : statement? bindings text ≠ none := by
  obtain ⟨hform, hbound⟩ := h
  intro hnone
  simp only [statement?, LoopCondition.ofLine?, Option.orElse_eq_orElse, Option.orElse_eq_or,
    Option.or_eq_none_iff, Option.map_eq_none_iff, Option.filter_eq_none_iff] at hnone
  obtain ⟨hdeclare, hassign, hincrement, hadd, hloop, hbrace, -, hfactorial⟩ := hnone
  cases s with
  | declare n k =>
    rw [(LineReader.read?_declaration htext).2 hform] at hdeclare
    cases hdeclare
  | assign n k => exact hassign _ ((LineReader.read?_assignment htext).2 hform) hbound
  | increment n => exact hincrement _ ((LineReader.read?_increment htext).2 hform) hbound
  | addAssign a b =>
    exact hadd _ ((LineReader.read?_addAssignment htext).2 hform) (Bool.and_eq_true_iff.2 hbound)
  | loopHead c =>
    rw [(LineReader.read?_loopHead htext).2 hform] at hloop
    cases hloop
  | closeBrace =>
    rw [if_pos (show text = ['}'] from hform)] at hbrace
    cases hbrace
  | factorialCall n k =>
    have hn := hnames _ hform n (by simp [Statement.variableNames])
    rw [LineReader.read?_factorialCall htext hn hform] at hfactorial
    cases hfactorial
  | noOp | output _ | unrecognized => exact hform

/-- A text is no more than one statement. -/
theorem eq_of_mem_form (htext : trimStart text = text) (hnames : HasNoTypeNames text)
    (h : text ∈ s.form) (h' : text ∈ s'.form) : s = s' := by
  have hopening : s.opening = s'.opening :=
    eq_of_opens_marks (hasForm_of_mem_form h).opening_mem (hasForm_of_mem_form h').opening_mem
      (startsMarks_form s text h) (startsMarks_form s' text h')
  -- A declaration starts with a name that no assignment may start with.
  have hdeclare : ∀ {n n' k k'}, text ∈ (Statement.declare n k).form →
      text ∉ (Statement.assign n' k').form := by
    intro n n' k k' hd ha
    obtain ⟨w, hw, hfirst⟩ := LineReader.read?_identifier_of_typeWord htext hd
    have hn := hnames _ ha n' (by simp [Statement.variableNames])
    simp only [Statement.form, assignment, mul_assoc] at ha
    rw [LineReader.read?_identifier htext
      (((opens_sign (by decide)).mul _).space_mul fun _ => isWordPart_of_isBlank) ha] at hfirst
    exact hn (Option.some.inj hfirst ▸ hw)
  cases s with
  | declare =>
    cases s' with
    | declare =>
      cases ((LineReader.read?_declaration htext).2 h).symm.trans
        ((LineReader.read?_declaration htext).2 h')
      rfl
    | assign => exact absurd h' (hdeclare h)
    | _ => cases hopening
  | assign =>
    cases s' with
    | declare => exact absurd h (hdeclare h')
    | assign =>
      cases ((LineReader.read?_assignment htext).2 h).symm.trans
        ((LineReader.read?_assignment htext).2 h')
      rfl
    | _ => cases hopening
  | increment =>
    cases s' with
    | increment =>
      cases ((LineReader.read?_increment htext).2 h).symm.trans
        ((LineReader.read?_increment htext).2 h')
      rfl
    | _ => cases hopening
  | addAssign =>
    cases s' with
    | addAssign =>
      cases ((LineReader.read?_addAssignment htext).2 h).symm.trans
        ((LineReader.read?_addAssignment htext).2 h')
      rfl
    | _ => cases hopening
  | loopHead =>
    cases s' with
    | loopHead =>
      cases ((LineReader.read?_loopHead htext).2 h).symm.trans
        ((LineReader.read?_loopHead htext).2 h')
      rfl
    | _ => cases hopening
  | closeBrace =>
    cases s' with
    | closeBrace => rfl
    | _ => cases hopening
  | factorialCall n k =>
    cases s' with
    | factorialCall n' k' =>
      have hn := hnames _ h n (by simp [Statement.variableNames])
      have hn' := hnames _ h' n' (by simp [Statement.variableNames])
      cases (LineReader.read?_factorialCall htext hn h).symm.trans
        (LineReader.read?_factorialCall htext hn' h')
      rfl
    | _ => cases hopening
  | noOp | output _ | unrecognized => exact h.elim

end Said

/-- A line that is not inert, and in which no variable is called like a type, is classified as a
statement exactly if that statement is written there and its variables are bound. A line on which
no statement is written and that does not start as one of output is unrecognized. -/
theorem classify_eq_iff_isSaidBy (bindings : Bindings) {line : List Char}
    (hinert : isInert (trim line) = false) (hnames : HasNoTypeNames (trim line)) :
    (∀ s : Statement, s.HasForm →
      (classify bindings line = s ↔ s.IsSaidBy bindings (trim line))) ∧
    ((∀ s : Statement, ¬ s.IsSaidBy bindings (trim line)) → trim line ∉ outputStart * ⊤ →
      classify bindings line = .unrecognized) := by
  have htext := trimStart_trim line
  have hclassify : classify bindings line =
      (statement? bindings (trim line)).getD .unrecognized := by
    rw [classify, classifyTrimmed, hinert]
    rfl
  have hsaid : ∀ {s : Statement}, statement? bindings (trim line) = some s →
      s.IsSaidBy bindings (trim line) ∨ trim line ∈ outputStart * ⊤ ∧ ¬ s.HasForm := by
    intro s hs
    refine (isSaidBy_of_statement? htext hs).imp_right ?_
    rintro ⟨arguments, hread, rfl⟩
    exact ⟨LineReader.mem_outputStart_of_read? htext hread, id⟩
  refine ⟨fun s hs => ⟨fun h => ?_, fun h => ?_⟩, fun hnone houtput => ?_⟩
  · have hne : s ≠ .noOp ∧ s ≠ .unrecognized := by
      constructor <;> rintro rfl <;> exact hs
    exact (hsaid (statement?_of_classify h hne.1 hne.2)).resolve_right fun h' => h'.2 hs
  · obtain ⟨s', hs'⟩ := Option.ne_none_iff_exists'.1 (statement?_ne_none htext hnames h)
    obtain h' | ⟨houtput, -⟩ := hsaid hs'
    · rw [hclassify, hs', eq_of_mem_form htext hnames h.mem_form h'.mem_form]
      rfl
    · exact absurd h.mem_form (not_mem_form_of_mem_outputStart houtput s)
  · cases hkind : statement? bindings (trim line) with
    | none => rw [hclassify, hkind, Option.getD_none]
    | some s =>
      obtain h | ⟨h, -⟩ := hsaid hkind
      · exact absurd h (hnone s)
      · exact absurd h houtput

/-- Blanks around an addition and a comment after it do not matter. -/
theorem classify_addition_with_comment :
    isInert (trim "  sum += i ; // both".toList) = false ∧
      HasNoTypeNames (trim "  sum += i ; // both".toList) ∧
      classify (.ofList [("i", .int 1), ("sum", .int 3)]) "  sum += i ; // both".toList =
        .addAssign "sum" "i" := by
  have htext := trimStart_trim "  sum += i ; // both".toList
  have hread : LineReader.addAssignment.read? (trim "  sum += i ; // both".toList) =
      some ("sum", "i") := by decide
  have hmarks : ['+', '='] <+: marks (trim "  sum += i ; // both".toList) := by decide
  have hnames : HasNoTypeNames (trim "  sum += i ; // both".toList) := by
    intro s hs
    have hopening := eq_of_opens_marks (hasForm_of_mem_form hs).opening_mem
      (by simp [openings] : ['+', '='] ∈ openings) (startsMarks_form s _ hs) hmarks
    cases s with
    | addAssign a b =>
      cases ((LineReader.read?_addAssignment htext).2 hs).symm.trans hread
      decide
    | noOp | output _ | unrecognized => exact hs.elim
    | _ => cases hopening
  have hinert : isInert (trim "  sum += i ; // both".toList) = false := by decide
  have hsaid : (Statement.addAssign "sum" "i").IsSaidBy (.ofList [("i", .int 1), ("sum", .int 3)])
      (trim "  sum += i ; // both".toList) :=
    ⟨(LineReader.read?_addAssignment htext).1 hread, by decide, by decide⟩
  have hclassify := (classify_eq_iff_isSaidBy (.ofList [("i", .int 1), ("sum", .int 3)])
    hinert hnames).1 (.addAssign "sum" "i") trivial
  exact ⟨hinert, hnames, hclassify.2 hsaid⟩

end CLike

end TraceTutor
