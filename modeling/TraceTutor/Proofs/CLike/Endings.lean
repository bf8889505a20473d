import TraceTutor.Proofs.CLike.Forms

/-!
# Lines with an ending

White space or a comment after a statement changes neither what the line does nor its braces
(`classify_of_hasEnding`, `countBraces_of_hasEnding`). A closing brace is the exception, since it is
only taken for one where it stands alone (`classify_brace_of_hasEnding`).

All readers of statements but the one of output ignore an ending. That one stops at the first
semicolon outside of literals, so that it ignores an ending after a whole statement.
-/

namespace TraceTutor

namespace CLike

open Text Grammar

namespace LineReader

variable {α β : Type}

/-! ## Endings of trimmed lines -/

namespace HasEnding

variable {text full : List Char}

theorem refl (text : List Char) : HasEnding text text :=
  ⟨[], (List.append_nil text).symm, .inl rfl, fun _ _ h => nomatch h⟩

theorem trimEnd (h : HasEnding text full) :
    HasEnding (Text.trimEnd text) (Text.trimEnd full) := by
  obtain ⟨tail, rfl, hending, hhead⟩ := h
  rw [trimEnd_append]
  split
  next => exact .refl _
  next hne =>
    obtain ⟨blanks, hblanks, htext⟩ := exists_eq_trimEnd text
    refine ⟨blanks ++ Text.trimEnd tail, ?_, (isEnd_append hblanks _).2 hending.trimEnd,
      fun htrim c hc => ?_⟩
    · conv_lhs => rw [htext, List.append_assoc]
    · cases blanks with
      | nil =>
        have hne : text ≠ [] := htext ▸ by simpa using htrim
        refine hhead hne c ?_
        obtain ⟨rest, hrest⟩ := List.head?_eq_some_iff.1 hc
        obtain ⟨last, hlast⟩ := isPrefix_trimEnd tail
        rw [List.nil_append] at hrest
        rw [← hlast, hrest]
        rfl
      | cons d blanks =>
        cases hc
        exact isAllBlank_iff.1 hblanks _ List.mem_cons_self

theorem trim (h : HasEnding text full) : HasEnding (Text.trim text) (Text.trim full) :=
  h.trimStart.trimEnd

end HasEnding

/-! ## Readers that ignore an ending -/

namespace IgnoresEnding

theorem ite {c : Prop} [Decidable c] {p q : LineReader α} (hp : IgnoresEnding p)
    (hq : IgnoresEnding q) : IgnoresEnding (if c then p else q) := by
  split
  next => exact hp
  next => exact hq

theorem failure : IgnoresEnding (failure : LineReader α) :=
  fun _ _ _ => .inl ⟨rfl, rfl⟩

/-- What fails where nothing is left also fails at an ending. -/
theorem eq_none_of_isEnd {p : LineReader α} (hp : IgnoresEnding p) (hnil : p [] = none)
    {text : List Char} (h : HasEnding [] text) : p text = none := by
  obtain ⟨-, h'⟩ | ⟨a, rest, rest', h', -⟩ := hp h
  · exact h'
  · rw [hnil] at h'
    cases h'

/-- White space that is asked for may be that of the ending, if something has to follow it. -/
theorem blanks_bind {p : LineReader α} (hp : IgnoresEnding p) (hnil : p [] = none) :
    IgnoresEnding (blanks >>= fun _ => p) := by
  intro text full h
  cases text with
  | nil =>
    refine .inl ⟨rfl, ?_⟩
    rw [bind_apply, blanks]
    split
    · exact hp.eq_none_of_isEnd hnil h.trimStart
    · rfl
  | cons c text =>
    obtain ⟨full, rfl, -⟩ := h.exists_cons
    have hblanks : ∀ rest, (blanks >>= fun _ => p) (c :: rest) =
        if isBlank c = true then p (Text.trimStart (c :: rest)) else none := by
      intro rest
      rw [bind_apply, blanks, show (c :: rest).head?.any isBlank = isBlank c from rfl]
      split <;> rfl
    rw [hblanks, hblanks]
    split
    · exact hp h.trimStart
    · exact .inl ⟨rfl, rfl⟩

theorem typeWord : IgnoresEnding (LineReader.word "int" <|> LineReader.word "long" <|>
    LineReader.word "short") :=
  (word (by decide)).orElse ((word (by decide)).orElse (word (by decide)))

theorem terminator : IgnoresEnding terminator :=
  (sign (by decide)).bind fun _ => ending

theorem assignment : IgnoresEnding assignment :=
  identifier.bind fun _ => (sign (by decide)).bind fun _ => integer.bind fun _ =>
    terminator.bind fun _ => pure _

theorem declared {p : LineReader α} (hp : IgnoresEnding p) (hnil : p [] = none) :
    IgnoresEnding (declarationWord >>= fun _ => p) := by
  have h := typeWord.bind fun _ => hp.blanks_bind hnil
  rw [← bind_assoc] at h
  exact h

theorem declaration : IgnoresEnding declaration :=
  assignment.declared rfl

theorem increment : IgnoresEnding increment :=
  identifier.bind fun _ => (sign (by decide)).bind fun _ => terminator.bind fun _ => pure _

theorem addAssignment : IgnoresEnding addAssignment :=
  identifier.bind fun _ => (sign (by decide)).bind fun _ => identifier.bind fun _ =>
    terminator.bind fun _ => pure _

theorem factorialArgument (target : String) : IgnoresEnding (factorialArgument target) :=
  (sign (by decide)).bind fun _ => integer.bind fun _ => (sign (by decide)).bind fun _ =>
    terminator.bind fun _ => pure _

theorem factorialAssignment : IgnoresEnding factorialAssignment := by
  rw [factorialAssignment_eq_bind]
  exact identifier.bind fun target => (sign (by decide)).bind fun _ => identifier.bind fun _ =>
    .ite (factorialArgument target) failure

theorem outputHead : IgnoresEnding outputHead :=
  (((sign (by decide)).bind fun _ => word (by decide)).orElse (word (by decide))).bind fun _ =>
    sign (by decide)

end IgnoresEnding

section Statements

variable {text full : List Char}

/-- The word of a type alone is no assignment. -/
theorem factorialAssignment_of_typeWord (h : text ∈ space * typeWord) :
    factorialAssignment text = none := by
  have hword : ∀ w, IsIdentifier w → text ∈ space * Grammar.sign w →
      factorialAssignment text = none := by
    intro w hw hmem
    rw [← name_eq_sign hw] at hmem
    have hread : identifier text = some (w, []) :=
      (reads_identifier w text []).2 ⟨nil_mem_avoiding _, text, hmem, List.append_nil text⟩
    rw [factorialAssignment, bind_of_eq_some hread]
    rfl
  simp only [typeWord, mul_add] at h
  obtain h | h | h := h
  · exact hword "int" (by decide) h
  · exact hword "long" (by decide) h
  · exact hword "short" (by decide) h

theorem read?_factorialCall_eq (h : HasEnding text full) :
    factorialCall.read? full = factorialCall.read? text := by
  have hplain := IgnoresEnding.factorialAssignment.read?_eq h
  have hdeclared := (IgnoresEnding.factorialAssignment.declared rfl).read?_eq h
  have hcall : ∀ t, factorialCall.read? t = if declarationWord t = none
      then factorialAssignment.read? t
      else (declarationWord >>= fun _ => factorialAssignment).read? t := by
    intro t
    cases hword : declarationWord t with
    | none => rw [read?, factorialCall, hword, if_pos rfl, read?]
    | some x =>
      rw [read?, factorialCall, hword, if_neg (Option.some_ne_none x), read?,
        bind_of_eq_some hword]
  rw [hcall, hcall]
  obtain ⟨h₁, h₂⟩ | ⟨_, rest, rest', h₁, h₂, hrest⟩ := IgnoresEnding.typeWord h
  · have hnone : declarationWord text = none := bind_of_eq_none h₁ _
    have hnone' : declarationWord full = none := bind_of_eq_none h₂ _
    rw [hnone, hnone', if_pos rfl, if_pos rfl, hplain]
  have hword : declarationWord text = blanks rest := bind_of_eq_some h₁ _
  have hword' : declarationWord full = blanks rest' := bind_of_eq_some h₂ _
  cases rest with
  | nil =>
    -- The white space that the type asks for may be that of the ending. Then nothing follows.
    obtain ⟨-, front, hfront, hfull⟩ := (reads_typeWord text []).1 h₁
    rw [List.append_nil] at hfull
    have hnone : factorialAssignment.read? text = none := by
      rw [read?, factorialAssignment_of_typeWord (hfull ▸ hfront)]
      rfl
    have hnone' : (declarationWord >>= fun _ => factorialAssignment).read? text = none := by
      rw [read?, bind_of_eq_none hword]
      rfl
    rw [hplain, hdeclared, hnone, hnone', ite_self, ite_self]
  | cons c rest =>
    obtain ⟨rest', rfl, -⟩ := hrest.exists_cons
    have hblanks : ∀ more, blanks (c :: more) = none ↔ ¬ isBlank c = true := by
      intro more
      rw [blanks, show (c :: more).head?.any isBlank = isBlank c from rfl]
      split
      next hc => exact iff_of_false (Option.some_ne_none _) (not_not.2 hc)
      next hc => exact iff_of_true rfl hc
    simp only [hword, hword', hblanks, hplain, hdeclared]

/-! ## Lines of output with an ending -/

theorem splitAtSemicolon_append {state : QuoteState} {text : List Char}
    (h : (splitAtSemicolon state text).2 ≠ []) (tail : List Char) :
    splitAtSemicolon state (text ++ tail) =
      ((splitAtSemicolon state text).1, (splitAtSemicolon state text).2 ++ tail) := by
  induction text generalizing state with
  | nil => exact absurd rfl h
  | cons c text ih =>
    rw [List.cons_append]
    simp only [splitAtSemicolon] at h ⊢
    split
    next => rfl
    next hc =>
      rw [if_neg hc] at h
      rw [ih h]

/-- An ending comes after the arguments of a line of output. -/
theorem exists_ending_of_output {rest arguments after : List Char} (h : HasEnding text full)
    (hhead : outputHead text = some ((), rest))
    (hsplit : splitAtSemicolon .outside rest = (arguments, ';' :: after)) :
    ∃ tail, outputHead full = some ((), rest ++ tail) ∧ HasEnding after (after ++ tail) ∧
      splitAtSemicolon .outside (rest ++ tail) = (arguments, ';' :: (after ++ tail)) := by
  obtain ⟨hnone, -⟩ | ⟨_, _, rest', hhead', hfull, tail, rfl, hending, hblank⟩ :=
    IgnoresEnding.outputHead h
  · rw [hhead] at hnone
    cases hnone
  cases hhead.symm.trans hhead'
  have hne : rest ≠ [] := by
    rintro rfl
    cases hsplit
  refine ⟨tail, hfull, ⟨tail, rfl, hending, fun _ => hblank hne⟩, ?_⟩
  rw [splitAtSemicolon_append (by simp [hsplit]), hsplit]
  rfl

/-- A whole line of output is read the same with an ending after it. -/
theorem read?_output_of_hasEnding {arguments : List Char} (h : HasEnding text full)
    (hread : output.read? text = some arguments) : output.read? full = some arguments := by
  obtain ⟨rest, after, hhead, hsplit, hend⟩ := read?_output_eq_some_iff.1 hread
  obtain ⟨tail, hhead', hafter, hsplit'⟩ := exists_ending_of_output h hhead hsplit
  exact read?_output_eq_some_iff.2 ⟨rest ++ tail, after ++ tail, hhead', hsplit',
    hafter.isEnd_iff.2 hend⟩

/-- What starts as no line of output does not do so with an ending after it. -/
theorem read?_output_eq_none (htext : Text.trimStart text = text) (h : HasEnding text full)
    (hstart : text ∉ outputStart * ⊤) : output.read? full = none := by
  have hhead : outputHead full = none := by
    obtain ⟨-, hnone⟩ | ⟨_, _, _, hhead, -⟩ := IgnoresEnding.outputHead h
    · exact hnone
    · exact absurd (mem_outputStart_of_outputHead htext hhead) hstart
  rw [read?, output_eq_bind, bind_of_eq_none hhead]
  rfl

end Statements

end LineReader

open LineReader

/-! ## Statements with an ending -/

/-- The line is a statement in some state. -/
def IsRecognized (line : List Char) : Prop :=
  ∃ bindings, classify bindings line ≠ .noOp ∧ classify bindings line ≠ .unrecognized

section Ending

variable {bindings : Bindings} {line text full : List Char} {s : Statement}

theorem IsRecognized.exists_statement? (h : IsRecognized line) :
    ∃ bindings s, statement? bindings (trim line) = some s := by
  obtain ⟨bindings, hno, hun⟩ := h
  exact ⟨bindings, _, statement?_of_classify rfl hno hun⟩

theorem IsRecognized.isInert_eq_false (h : IsRecognized line) : isInert (trim line) = false := by
  obtain ⟨bindings, hno, -⟩ := h
  by_contra hinert
  refine hno ?_
  rw [classify, classifyTrimmed, if_pos (by simpa using hinert)]

/-- No text without white space reaches into an ending. -/
theorem prefix_of_hasEnding {wanted : List Char} (hwanted : ∀ c ∈ wanted, isBlank c = false)
    (h : HasEnding text full) (hne : text ≠ []) (hfront : wanted <+: full) : wanted <+: text := by
  obtain ⟨tail, rfl, -, hhead⟩ := h
  obtain h | ⟨more, rfl⟩ := List.prefix_or_prefix_of_prefix hfront (List.prefix_append text tail)
  · exact h
  · cases more with
    | nil => exact ⟨[], by simp⟩
    | cons c more =>
      obtain ⟨rest, rfl⟩ := (List.prefix_append_right_inj text).1 hfront
      have hc := hhead hne c rfl
      rw [hwanted c (by simp)] at hc
      cases hc

theorem isInert_of_hasEnding (h : HasEnding text full) (hinert : isInert text = false) :
    isInert full = false := by
  rw [isInert, Bool.or_eq_false_iff, List.isEmpty_eq_false_iff, List.any_eq_false] at hinert ⊢
  obtain ⟨hne, hstart⟩ := hinert
  have hsolid : ∀ start ∈ ["//", "/*", "#include", "using"], ∀ c ∈ start.toList,
      isBlank c = false := by decide
  refine ⟨?_, fun start hmem hfront => hstart start hmem ?_⟩
  · obtain ⟨tail, rfl, -⟩ := h
    simp [hne]
  · rw [List.isPrefixOf_iff_prefix] at hfront ⊢
    exact prefix_of_hasEnding (hsolid start hmem) h hne hfront

theorem eq_brace_of_hasEnding (h : HasEnding text ['}']) : text = ['}'] := by
  cases text with
  | nil => exact absurd (by decide) (h.not_isSolid_head '}' rfl)
  | cons c text =>
    obtain ⟨rest, hrest, tail, htail, -⟩ := h.exists_cons
    cases hrest
    rw [(List.append_eq_nil_iff.1 htail.symm).1]

/-- All readers of kinds that come before output, and that of factorials, ignore the ending. -/
theorem statement?_of_hasEnding (htext : trimStart text = text) (h : HasEnding text full)
    (hs : statement? bindings text = some s) (hbrace : text ≠ ['}']) (bindings' : Bindings) :
    statement? bindings' full = statement? bindings' text := by
  have hfull : full ≠ ['}'] := by
    rintro rfl
    exact hbrace (eq_brace_of_hasEnding h)
  have houtput : output.read? full = output.read? text := by
    obtain hsaid | ⟨arguments, hread, -⟩ := isSaidBy_of_statement? htext hs
    · have hstart : text ∉ outputStart * ⊤ := fun hstart =>
        not_mem_form_of_mem_outputStart hstart s hsaid.mem_form
      rw [read?_output_eq_none htext h hstart, read?_output_eq_none htext (.refl text) hstart]
    · rw [hread, read?_output_of_hasEnding h hread]
  rw [statement?, statement?, LoopCondition.ofLine?, LoopCondition.ofLine?,
    IgnoresEnding.declaration.read?_eq h, IgnoresEnding.assignment.read?_eq h,
    IgnoresEnding.increment.read?_eq h, IgnoresEnding.addAssignment.read?_eq h,
    IgnoresEnding.loopHead.read?_eq h, if_neg hfull, if_neg hbrace, houtput,
    read?_factorialCall_eq h]

/-- A statement is the same with white space or a comment after it. -/
theorem classify_of_hasEnding (h : HasEnding line full) (hline : IsRecognized line)
    (hbrace : trim line ≠ ['}']) (bindings : Bindings) :
    classify bindings full = classify bindings line := by
  obtain ⟨_, _, hs⟩ := hline.exists_statement?
  have hinert := hline.isInert_eq_false
  rw [classify, classify, classifyTrimmed, classifyTrimmed, hinert,
    isInert_of_hasEnding h.trim hinert,
    statement?_of_hasEnding (trimStart_trim line) h.trim hs hbrace bindings]

/-- A closing brace is none with a comment after it. -/
theorem classify_brace_of_hasEnding (h : HasEnding line full) (hbrace : trim line = ['}'])
    (hfull : trim full ≠ ['}']) (bindings : Bindings) :
    classify bindings full = .unrecognized := by
  have htrim : HasEnding ['}'] (trim full) := hbrace ▸ h.trim
  have hinert : isInert (trim full) = false := isInert_of_hasEnding htrim (by decide)
  have houtput : output.read? (trim full) = none :=
    read?_output_eq_none rfl htrim fun hmem => by
      obtain h | h := marks_outputStart hmem
      all_goals exact absurd h (by decide)
  rw [classify, classifyTrimmed, hinert, statement?, LoopCondition.ofLine?,
    IgnoresEnding.declaration.read?_eq htrim, IgnoresEnding.assignment.read?_eq htrim,
    IgnoresEnding.increment.read?_eq htrim, IgnoresEnding.addAssignment.read?_eq htrim,
    IgnoresEnding.loopHead.read?_eq htrim, houtput, read?_factorialCall_eq htrim, if_neg hfull]
  rfl

end Ending

/-! ## Braces of statements with an ending -/

namespace LineReader

variable {α β : Type}

/-- Only reads lines that hold no braces. -/
def ReadsNoBraces (reader : LineReader α) : Prop :=
  ∀ ⦃text rest : List Char⦄ ⦃a : α⦄, reader text = some (a, rest) → countBraces text = (0, 0)

namespace ReadsNoBraces

theorem read? {reader : LineReader α} (h : ReadsNoBraces reader) {text : List Char} {a : α}
    (hread : reader.read? text = some a) : countBraces text = (0, 0) := by
  obtain ⟨_, hread, -⟩ := Option.map_eq_some_iff.1 hread
  exact h hread

theorem bind {p : LineReader α} {f : α → LineReader β} (hp : KeepsBraces p)
    (hf : ∀ a, ReadsNoBraces (f a)) : ReadsNoBraces (p >>= f) := by
  intro text rest b h
  obtain ⟨a, middle, h₁, h₂⟩ := bind_eq_some_iff.1 h
  exact (hp h₁).symm.trans (hf a h₂)

/-- What follows the end of a statement is a comment. -/
theorem terminator_bind (f : Unit → LineReader β) : ReadsNoBraces (terminator >>= f) := by
  intro text rest b h
  obtain ⟨_, middle, hterminator, -⟩ := bind_eq_some_iff.1 h
  obtain ⟨_, after, hsign, hending⟩ := bind_eq_some_iff.1 hterminator
  rw [← KeepsBraces.sign (by decide) hsign]
  by_cases hend : IsEnd after
  · exact countBraces_of_isEnd hend
  · rw [ending_apply, if_neg hend] at hending
    cases hending

theorem assignment : ReadsNoBraces assignment :=
  .bind .identifier fun _ => .bind (.sign (by decide)) fun _ => .bind .integer fun _ =>
    terminator_bind _

theorem increment : ReadsNoBraces increment :=
  .bind .identifier fun _ => .bind (.sign (by decide)) fun _ => terminator_bind _

theorem addAssignment : ReadsNoBraces addAssignment :=
  .bind .identifier fun _ => .bind (.sign (by decide)) fun _ => .bind .identifier fun _ =>
    terminator_bind _

theorem factorialArgument (target : String) : ReadsNoBraces (factorialArgument target) :=
  .bind (.sign (by decide)) fun _ => .bind .integer fun _ => .bind (.sign (by decide)) fun _ =>
    terminator_bind _

theorem factorialAssignment : ReadsNoBraces factorialAssignment := by
  rw [factorialAssignment_eq_bind]
  refine .bind .identifier fun target => .bind (.sign (by decide)) fun _ =>
    .bind .identifier fun callee => ?_
  split
  · exact factorialArgument target
  · exact fun _ _ _ h => nomatch h

theorem keepsBraces_declarationWord : KeepsBraces declarationWord := by
  refine ((KeepsBraces.word (by decide)).orElse ((KeepsBraces.word (by decide)).orElse
    (KeepsBraces.word (by decide)))).bind fun _ text rest a h => ?_
  unfold blanks at h
  split at h
  · exact KeepsBraces.skipBlanks h
  · cases h

theorem declaration : ReadsNoBraces declaration :=
  .bind keepsBraces_declarationWord fun _ => assignment

theorem factorialCall : ReadsNoBraces factorialCall := by
  intro text rest a h
  unfold LineReader.factorialCall at h
  split at h
  next hword => exact (keepsBraces_declarationWord hword).symm.trans (factorialAssignment h)
  next => exact factorialAssignment h

end ReadsNoBraces

theorem keepsBraces_outputHead : KeepsBraces outputHead :=
  (((KeepsBraces.sign (by decide)).bind fun _ => KeepsBraces.word (by decide)).orElse
    (KeepsBraces.word (by decide))).bind fun _ => KeepsBraces.sign (by decide)

end LineReader

/-- The braces of a line stand before its first semicolon, if that is followed by an ending. -/
theorem countBracesFrom_append {state : QuoteState} {text before after tail : List Char}
    (hsplit : splitAtSemicolon state text = (before, ';' :: after)) (hend : IsEnd after)
    (hend' : IsEnd (after ++ tail)) :
    countBracesFrom state (text ++ tail) = countBracesFrom state text := by
  induction text generalizing state before with
  | nil => cases hsplit
  | cons c text ih =>
    simp only [splitAtSemicolon] at hsplit
    split at hsplit
    next hc =>
      obtain ⟨rfl, rfl⟩ := hc
      cases hsplit
      have hcount : ∀ rest, IsEnd rest → countBraces (';' :: rest) = (0, 0) := fun rest h =>
        (countBraces_cons_of_isPlain (by decide) rest).trans (countBraces_of_isEnd h)
      exact (hcount _ hend').trans (hcount _ hend).symm
    next hc =>
      have hne : text ≠ [] := by
        rintro rfl
        cases hsplit
      have hhead : (text ++ tail).head? = text.head? := List.head?_append_of_ne_nil _ hne
      have hrest := ih (Prod.ext rfl (Prod.mk.inj hsplit).2)
      rw [List.cons_append, countBracesFrom, countBracesFrom, hhead, hrest]

section Ending

variable {bindings : Bindings} {line text full : List Char} {s : Statement}

theorem countBraces_output_of_hasEnding {arguments : List Char} (h : HasEnding text full)
    (hread : output.read? text = some arguments) : countBraces full = countBraces text := by
  obtain ⟨rest, after, hhead, hsplit, hend⟩ := read?_output_eq_some_iff.1 hread
  obtain ⟨tail, hhead', hafter, -⟩ := exists_ending_of_output h hhead hsplit
  rw [← keepsBraces_outputHead hhead, ← keepsBraces_outputHead hhead', countBraces, countBraces]
  exact countBracesFrom_append hsplit hend (hafter.isEnd_iff.2 hend)

theorem countBraces_of_statement? (hs : statement? bindings text = some s)
    (h : HasEnding text full) : countBraces full = countBraces text := by
  have hnone : ∀ {α : Type} {reader : LineReader α} {a : α}, IgnoresEnding reader →
      ReadsNoBraces reader → reader.read? text = some a → countBraces full = countBraces text :=
    fun hending hbraces hread => (hbraces.read? ((hending.read?_eq h).trans hread)).trans
      (hbraces.read? hread).symm
  unfold statement? at hs
  simp only [Option.orElse_eq_orElse, Option.orElse_eq_or, Option.or_eq_some_iff,
    Option.map_eq_some_iff, Option.filter_eq_some_iff] at hs
  obtain ⟨_, hread, -⟩ | ⟨-, ⟨_, ⟨hread, -⟩, -⟩ | ⟨-, hs⟩⟩ := hs
  · exact hnone .declaration .declaration hread
  · exact hnone .assignment .assignment hread
  obtain ⟨_, ⟨hread, -⟩, -⟩ | ⟨-, ⟨_, ⟨hread, -⟩, -⟩ | ⟨-, hs⟩⟩ := hs
  · exact hnone .increment .increment hread
  · exact hnone .addAssignment .addAssignment hread
  obtain ⟨_, hread, -⟩ | ⟨-, hs | ⟨-, ⟨_, hread, -⟩ | ⟨-, _, hread, -⟩⟩⟩ := hs
  · rw [countBraces_of_ofLine? hread,
      countBraces_of_ofLine? ((IgnoresEnding.loopHead.read?_eq h).trans hread)]
  · obtain ⟨rfl, -⟩ := Option.ite_none_right_eq_some.1 hs
    obtain ⟨tail, rfl, hending, -⟩ := h
    rw [List.singleton_append, countBraces_cons_close, countBraces_cons_close,
      countBraces_of_isEnd hending]
    rfl
  · exact countBraces_output_of_hasEnding h hread
  · rw [ReadsNoBraces.factorialCall.read? hread,
      ReadsNoBraces.factorialCall.read? ((read?_factorialCall_eq h).trans hread)]

/-- A statement has the same braces with white space or a comment after it. -/
theorem countBraces_of_hasEnding (h : HasEnding line full) (hline : IsRecognized line) :
    countBraces full = countBraces line := by
  obtain ⟨_, _, hs⟩ := hline.exists_statement?
  obtain ⟨before, after, hbefore, hafter, heq⟩ := exists_eq_trim line
  obtain ⟨tail, rfl, hending, hblank⟩ := h
  have htail : HasEnding (trim line) (trim line ++ (after ++ tail)) := by
    refine ⟨after ++ tail, rfl, (isEnd_append hafter tail).2 hending, fun hne c hc => ?_⟩
    cases after with
    | nil => exact hblank (by rw [heq]; simp [hne]) c hc
    | cons d after =>
      cases hc
      exact isAllBlank_iff.1 hafter _ List.mem_cons_self
  have hplain : ∀ c ∈ before, IsPlain c := fun c hc =>
    isPlain_of_isBlank (isAllBlank_iff.1 hbefore c hc)
  have hline : line ++ tail = before ++ (trim line ++ (after ++ tail)) := by
    conv_lhs => rw [heq]
    simp
  calc countBraces (line ++ tail)
      = countBraces (trim line ++ (after ++ tail)) := by
        rw [hline, countBraces_append_of_isPlain hplain]
    _ = countBraces (trim line) := countBraces_of_statement? hs htail
    _ = countBraces (trim line ++ after) :=
        (countBraces_of_statement? hs (hasEnding_of_isAllBlank _ hafter)).symm
    _ = countBraces line := by
        conv_rhs => rw [heq, countBraces_append_of_isPlain hplain]

end Ending

end CLike

end TraceTutor
