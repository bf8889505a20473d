import TraceTutor.Proofs.CLike.Endings
import TraceTutor.Proofs.CLike.Meaning

/-!
# Comments at ends of lines

A comment after a statement changes nothing, whatever stands in it: the line means the same as
before, and a program with such comments has the same run (`run_commented`). A closing brace is the
exception (`run_commented_brace_ne`).
-/

namespace TraceTutor

namespace CLike

open Text LineReader

/-- The line with a comment after it. -/
def commented (line comment : List Char) : List Char :=
  line ++ (" //".toList ++ comment)

theorem hasEnding_commented (line comment : List Char) :
    HasEnding line (commented line comment) :=
  ⟨_, rfl, .inr ⟨comment, rfl⟩, by rintro - _ ⟨⟩; decide⟩

theorem trim_commented_ne (line comment : List Char) : trim (commented line comment) ≠ ['}'] := by
  intro h
  obtain ⟨before, after, hbefore, hafter, heq⟩ := exists_eq_trim (commented line comment)
  have hslash : '/' ∈ commented line comment := by simp [commented]
  have hblank : isBlank '/' = true := by
    rw [heq, h, List.mem_append, List.singleton_append, List.mem_cons] at hslash
    obtain hslash | hslash | hslash := hslash
    · exact isAllBlank_iff.1 hbefore _ hslash
    · cases hslash
    · exact isAllBlank_iff.1 hafter _ hslash
  cases hblank

/-- The second line is the first one with a comment, and the first one is a statement other than a
closing brace. -/
structure IsCommented (line line' : List Char) : Prop where
  isRecognized : IsRecognized line
  trim_ne : trim line ≠ ['}']
  eq_commented : ∃ comment, line' = commented line comment

theorem IsCommented.meaning_eq {line line' : List Char} (h : IsCommented line line') :
    meaning line' = meaning line := by
  obtain ⟨hline, hbrace, comment, rfl⟩ := h
  have hending := hasEnding_commented line comment
  refine Prod.ext (funext fun bindings => classify_of_hasEnding hending hline hbrace bindings) ?_
  rw [meaning, meaning, braceDelta, braceDelta, countBraces_of_hasEnding hending hline]

/-- A comment after a statement changes neither what it does nor its braces, and a run of a program
with such comments is the same. Only a closing brace is not taken for one if a comment follows. -/
theorem run_commented (bindings : Bindings) (line comment : List Char) (limits : Limits)
    (source source' : String) :
    (IsRecognized line →
      classify bindings (commented line comment) =
          (if classify bindings line = .closeBrace then .unrecognized
          else classify bindings line) ∧
        countBraces (commented line comment) = countBraces line) ∧
    (List.Forall₂ (fun line line' => line' = line ∨ IsCommented line line')
        (lines source.toList) (lines source'.toList) →
      run limits source' = run limits source) := by
  refine ⟨fun hline => ?_, fun h => ?_⟩
  · have hending := hasEnding_commented line comment
    refine ⟨?_, countBraces_of_hasEnding hending hline⟩
    split
    next hbrace =>
      exact classify_brace_of_hasEnding hending (trim_of_classify hbrace)
        (trim_commented_ne line comment) bindings
    next hbrace =>
      exact classify_of_hasEnding hending hline (fun h => hbrace (classify_of_trim bindings h))
        bindings
  · have hmeaning : List.Forall₂ (fun line' line => meaning line' = meaning line)
        (lines source'.toList) (lines source.toList) :=
      h.flip.imp fun line' line h => h.elim (congrArg meaning) IsCommented.meaning_eq
    refine run_eq_of_meaning ?_
    rwa [← List.forall₂_eq_eq_eq, List.forall₂_map_left_iff, List.forall₂_map_right_iff]

/-- A program that counts to two. -/
def plainCount : String :=
  "int i = 0;\nwhile (i < 2) \x7b\ni++;\n\x7d\ncout << i;\n"

/-- The same program with a comment after each line but the closing brace. -/
def commentedCount : String :=
  "int i = 0; // \x7d start\nwhile (i < 2) \x7b // '\ni++; //;\n\x7d\ncout << i; // << '\x7b';\n"

theorem run_commented_count :
    List.Forall₂ (fun line line' => line' = line ∨ IsCommented line line')
        (lines plainCount.toList) (lines commentedCount.toList) ∧
      run ⟨50, 0, 0⟩ commentedCount = run ⟨50, 0, 0⟩ plainCount ∧
      (run ⟨50, 0, 0⟩ commentedCount).output = ["2"] ∧
      classify .empty (commented "int i = 0;".toList " \x7d start".toList) = .declare "i" 0 := by
  have hcommented : ∀ line ∈ ["int i = 0;".toList, "while (i < 2) \x7b".toList, "i++;".toList,
      "cout << i;".toList], ∀ comment, IsCommented line (commented line comment) := by
    have hline : ∀ line ∈ ["int i = 0;".toList, "while (i < 2) \x7b".toList, "i++;".toList,
        "cout << i;".toList], classify (.ofList [("i", .int 0)]) line ≠ .noOp ∧
        classify (.ofList [("i", .int 0)]) line ≠ .unrecognized ∧ trim line ≠ ['}'] := by
      decide +kernel
    exact fun line hmem comment =>
      ⟨⟨_, (hline line hmem).1, (hline line hmem).2.1⟩, (hline line hmem).2.2, comment, rfl⟩
  have hlines : lines plainCount.toList = ["int i = 0;".toList, "while (i < 2) \x7b".toList,
      "i++;".toList, ['}'], "cout << i;".toList] := by decide +kernel
  have hlines' : lines commentedCount.toList = [commented "int i = 0;".toList " \x7d start".toList,
      commented "while (i < 2) \x7b".toList " '".toList, commented "i++;".toList [';'], ['}'],
      commented "cout << i;".toList " << '\x7b';".toList] := by decide +kernel
  have hall : List.Forall₂ (fun line line' => line' = line ∨ IsCommented line line')
      (lines plainCount.toList) (lines commentedCount.toList) := by
    rw [hlines, hlines']
    exact .cons (.inr (hcommented _ (by simp) _)) <| .cons (.inr (hcommented _ (by simp) _)) <|
      .cons (.inr (hcommented _ (by simp) _)) <| .cons (.inl rfl) <|
      .cons (.inr (hcommented _ (by simp) _)) .nil
  obtain ⟨hclassify, hrun⟩ := run_commented .empty "int i = 0;".toList " \x7d start".toList
    ⟨50, 0, 0⟩ plainCount commentedCount
  exact ⟨hall, hrun hall, by decide +kernel,
    (hclassify (hcommented _ (by simp) []).isRecognized).1⟩

/-- With a comment after its closing brace, a loop is not run again. -/
theorem run_commented_brace_ne :
    classify .empty ['}'] = .closeBrace ∧
      classify .empty (commented ['}'] " end".toList) ≠ .closeBrace ∧
      (run ⟨50, 0, 0⟩ "int i = 0;\nwhile (i < 2) \x7b\ni++;\n\x7d // end\n").trace.length ≠
        (run ⟨50, 0, 0⟩ "int i = 0;\nwhile (i < 2) \x7b\ni++;\n\x7d\n").trace.length := by
  decide +kernel

end CLike

end TraceTutor
