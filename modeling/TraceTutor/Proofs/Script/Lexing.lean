import TraceTutor.Proofs.Except
import TraceTutor.Proofs.Text.Blank
import TraceTutor.Proofs.Trace.Recording
import TraceTutor.Script.Lexer

/-!
# Tokens in their text

The lexer loses nothing: a scanned token is spelled by the characters between the gap before it and
what follows (`scan_eq`, `skipGap_eq`), so that the place of a token is the one that the text before
it leads to (`exists_place_of_mem`). Its line is one of the lines of the text
(`isLine_of_mem_tokenize`).
-/

namespace TraceTutor

namespace Location

/-- A place is as many lines further down as the text before it has line feeds. -/
theorem line_advanceAll (l : Location) (text : List Char) :
    (l.advanceAll text).line = l.line + text.count '\n' := by
  induction text generalizing l with
  | nil => rfl
  | cons c text ih =>
    rw [advanceAll_cons, ih, advance]
    by_cases h : c = '\n'
    · rw [if_pos h, h, List.count_cons_self]
      show l.line + 1 + text.count '\n' = l.line + (text.count '\n' + 1)
      omega
    · rw [if_neg h, List.count_cons_of_ne h]

end Location

namespace Lexer

/-! ## Tokens -/

theorem splitNumber_eq (text : List Char) :
    (splitNumber text).1 ++ (splitNumber text).2 = text := by
  induction text with
  | nil => rfl
  | cons c rest ih =>
    unfold splitNumber
    split
    · exact congrArg (c :: ·) ih
    · rfl

theorem scanNumber_eq {text : List Char} {scanned : Scanned} (h : scanNumber text = .ok scanned) :
    scanned.text ++ scanned.rest = text := by
  unfold scanNumber at h
  dsimp only at h
  split at h
  · cases h
    exact splitNumber_eq text
  · cases h

theorem scanWord_eq (text : List Char) : (scanWord text).text ++ (scanWord text).rest = text :=
  List.takeWhile_append_dropWhile

theorem scanString_eq {quote : Char} {text held spelled rest : List Char}
    (h : scanString quote text = .ok (held, spelled, rest)) : spelled ++ rest = text := by
  fun_induction scanString quote text generalizing held spelled rest with
  | case1 | case2 | case5 => cases h
  | case3 c text ih =>
    obtain ⟨⟨held', spelled', rest'⟩, hscan, heq⟩ := except_bind_eq_ok_iff.1 h
    cases heq
    exact congrArg ('\\' :: c :: ·) (ih hscan)
  | case4 =>
    cases h
    rfl
  | case6 c text _ _ _ _ ih =>
    obtain ⟨⟨held', spelled', rest'⟩, hscan, heq⟩ := except_bind_eq_ok_iff.1 h
    cases heq
    exact congrArg (c :: ·) (ih hscan)

theorem scanSign?_eq {text spelled rest : List Char} {sign : Sign}
    (h : scanSign? text = some (sign, spelled, rest)) : spelled ++ rest = text := by
  unfold scanSign? at h
  split at h <;> cases h
  all_goals rfl

/-- A token is spelled by the characters in front of what follows it. -/
theorem scan_eq {c : Char} {rest : List Char} {scanned : Scanned} (h : scan c rest = .ok scanned) :
    scanned.text ++ scanned.rest = c :: rest := by
  unfold scan at h
  split at h
  · obtain ⟨⟨held, spelled, rest'⟩, hscan, heq⟩ := except_bind_eq_ok_iff.1 h
    cases heq
    exact congrArg (c :: ·) (scanString_eq hscan)
  · split at h
    · exact scanNumber_eq h
    · split at h
      · cases h
        exact scanWord_eq (c :: rest)
      · split at h
        next hsign =>
          cases h
          exact scanSign?_eq hsign
        next => cases h

/-! ## Gaps -/

/-- A gap stands in front of what follows it, and counts as the text that it is. -/
theorem skipGap_eq {state : GapState} {l l' : Location} {text rest : List Char}
    (h : skipGap state l text = .ok (l', rest)) :
    ∃ gap, gap ++ rest = text ∧ l' = l.advanceAll gap := by
  have hcons : ∀ {l : Location} {c : Char} {text : List Char},
      (∃ gap, gap ++ rest = text ∧ l' = (l.advance c).advanceAll gap) →
        ∃ gap, gap ++ rest = c :: text ∧ l' = l.advanceAll gap := by
    rintro l c text ⟨gap, rfl, hl⟩
    exact ⟨c :: gap, rfl, hl⟩
  fun_induction skipGap state l text with
  | case1 => cases h
  | case2 =>
    cases h
    exact ⟨[], rfl, rfl⟩
  | case3 l c text ih => exact hcons (ih h)
  | case4 l start text ih => exact hcons (hcons (ih h))
  | case5 l start c text _ ih => exact hcons (ih h)
  | case6 l text ih => exact hcons (hcons (ih h))
  | case7 l text ih => exact hcons (hcons (ih h))
  | case8 l c text _ _ _ ih => exact hcons (ih h)
  | case9 =>
    cases h
    exact ⟨[], rfl, rfl⟩

/-! ## Places -/

/-- A text has no more tokens than one gap, or its first token and those of what follows. -/
theorem tokensFrom_cases {fuel : Nat} {l stop : Location} {text : List Char}
    {tokens : List Token} (h : tokensFrom (fuel + 1) l text = .ok (tokens, stop)) :
    (skipGap .open l text = .ok (stop, []) ∧ tokens = []) ∨
    ∃ l' c rest scanned tokens', skipGap .open l text = .ok (l', c :: rest) ∧
      scan c rest = .ok scanned ∧
      tokensFrom fuel (l'.advanceAll scanned.text) scanned.rest = .ok (tokens', stop) ∧
      tokens = ⟨scanned.kind, l'⟩ :: tokens' := by
  unfold tokensFrom at h
  obtain ⟨⟨l', - | ⟨c, rest⟩⟩, hgap, hrest⟩ := except_bind_eq_ok_iff.1 h
  · cases hrest
    exact .inl ⟨hgap, rfl⟩
  · dsimp only at hrest
    split at hrest
    · cases hrest
    next scanned hscan =>
      obtain ⟨⟨tokens', stop'⟩, htokens, heq⟩ := except_bind_eq_ok_iff.1 hrest
      cases heq
      exact .inr ⟨l', c, rest, scanned, tokens', hgap, hscan, htokens, rfl⟩

/-- The place of a token is the one that the text before it leads to. -/
theorem exists_place_of_mem {fuel : Nat} {l stop : Location} {text : List Char}
    {tokens : List Token} (h : tokensFrom fuel l text = .ok (tokens, stop)) :
    ∀ token ∈ tokens, ∃ before rest, before ++ rest = text ∧ rest ≠ [] ∧
      token.location = l.advanceAll before := by
  induction fuel generalizing l text tokens stop with
  | zero =>
    unfold tokensFrom at h
    obtain ⟨⟨l', rest⟩, -, hrest⟩ := except_bind_eq_ok_iff.1 h
    cases rest <;> cases hrest <;> simp
  | succ fuel ih =>
    rcases tokensFrom_cases h with ⟨-, rfl⟩ |
      ⟨l', c, rest, scanned, tokens', hgap, hscan, htokens, rfl⟩
    · simp
    · obtain ⟨gap, rfl, rfl⟩ := skipGap_eq hgap
      intro token htoken
      rcases List.mem_cons.1 htoken with rfl | htoken
      · exact ⟨gap, c :: rest, rfl, List.cons_ne_nil c rest, rfl⟩
      · obtain ⟨before, after, hbefore, hafter, hplace⟩ := ih htokens token htoken
        refine ⟨gap ++ scanned.text ++ before, after, ?_, hafter, ?_⟩
        · rw [← scan_eq hscan, ← hbefore, List.append_assoc, List.append_assoc]
        · rw [hplace, Location.advanceAll_append, Location.advanceAll_append]

end Lexer

/-- A token stands on a line of the text. -/
theorem isLine_of_mem_tokenize {source : String} {stream : TokenStream}
    (h : tokenize source = .ok stream) :
    ∀ token ∈ stream.tokens, IsLine (Text.lines source.toList).length token.location.line := by
  intro token htoken
  obtain ⟨⟨tokens, stop⟩, htokens, heq⟩ := except_bind_eq_ok_iff.1 h
  cases heq
  obtain ⟨before, rest, htext, hrest, hplace⟩ := Lexer.exists_place_of_mem htokens token htoken
  have hcount := Text.count_lt_length_lines before hrest
  rw [htext] at hcount
  rw [hplace, IsLine, Location.line_advanceAll]
  show 1 ≤ 1 + before.count '\n' ∧ 1 + before.count '\n' ≤ _
  omega

end TraceTutor
