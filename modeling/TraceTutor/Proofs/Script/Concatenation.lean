import TraceTutor.Proofs.Script.Spelling

/-!
# Tokens of joined texts

A text that splits into tokens may be followed by a line feed and any other text. At the line feed
the lexer is in no token and in no comment (`skipGap_feed`, `scan_feed`), and from there it goes on
as it does at the start of a text, but for its place (`tokensFrom_below`). So the tokens of the
joined text are those of the first text and then those of the second one, moved down
(`tokenize_append_feed`).
-/

namespace TraceTutor

/-! ## Moving down -/

/-- The place that many lines further down. -/
def Location.below (l : Location) (lines : Nat) : Location :=
  ⟨l.line + lines, l.column⟩

/-- The token that many lines further down. -/
def Token.below (t : Token) (lines : Nat) : Token :=
  ⟨t.kind, t.location.below lines⟩

/-- The same fault that many lines further down. -/
def SyntaxFault.below (f : SyntaxFault) (lines : Nat) : SyntaxFault :=
  ⟨f.cause, f.location.below lines⟩

namespace Location

theorem advance_below (l : Location) (lines : Nat) (c : Char) :
    (l.below lines).advance c = (l.advance c).below lines := by
  unfold advance
  split
  · show (⟨l.line + lines + 1, 1⟩ : Location) = ⟨l.line + 1 + lines, 1⟩
    rw [Nat.add_right_comm]
  · rfl

theorem advanceAll_below (l : Location) (lines : Nat) (text : List Char) :
    (l.below lines).advanceAll text = (l.advanceAll text).below lines := by
  induction text generalizing l with
  | nil => rfl
  | cons c text ih => rw [advanceAll_cons, advance_below, ih, advanceAll_cons]

/-- A line feed leads to the start of a text, as many lines further down as there are above it. -/
theorem advance_feed (l : Location) : l.advance '\n' = start.below l.line := by
  show (⟨l.line + 1, 1⟩ : Location) = ⟨1 + l.line, 1⟩
  rw [Nat.add_comm]

end Location

namespace Lexer

/-! ## Steps of a gap -/

section

variable (l start : Location) {c : Char} (rest : List Char)

theorem skipGap_lineComment (c : Char) : skipGap .lineComment l (c :: rest) =
    skipGap (if c = '\n' then .open else .lineComment) (l.advance c) rest := by
  rw [skipGap.eq_def]

theorem skipGap_close : skipGap (.blockComment start) l ('*' :: '/' :: rest) =
    skipGap .open ((l.advance '*').advance '/') rest := by
  rw [skipGap.eq_def]
  rfl

theorem skipGap_blockComment {rest : List Char}
    (h : ∀ rest', c = '*' → rest = '/' :: rest' → False) :
    skipGap (.blockComment start) l (c :: rest) =
      skipGap (.blockComment start) (l.advance c) rest := by
  rw [skipGap.eq_def]
  simp only

theorem skipGap_openLine : skipGap .open l ('/' :: '/' :: rest) =
    skipGap .lineComment ((l.advance '/').advance '/') rest := by
  rw [skipGap.eq_def]
  rfl

theorem skipGap_openBlock : skipGap .open l ('/' :: '*' :: rest) =
    skipGap (.blockComment l) ((l.advance '/').advance '*') rest := by
  rw [skipGap.eq_def]
  rfl

theorem skipGap_blank (hc : Text.isBlank c = true) :
    skipGap .open l (c :: rest) = skipGap .open (l.advance c) rest := by
  have hslash : c ≠ '/' := by
    rintro rfl
    cases hc
  rw [skipGap.eq_def]
  simp [hslash, hc]

/-- A character in a gap that opens no comment is none that could. -/
theorem head_ne_of_opens {rest : List Char}
    (hline : ∀ rest', c = '/' → rest = '/' :: rest' → False)
    (hblock : ∀ rest', c = '/' → rest = '*' :: rest' → False) (hslash : c = '/') :
    ∀ d ∈ rest.head?, d ≠ '/' ∧ d ≠ '*' := by
  intro d hd
  obtain ⟨rest', rfl⟩ := List.head?_eq_some_iff.1 hd
  refine ⟨?_, ?_⟩
  · rintro rfl
    exact hline rest' hslash rfl
  · rintro rfl
    exact hblock rest' hslash rfl

end

/-! ## The same text further down -/

/-- The state of a gap that many lines further down. -/
def GapState.below (lines : Nat) : GapState → GapState
  | .blockComment start => .blockComment (start.below lines)
  | state => state

theorem skipGap_below (lines : Nat) (state : GapState) (l : Location) (text : List Char) :
    skipGap (state.below lines) (l.below lines) text =
      ((skipGap state l text).map fun (l', rest) => (l'.below lines, rest)).mapError
        (·.below lines) := by
  fun_induction skipGap state l text with
  | case1 => rfl
  | case2 state l hstate =>
    cases state with
    | blockComment start => exact absurd rfl (hstate start)
    | «open» => rfl
    | lineComment => rfl
  | case3 l c rest ih =>
    rw [← ih, ← Location.advance_below]
    show skipGap .lineComment _ _ = _
    rw [skipGap_lineComment]
    split <;> rfl
  | case4 l start rest ih =>
    rw [← ih, ← Location.advance_below, ← Location.advance_below]
    exact skipGap_close ..
  | case5 l start c rest hopen ih =>
    rw [← ih, ← Location.advance_below]
    exact skipGap_blockComment _ _ hopen
  | case6 l rest ih =>
    rw [← ih, ← Location.advance_below, ← Location.advance_below]
    exact skipGap_openLine ..
  | case7 l rest ih =>
    rw [← ih, ← Location.advance_below, ← Location.advance_below]
    exact skipGap_openBlock ..
  | case8 l c rest hline hblock hblank ih =>
    rw [← ih, ← Location.advance_below]
    exact skipGap_blank _ _ hblank
  | case9 l c rest hline hblock hblank =>
    exact skipGap_cons (Bool.eq_false_iff.2 hblank) (head_ne_of_opens hline hblock) _

theorem faultLocation_below (lines : Nat) (cause : SyntaxCause) (l : Location) (text : List Char) :
    faultLocation cause (l.below lines) text = (faultLocation cause l text).below lines := by
  unfold faultLocation
  split
  · exact Location.advanceAll_below l lines text
  · rfl

/-- The tokens of a text do not depend on its place, but for their own places. -/
theorem tokensFrom_below (lines fuel : Nat) (l : Location) (text : List Char) :
    tokensFrom fuel (l.below lines) text =
      ((tokensFrom fuel l text).map fun (tokens, stop) =>
        (tokens.map (·.below lines), stop.below lines)).mapError (·.below lines) := by
  induction fuel generalizing l text with
  | zero =>
    have hgap := skipGap_below lines .open l text
    unfold tokensFrom
    show (skipGap (GapState.below lines .open) _ _ >>= _) = _
    rw [hgap]
    rcases skipGap .open l text with fault | ⟨l', - | ⟨c, rest⟩⟩ <;> rfl
  | succ fuel ih =>
    have hgap := skipGap_below lines .open l text
    unfold tokensFrom
    show (skipGap (GapState.below lines .open) _ _ >>= _) = _
    rw [hgap]
    rcases skipGap .open l text with fault | ⟨l', - | ⟨c, rest⟩⟩
    · rfl
    · rfl
    · simp only [Except.map, Except.mapError, bind, Except.bind]
      cases hscan : scan c rest with
      | error cause =>
        simp only [faultLocation_below]
        rfl
      | ok scanned =>
        simp only [Location.advanceAll_below, ih]
        rcases tokensFrom fuel (l'.advanceAll scanned.text) scanned.rest with fault | ⟨tokens, stop⟩
        · rfl
        · rfl

/-! ## Fuel -/

theorem isWordPart_of_isWordStart {c : Char} (h : isWordStart c = true) : isWordPart c = true := by
  unfold isWordStart at h
  unfold isWordPart Char.isAlphanum
  simp only [Bool.or_eq_true] at h ⊢
  tauto

theorem text_ne_nil_of_scan {c : Char} {rest : List Char} {scanned : Scanned}
    (h : scan c rest = .ok scanned) : scanned.text ≠ [] := by
  unfold scan at h
  split at h
  · obtain ⟨⟨held, spelled, rest'⟩, -, heq⟩ := except_bind_eq_ok_iff.1 h
    cases heq
    exact List.cons_ne_nil c spelled
  split at h
  next hdigit =>
    unfold scanNumber at h
    dsimp only at h
    split at h
    · cases h
      simp [splitNumber, hdigit]
    · cases h
  split at h
  next hstart =>
    cases h
    simp [scanWord, isWordPart_of_isWordStart hstart]
  split at h
  next hsign =>
    cases h
    unfold scanSign? at hsign
    split at hsign <;> cases hsign
    all_goals exact List.cons_ne_nil _ _
  next => cases h

theorem length_rest_of_scan {c : Char} {rest : List Char} {scanned : Scanned}
    (h : scan c rest = .ok scanned) : scanned.rest.length ≤ rest.length := by
  have hlength := congrArg List.length (scan_eq h)
  have hpos := List.length_pos_iff.2 (text_ne_nil_of_scan h)
  rw [List.length_append, List.length_cons] at hlength
  omega

/-- As much fuel as there are characters gives all tokens. -/
theorem tokensFrom_of_length_le {m n : Nat} {l : Location} {text : List Char}
    (hm : text.length ≤ m) (hn : text.length ≤ n) : tokensFrom m l text = tokensFrom n l text := by
  induction m generalizing n l text with
  | zero =>
    obtain rfl := List.eq_nil_of_length_eq_zero (Nat.le_zero.1 hm)
    rw [tokensFrom_nil, tokensFrom_nil]
  | succ m ih =>
    cases n with
    | zero =>
      obtain rfl := List.eq_nil_of_length_eq_zero (Nat.le_zero.1 hn)
      rw [tokensFrom_nil, tokensFrom_nil]
    | succ n =>
      unfold tokensFrom
      cases hgap : skipGap .open l text with
      | error fault => rfl
      | ok skipped =>
        obtain ⟨l', - | ⟨c, rest⟩⟩ := skipped
        · rfl
        · simp only [bind, Except.bind]
          cases hscan : scan c rest with
          | error cause => rfl
          | ok scanned =>
            obtain ⟨gap, rfl, -⟩ := skipGap_eq hgap
            rw [List.length_append, List.length_cons] at hm hn
            have hrest := length_rest_of_scan hscan
            dsimp only
            rw [ih (n := n) (by omega) (by omega)]

/-! ## At a line feed -/

/-- The same token with more text behind it. -/
def Scanned.before (scanned : Scanned) (more : List Char) : Scanned :=
  { scanned with rest := scanned.rest ++ more }

section

variable (more : List Char)

theorem takeWhile_feed {p : Char → Bool} (hp : p '\n' = false) (text : List Char) :
    (text ++ '\n' :: more).takeWhile p = text.takeWhile p ∧
      (text ++ '\n' :: more).dropWhile p = text.dropWhile p ++ '\n' :: more := by
  induction text with
  | nil => simp [hp]
  | cons c text ih =>
    by_cases hc : p c = true
    · simp [hc, ih]
    · simp [hc]

theorem splitNumber_feed (text : List Char) :
    splitNumber (text ++ '\n' :: more) =
      ((splitNumber text).1, (splitNumber text).2 ++ '\n' :: more) := by
  induction text with
  | nil => rfl
  | cons c text ih =>
    have hhead : (text ++ '\n' :: more).head?.any Char.isDigit = text.head?.any Char.isDigit := by
      cases text <;> rfl
    rw [List.cons_append]
    unfold splitNumber
    rw [hhead, ih]
    split <;> rfl

theorem scanNumber_feed {text : List Char} {scanned : Scanned}
    (h : scanNumber text = .ok scanned) : scanNumber (text ++ '\n' :: more) =
      .ok (scanned.before ('\n' :: more)) := by
  unfold scanNumber at h ⊢
  rw [splitNumber_feed]
  dsimp only at h ⊢
  split at h
  · cases h
    rfl
  · cases h

theorem scanWord_feed (text : List Char) :
    scanWord (text ++ '\n' :: more) = (scanWord text).before ('\n' :: more) := by
  obtain ⟨htake, hdrop⟩ := takeWhile_feed more (p := isWordPart) (by decide) text
  unfold scanWord
  rw [htake, hdrop]
  rfl

/-- A character that is no backslash ends the string, or breaks it off, or belongs to it. -/
theorem scanString_cons {quote c : Char} (hc : c ≠ '\\') (rest : List Char) :
    scanString quote (c :: rest) =
      if c = quote then .ok ([], [c], rest)
      else if c = '\n' then .error .unterminatedString
      else do
        let (held, text, rest) ← scanString quote rest
        return (c :: held, c :: text, rest) := by
  rw [scanString]
  · exact fun hslash => absurd hslash hc
  · exact fun _ _ hslash => absurd hslash hc

theorem scanString_feed {quote : Char} {text held spelled rest : List Char}
    (h : scanString quote text = .ok (held, spelled, rest)) :
    scanString quote (text ++ '\n' :: more) = .ok (held, spelled, rest ++ '\n' :: more) := by
  have hplain : ∀ {c : Char} {text : List Char}, (c = '\\' → text = [] → False) →
      (∀ d rest, c = '\\' → text = d :: rest → False) → c ≠ '\\' := by
    rintro c (- | ⟨d, text⟩) hend hescape rfl
    · exact hend rfl rfl
    · exact hescape d text rfl rfl
  fun_induction scanString quote text generalizing held spelled rest with
  | case1 | case2 | case5 => cases h
  | case3 c text ih =>
    obtain ⟨⟨held', spelled', rest'⟩, hscan, heq⟩ := except_bind_eq_ok_iff.1 h
    cases heq
    simp [scanString, ih hscan]
  | case4 text hend hescape =>
    cases h
    rw [List.cons_append, scanString_cons (hplain hend hescape), if_pos rfl]
  | case6 c text hend hescape hquote hfeed ih =>
    obtain ⟨⟨held', spelled', rest'⟩, hscan, heq⟩ := except_bind_eq_ok_iff.1 h
    cases heq
    rw [List.cons_append, scanString_cons (hplain hend hescape), if_neg hquote, if_neg hfeed,
      ih hscan]
    rfl

/-- A character that does not follow does not follow either once there is a line feed. -/
theorem not_cons_feed {d : Char} (hd : d ≠ '\n') {rest : List Char}
    (h : ∀ rest', rest = d :: rest' → False) :
    ∀ rest', rest ++ '\n' :: more = d :: rest' → False := by
  intro rest' heq
  cases rest with
  | nil => exact hd (List.cons.inj heq).1.symm
  | cons e rest => exact h rest (congrArg (· :: rest) (List.cons.inj heq).1)

theorem scanSign?_feed {text spelled rest : List Char} {sign : Sign}
    (h : scanSign? text = some (sign, spelled, rest)) :
    scanSign? (text ++ '\n' :: more) = some (sign, spelled, rest ++ '\n' :: more) := by
  unfold scanSign? at h
  split at h <;> cases h
  -- Most signs are read whatever follows them.
  all_goals try rfl
  -- The other ones could go on, but not with a line feed.
  case h_14 | h_18 =>
    rename_i hequal
    rw [List.cons_append, List.cons_append, scanSign?]
    exact not_cons_feed more (by decide) hequal
  case h_16 =>
    rename_i hequal harrow
    have hequal := not_cons_feed more (by decide) hequal
    rw [List.cons_append, scanSign?]
    · exact fun rest' => hequal ('=' :: rest')
    · exact hequal
    · exact not_cons_feed more (by decide) harrow
  case h_19 =>
    rename_i hequal
    have hequal := not_cons_feed more (by decide) hequal
    rw [List.cons_append, scanSign?]
    · exact fun rest' => hequal ('=' :: rest')
    · exact hequal
  all_goals
    rw [List.cons_append, scanSign?] <;> exact not_cons_feed more (by decide) ‹_›

/-- A token that is read ends before a line feed after it. -/
theorem scan_feed {c : Char} {rest : List Char} {scanned : Scanned}
    (h : scan c rest = .ok scanned) :
    scan c (rest ++ '\n' :: more) = .ok (scanned.before ('\n' :: more)) := by
  unfold scan at h ⊢
  split at h
  next hquote =>
    obtain ⟨⟨held, spelled, rest'⟩, hscan, heq⟩ := except_bind_eq_ok_iff.1 h
    cases heq
    rw [if_pos hquote, scanString_feed more hscan]
    rfl
  next hquote =>
    rw [if_neg hquote]
    split at h
    next hdigit =>
      rw [if_pos hdigit, ← List.cons_append]
      exact scanNumber_feed more h
    next hdigit =>
      rw [if_neg hdigit]
      split at h
      next hstart =>
        cases h
        rw [if_pos hstart, ← List.cons_append, scanWord_feed]
      next hstart =>
        rw [if_neg hstart]
        split at h
        next hsign =>
          cases h
          rw [← List.cons_append, scanSign?_feed more hsign]
          rfl
        next => cases h

/-- A gap in front of a token stays as it is. A gap at the end of the text goes on after the line
feed, and no comment with it. -/
theorem skipGap_feed {state : GapState} {l l' : Location} {text rest : List Char}
    (h : skipGap state l text = .ok (l', rest)) :
    skipGap state l (text ++ '\n' :: more) =
      if rest = [] then skipGap .open (l'.advance '\n') more
      else .ok (l', rest ++ '\n' :: more) := by
  fun_induction skipGap state l text with
  | case1 => cases h
  | case2 state l hstate =>
    cases h
    rw [if_pos rfl]
    cases state with
    | blockComment start => exact absurd rfl (hstate start)
    | «open» => exact skipGap_blank _ _ rfl
    | lineComment => exact skipGap_lineComment ..
  | case3 l c rest ih =>
    rw [← ih h]
    exact skipGap_lineComment ..
  | case4 l start rest ih =>
    rw [← ih h]
    exact skipGap_close ..
  | case5 l start c rest hopen ih =>
    rw [← ih h]
    refine skipGap_blockComment _ _ fun rest' hstar => ?_
    exact not_cons_feed more (by decide) (fun rest'' => hopen rest'' hstar) rest'
  | case6 l rest ih =>
    rw [← ih h]
    exact skipGap_openLine ..
  | case7 l rest ih =>
    rw [← ih h]
    exact skipGap_openBlock ..
  | case8 l c rest hline hblock hblank ih =>
    rw [← ih h]
    exact skipGap_blank _ _ hblank
  | case9 l c rest hline hblock hblank =>
    cases h
    rw [if_neg (List.cons_ne_nil c rest)]
    refine skipGap_cons (Bool.eq_false_iff.2 hblank) (head_ne_of_opens ?_ ?_) _
    · exact fun rest' hslash => not_cons_feed more (by decide) (fun r => hline r hslash) rest'
    · exact fun rest' hslash => not_cons_feed more (by decide) (fun r => hblock r hslash) rest'

end

/-! ## Joined texts -/

section

variable {fuel : Nat} {l l' stop : Location} {text : List Char} {tokens : List Token}

theorem tokensFrom_of_scan {c : Char} {rest : List Char} {scanned : Scanned}
    (hgap : skipGap .open l text = .ok (l', c :: rest)) (hscan : scan c rest = .ok scanned) :
    tokensFrom (fuel + 1) l text =
      (tokensFrom fuel (l'.advanceAll scanned.text) scanned.rest).map fun (tokens, stop) =>
        (⟨scanned.kind, l'⟩ :: tokens, stop) := by
  rw [tokensFrom, hgap]
  simp only [bind, Except.bind, hscan]
  cases tokensFrom fuel (l'.advanceAll scanned.text) scanned.rest <;> rfl

/-- What is left behind a token is shorter than the text. -/
theorem length_rest_lt {c : Char} {rest : List Char} {scanned : Scanned}
    (hgap : skipGap .open l text = .ok (l', c :: rest)) (hscan : scan c rest = .ok scanned) :
    scanned.rest.length < text.length := by
  obtain ⟨gap, rfl, -⟩ := skipGap_eq hgap
  have hrest := length_rest_of_scan hscan
  rw [List.length_append, List.length_cons]
  omega

/-- The tokens of a text stop at its end. -/
theorem stop_eq_advanceAll (h : tokensFrom fuel l text = .ok (tokens, stop))
    (hfuel : text.length ≤ fuel) : stop = l.advanceAll text := by
  induction fuel generalizing l text tokens with
  | zero =>
    obtain rfl := List.eq_nil_of_length_eq_zero (Nat.le_zero.1 hfuel)
    rw [tokensFrom_nil] at h
    cases h
    rfl
  | succ fuel ih =>
    rcases tokensFrom_cases h with ⟨hgap, -⟩ |
      ⟨l', c, rest, scanned, tokens', hgap, hscan, hrest, -⟩
    · obtain ⟨gap, rfl, rfl⟩ := skipGap_eq hgap
      rw [List.append_nil]
    · have hlength := length_rest_lt hgap hscan
      obtain ⟨gap, rfl, rfl⟩ := skipGap_eq hgap
      rw [ih hrest (by omega), ← scan_eq hscan, Location.advanceAll_append,
        Location.advanceAll_append]

/-- At a line feed after the last gap of a text, the lexer starts anew. -/
theorem tokensFrom_feed_of_gap {more : List Char} (hgap : skipGap .open l text = .ok (stop, []))
    (hfuel : more.length ≤ fuel) : tokensFrom fuel l (text ++ '\n' :: more) =
      tokensFrom more.length (stop.advance '\n') more := by
  have hfeed := skipGap_feed more hgap
  rw [if_pos rfl] at hfeed
  have hanew : tokensFrom fuel l (text ++ '\n' :: more) =
      tokensFrom fuel (stop.advance '\n') more := by
    unfold tokensFrom
    rw [hfeed]
  rw [hanew, tokensFrom_of_length_le hfuel le_rfl]

/-- Before a line feed the tokens of a text are what they are without it, and after it they are
those of the second text. -/
theorem tokensFrom_feed {fuel' : Nat} (h : tokensFrom fuel l text = .ok (tokens, stop))
    (hfuel : text.length ≤ fuel) {more : List Char} (hfuel' : text.length + more.length ≤ fuel') :
    tokensFrom fuel' l (text ++ '\n' :: more) =
      (tokensFrom more.length (stop.advance '\n') more).map fun (tokens', stop') =>
        (tokens ++ tokens', stop') := by
  induction fuel generalizing l text tokens fuel' with
  | zero =>
    obtain rfl := List.eq_nil_of_length_eq_zero (Nat.le_zero.1 hfuel)
    rw [tokensFrom_nil] at h
    cases h
    rw [tokensFrom_feed_of_gap rfl (by omega)]
    cases tokensFrom more.length (stop.advance '\n') more <;> rfl
  | succ fuel ih =>
    rcases tokensFrom_cases h with ⟨hgap, rfl⟩ |
      ⟨l', c, rest, scanned, tokens', hgap, hscan, hrest, rfl⟩
    · rw [tokensFrom_feed_of_gap hgap (by omega)]
      cases tokensFrom more.length (stop.advance '\n') more <;> rfl
    · have hlength := length_rest_lt hgap hscan
      obtain ⟨fuel', rfl⟩ := Nat.exists_eq_add_one.2 (show 0 < fuel' by omega)
      have hfeed := skipGap_feed more hgap
      rw [if_neg (List.cons_ne_nil c rest), List.cons_append] at hfeed
      rw [tokensFrom_of_scan hfeed (scan_feed more hscan)]
      show (tokensFrom fuel' (l'.advanceAll scanned.text) (scanned.rest ++ '\n' :: more)).map _ = _
      rw [ih hrest (by omega) (by omega)]
      cases tokensFrom more.length (stop.advance '\n') more <;> rfl

end

end Lexer

/-- The tokens of a text and those of another one after a line feed are the tokens of both texts
joined, the second ones as many lines further down as the first text takes. A fault in the second
text is the fault of the joined text, as many lines further down. -/
theorem tokenize_append_feed {s t : String} {stream : TokenStream} (h : tokenize s = .ok stream) :
    tokenize (s ++ "\n" ++ t) =
      match tokenize t with
      | .ok more =>
        .ok ⟨stream.tokens ++ more.tokens.map (·.below (1 + s.toList.count '\n')),
          more.stop.below (1 + s.toList.count '\n')⟩
      | .error fault => .error (fault.below (1 + s.toList.count '\n')) := by
  obtain ⟨⟨tokens, stop⟩, htokens, heq⟩ := except_bind_eq_ok_iff.1 h
  cases heq
  have hjoined : (s ++ "\n" ++ t).toList = s.toList ++ '\n' :: t.toList := by simp
  have hline : stop.line = 1 + s.toList.count '\n' := by
    rw [Lexer.stop_eq_advanceAll htokens le_rfl, Location.line_advanceAll]
    rfl
  have hfuel : s.toList.length + t.toList.length ≤ (s.toList ++ '\n' :: t.toList).length := by
    rw [List.length_append, List.length_cons]
    omega
  unfold tokenize
  simp only [hjoined, Lexer.tokensFrom_feed htokens le_rfl hfuel, Location.advance_feed, hline,
    Lexer.tokensFrom_below]
  rcases Lexer.tokensFrom t.toList.length .start t.toList with fault | ⟨tokens', stop'⟩ <;> rfl

/-- A comment that reaches over a line feed, and one that the line feed between the texts closes. -/
theorem tokenize_append_feed_comments :
    let s := "a /* b\n*/ + // c"
    tokenize s = .ok ⟨[⟨.identifier "a", ⟨1, 1⟩⟩, ⟨.sign .plus, ⟨2, 4⟩⟩], ⟨2, 10⟩⟩ ∧
    tokenize (s ++ "\n" ++ "d") =
      .ok ⟨[⟨.identifier "a", ⟨1, 1⟩⟩, ⟨.sign .plus, ⟨2, 4⟩⟩, ⟨.identifier "d", ⟨3, 1⟩⟩],
        ⟨3, 2⟩⟩ ∧
    tokenize (s ++ "\n" ++ "d '") = .error ⟨.unterminatedString, ⟨3, 3⟩⟩ := by
  intro s
  have hs : tokenize s =
      .ok ⟨[⟨.identifier "a", ⟨1, 1⟩⟩, ⟨.sign .plus, ⟨2, 4⟩⟩], ⟨2, 10⟩⟩ := by
    decide +kernel
  have hd : tokenize "d" = .ok ⟨[⟨.identifier "d", ⟨1, 1⟩⟩], ⟨1, 2⟩⟩ := by
    decide +kernel
  have hopen : tokenize "d '" = .error ⟨.unterminatedString, ⟨1, 3⟩⟩ := by
    decide +kernel
  have hcount : s.toList.count '\n' = 1 := by
    decide +kernel
  refine ⟨hs, (tokenize_append_feed hs).trans ?_, (tokenize_append_feed hs).trans ?_⟩
  · rw [hd, hcount]
    rfl
  · rw [hopen, hcount]
    rfl

end TraceTutor
