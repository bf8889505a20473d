import TraceTutor.Proofs.Script.Concatenation

/-!
# Tokens tile their text

A text that splits into tokens is a gap, the text of a token, a gap, and so on up to a last gap
(`Lexer.Tiles`). A gap is made of white space and comments (`Lexer.IsGap`), and the text of a token
is one of the spellings of its kind (`Lexer.Spells`). The place of a token counts the lines and the
characters before it (`Location.after`), so that places grow from token to token up to the end of
the text (`tokens_tile_source`).
-/

namespace TraceTutor

/-! ## Places -/

namespace Location

/-- The place that a text leads to: one line further for each line feed, and one column further for
each character since the last one. -/
def after (before : List Char) : Location :=
  ⟨1 + before.count '\n', 1 + (before.rtakeWhile (· ≠ '\n')).length⟩

/-- One place stands before another. -/
def Precedes (l m : Location) : Prop :=
  l.line < m.line ∨ l.line = m.line ∧ l.column < m.column

theorem Precedes.trans {l m n : Location} (h : l.Precedes m) (h' : m.Precedes n) :
    l.Precedes n := by
  unfold Precedes at *
  omega

theorem advanceAll_start (before : List Char) : start.advanceAll before = after before := by
  induction before using List.reverseRecOn with
  | nil => rfl
  | append_singleton before c ih =>
    rw [advanceAll_append, ih]
    show (after before).advance c = _
    unfold advance after
    by_cases hc : c = '\n'
    · subst hc
      simp [List.rtakeWhile_concat_neg, Nat.add_assoc]
    · rw [if_neg hc, List.rtakeWhile_concat_pos _ _ _ (by simpa using hc)]
      simp [hc, Nat.add_assoc]

theorem precedes_advance (l : Location) (c : Char) : l.Precedes (l.advance c) := by
  unfold advance
  split
  · exact .inl (Nat.lt_succ_self l.line)
  · exact .inr ⟨rfl, Nat.lt_succ_self l.column⟩

/-- A text that is not empty leads further on. -/
theorem precedes_advanceAll (l : Location) {text : List Char} (h : text ≠ []) :
    l.Precedes (l.advanceAll text) := by
  induction text generalizing l with
  | nil => exact absurd rfl h
  | cons c text ih =>
    rw [advanceAll_cons]
    by_cases htext : text = []
    · subst htext
      exact l.precedes_advance c
    · exact (l.precedes_advance c).trans (ih _ htext)

theorem advanceAll_after (before text : List Char) :
    (after before).advanceAll text = after (before ++ text) := by
  rw [← advanceAll_start, ← advanceAll_start, advanceAll_append]

theorem precedes_after_append (before : List Char) {text : List Char} (h : text ≠ []) :
    (after before).Precedes (after (before ++ text)) :=
  advanceAll_after before text ▸ precedes_advanceAll _ h

end Location

namespace Lexer

/-! ## Gaps -/

/-- White space and comments, one after another. A comment between `/*` and `*/` ends at the first
`*/`. A comment after `//` ends with its line, which only the end of the text may cut short. -/
inductive IsGap (atEnd : Prop) : List Char → Prop
  | nil : IsGap atEnd []
  | blank {c : Char} {gap : List Char} (hc : Text.isBlank c = true) (h : IsGap atEnd gap) :
      IsGap atEnd (c :: gap)
  | lineComment (text : List Char) {gap : List Char} (htext : '\n' ∉ text) (h : IsGap atEnd gap) :
      IsGap atEnd ('/' :: '/' :: (text ++ '\n' :: gap))
  | lastComment (text : List Char) (hend : atEnd) (htext : '\n' ∉ text) :
      IsGap atEnd ('/' :: '/' :: text)
  | blockComment (text : List Char) {gap : List Char} (htext : ¬['*', '/'] <:+: text)
      (h : IsGap atEnd gap) :
      IsGap atEnd ('/' :: '*' :: (text ++ '*' :: '/' :: gap))

/-- What is left of a gap that has been entered. -/
def GapState.Continues (atEnd : Prop) (gap : List Char) : GapState → Prop
  | .open => IsGap atEnd gap
  | .lineComment => IsGap atEnd ('/' :: '/' :: gap)
  | .blockComment _ => IsGap atEnd ('/' :: '*' :: gap)

namespace IsGap

variable {atEnd : Prop} {gap : List Char}

theorem lineComment_cons {c : Char} (hc : c ≠ '\n') (h : IsGap atEnd ('/' :: '/' :: gap)) :
    IsGap atEnd ('/' :: '/' :: c :: gap) := by
  cases h with
  | blank hblank => cases hblank
  | lineComment text htext h =>
    exact .lineComment (c :: text) (List.not_mem_cons_of_ne_of_not_mem (Ne.symm hc) htext) h
  | lastComment text hend htext =>
    exact .lastComment (c :: _) hend (List.not_mem_cons_of_ne_of_not_mem (Ne.symm hc) htext)

/-- A character that does not close the comment together with the next one belongs to it. -/
theorem blockComment_cons {c : Char} (hc : c = '*' → gap.head? ≠ some '/')
    (h : IsGap atEnd ('/' :: '*' :: gap)) : IsGap atEnd ('/' :: '*' :: c :: gap) := by
  cases h with
  | blank hblank => cases hblank
  | blockComment text htext h =>
    refine .blockComment (c :: text) (fun hinfix => ?_) h
    rcases List.infix_cons_iff.1 hinfix with hprefix | hinfix
    · obtain ⟨rest, heq⟩ := hprefix
      obtain ⟨hstar, hslash⟩ := List.cons.inj heq
      refine hc hstar.symm ?_
      rw [← hslash]
      rfl
    · exact htext hinfix

end IsGap

/-- What the lexer skips is a gap. -/
theorem exists_continues_of_skipGap {state : GapState} {l l' : Location} {text rest : List Char}
    (h : skipGap state l text = .ok (l', rest)) :
    ∃ gap, gap ++ rest = text ∧ state.Continues (rest = []) gap := by
  fun_induction skipGap state l text with
  | case1 => cases h
  | case2 state l hstate =>
    cases h
    refine ⟨[], rfl, ?_⟩
    cases state with
    | blockComment start => exact absurd rfl (hstate start)
    | «open» => exact .nil
    | lineComment => exact .lastComment [] rfl List.not_mem_nil
  | case3 l c text ih =>
    obtain ⟨gap, rfl, hgap⟩ := ih h
    refine ⟨c :: gap, rfl, ?_⟩
    split at hgap
    next hc => exact hc ▸ IsGap.lineComment [] List.not_mem_nil hgap
    next hc => exact IsGap.lineComment_cons hc hgap
  | case4 l start text ih =>
    obtain ⟨gap, rfl, hgap⟩ := ih h
    exact ⟨'*' :: '/' :: gap, rfl, IsGap.blockComment [] (by simp) hgap⟩
  | case5 l start c text hopen ih =>
    obtain ⟨gap, rfl, hgap⟩ := ih h
    refine ⟨c :: gap, rfl, IsGap.blockComment_cons (fun hc hhead => ?_) hgap⟩
    obtain ⟨gap', rfl⟩ := List.head?_eq_some_iff.1 hhead
    exact hopen (gap' ++ rest) hc rfl
  | case6 l text ih =>
    obtain ⟨gap, rfl, hgap⟩ := ih h
    exact ⟨'/' :: '/' :: gap, rfl, hgap⟩
  | case7 l text ih =>
    obtain ⟨gap, rfl, hgap⟩ := ih h
    exact ⟨'/' :: '*' :: gap, rfl, hgap⟩
  | case8 l c text _ _ hblank ih =>
    obtain ⟨gap, rfl, hgap⟩ := ih h
    exact ⟨c :: gap, rfl, .blank hblank hgap⟩
  | case9 =>
    cases h
    exact ⟨[], rfl, .nil⟩

/-! ## Spellings -/

/-- Digits, or digits around a point, and the double that they stand for. -/
inductive IsNumeral : List Char → Binary64 → Prop
  | whole {digits : List Char} (hne : digits ≠ []) (h : ∀ c ∈ digits, c.isDigit = true) :
      IsNumeral digits (Decimal.toBinary64 false ⟨Decimal.ofDigits digits, 0⟩)
  | point {whole fraction : List Char} (hne : whole ≠ []) (h : ∀ c ∈ whole, c.isDigit = true)
      (hne' : fraction ≠ []) (h' : ∀ c ∈ fraction, c.isDigit = true) :
      IsNumeral (whole ++ '.' :: fraction)
        (Decimal.toBinary64 false ⟨Decimal.ofDigits (whole ++ fraction), -fraction.length⟩)

/-- The inside of a string literal and the characters that it holds: each is written as itself or
by an escape, and the quote, a backslash and a line feed only by an escape. -/
inductive IsBody (quote : Char) : List Char → List Char → Prop
  | nil : IsBody quote [] []
  | plain {c : Char} {body held : List Char} (hquote : c ≠ quote) (hbackslash : c ≠ '\\')
      (hfeed : c ≠ '\n') (h : IsBody quote body held) : IsBody quote (c :: body) (c :: held)
  | escape (c : Char) {body held : List Char} (h : IsBody quote body held) :
      IsBody quote ('\\' :: c :: body) (unescape c :: held)

/-- The texts that a token may have. A number may have underscores after its first digit. -/
inductive Spells : TokenKind → List Char → Prop
  | number {x : Binary64} {text : List Char} (hdigit : text.head?.any Char.isDigit = true)
      (h : IsNumeral (text.filter (· != '_')) x) : Spells (.number x) text
  | string {quote : Char} (hquote : quote = '"' ∨ quote = '\'') {body held : List Char}
      (h : IsBody quote body held) :
      Spells (.string (String.ofList held)) (quote :: (body ++ [quote]))
  | identifier {name : String} (h : IsIdentifier name) : Spells (.identifier name) name.toList
  | keyword (k : Keyword) : Spells (.keyword k) k.text.toList
  | sign (s : Sign) : Spells (.sign s) s.text.toList
  | equal : Spells (.sign .equal) ['=', '=']
  | notEqual : Spells (.sign .notEqual) ['!', '=']

/-! ### Numbers -/

theorem readExponent?_eq_none {c : Char} {rest : List Char} (he : c ≠ 'e') (hE : c ≠ 'E') :
    Binary64.readExponent? (c :: rest) = none := by
  simp [Binary64.readExponent?, he, hE]

/-- Among digits and points, a run of digits ends at a point. -/
theorem eq_point_of_dropWhile {text rest : List Char} {c : Char}
    (hall : ∀ d ∈ text, d.isDigit = true ∨ d = '.')
    (h : text.dropWhile Char.isDigit = c :: rest) : c = '.' := by
  have hmem : c ∈ text := List.dropWhile_subset _ (h ▸ List.mem_cons_self)
  have hhead := List.head?_dropWhile_not Char.isDigit text
  rw [h] at hhead
  exact (hall c hmem).resolve_left (by simpa using hhead)

/-- What is read as a number that starts with a digit and does not end with a point is digits, or
digits around a point. -/
theorem isNumeral_of_ofText? {text : List Char} {x : Binary64} (hne : text ≠ [])
    (hdigit : ∀ c ∈ text.head?, c.isDigit = true)
    (hall : ∀ c ∈ text, c.isDigit = true ∨ c = '.') (hlast : text.getLast? ≠ some '.')
    (h : Binary64.ofText? text = some x) : IsNumeral text x := by
  have hwhole : text.takeWhile Char.isDigit ≠ [] := by
    obtain ⟨c, rest, rfl⟩ := List.exists_cons_of_ne_nil hne
    rw [List.takeWhile_cons_of_pos (hdigit c rfl)]
    exact List.cons_ne_nil _ _
  have hsplit : text.takeWhile Char.isDigit ++ text.dropWhile Char.isDigit = text :=
    List.takeWhile_append_dropWhile
  rw [Binary64.ofText?_of_head hne hdigit] at h
  cases hrest : text.dropWhile Char.isDigit with
  | nil =>
    rw [hrest, List.append_nil] at hsplit
    simp only [hrest, hsplit, Binary64.readExponent?, Option.map_some, Option.some.injEq] at h
    subst h
    rw [List.append_nil]
    exact .whole hne fun c hc => List.mem_takeWhile_imp (hsplit.symm ▸ hc)
  | cons c rest =>
    obtain rfl := eq_point_of_dropWhile hall hrest
    rw [hrest] at hsplit
    cases hmore : rest.dropWhile Char.isDigit with
    | cons d more =>
      obtain rfl := eq_point_of_dropWhile (fun e he => hall e
        (hsplit ▸ List.mem_append_right _ (List.mem_cons_of_mem _ he))) hmore
      simp only [hrest, hmore] at h
      rw [readExponent?_eq_none (by decide) (by decide)] at h
      cases h
    | nil =>
      have hfraction : rest.takeWhile Char.isDigit = rest := by
        have happend := List.takeWhile_append_dropWhile (p := Char.isDigit) (l := rest)
        rwa [hmore, List.append_nil] at happend
      have hne' : rest ≠ [] := by
        rintro rfl
        rw [← hsplit] at hlast
        simp at hlast
      simp only [hrest, hmore, hfraction, Binary64.readExponent?, Option.map_some,
        Option.some.injEq] at h
      have hnumeral := IsNumeral.point hwhole (fun c hc => List.mem_takeWhile_imp hc) hne'
        fun c hc => List.mem_takeWhile_imp (hfraction.symm ▸ hc)
      rwa [hsplit, ← Int.zero_sub, h] at hnumeral

/-- A number consists of digits, underscores and points. -/
theorem mem_splitNumber {text : List Char} {c : Char} (h : c ∈ (splitNumber text).1) :
    c.isDigit = true ∨ c = '_' ∨ c = '.' := by
  induction text with
  | nil => cases h
  | cons d rest ih =>
    unfold splitNumber at h
    split at h
    next hd =>
      rcases List.mem_cons.1 h with rfl | h
      · simp only [Bool.or_eq_true, Bool.and_eq_true, beq_iff_eq] at hd
        tauto
      · exact ih h
    next => cases h

section

variable {c : Char} (h : c.isDigit = true) (rest : List Char)
include h

theorem splitNumber_of_digit : (splitNumber (c :: rest)).1 = c :: (splitNumber rest).1 :=
  congrArg Prod.fst (splitNumber_digits (List.forall_mem_singleton.2 h) rest)

theorem filter_splitNumber_of_digit : (splitNumber (c :: rest)).1.filter (· != '_') =
    c :: (splitNumber rest).1.filter (· != '_') := by
  have hne : c ≠ '_' := by
    rintro rfl
    cases h
  rw [splitNumber_of_digit h]
  exact List.filter_cons_of_pos (bne_iff_ne.2 hne)

end

/-- A number does not end with a point, as a point in it has a digit behind it. -/
theorem getLast?_splitNumber (text : List Char) :
    ((splitNumber text).1.filter (· != '_')).getLast? ≠ some '.' := by
  induction text with
  | nil => rintro ⟨⟩
  | cons c rest ih =>
    unfold splitNumber
    split
    next hc =>
      simp only [List.filter_cons]
      split
      next =>
        rw [List.getLast?_cons]
        cases hlast : ((splitNumber rest).1.filter (· != '_')).getLast? with
        | some d => rwa [hlast] at ih
        | none =>
          rintro ⟨⟩
          have hdigit : rest.head?.any Char.isDigit = true := hc
          obtain ⟨d, hd, hdigit⟩ := (Option.any_eq_true _ _).1 hdigit
          obtain ⟨more, rfl⟩ := List.head?_eq_some_iff.1 hd
          rw [filter_splitNumber_of_digit hdigit] at hlast
          exact absurd (List.getLast?_eq_none_iff.1 hlast) (List.cons_ne_nil _ _)
      next => exact ih
    next => rintro ⟨⟩

/-! ### Texts of tokens -/

theorem spells_of_scanNumber {c : Char} {rest : List Char} {scanned : Scanned}
    (hdigit : c.isDigit = true) (h : scanNumber (c :: rest) = .ok scanned) :
    Spells scanned.kind scanned.text := by
  unfold scanNumber at h
  dsimp only at h
  split at h
  next x hx =>
    cases h
    have hfilter := filter_splitNumber_of_digit hdigit rest
    refine .number ?_ (isNumeral_of_ofText? ?_ ?_ ?_ (getLast?_splitNumber _) hx)
    · rw [splitNumber_of_digit hdigit]
      exact hdigit
    · rw [hfilter]
      exact List.cons_ne_nil _ _
    · rw [hfilter]
      rintro d ⟨⟩
      exact hdigit
    · intro d hd
      obtain ⟨hmem, hplain⟩ := List.mem_filter.1 hd
      rcases mem_splitNumber hmem with hdigit | rfl | rfl
      · exact .inl hdigit
      · cases hplain
      · exact .inr rfl
  next => cases h

theorem exists_body_of_scanString {quote : Char} {text held spelled rest : List Char}
    (h : scanString quote text = .ok (held, spelled, rest)) :
    ∃ body, spelled = body ++ [quote] ∧ IsBody quote body held := by
  fun_induction scanString quote text generalizing held spelled rest with
  | case1 | case2 | case5 => cases h
  | case3 c text ih =>
    obtain ⟨⟨held', spelled', rest'⟩, hscan, heq⟩ := except_bind_eq_ok_iff.1 h
    cases heq
    obtain ⟨body, rfl, hbody⟩ := ih hscan
    exact ⟨'\\' :: c :: body, rfl, .escape c hbody⟩
  | case4 =>
    cases h
    exact ⟨[], rfl, .nil⟩
  | case6 c text hend hescape hquote hfeed ih =>
    obtain ⟨⟨held', spelled', rest'⟩, hscan, heq⟩ := except_bind_eq_ok_iff.1 h
    cases heq
    obtain ⟨body, rfl, hbody⟩ := ih hscan
    refine ⟨c :: body, rfl, .plain hquote ?_ hfeed hbody⟩
    rintro rfl
    cases text with
    | nil => exact hend rfl rfl
    | cons d text => exact hescape d text rfl rfl

theorem spells_of_scanSign? {text spelled rest : List Char} {sign : Sign}
    (h : scanSign? text = some (sign, spelled, rest)) : Spells (.sign sign) spelled := by
  unfold scanSign? at h
  split at h <;> cases h
  -- The two short spellings; every other sign has one.
  case h_14 => exact .equal
  case h_18 => exact .notEqual
  all_goals exact .sign _

theorem spells_scanWord {c : Char} {rest : List Char} (hstart : isWordStart c = true) :
    Spells (scanWord (c :: rest)).kind (scanWord (c :: rest)).text := by
  have htext : (scanWord (c :: rest)).text =
      (String.ofList ((c :: rest).takeWhile isWordPart)).toList := by
    rw [String.toList_ofList]
    rfl
  rw [htext]
  unfold scanWord
  dsimp only
  split
  next k hkeyword =>
    have hk : k.text = String.ofList ((c :: rest).takeWhile isWordPart) := by
      simpa using List.find?_some hkeyword
    rw [← hk]
    exact .keyword k
  next hkeyword =>
    refine .identifier ⟨⟨?_, ?_⟩, hkeyword⟩
    · refine ⟨c, rest.takeWhile isWordPart, ?_, hstart⟩
      rw [String.toList_ofList, List.takeWhile_cons_of_pos (isWordPart_of_isWordStart hstart)]
    · intro d hd
      rw [String.toList_ofList] at hd
      exact List.mem_takeWhile_imp hd

/-- The text of a token spells it. -/
theorem spells_of_scan {c : Char} {rest : List Char} {scanned : Scanned}
    (h : scan c rest = .ok scanned) : Spells scanned.kind scanned.text := by
  unfold scan at h
  split at h
  next hquote =>
    obtain ⟨⟨held, spelled, rest'⟩, hscan, heq⟩ := except_bind_eq_ok_iff.1 h
    cases heq
    obtain ⟨body, rfl, hbody⟩ := exists_body_of_scanString hscan
    exact .string (by simpa using hquote) hbody
  split at h
  next hdigit => exact spells_of_scanNumber hdigit h
  split at h
  next hstart =>
    cases h
    exact spells_scanWord hstart
  split at h
  next hsign =>
    cases h
    exact spells_of_scanSign? hsign
  next => cases h

/-! ## Tiling -/

/-- The text goes on from `before` as gaps with the texts of the tokens between them, and each token
stands where the text before it leads to. -/
inductive Tiles : (before text : List Char) → List Token → Prop
  | gap {before gap : List Char} (h : IsGap True gap) : Tiles before gap []
  | token {before gap text rest : List Char} {kind : TokenKind} {tokens : List Token}
      (hgap : IsGap False gap) (hne : text ≠ []) (htext : Spells kind text)
      (hrest : Tiles (before ++ gap ++ text) rest tokens) :
      Tiles before (gap ++ text ++ rest) (⟨kind, .after (before ++ gap)⟩ :: tokens)

/-- By induction on the fuel, a gap and a token at a time. -/
theorem tiles_of_tokensFrom {fuel : Nat} {before text : List Char} {tokens : List Token}
    {stop : Location} (hfuel : text.length ≤ fuel)
    (h : tokensFrom fuel (.after before) text = .ok (tokens, stop)) : Tiles before text tokens := by
  induction fuel generalizing before text tokens with
  | zero =>
    obtain rfl := List.eq_nil_of_length_eq_zero (Nat.le_zero.1 hfuel)
    rw [tokensFrom_nil] at h
    cases h
    exact .gap .nil
  | succ fuel ih =>
    rcases tokensFrom_cases h with ⟨hgap, rfl⟩ |
      ⟨l', c, rest, scanned, tokens', hgap, hscan, hrest, rfl⟩
    · obtain ⟨gap, rfl, hcontinues⟩ := exists_continues_of_skipGap hgap
      rw [List.append_nil]
      exact .gap (by simpa [GapState.Continues] using hcontinues)
    · have hlength := length_rest_lt hgap hscan
      obtain ⟨gap, rfl, hcontinues⟩ := exists_continues_of_skipGap hgap
      obtain ⟨gap', heq, rfl⟩ := skipGap_eq hgap
      obtain rfl := List.append_cancel_right heq
      rw [Location.advanceAll_after, Location.advanceAll_after] at hrest
      rw [Location.advanceAll_after, ← scan_eq hscan, ← List.append_assoc]
      exact .token (by simpa [GapState.Continues] using hcontinues) (text_ne_nil_of_scan hscan)
        (spells_of_scan hscan) (ih (by omega) hrest)

/-- The places of the tokens and of the end of the text stand one before the other, and none stands
before the text. -/
theorem Tiles.pairwise_precedes {before text : List Char} {tokens : List Token}
    (h : Tiles before text tokens) :
    (tokens.map Token.location ++ [Location.after (before ++ text)]).Pairwise Location.Precedes ∧
      ∀ l ∈ tokens.map Token.location ++ [Location.after (before ++ text)],
        ∃ more, l = .after (before ++ more) := by
  induction h with
  | gap =>
    refine ⟨List.pairwise_singleton _ _, fun l hl => ?_⟩
    exact ⟨_, List.mem_singleton.1 hl⟩
  | @token before gap text rest kind tokens _ hne _ _ ih =>
    simp only [List.append_assoc] at ih ⊢
    obtain ⟨hpairwise, hmem⟩ := ih
    refine ⟨List.pairwise_cons.2 ⟨fun l hl => ?_, hpairwise⟩, fun l hl => ?_⟩
    · obtain ⟨more, rfl⟩ := hmem l hl
      have hprecedes := Location.precedes_after_append (before ++ gap)
        (List.append_ne_nil_of_left_ne_nil hne more)
      rwa [List.append_assoc] at hprecedes
    · rcases List.mem_cons.1 hl with rfl | hl
      · exact ⟨gap, rfl⟩
      · obtain ⟨more, rfl⟩ := hmem l hl
        exact ⟨gap ++ (text ++ more), rfl⟩

end Lexer

/-- The tokens of a text and the gaps between them make up the text, each token at the place that
the text before it leads to, and these places grow up to the end of the text. -/
theorem tokens_tile_source {source : String} {stream : TokenStream}
    (h : tokenize source = .ok stream) :
    Lexer.Tiles [] source.toList stream.tokens ∧ stream.stop = .after source.toList ∧
      (stream.tokens.map Token.location ++ [stream.stop]).Pairwise Location.Precedes := by
  obtain ⟨⟨tokens, stop⟩, htokens, heq⟩ := except_bind_eq_ok_iff.1 h
  cases heq
  have htiles : Lexer.Tiles [] source.toList tokens := Lexer.tiles_of_tokensFrom le_rfl htokens
  have hstop : stop = .after source.toList := by
    rw [Lexer.stop_eq_advanceAll htokens le_rfl, Location.advanceAll_start]
  exact ⟨htiles, hstop, hstop ▸ htiles.pairwise_precedes.1⟩

/-- A comment that holds line feeds, a string that goes on after an escaped one, a number with an
underscore, both spellings of a sign, and a comment that the text ends in. -/
theorem tokens_tile_mixedSource :
    let source := "a /* b\n* */== 'c\\\nd'\n  === 1_0.5 // e"
    let stream : TokenStream := ⟨[⟨.identifier "a", ⟨1, 1⟩⟩, ⟨.sign .equal, ⟨2, 5⟩⟩,
      ⟨.string "c\nd", ⟨2, 8⟩⟩, ⟨.sign .equal, ⟨4, 3⟩⟩,
      ⟨.number (.finite ⟨false, 21 * (Finite64.one / 2)⟩), ⟨4, 7⟩⟩], ⟨4, 17⟩⟩
    tokenize source = .ok stream ∧ Lexer.Tiles [] source.toList stream.tokens ∧
      stream.stop = .after source.toList ∧
      (stream.tokens.map Token.location ++ [stream.stop]).Pairwise Location.Precedes := by
  intro source stream
  have h : tokenize source = .ok stream := by decide +kernel
  exact ⟨h, tokens_tile_source h⟩

end TraceTutor
