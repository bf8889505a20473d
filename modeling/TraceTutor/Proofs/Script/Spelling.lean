import TraceTutor.Proofs.Number.Whole
import TraceTutor.Proofs.Script.Lexing
import TraceTutor.Proofs.Script.Printing

/-!
# Spelled tokens

With a space or the end of the text behind it, a spelled token is read as exactly the token that it
is (`Lexeme.IsSpelled`). So the tokens of a printed expression are the ones that were printed
(`exists_tokenize_print`).
-/

namespace TraceTutor

/-! ## Scanning a spelled token -/

namespace Lexer

/-- What may stand behind a token: nothing, or a space. -/
def EndsToken (rest : List Char) : Prop :=
  rest.head?.all (· == ' ')

theorem endsToken_nil : EndsToken [] := rfl

theorem endsToken_space (rest : List Char) : EndsToken (' ' :: rest) := rfl

theorem takeWhile_of_endsToken {p : Char → Bool} (hp : p ' ' = false) {rest : List Char}
    (h : EndsToken rest) : rest.takeWhile p = [] ∧ rest.dropWhile p = rest := by
  cases rest with
  | nil => exact ⟨rfl, rfl⟩
  | cons c rest =>
    cases beq_iff_eq.1 h
    exact ⟨List.takeWhile_cons_of_neg (by simp [hp]), List.dropWhile_cons_of_neg (by simp [hp])⟩

/-- A gap ends before a character that is no white space and opens no comment. -/
theorem skipGap_cons {c : Char} {rest : List Char} (hblank : Text.isBlank c = false)
    (hcomment : c = '/' → ∀ d ∈ rest.head?, d ≠ '/' ∧ d ≠ '*') (l : Location) :
    skipGap .open l (c :: rest) = .ok (l, c :: rest) := by
  unfold skipGap
  split
  next heq => cases heq
  next heq => cases heq
  next heq _ => cases heq
  next => exact absurd rfl (hcomment rfl '/' rfl).1
  next => exact absurd rfl (hcomment rfl '*' rfl).2
  next => rw [hblank, if_neg (by decide)]

/-! ### Signs -/

theorem scanSign?_text (s : Sign) {rest : List Char} (h : EndsToken rest) :
    scanSign? (s.text.toList ++ rest) = some (s, s.text.toList, rest) := by
  cases rest with
  | nil => cases s <;> rfl
  | cons c rest =>
    cases beq_iff_eq.1 h
    cases s <;> rfl

/-! ### Words -/

/-- The code points of the characters that start a word. -/
theorem toNat_of_isWordStart {c : Char} (h : isWordStart c = true) :
    c.toNat = 36 ∨ 65 ≤ c.toNat ∧ c.toNat ≤ 122 := by
  change (decide (c.val ≥ 'A'.val ∧ c.val ≤ 'Z'.val) || (c.val ≥ 'a'.val && c.val ≤ 'z'.val) ||
    c == '_' || c == '$') = true at h
  simp only [Bool.or_eq_true, Bool.and_eq_true, decide_eq_true_eq, beq_iff_eq, ge_iff_le,
    UInt32.le_iff_toNat_le, Char.toNat_val, Char.reduceToNat] at h
  rcases h with ((h | h) | rfl) | rfl
  · omega
  · omega
  · decide
  · decide

/-- The first character of a word is no white space and starts no other kind of token. -/
theorem facts_of_isWordStart {c : Char} (h : isWordStart c = true) :
    Text.isBlank c = false ∧ c ≠ '/' ∧ c ≠ '"' ∧ c ≠ '\'' ∧ c.isDigit = false := by
  have hc := toNat_of_isWordStart h
  refine ⟨?_, ?_, ?_, ?_, ?_⟩
  · simp only [Text.isBlank, Bool.or_eq_false_iff, Bool.and_eq_false_iff, decide_eq_false_iff_not,
      beq_eq_false_iff_ne]
    omega
  · rintro rfl
    exact absurd hc (by decide)
  · rintro rfl
    exact absurd hc (by decide)
  · rintro rfl
    exact absurd hc (by decide)
  · simp only [Char.isDigit, Bool.and_eq_false_iff, decide_eq_false_iff_not, ge_iff_le,
      UInt32.le_iff_toNat_le, Char.toNat_val, Char.reduceToNat]
    omega

theorem scanWord_append {name : String} (h : IsWord name) {rest : List Char}
    (hrest : EndsToken rest) : scanWord (name.toList ++ rest) =
      ⟨match Keyword.ofText? name with
        | some k => .keyword k
        | none => .identifier name, name.toList, rest⟩ := by
  have htake : (name.toList ++ rest).takeWhile isWordPart = name.toList := by
    rw [List.takeWhile_append_of_pos h.parts, (takeWhile_of_endsToken (by decide) hrest).1,
      List.append_nil]
  have hdrop : (name.toList ++ rest).dropWhile isWordPart = rest := by
    rw [List.dropWhile_append_of_pos h.parts, (takeWhile_of_endsToken (by decide) hrest).2]
  cases hkeyword : Keyword.ofText? name <;>
    simp only [scanWord, htake, hdrop, String.ofList_toList, hkeyword]

/-! ### Numbers -/

/-- A digit is no white space and starts no other kind of token. -/
theorem facts_of_isDigit {c : Char} (h : c.isDigit = true) :
    Text.isBlank c = false ∧ c ≠ '/' ∧ ¬(c = '"' ∨ c = '\'') := by
  simp only [Char.isDigit, Bool.and_eq_true, decide_eq_true_eq, ge_iff_le,
    UInt32.le_iff_toNat_le, Char.toNat_val, Char.reduceToNat] at h
  refine ⟨?_, ?_, ?_⟩
  · simp only [Text.isBlank, Bool.or_eq_false_iff, Bool.and_eq_false_iff, decide_eq_false_iff_not,
      beq_eq_false_iff_ne]
    omega
  · rintro rfl
    exact absurd h (by decide)
  · rintro (rfl | rfl)
    · exact absurd h (by decide)
    · exact absurd h (by decide)

/-- The digits at the front belong to the number. -/
theorem splitNumber_digits {digits : List Char} (h : ∀ c ∈ digits, c.isDigit = true)
    (rest : List Char) :
    splitNumber (digits ++ rest) = (digits ++ (splitNumber rest).1, (splitNumber rest).2) := by
  induction digits with
  | nil => rfl
  | cons c digits ih =>
    have hc : c.isDigit = true := h c List.mem_cons_self
    have hdigits := ih fun d hd => h d (List.mem_cons_of_mem c hd)
    rw [List.cons_append, splitNumber, if_pos (by rw [hc]; rfl), hdigits]
    rfl

theorem splitNumber_append {digits : List Char} (h : ∀ c ∈ digits, c.isDigit = true)
    {rest : List Char} (hrest : EndsToken rest) :
    splitNumber (digits ++ rest) = (digits, rest) := by
  have hends : splitNumber rest = ([], rest) := by
    cases rest with
    | nil => rfl
    | cons c rest =>
      cases beq_iff_eq.1 hrest
      rfl
  rw [splitNumber_digits h, hends, List.append_nil]

theorem scanNumber_toDigits {n : Nat} (h : n < 2 ^ 53) {rest : List Char} (hrest : EndsToken rest) :
    scanNumber (Nat.toDigits 10 n ++ rest) =
      .ok ⟨.number (.finite (.whole n)), Nat.toDigits 10 n, rest⟩ := by
  have hdigits : ∀ c ∈ Nat.toDigits 10 n, c.isDigit = true := fun c hc =>
    Nat.isDigit_of_mem_toDigits (by decide) (by decide) hc
  have hfilter : (Nat.toDigits 10 n).filter (· != '_') = Nat.toDigits 10 n := by
    refine List.filter_eq_self.2 fun c hc => bne_iff_ne.2 ?_
    rintro rfl
    exact absurd (hdigits '_' hc) (by decide)
  simp only [scanNumber, splitNumber_append hdigits hrest, hfilter, Binary64.ofText?_toDigits h]

/-! ### Strings -/

/-- A character is spelled by an escape that stands for it, or by itself. -/
theorem escaped_cases (c : Char) :
    (∃ d, Lexeme.escaped c = ['\\', d] ∧ unescape d = c) ∨
      (Lexeme.escaped c = [c] ∧ c ≠ '"' ∧ c ≠ '\\' ∧ c ≠ '\n') := by
  unfold Lexeme.escaped
  split
  next h => exact .inl ⟨'n', rfl, h.symm⟩
  next hfeed =>
    split
    next h => exact .inl ⟨'t', rfl, h.symm⟩
    split
    next h => exact .inl ⟨'r', rfl, h.symm⟩
    split
    next h => exact .inl ⟨'0', rfl, h.symm⟩
    split
    next h =>
      refine .inl ⟨c, rfl, ?_⟩
      rcases h with rfl | rfl <;> rfl
    next h => exact .inr ⟨rfl, fun hc => h (.inl hc), fun hc => h (.inr hc), hfeed⟩

theorem scanString_escaped (text rest : List Char) :
    scanString '"' (text.flatMap Lexeme.escaped ++ '"' :: rest) =
      .ok (text, text.flatMap Lexeme.escaped ++ ['"'], rest) := by
  induction text with
  | nil => rfl
  | cons c text ih =>
    rw [List.flatMap_cons, List.append_assoc]
    rcases escaped_cases c with ⟨d, hescaped, hd⟩ | ⟨hescaped, hquote, hslash, hfeed⟩
    · rw [hescaped]
      simp [scanString, ih, hd]
    · rw [hescaped]
      simp [scanString, ih, hquote, hslash, hfeed]

end Lexer

/-! ## Spelled tokens are scanned -/

namespace Lexeme

open Lexer

/-- With an end of the token behind it, the lexer reads exactly it. -/
structure IsSpelled (x : Lexeme) : Prop where
  skipGap_eq : ∀ l {rest}, EndsToken rest →
    skipGap .open l (x.text ++ rest) = .ok (l, x.text ++ rest)
  scan_eq : ∀ {rest}, EndsToken rest →
    ∃ c text, x.text ++ rest = c :: text ∧ scan c text = .ok ⟨x.kind, x.text, rest⟩

/-- All tokens are read as what they are. -/
def AllSpelled (xs : List Lexeme) : Prop :=
  ∀ x ∈ xs, x.IsSpelled

theorem isSpelled_cons {kind : TokenKind} {c : Char} {text : List Char}
    (hblank : Text.isBlank c = false) (hcomment : c = '/' → text = [] ∨ text = ['='])
    (hscan : ∀ {rest}, EndsToken rest → scan c (text ++ rest) = .ok ⟨kind, c :: text, rest⟩) :
    IsSpelled ⟨kind, c :: text⟩ := by
  refine ⟨fun l rest hrest => skipGap_cons hblank (fun hslash d hd => ?_) l, fun hrest =>
    ⟨c, _, rfl, hscan hrest⟩⟩
  rcases hcomment hslash with rfl | rfl
  · cases rest with
    | nil => cases hd
    | cons e rest =>
      cases beq_iff_eq.1 hrest
      cases hd
      decide
  · cases hd
    decide

/-- A sign starts with a character that no other kind of token starts with. -/
theorem exists_text_sign_eq (s : Sign) : ∃ c text, s.text.toList = c :: text ∧
    Text.isBlank c = false ∧ (c = '/' → text = [] ∨ text = ['=']) ∧ ¬(c = '"' ∨ c = '\'') ∧
      c.isDigit = false ∧ isWordStart c = false := by
  cases s <;> exact ⟨_, _, rfl, by decide⟩

theorem isSpelled_sign (s : Sign) : (sign s).IsSpelled := by
  obtain ⟨c, text, htext, hblank, hcomment, hquote, hdigit, hstart⟩ := exists_text_sign_eq s
  unfold sign
  rw [htext]
  refine isSpelled_cons hblank hcomment fun {rest} hrest => ?_
  have hscan := scanSign?_text s hrest
  rw [htext, List.cons_append] at hscan
  simp [scan, hquote, hdigit, hstart, hscan]

theorem isSpelled_of_isWord {name : String} (h : IsWord name) {kind : TokenKind}
    (hscan : ∀ {rest}, EndsToken rest →
      scanWord (name.toList ++ rest) = ⟨kind, name.toList, rest⟩) :
    IsSpelled ⟨kind, name.toList⟩ := by
  obtain ⟨c, text, htext, hstart⟩ := h.head
  obtain ⟨hblank, hslash, hquote, happostrophe, hdigit⟩ := facts_of_isWordStart hstart
  rw [htext] at hscan ⊢
  refine isSpelled_cons hblank (fun heq => absurd heq hslash) fun {rest} hrest => ?_
  have hword := hscan hrest
  rw [List.cons_append] at hword
  simp [scan, hquote, happostrophe, hdigit, hstart, hword]

theorem isSpelled_identifier {name : String} (h : IsIdentifier name) :
    (identifier name).IsSpelled := by
  refine isSpelled_of_isWord h.toIsWord fun hrest => ?_
  rw [scanWord_append h.toIsWord hrest, h.free]

theorem isWord_text (k : Keyword) : IsWord k.text := by
  cases k <;> exact ⟨⟨_, _, rfl, by decide⟩, by decide⟩

theorem isSpelled_word (k : Keyword) : (word k).IsSpelled := by
  refine isSpelled_of_isWord (isWord_text k) fun hrest => ?_
  have hkeyword : Keyword.ofText? k.text = some k := by cases k <;> decide
  rw [scanWord_append (isWord_text k) hrest, hkeyword]

theorem isSpelled_whole {n : Nat} (h : n < 2 ^ 53) : (whole n).IsSpelled := by
  obtain ⟨c, text, htext⟩ := List.exists_cons_of_ne_nil (Nat.toDigits_ne_nil (n := n) (b := 10))
  have hdigit : c.isDigit = true :=
    Nat.isDigit_of_mem_toDigits (by decide) (by decide) (htext ▸ List.mem_cons_self)
  obtain ⟨hblank, hslash, hquote⟩ := facts_of_isDigit hdigit
  unfold whole
  rw [htext]
  refine isSpelled_cons hblank (fun heq => absurd heq hslash) fun {rest} hrest => ?_
  have hscan := scanNumber_toDigits h hrest
  rw [htext, List.cons_append] at hscan
  simp [scan, hquote, hdigit, hscan]

theorem isSpelled_string (s : String) : (string s).IsSpelled := by
  refine isSpelled_cons (by decide) (fun h => absurd h (by decide)) fun {rest} _ => ?_
  rw [List.append_assoc, List.singleton_append]
  simp [scan, scanString_escaped]

end Lexeme

/-! ## Spelled texts are split -/

namespace Lexer

theorem tokensFrom_nil (fuel : Nat) (l : Location) : tokensFrom fuel l [] = .ok ([], l) := by
  unfold tokensFrom skipGap
  rfl

theorem tokensFrom_space (fuel : Nat) (l : Location) (text : List Char) :
    tokensFrom fuel l (' ' :: text) = tokensFrom fuel (l.advance ' ') text := by
  have hgap : skipGap .open l (' ' :: text) = skipGap .open (l.advance ' ') text := by
    rw [skipGap.eq_def]
    rfl
  unfold tokensFrom
  rw [hgap]

/-- A token that is spelled at the start of a text is its first token. -/
theorem tokensFrom_append {x : Lexeme} (h : x.IsSpelled) (fuel : Nat) (l : Location)
    {rest : List Char} (hrest : EndsToken rest) :
    tokensFrom (fuel + 1) l (x.text ++ rest) =
      (tokensFrom fuel (l.advanceAll x.text) rest).map fun (tokens, stop) =>
        (⟨x.kind, l⟩ :: tokens, stop) := by
  obtain ⟨c, text, htext, hscan⟩ := h.scan_eq hrest
  have hgap := h.skipGap_eq l hrest
  rw [htext] at hgap ⊢
  rw [tokensFrom, hgap]
  simp only [bind, Except.bind, hscan]
  cases tokensFrom fuel (l.advanceAll x.text) rest <;> rfl

/-- Tokens that are spelled with spaces between them are the tokens of their text. -/
theorem exists_tokensFrom_spaced {xs : List Lexeme} (h : Lexeme.AllSpelled xs) {fuel : Nat}
    (hfuel : xs.length ≤ fuel) (l : Location) : ∃ tokens stop,
      tokensFrom fuel l (Lexeme.spaced xs) = .ok (tokens, stop) ∧
        tokens.map Token.kind = xs.map Lexeme.kind := by
  induction xs generalizing fuel l with
  | nil => exact ⟨[], l, tokensFrom_nil fuel l, rfl⟩
  | cons x xs ih =>
    obtain ⟨fuel, rfl⟩ := Nat.exists_eq_add_one.2 ((Nat.succ_pos _).trans_le hfuel)
    obtain ⟨hx, hxs⟩ := List.forall_mem_cons.1 h
    have hrest : ∃ rest, EndsToken rest ∧ Lexeme.spaced (x :: xs) = x.text ++ rest ∧
        ∀ l, ∃ tokens stop, tokensFrom fuel l rest = .ok (tokens, stop) ∧
          tokens.map Token.kind = xs.map Lexeme.kind := by
      cases xs with
      | nil => exact ⟨[], endsToken_nil, by simp [Lexeme.spaced], fun l =>
          ⟨[], l, tokensFrom_nil fuel l, rfl⟩⟩
      | cons y ys =>
        refine ⟨' ' :: Lexeme.spaced (y :: ys), endsToken_space _, by simp [Lexeme.spaced],
          fun l => ?_⟩
        rw [tokensFrom_space]
        exact ih hxs (Nat.le_of_succ_le_succ hfuel) _
    obtain ⟨rest, hends, htext, hkinds⟩ := hrest
    obtain ⟨tokens, stop, htokens, hkinds⟩ := hkinds (l.advanceAll x.text)
    refine ⟨⟨x.kind, l⟩ :: tokens, stop, ?_, congrArg (x.kind :: ·) hkinds⟩
    rw [htext, tokensFrom_append hx fuel l hends, htokens]
    rfl

end Lexer

/-! ## Printed tokens are spelled -/

namespace Lexeme

theorem IsSpelled.text_ne_nil {x : Lexeme} (h : x.IsSpelled) : x.text ≠ [] := by
  obtain ⟨c, text, htext, -⟩ := h.scan_eq Lexer.endsToken_nil
  rw [List.append_nil] at htext
  exact htext ▸ List.cons_ne_nil c text

theorem isSpelled_lexeme {v : Value} (h : v.HasLiteral) : v.lexeme.IsSpelled := by
  unfold Value.HasLiteral at h
  split at h
  · exact isSpelled_word .nullWord
  next b => cases b <;> exact isSpelled_word _
  · exact isSpelled_string _
  · exact isSpelled_whole (by unfold maxExactInt at h; omega)
  · exact h.elim

namespace AllSpelled

variable {xs ys : List Lexeme}

theorem length_le (h : AllSpelled xs) : xs.length ≤ (spaced xs).length := by
  induction xs with
  | nil => exact Nat.zero_le _
  | cons x xs ih =>
    obtain ⟨hx, hxs⟩ := List.forall_mem_cons.1 h
    have hpos : 0 < x.text.length := List.length_pos_iff.2 hx.text_ne_nil
    cases xs with
    | nil => simpa [spaced, Nat.one_le_iff_ne_zero, Nat.pos_iff_ne_zero] using hpos
    | cons y ys =>
      have hlength := ih hxs
      simp only [spaced, List.map_cons, List.intercalate_cons_cons, List.length_append,
        List.length_cons, List.length_nil] at hlength ⊢
      omega

theorem cons {x : Lexeme} (hx : x.IsSpelled) (h : AllSpelled xs) : AllSpelled (x :: xs) :=
  List.forall_mem_cons.2 ⟨hx, h⟩

theorem singleton {x : Lexeme} (hx : x.IsSpelled) : AllSpelled [x] :=
  List.forall_mem_singleton.2 hx

theorem append (h : AllSpelled xs) (h' : AllSpelled ys) : AllSpelled (xs ++ ys) :=
  List.forall_mem_append.2 ⟨h, h'⟩

theorem between (before after : Sign) (h : AllSpelled xs) :
    AllSpelled (sign before :: (xs ++ [sign after])) :=
  .cons (isSpelled_sign before) (h.append (.singleton (isSpelled_sign after)))

theorem enclosed {needed : Bool} (h : AllSpelled xs) : AllSpelled (enclosed needed xs) := by
  unfold TraceTutor.enclosed
  split
  · exact h.between .openParen .closeParen
  · exact h

theorem listed {items : List (List Lexeme)} (h : ∀ item ∈ items, AllSpelled item) :
    AllSpelled (listed items) := by
  induction items with
  | nil => exact fun x hx => absurd hx (by simp [TraceTutor.listed])
  | cons item items ih =>
    obtain ⟨hitem, hitems⟩ := List.forall_mem_cons.1 h
    cases items with
    | nil => simpa [TraceTutor.listed] using hitem
    | cons item' items =>
      have hrest := ih hitems
      simp only [TraceTutor.listed, List.intercalate_cons_cons] at hrest ⊢
      exact (hitem.append (.singleton (isSpelled_sign .comma))).append hrest

end AllSpelled

end Lexeme

section

open Lexeme

mutual

theorem allSpelled_lexemes : {e : Expr} → e.IsPrintable → AllSpelled e.lexemes
  | .literal v, h => by
    unfold Expr.lexemes
    exact .singleton (isSpelled_lexeme h)
  | .name n, h => by
    unfold Expr.lexemes
    refine .singleton ?_
    split
    next => exact isSpelled_word _
    next hn => exact isSpelled_identifier (h.resolve_left hn)
  | .array items, h => by
    unfold Expr.lexemes
    exact .between _ _ (.listed (allSpelled_itemLexemes h))
  | .object fields, h => by
    unfold Expr.lexemes
    exact .between _ _ (.listed (allSpelled_fieldLexemes h))
  | .unary op operand, h => by
    unfold Expr.lexemes
    exact .cons (isSpelled_sign _) (allSpelled_lexemes (e := operand) h).enclosed
  | .binary op left right, h => by
    unfold Expr.lexemes
    exact (allSpelled_lexemes h.1).enclosed.append
      (.cons (isSpelled_sign _) (allSpelled_lexemes h.2).enclosed)
  | .ternary condition yes no, h => by
    unfold Expr.lexemes
    exact (allSpelled_lexemes h.1).enclosed.append (.cons (isSpelled_sign _)
      ((allSpelled_lexemes h.2.1).append (.cons (isSpelled_sign _) (allSpelled_lexemes h.2.2))))
  | .index target i, h => by
    unfold Expr.lexemes
    exact (allSpelled_lexemes h.1).enclosed.append (.between _ _ (allSpelled_lexemes h.2))
  | .member target property, h => by
    unfold Expr.lexemes
    exact (allSpelled_lexemes h.1).enclosed.append
      (.cons (isSpelled_sign _) (.singleton (isSpelled_identifier h.2)))
  | .call callee args, h => by
    unfold Expr.lexemes
    exact (allSpelled_lexemes h.1).enclosed.append
      (.between _ _ (.listed (allSpelled_itemLexemes h.2)))

theorem allSpelled_itemLexemes : {items : List Expr} → Expr.AllPrintable items →
    ∀ item ∈ Expr.itemLexemes items, AllSpelled item
  | [], _ => by simp [Expr.itemLexemes]
  | e :: rest, h => by
    unfold Expr.itemLexemes
    exact List.forall_mem_cons.2 ⟨allSpelled_lexemes h.1, allSpelled_itemLexemes h.2⟩

theorem allSpelled_fieldLexemes : {fields : List (String × Expr)} → Expr.FieldsPrintable fields →
    ∀ item ∈ Expr.fieldLexemes fields, AllSpelled item
  | [], _ => by simp [Expr.fieldLexemes]
  | (key, e) :: rest, h => by
    unfold Expr.fieldLexemes
    refine List.forall_mem_cons.2 ⟨?_, allSpelled_fieldLexemes h.2⟩
    exact .cons (isSpelled_string key) (.cons (isSpelled_sign _) (allSpelled_lexemes h.1))

end

end

/-- What is printed is split into the printed tokens. -/
theorem exists_tokenize_print {e : Expr} (h : e.IsPrintable) : ∃ stream,
    tokenize e.print = .ok stream ∧
      stream.tokens.map Token.kind = e.lexemes.map Lexeme.kind := by
  have hspelled := allSpelled_lexemes h
  obtain ⟨tokens, stop, htokens, hkinds⟩ :=
    Lexer.exists_tokensFrom_spaced hspelled hspelled.length_le .start
  refine ⟨⟨tokens, stop⟩, ?_, hkinds⟩
  unfold tokenize Expr.print
  simp only [String.toList_ofList, htokens]
  rfl

end TraceTutor
