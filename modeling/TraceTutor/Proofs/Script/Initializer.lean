import TraceTutor.Proofs.Script.Reparsing
import TraceTutor.Script.StaticAnalysis

/-!
# Initializers at a glance

The static analysis takes some initializers for literals by their look alone, before it tries to
parse them. For texts that are expressions, this gives what the expression evaluates to, with two
exceptions (`misread?`): an integer beyond the size up to which doubles are exact, which the lexer
reads as a double, and a text between two quotes that has such a quote or a backslash inside
(`initialValue?_eq`).
-/

namespace TraceTutor

open Lexer

/-! ## Texts of one token -/

open ExprParser TokenStream TokenParser in
/-- A token that is an expression by itself is read as that expression. -/
theorem parseExpression_of_atom? {source : String} {token : Token} {stop : Location} {e : Expr}
    (hsource : tokenize source = .ok ⟨[token], stop⟩) (he : atom? token.kind = some e) :
    parseExpression source = .ok e := by
  have hends : Ends 0 ⟨[], stop⟩ := fun l hl => by cases hl
  have hprimary : Limited True ((atDepth 63).layer 9 ⟨[token], stop⟩) (.ok (e, ⟨[], stop⟩)) :=
    .of_eq (primary_of_atom? rfl he)
  have hread : (atDepth maxNesting).expression ⟨[token], stop⟩ = .ok (e, ⟨[], stop⟩) :=
    (limited_layer_of_le (Nat.zero_le 9) le_rfl hends hprimary).eq_of_fits trivial
  have haccept : accept .semicolon ⟨[], stop⟩ = .ok (false, ⟨[], stop⟩) :=
    accept_of_kind?_ne nofun
  unfold parseExpression
  simp [hsource, hread, haccept, bind, Except.bind, pure, Except.pure]

section

variable {c : Char} {rest : List Char} {e : Expr} (hblank : Text.isBlank c = false)
  (hslash : c ≠ '/') (h : parseExpression (String.ofList (c :: rest)) = .ok e)
include hblank hslash h

/-- The text of an expression starts with a token. -/
theorem exists_scan_of_parseExpression : ∃ scanned, scan c rest = .ok scanned := by
  have hgap : ∀ l, skipGap .open l (c :: rest) = .ok (l, c :: rest) :=
    skipGap_cons hblank fun heq => absurd heq hslash
  cases hscan : scan c rest with
  | ok scanned => exact ⟨scanned, rfl⟩
  | error cause =>
    have hfault : tokenize (String.ofList (c :: rest)) =
        .error ⟨cause, faultLocation cause .start (c :: rest)⟩ := by
      unfold tokenize
      simp [tokensFrom, hgap, hscan, bind, Except.bind, throw, throwThe, MonadExceptOf.throw]
    unfold parseExpression at h
    rw [hfault] at h
    cases h

/-- An expression whose text is one token is the expression that the token stands for. -/
theorem eq_of_scan {kind : TokenKind} {text : List Char} {e' : Expr}
    (hscan : scan c rest = .ok ⟨kind, text, []⟩) (hatom : ExprParser.atom? kind = some e') :
    e = e' := by
  have hgap : ∀ l, skipGap .open l (c :: rest) = .ok (l, c :: rest) :=
    skipGap_cons hblank fun heq => absurd heq hslash
  have htokens : tokenize (String.ofList (c :: rest)) =
      .ok ⟨[⟨kind, .start⟩], Location.start.advanceAll text⟩ := by
    unfold tokenize
    simp [tokensFrom, hgap, hscan, tokensFrom_nil, bind, Except.bind, pure, Except.pure]
  rw [parseExpression_of_atom? htokens hatom] at h
  exact (Except.ok.inj h).symm

end

/-! ## Numbers -/

namespace Script

theorem isDigits_iff {text : List Char} :
    isDigits text = true ↔ text ≠ [] ∧ ∀ c ∈ text, c.isDigit = true := by
  simp [isDigits]

/-- A text that the lexer takes for a number as a whole is that number. -/
theorem eq_of_splitNumber {text : List Char} {e : Expr}
    (hdigit : text.head?.any Char.isDigit = true) (hsplit : splitNumber text = (text, []))
    (hplain : '_' ∉ text) (h : parseExpression (String.ofList text) = .ok e) :
    ∃ x, Binary64.ofText? text = some x ∧ e = .literal (.ofBinary64 x) := by
  obtain ⟨c, rest, rfl⟩ : ∃ c rest, text = c :: rest := by
    cases text with
    | nil => cases hdigit
    | cons c rest => exact ⟨c, rest, rfl⟩
  have hc : c.isDigit = true := hdigit
  obtain ⟨hblank, hslash, hquote⟩ := facts_of_isDigit hc
  have hfilter : (c :: rest).filter (· != '_') = c :: rest := by
    refine List.filter_eq_self.2 fun d hd => bne_iff_ne.2 ?_
    rintro rfl
    exact hplain hd
  have hscan : scan c rest = scanNumber (c :: rest) := by
    unfold scan
    rw [if_neg (by simpa using hquote), if_pos hc]
  simp only [scanNumber, hsplit, hfilter] at hscan
  cases hx : Binary64.ofText? (c :: rest) with
  | none =>
    obtain ⟨scanned, hscanned⟩ := exists_scan_of_parseExpression hblank hslash h
    rw [hscan, hx] at hscanned
    cases hscanned
  | some x =>
    rw [hx] at hscan
    exact ⟨x, rfl, eq_of_scan hblank hslash h hscan rfl⟩

theorem underscore_not_mem {text : List Char} (h : ∀ c ∈ text, c.isDigit = true) : '_' ∉ text :=
  fun hmem => absurd (h '_' hmem) (by decide)

/-- An integer literal is read as the closest double. -/
theorem eq_of_isDigits {text : List Char} {e : Expr} (hdigits : isDigits text = true)
    (h : parseExpression (String.ofList text) = .ok e) :
    e = .literal (.ofBinary64 (Decimal.toBinary64 false ⟨Decimal.ofDigits text, 0⟩)) := by
  obtain ⟨hne, hall⟩ := isDigits_iff.1 hdigits
  have hsplit : splitNumber text = (text, []) := by
    have happend := splitNumber_append hall endsToken_nil
    rwa [List.append_nil] at happend
  have hhead : text.head?.any Char.isDigit = true := by
    obtain ⟨c, rest, rfl⟩ := List.exists_cons_of_ne_nil hne
    exact hall c List.mem_cons_self
  obtain ⟨x, hx, rfl⟩ := eq_of_splitNumber hhead hsplit (underscore_not_mem hall) h
  rw [Binary64.ofText?_digits hne hall, Option.some.injEq] at hx
  rw [hx]

/-- Digits, a point and digits are read as one number. -/
theorem eq_of_fraction {whole fraction : List Char} {e : Expr} (hwhole : isDigits whole = true)
    (hfraction : isDigits fraction = true)
    (h : parseExpression (String.ofList (whole ++ '.' :: fraction)) = .ok e) :
    ∃ x, Binary64.ofText? (whole ++ '.' :: fraction) = some x ∧ e = .literal (.ofBinary64 x) := by
  obtain ⟨hne, hall⟩ := isDigits_iff.1 hwhole
  obtain ⟨hne', hall'⟩ := isDigits_iff.1 hfraction
  have hpoint : splitNumber ('.' :: fraction) = ('.' :: fraction, []) := by
    have happend := splitNumber_append hall' endsToken_nil
    rw [List.append_nil] at happend
    have hhead : fraction.head?.any Char.isDigit = true := by
      obtain ⟨c, rest, rfl⟩ := List.exists_cons_of_ne_nil hne'
      exact hall' c List.mem_cons_self
    rw [splitNumber, if_pos (by simp [hhead]), happend]
  have hhead : (whole ++ '.' :: fraction).head?.any Char.isDigit = true := by
    obtain ⟨c, rest, rfl⟩ := List.exists_cons_of_ne_nil hne
    exact hall c List.mem_cons_self
  refine eq_of_splitNumber hhead (by rw [splitNumber_digits hall, hpoint]) ?_ h
  rw [List.mem_append, List.mem_cons]
  rintro (hmem | hpoint | hmem)
  · exact underscore_not_mem hall hmem
  · exact absurd hpoint (by decide)
  · exact underscore_not_mem hall' hmem

/-! ## Quoted texts -/

/-- A text without quotes and backslashes is held as it is, unless it goes over several lines. -/
theorem scanString_plain {quote : Char} (hquote : quote ≠ '\\') {inner : List Char}
    (h : ∀ c ∈ inner, c ≠ quote ∧ c ≠ '\\') (rest : List Char) :
    scanString quote (inner ++ quote :: rest) =
      if '\n' ∈ inner then .error .unterminatedString
      else .ok (inner, inner ++ [quote], rest) := by
  induction inner with
  | nil => simp [scanString, hquote]
  | cons c inner ih =>
    obtain ⟨hc, hinner⟩ := List.forall_mem_cons.1 h
    by_cases hfeed : c = '\n'
    · subst hfeed
      simp [scanString, hc.1]
    · have hne : '\n' ≠ c := Ne.symm hfeed
      rw [List.cons_append]
      by_cases hmem : '\n' ∈ inner
      · simp [scanString, hc.1, hc.2, hfeed, ih hinner, hmem]
      · simp [scanString, hc.1, hc.2, hfeed, hne, ih hinner, hmem]

/-- A text between two quotes, without quotes and backslashes inside, is a string literal. -/
theorem eq_of_quoted {quote : Char} (hquote : quote = '"' ∨ quote = '\'') {inner : List Char}
    (hplain : ∀ c ∈ inner, c ≠ quote ∧ c ≠ '\\') {e : Expr}
    (h : parseExpression (String.ofList (quote :: (inner ++ [quote]))) = .ok e) :
    e = .literal (.string (String.ofList inner)) := by
  have hblank : Text.isBlank quote = false := by rcases hquote with rfl | rfl <;> decide
  have hslash : quote ≠ '/' := by rcases hquote with rfl | rfl <;> decide
  have hbackslash : quote ≠ '\\' := by rcases hquote with rfl | rfl <;> decide
  have hstring := scanString_plain hbackslash hplain []
  have hscan : scan quote (inner ++ [quote]) = (scanString quote (inner ++ [quote])).bind
      fun x => .ok ⟨.string (String.ofList x.1), quote :: x.2.1, x.2.2⟩ := by
    unfold scan
    rw [if_pos (by simpa using hquote)]
    rfl
  rw [hstring] at hscan
  by_cases hfeed : '\n' ∈ inner
  · obtain ⟨scanned, hscanned⟩ := exists_scan_of_parseExpression hblank hslash h
    rw [hscan, if_pos hfeed] at hscanned
    cases hscanned
  · rw [if_neg hfeed] at hscan
    exact eq_of_scan hblank hslash h hscan rfl

theorem eq_of_isQuotedBy {quote : Char} {text : List Char} (h : isQuotedBy quote text = true) :
    text = quote :: ((text.drop 1).dropLast ++ [quote]) := by
  simp only [isQuotedBy, Bool.and_eq_true, decide_eq_true_eq, beq_iff_eq] at h
  obtain ⟨⟨hlength, hhead⟩, hlast⟩ := h
  match text, hlength with
  | c :: d :: rest, _ =>
    obtain rfl : c = quote := Option.some.inj hhead
    rw [List.getLast?_cons_cons] at hlast
    have hsplit := List.dropLast_append_getLast? c hlast
    rw [List.drop_one, List.tail_cons, hsplit]

/-! ## What is taken at a glance -/

/-- Whether a text stands between two quotes of a kind and has such a quote or a backslash
inside. -/
def isBroken (quote : Char) (text : List Char) : Bool :=
  isQuotedBy quote text && (text.drop 1).dropLast.any fun c => c == quote || c == '\\'

/-- The value that a text gets at a glance without regard to how it is parsed: an integer that is
too large for a double, or what stands between the outer quotes of a text that is not merely one
string. -/
def misread? (text : List Char) : Option Value :=
  if isDigits text then
    let n := Decimal.ofDigits text
    if maxExactInt < n && isWord n then some (.int n) else none
  else if isBroken '"' text || isBroken '\'' text then
    some (.string (String.ofList (text.drop 1).dropLast))
  else none

theorem plain_of_not_isBroken {quote : Char} {text : List Char} (h : isQuotedBy quote text = true)
    (hbroken : isBroken quote text = false) :
    ∀ c ∈ (text.drop 1).dropLast, c ≠ quote ∧ c ≠ '\\' := by
  intro c hc
  rw [isBroken, h, Bool.true_and, List.any_eq_false] at hbroken
  simpa using hbroken c hc

theorem isDigits_eq_false {c : Char} (hc : c.isDigit = false) (rest : List Char) :
    isDigits (c :: rest) = false := by
  simp [isDigits, hc]

theorem isDigits_of_isQuotedBy {quote : Char} (hquote : quote = '"' ∨ quote = '\'')
    {text : List Char} (h : isQuotedBy quote text = true) : isDigits text = false := by
  rw [eq_of_isQuotedBy h]
  exact isDigits_eq_false (by rcases hquote with rfl | rfl <;> decide) _

/-- A quoted text is none of the literals that are looked for before. -/
theorem literal?_of_isQuotedBy {quote : Char} (hquote : quote = '"' ∨ quote = '\'')
    {text : List Char} (h : isQuotedBy quote text = true) :
    literal? text = some (.string (String.ofList (text.drop 1).dropLast)) := by
  have hor : (isQuotedBy '"' text || isQuotedBy '\'' text) = true := by
    rcases hquote with rfl | rfl <;> simp [h]
  have hdigit : quote.isDigit = false := by rcases hquote with rfl | rfl <;> decide
  have hpoint : quote ≠ '.' := by rcases hquote with rfl | rfl <;> decide
  have hne : ∀ word : List Char, word.head? ≠ some quote → text ≠ word := by
    rintro word hword rfl
    rw [eq_of_isQuotedBy h] at hword
    exact hword rfl
  have hwhole : isDigits (text.takeWhile (· ≠ '.')) = false := by
    rw [eq_of_isQuotedBy h, List.takeWhile_cons_of_pos (by simpa using hpoint)]
    exact isDigits_eq_false hdigit _
  have hdigits := isDigits_of_isQuotedBy hquote h
  have htrue : text ≠ "true".toList := hne _ (by rcases hquote with rfl | rfl <;> decide)
  have hfalse : text ≠ "false".toList := hne _ (by rcases hquote with rfl | rfl <;> decide)
  have hnull : text ≠ "null".toList := hne _ (by rcases hquote with rfl | rfl <;> decide)
  unfold literal?
  rw [if_neg htrue, if_neg hfalse, if_neg hnull, if_neg (by simp [hdigits]),
    if_neg (by rw [hwhole]; exact Bool.false_ne_true), if_pos hor]

theorem isBroken_of_misread? {quote : Char} (hquote : quote = '"' ∨ quote = '\'')
    {text : List Char} (h : isQuotedBy quote text = true) (hread : misread? text = none) :
    isBroken quote text = false := by
  rw [misread?, if_neg (by rw [isDigits_of_isQuotedBy hquote h]; exact Bool.false_ne_true)] at hread
  by_contra hbroken
  have hor : (isBroken '"' text || isBroken '\'' text) = true := by
    rcases hquote with rfl | rfl <;> simp [hbroken]
  rw [if_pos hor] at hread
  cases hread

theorem isQuotedBy_of_isBroken {text : List Char}
    (h : (isBroken '"' text || isBroken '\'' text) = true) :
    ∃ quote, (quote = '"' ∨ quote = '\'') ∧ isQuotedBy quote text = true := by
  rcases Bool.or_eq_true_iff.1 h with h | h
  · exact ⟨'"', .inl rfl, (Bool.and_eq_true_iff.1 h).1⟩
  · exact ⟨'\'', .inr rfl, (Bool.and_eq_true_iff.1 h).1⟩

/-- A text that is misread is taken for a literal. -/
theorem literal?_of_misread? {text : List Char} {v : Value} (h : misread? text = some v) :
    literal? text = some v := by
  unfold misread? at h
  split at h
  next hdigits =>
    dsimp only at h
    split at h
    next hlarge =>
      have hne : ∀ word : List Char, isDigits word = false → text ≠ word := by
        rintro word hword rfl
        rw [hdigits] at hword
        cases hword
      unfold literal?
      rw [if_neg (hne _ (by decide)), if_neg (hne _ (by decide)), if_neg (hne _ (by decide)),
        if_pos hdigits]
      dsimp only
      rw [if_pos (Bool.and_eq_true_iff.1 hlarge).2, h]
    next => cases h
  next =>
    split at h
    next hbroken =>
      obtain ⟨quote, hquote, hquoted⟩ := isQuotedBy_of_isBroken hbroken
      rw [literal?_of_isQuotedBy hquote hquoted, h]
    next => cases h

theorem eq_of_dropWhile_point {text : List Char}
    (h : isDigits ((text.dropWhile (· ≠ '.')).drop 1) = true) :
    text = text.takeWhile (· ≠ '.') ++ '.' :: (text.dropWhile (· ≠ '.')).drop 1 := by
  have hhead := List.head?_dropWhile_not (fun c => decide (c ≠ '.')) text
  cases hrest : text.dropWhile (· ≠ '.') with
  | nil =>
    rw [hrest] at h
    cases h
  | cons c rest =>
    rw [hrest] at hhead
    have hc : '.' = c := (not_not.1 (of_decide_eq_false hhead)).symm
    rw [List.drop_one, List.tail_cons, hc, ← hrest, ← hc, List.takeWhile_append_dropWhile]

/-- A text that is taken for a literal and not misread is that literal. -/
theorem evaluatePure?_of_literal? {text : List Char} {e : Expr} {v : Value}
    (h : parseExpression (String.ofList text) = .ok e) (hliteral : literal? text = some v)
    (hread : misread? text = none) (harray : text.head? ≠ some '[')
    (hobject : text.head? ≠ some '{') (bindings : Bindings) :
    evaluatePure? bindings e = some v := by
  unfold literal? at hliteral
  split at hliteral
  next htrue =>
    subst htrue
    have hscan : scan 't' ['r', 'u', 'e'] =
        .ok ⟨.keyword .trueWord, ['t', 'r', 'u', 'e'], []⟩ := rfl
    obtain rfl := eq_of_scan (by decide) (by decide) h hscan rfl
    exact hliteral
  split at hliteral
  next hfalse =>
    subst hfalse
    have hscan : scan 'f' ['a', 'l', 's', 'e'] =
        .ok ⟨.keyword .falseWord, ['f', 'a', 'l', 's', 'e'], []⟩ := rfl
    obtain rfl := eq_of_scan (by decide) (by decide) h hscan rfl
    exact hliteral
  split at hliteral
  next hnull =>
    subst hnull
    have hscan : scan 'n' ['u', 'l', 'l'] =
        .ok ⟨.keyword .nullWord, ['n', 'u', 'l', 'l'], []⟩ := rfl
    obtain rfl := eq_of_scan (by decide) (by decide) h hscan rfl
    exact hliteral
  split at hliteral
  next hdigits =>
    rw [misread?, if_pos hdigits] at hread
    dsimp only at hliteral hread
    split at hliteral
    next hword =>
      cases hliteral
      have hsmall : Decimal.ofDigits text < 2 ^ 53 := by
        by_contra hlarge
        rw [if_pos (by simp [hword, maxExactInt]; omega)] at hread
        cases hread
      rw [eq_of_isDigits hdigits h, Decimal.toBinary64_whole hsmall, Value.ofBinary64_whole hsmall]
      rfl
    next => cases hliteral
  split at hliteral
  next hparts =>
    obtain ⟨hwhole, hfraction⟩ := Bool.and_eq_true_iff.1 hparts
    have htext := eq_of_dropWhile_point hfraction
    rw [htext] at h
    obtain ⟨x, hx, rfl⟩ := eq_of_fraction hwhole hfraction h
    rw [← htext] at hx
    rw [hx, Option.map_some, Option.some.injEq] at hliteral
    rw [← hliteral]
    rfl
  split at hliteral
  next hquoted =>
    obtain ⟨quote, hquote, hquoted⟩ : ∃ quote, (quote = '"' ∨ quote = '\'') ∧
        isQuotedBy quote text = true := by
      rcases Bool.or_eq_true_iff.1 hquoted with h | h
      · exact ⟨'"', .inl rfl, h⟩
      · exact ⟨'\'', .inr rfl, h⟩
    have hplain := plain_of_not_isBroken hquoted (isBroken_of_misread? hquote hquoted hread)
    rw [eq_of_isQuotedBy hquoted] at h
    rw [eq_of_quoted hquote hplain h, ← hliteral]
    rfl
  split at hliteral
  · exact absurd rfl harray
  · exact absurd rfl hobject
  · cases hliteral

/-! ## Initializers -/

/-- For a text that is an expression, and not an array or an object, an initializer has the value at
which the text is misread, or else the value of the expression. Among integer literals exactly those
that are misread get another value than that of the expression. -/
theorem initialValue?_eq {text : List Char} {e : Expr}
    (h : parseExpression (String.ofList text) = .ok e) (harray : text.head? ≠ some '[')
    (hobject : text.head? ≠ some '{') (bindings : Bindings) :
    initialValue? bindings text = (misread? text).or (evaluatePure? bindings e) ∧
    (isDigits text = true →
      (initialValue? bindings text = evaluatePure? bindings e ↔ misread? text = none)) := by
  have hvalue : initialValue? bindings text = (misread? text).or (evaluatePure? bindings e) := by
    unfold initialValue?
    cases hmisread : misread? text with
    | some v =>
      rw [literal?_of_misread? hmisread]
      rfl
    | none =>
      cases hliteral : literal? text with
      | some v => exact (evaluatePure?_of_literal? h hliteral hmisread harray hobject bindings).symm
      | none =>
        dsimp only
        rw [h]
        rfl
  refine ⟨hvalue, fun hdigits => ⟨fun heq => ?_, fun hmisread => ?_⟩⟩
  · cases hmisread : misread? text with
    | none => rfl
    | some v =>
      rw [hvalue, hmisread, eq_of_isDigits hdigits h] at heq
      rw [misread?, if_pos hdigits] at hmisread
      dsimp only at hmisread
      split at hmisread
      next hlarge =>
        cases hmisread
        have hlarge := (Bool.and_eq_true_iff.1 hlarge).1
        refine absurd (Option.some.inj heq).symm (Value.ofBinary64_ne_int ?_ _)
        simpa using hlarge
      next => cases hmisread
  · rw [hvalue, hmisread]
    rfl

/-- A sum of a variable and a literal, and an integer with a zero in front. -/
theorem initialValue?_eq_samples :
    (∃ e, parseExpression "x + 1" = .ok e ∧
      evaluatePure? (.ofList [("x", .int 2)]) e = some (.int 3) ∧
      initialValue? (.ofList [("x", .int 2)]) "x + 1".toList = some (.int 3)) ∧
    ∃ e, parseExpression "012" = .ok e ∧
      initialValue? .empty "012".toList = evaluatePure? .empty e := by
  constructor
  · have htokens : tokenize "x + 1" = .ok ⟨[⟨.identifier "x", ⟨1, 1⟩⟩, ⟨.sign .plus, ⟨1, 3⟩⟩,
        ⟨.number (.finite (.whole 1)), ⟨1, 5⟩⟩], ⟨1, 6⟩⟩ := by decide +kernel
    have h : parseExpression (String.ofList "x + 1".toList) =
        .ok (.binary .add (.name "x") (.literal (.ofBinary64 (.finite (.whole 1))))) := by
      rw [String.ofList_toList, parseExpression, htokens]
      rfl
    rw [Value.ofBinary64_whole (by decide)] at h
    have hsum := initialValue?_eq h (by decide) (by decide) (.ofList [("x", .int 2)])
    exact ⟨_, h, rfl, hsum.1⟩
  · have htokens : tokenize "012" = .ok ⟨[⟨.number (.finite (.whole 12)), ⟨1, 1⟩⟩], ⟨1, 4⟩⟩ := by
      decide +kernel
    have h : parseExpression (String.ofList "012".toList) =
        .ok (.literal (.ofBinary64 (.finite (.whole 12)))) := by
      rw [String.ofList_toList]
      exact parseExpression_of_atom? htokens rfl
    have hdigits := (initialValue?_eq h (by decide) (by decide) .empty).2
    exact ⟨_, h, (hdigits (by decide)).2 rfl⟩

/-- Two strings with a sign between them are taken for one string, and an integer keeps a last digit
that no double of its size has. -/
theorem initialValue?_ne_parsed :
    (∃ e, parseExpression "\"a\" + \"b\"" = .ok e ∧
      evaluatePure? .empty e = some (.string "ab") ∧
      initialValue? .empty "\"a\" + \"b\"".toList = some (.string "a\" + \"b")) ∧
    ∃ e, parseExpression "9007199254740993" = .ok e ∧
      evaluatePure? .empty e = some (.number (.float (.whole 9007199254740992))) ∧
      initialValue? .empty "9007199254740993".toList = some (.int 9007199254740993) := by
  constructor
  · have htokens : tokenize "\"a\" + \"b\"" = .ok ⟨[⟨.string "a", ⟨1, 1⟩⟩, ⟨.sign .plus, ⟨1, 5⟩⟩,
        ⟨.string "b", ⟨1, 7⟩⟩], ⟨1, 10⟩⟩ := by decide +kernel
    have h : parseExpression "\"a\" + \"b\"" =
        .ok (.binary .add (.literal (.string "a")) (.literal (.string "b"))) := by
      rw [parseExpression, htokens]
      rfl
    exact ⟨_, h, rfl, rfl⟩
  · have htokens : tokenize "9007199254740993" =
        .ok ⟨[⟨.number (.finite (.whole 9007199254740992)), ⟨1, 1⟩⟩], ⟨1, 17⟩⟩ := by decide +kernel
    have hfloat := Value.ofBinary64_of_large (x := .whole 9007199254740992) (by decide +kernel)
    exact ⟨_, parseExpression_of_atom? htokens rfl, congrArg some hfloat, rfl⟩

end Script

end TraceTutor
