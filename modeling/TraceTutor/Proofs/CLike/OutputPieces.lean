import TraceTutor.Proofs.CLike.Endings
import TraceTutor.Proofs.CLike.RenamedOutput

/-!
# Pieces of output

A line of output says which pieces it writes: literals, names, integers and ends of lines, with the
sign `<<` between them (`outputLine`). Three scans go over such a line, each with an own loop: one
looks for its end, one for the signs between the pieces, and one for braces. A text that `Passes`
holds nothing outside of literals that one of them looks for, so that all three read the pieces as
they are written (`classify_of_mem_outputLine`).
-/

namespace TraceTutor

namespace CLike

open Text Grammar LineReader

/-! ## Pieces -/

/-- What stands between the quotes of a literal: its quote and the backslash only stand in pairs
that a backslash starts. -/
inductive IsLiteralBody (quote : Char) : List Char → Prop
  | nil : IsLiteralBody quote []
  | plain {c : Char} {body : List Char} (hquote : c ≠ quote) (hbackslash : c ≠ '\\')
      (h : IsLiteralBody quote body) : IsLiteralBody quote (c :: body)
  | pair (c : Char) {body : List Char} (h : IsLiteralBody quote body) :
      IsLiteralBody quote ('\\' :: c :: body)

/-- A piece that an output statement may write. -/
inductive Piece where
  | literal (quote : Char) (body : List Char) (hquote : IsQuote quote)
      (hbody : IsLiteralBody quote body)
  | name (n : String) (hn : IsIdentifier n) (hne : n ≠ "endl")
  | integer (negative : Bool) (digits : List Char) (hne : digits ≠ [])
      (hdigits : ∀ d ∈ digits, d.isDigit = true)
  | endl (qualified : Bool)

namespace Piece

/-- The piece as it is written. -/
def text : Piece → List Char
  | .literal quote body _ _ => quote :: (body ++ [quote])
  | .name n _ _ => n.toList
  | .integer negative digits _ _ => if negative then '-' :: digits else digits
  | .endl qualified => if qualified then "std::endl".toList else "endl".toList

/-- What the piece says, except the end of a line. A literal says what stands between its quotes. -/
def inner? : Piece → Option (List Char)
  | .literal _ body _ _ => some body
  | .endl _ => none
  | piece => some piece.text

end Piece

/-- A text where every whole word that is the name of a variable is replaced by its value. -/
def replaceNames (b : Bindings) (text : List Char) : List Char :=
  (parts text).flatMap fun part =>
    (wordValue? b (String.ofList part)).elim part (·.display.toList)

/-- The text that pieces write. -/
def writtenText (b : Bindings) (ps : List Piece) : String :=
  let texts := (ps.filterMap Piece.inner?).map fun text => trim (replaceNames b text)
  String.ofList ([' '].intercalate (texts.filter fun text => !text.isEmpty))

namespace Grammar

/-- Pieces with the sign between them, and white space around each. -/
def arguments : List Piece → Language Char
  | [] => space
  | [p] => space * {p.text} * space
  | p :: q :: ps => space * {p.text} * space * sign "<<" * arguments (q :: ps)

/-- A line that writes pieces. -/
def outputLine (ps : List Piece) : Language Char :=
  space * outputStart * arguments ps * sign ";" * space * comment

end Grammar

/-! ## Replaced names -/

theorem substituteNames_others (b : Bindings) {between : List Char}
    (h : ∀ c ∈ between, isWordPart c = false) (rest : List Char) :
    substituteNames b (between ++ rest) = between ++ substituteNames b rest := by
  induction between with
  | nil => rfl
  | cons c between ih =>
    obtain ⟨hc, hbetween⟩ := List.forall_mem_cons.1 h
    rw [List.cons_append, substituteNames_cons b hc, ih hbetween, List.cons_append]

/-- The replacement goes over a text once, word by word. -/
theorem substituteNames_eq_replaceNames (b : Bindings) (text : List Char) :
    substituteNames b text = replaceNames b text := by
  obtain ⟨htext, hne, hsame, hdiffer⟩ := List.splitBy_eq_iff.1 (Eq.refl (parts text))
  rw [replaceNames]
  conv_lhs => rw [htext]
  clear htext
  generalize parts text = all at hne hsame hdiffer ⊢
  induction all with
  | nil => rfl
  | cons part more ih =>
    obtain ⟨hpart, hmore⟩ := List.forall_mem_cons.1 hsame
    rw [List.mem_cons, not_or] at hne
    have hrest := ih hne.2 hmore hdiffer.tail
    obtain ⟨c, rest, rfl⟩ := List.exists_cons_of_ne_nil (Ne.symm hne.1)
    have hkind : ∀ d ∈ c :: rest, isWordPart d = isWordPart c :=
      List.forall_mem_cons.2 ⟨rfl, isWordPart_of_isChain hpart⟩
    rw [List.flatten_cons, List.flatMap_cons, ← hrest]
    by_cases hc : isWordPart c = true
    · have hw : IsWordText (String.ofList (c :: rest)) :=
        ⟨by simp, fun d hd => (hkind d (by simpa using hd)).trans hc⟩
      have hword := substituteNames_word b hw
        (endsWord_flatten (fun d hd => (hkind d hd).trans hc) hdiffer)
      rwa [String.toList_ofList] at hword
    · have hstart : isWordStart c = false := by
        by_contra hstart
        exact hc (isWordPart_of_isWordStart (by simpa using hstart))
      have hnone : wordValue? b (String.ofList (c :: rest)) = none := by
        rw [wordValue?, String.toList_ofList, List.head?_cons, Option.any_some, hstart]
        rfl
      rw [hnone, substituteNames_others b fun d hd => (hkind d hd).trans (by simpa using hc)]
      rfl

/-! ## Scans -/

/-- Leads from one state to another, with none of the barred characters outside of literals. -/
inductive Passes (barred : List Char) : QuoteState → List Char → QuoteState → Prop
  | nil (state : QuoteState) : Passes barred state [] state
  | cons {state state' : QuoteState} {c : Char} {text : List Char}
      (hc : state = .outside → c ∉ barred) (h : Passes barred (state.advance c) text state') :
      Passes barred state (c :: text) state'

namespace Passes

variable {barred : List Char} {s s' s'' : QuoteState} {text : List Char}

theorem append (h : Passes barred s text s') {more : List Char}
    (hmore : Passes barred s' more s'') : Passes barred s (text ++ more) s'' := by
  induction h with
  | nil => exact hmore
  | cons hc _ ih => exact .cons hc (ih hmore)

theorem mono {barred' : List Char} (h : Passes barred s text s') (hsub : barred' ⊆ barred) :
    Passes barred' s text s' := by
  induction h with
  | nil => exact .nil _
  | cons hc _ ih => exact .cons (fun hs hmem => hc hs (hsub hmem)) ih

/-- Characters of a kind that means nothing to a scan. -/
theorem of_forall {p : Char → Bool} (hp : ∀ d ∈ '"' :: '\'' :: barred, p d = false)
    (h : ∀ c ∈ text, p c = true) : Passes barred .outside text .outside := by
  induction text with
  | nil => exact .nil _
  | cons c text ih =>
    obtain ⟨hc, htext⟩ := List.forall_mem_cons.1 h
    have hplain : c ∉ '"' :: '\'' :: barred := fun hmem => by
      rw [hp c hmem] at hc
      cases hc
    rw [List.mem_cons, List.mem_cons, not_or, not_or] at hplain
    have hadvance : QuoteState.advance c .outside = .outside :=
      if_neg (not_or.2 ⟨hplain.1, hplain.2.1⟩)
    refine .cons (fun _ => hplain.2.2) ?_
    rw [hadvance]
    exact ih htext

theorem splitAtSemicolon (h : Passes barred s text s') (hbarred : ';' ∈ barred)
    (rest : List Char) : splitAtSemicolon s (text ++ rest) =
      (text ++ (splitAtSemicolon s' rest).1, (splitAtSemicolon s' rest).2) := by
  induction h with
  | nil => rfl
  | @cons state _ c text hc _ ih =>
    have hstop : ¬(state = .outside ∧ c = ';') := fun ⟨hs, hsemicolon⟩ =>
      hc hs (hsemicolon ▸ hbarred)
    rw [List.cons_append, CLike.splitAtSemicolon, if_neg hstop, ih]
    rfl

theorem splitInsertionsFrom (h : Passes barred s text s') (hbarred : '<' ∈ barred)
    (rest : List Char) : splitInsertionsFrom s (text ++ rest) =
      text.foldr consFirst (splitInsertionsFrom s' rest) := by
  induction h with
  | nil => rfl
  | @cons state _ c text hc _ ih =>
    have hstop : ¬(state = .outside ∧ c = '<' ∧ (text ++ rest).head? = some '<') :=
      fun ⟨hs, hangle, _⟩ => hc hs (hangle ▸ hbarred)
    rw [List.cons_append, splitInsertionsFrom_cons, if_neg hstop, ih, List.foldr_cons]

theorem countBracesFrom (h : Passes barred s text s') (hbarred : ['{', '}', '/'] ⊆ barred)
    (rest : List Char) : countBracesFrom s (text ++ rest) = countBracesFrom s' rest := by
  induction h with
  | nil => rfl
  | @cons state _ c text hc _ ih =>
    have hne : ∀ d ∈ ['{', '}', '/'], ¬(state = .outside ∧ c = d) := fun d hd ⟨hs, hcd⟩ =>
      hc hs (hcd ▸ hbarred hd)
    rw [List.cons_append, CLike.countBracesFrom,
      if_neg fun hslash => hne '/' (by simp) ⟨hslash.1, hslash.2.1⟩, ih]
    dsimp only
    rw [if_neg (hne '{' (by simp)), if_neg (hne '}' (by simp))]

end Passes

/-! ## Passing pieces -/

/-- What the scans look for outside of literals, besides quotes. -/
def significant : List Char :=
  ['<', ';', '{', '}', '/']

theorem passes_space {blanks : List Char} (h : blanks ∈ space) :
    Passes significant .outside blanks .outside :=
  .of_forall (by decide) (isAllBlank_iff.1 h)

theorem QuoteState.inside_ne_outside (quote : Char) : inside quote ≠ outside := by
  intro h
  cases h

/-- No character of a literal is outside of it. -/
theorem passes_literalBody {quote : Char} {body : List Char} (h : IsLiteralBody quote body) :
    Passes significant (.inside quote) body (.inside quote) := by
  induction h with
  | nil => exact .nil _
  | @plain c body hquote hbackslash _ ih =>
    refine .cons (fun hs => absurd hs (QuoteState.inside_ne_outside quote)) ?_
    have hadvance : QuoteState.advance c (.inside quote) = .inside quote := by
      rw [QuoteState.advance, if_neg hbackslash, if_neg hquote]
    rwa [hadvance]
  | pair c _ ih =>
    have hescaped : QuoteState.advance '\\' (.inside quote) ≠ .outside := by
      intro h
      cases h
    exact .cons (fun hs => absurd hs (QuoteState.inside_ne_outside quote))
      (.cons (fun hs => absurd hs hescaped) ih)

namespace Piece

theorem passes : ∀ p : Piece, Passes significant .outside p.text .outside
  | .literal quote body hquote hbody => by
    have hopen : QuoteState.advance quote .outside = .inside quote := if_pos hquote
    have hclose : QuoteState.advance quote (.inside quote) = .outside := by
      have hbackslash : quote ≠ '\\' := by
        rintro rfl
        revert hquote
        unfold IsQuote
        decide
      rw [QuoteState.advance, if_neg hbackslash, if_pos rfl]
    have hlast : Passes significant (.inside quote) [quote] .outside :=
      .cons (fun hs => absurd hs (QuoteState.inside_ne_outside quote)) (hclose ▸ .nil _)
    have hfirst : quote ∉ significant := by
      rcases hquote with rfl | rfl <;> decide
    exact .cons (fun _ => hfirst) (hopen ▸ (passes_literalBody hbody).append hlast)
  | .name n hn _ => .of_forall (p := isWordPart) (by decide) hn.isWordPart
  | .integer negative digits _ hdigits => by
    have hword : ∀ d ∈ digits, (isWordPart d || d == '-') = true := fun d hd => by
      rw [isWordPart_of_isDigit (hdigits d hd), Bool.true_or]
    refine .of_forall (p := fun c => isWordPart c || c == '-') (by decide) ?_
    cases negative with
    | false => exact hword
    | true => exact List.forall_mem_cons.2 ⟨rfl, hword⟩
  | .endl qualified => by
    refine .of_forall (p := fun c => isWordPart c || c == ':') (by decide) ?_
    cases qualified <;> decide

/-- A piece neither starts nor ends with white space. -/
theorem exists_trimmed (p : Piece) : (∃ c rest, p.text = c :: rest ∧ isBlank c = false) ∧
    trimEnd p.text = p.text := by
  have hsolid : ∀ {text : List Char}, IsSolidText text →
      (∃ c rest, text = c :: rest ∧ isBlank c = false) ∧ trimEnd text = text := by
    intro text h
    obtain ⟨c, rest, rfl⟩ := List.exists_cons_of_ne_nil h.ne_nil
    refine ⟨⟨c, rest, rfl, h.isBlank c List.mem_cons_self⟩, ?_⟩
    have hend := h.trimEnd_append []
    rwa [List.append_nil, show trimEnd [] = [] from rfl, List.append_nil] at hend
  cases p with
  | literal quote body hquote =>
    have hblank : isBlank quote = false := by
      rcases hquote with rfl | rfl <;> decide
    have hlast : trimEnd [quote] = [quote] := by simp [trimEnd, hblank]
    refine ⟨⟨quote, body ++ [quote], rfl, hblank⟩, ?_⟩
    rw [text, ← List.cons_append, trimEnd_append, hlast, if_neg (List.cons_ne_nil _ _)]
  | name n hn => exact hsolid hn.isWordText.isSolidText
  | integer negative digits hne hdigits =>
    have hdigit : ∀ d ∈ digits, isBlank d = false := fun d hd =>
      isBlank_of_isWordPart (isWordPart_of_isDigit (hdigits d hd))
    cases negative with
    | false => exact hsolid ⟨hne, hdigit⟩
    | true => exact hsolid (.cons (by decide) hdigit)
  | endl qualified =>
    cases qualified with
    | false => exact hsolid ⟨by decide, by decide⟩
    | true => exact hsolid ⟨by decide, by decide⟩

theorem isEndl_text_iff (p : Piece) : IsEndl p.text ↔ p.inner? = none := by
  have hword : ∀ {text : List Char}, IsEndl text → text.head?.any isWordStart = true := by
    rintro _ (rfl | rfl) <;> decide
  cases p with
  | literal quote body hquote =>
    refine iff_of_false (fun h => ?_) (Option.some_ne_none body)
    have hstart : isWordStart quote = true := hword h
    rcases hquote with rfl | rfl <;> cases hstart
  | name n hn hne =>
    refine iff_of_false ?_ (Option.some_ne_none _)
    rintro (h | h)
    · exact hne (String.toList_inj.1 h)
    · have htext : n.toList = "std::endl".toList := h
      have hcolon := hn.isWordPart ':' (by rw [htext]; decide)
      cases hcolon
  | integer negative digits hne hdigits =>
    refine iff_of_false (fun h => ?_) (Option.some_ne_none _)
    cases negative with
    | false =>
      obtain ⟨d, digits, rfl⟩ := List.exists_cons_of_ne_nil hne
      have hdigit := isDigit_eq_false_of_isWordStart (hword h)
      rw [hdigits d List.mem_cons_self] at hdigit
      cases hdigit
    | true => cases hword h
  | endl qualified =>
    refine iff_of_true ?_ rfl
    cases qualified with
    | false => exact .inl rfl
    | true => exact .inr rfl

theorem unquote_text : ∀ p : Piece, ∀ inner ∈ p.inner?, unquote p.text = inner
  | .literal _ body hquote _, _, rfl => unquote_of_quoted hquote body
  | .name n hn _, _, rfl => by
    refine unquote_of_not_quoted fun quote inner hquote h => ?_
    have htext : n.toList = quote :: (inner ++ [quote]) := h
    have hword := hn.isWordPart quote (htext ▸ List.mem_cons_self)
    rcases hquote with rfl | rfl <;> cases hword
  | .integer negative digits _ hdigits, _, rfl => by
    refine unquote_of_not_quoted fun quote inner hquote h => ?_
    cases negative with
    | false =>
      have htext : digits = quote :: (inner ++ [quote]) := h
      have hdigit := hdigits quote (htext ▸ List.mem_cons_self)
      rcases hquote with rfl | rfl <;> cases hdigit
    | true =>
      cases h
      rcases hquote with h | h <;> cases h

end Piece

section Chunk

variable {chunk : List Char} {p : Piece} (h : chunk ∈ space * {p.text} * space)
include h

theorem trim_chunk : trim chunk = p.text := by
  obtain ⟨front, hfront, after, hafter, rfl⟩ := Language.mem_mul.1 h
  obtain ⟨before, hbefore, _, rfl, rfl⟩ := Language.mem_mul.1 hfront
  obtain ⟨⟨c, rest, htext, hc⟩, hend⟩ := p.exists_trimmed
  have hstart : trimStart (before ++ p.text ++ after) = p.text ++ after := by
    rw [List.append_assoc, trimStart_append hbefore]
    rw [htext]
    rintro _ ⟨⟩
    exact hc
  rw [trim, hstart, trimEnd_append, if_pos (trimEnd_eq_nil_iff.2 hafter), hend]

theorem passes_chunk : Passes significant .outside chunk .outside := by
  obtain ⟨front, hfront, after, hafter, rfl⟩ := Language.mem_mul.1 h
  obtain ⟨before, hbefore, _, rfl, rfl⟩ := Language.mem_mul.1 hfront
  exact ((passes_space hbefore).append p.passes).append (passes_space hafter)

theorem chunk_ne_nil : chunk ≠ [] := by
  rintro rfl
  obtain ⟨⟨c, rest, htext, -⟩, -⟩ := p.exists_trimmed
  rw [← trim_chunk h] at htext
  cases htext

/-- A chunk between two signs shows what its piece says. -/
theorem pieceText?_chunk (b : Bindings) :
    pieceText? b chunk = p.inner?.map fun text => trim (replaceNames b text) := by
  have hend := p.isEndl_text_iff
  unfold IsEndl at hend
  unfold pieceText?
  rw [trim_chunk h]
  dsimp only
  simp only [hend]
  cases hinner : p.inner? with
  | none => rfl
  | some inner =>
    rw [if_neg (Option.some_ne_none inner), p.unquote_text inner hinner,
      substituteNames_eq_replaceNames]
    rfl

end Chunk

/-! ## Arguments -/

theorem passes_arguments {ps : List Piece} {text : List Char} (h : text ∈ arguments ps) :
    Passes significant.tail .outside text .outside := by
  induction ps generalizing text with
  | nil => exact (passes_space h).mono (List.tail_subset _)
  | cons p ps ih =>
    cases ps with
    | nil => exact (passes_chunk h).mono (List.tail_subset _)
    | cons q ps =>
      obtain ⟨front, hfront, rest, hrest, rfl⟩ := Language.mem_mul.1 h
      obtain ⟨chunk, hchunk, _, rfl, rfl⟩ := Language.mem_mul.1 hfront
      have hsign : Passes significant.tail .outside "<<".toList .outside :=
        .of_forall (p := (· == '<')) (by decide) (by decide)
      exact (((passes_chunk hchunk).mono (List.tail_subset _)).append hsign).append (ih hrest)

/-- A text without signs is one piece. -/
theorem splitInsertions_of_passes {text : List Char}
    (h : Passes significant .outside text .outside) : splitInsertions text = [text] := by
  have hsplit := h.splitInsertionsFrom (by decide) []
  have hnil : splitInsertionsFrom .outside [] = [[]] := by rw [splitInsertionsFrom]
  rw [List.append_nil, hnil] at hsplit
  rw [splitInsertions, hsplit]
  cases text with
  | nil => rfl
  | cons c text =>
    rw [foldr_consFirst (List.cons_ne_nil c text)]
    simp

/-- The signs outside of literals are those between the pieces. -/
theorem splitInsertions_arguments {p : Piece} {ps : List Piece} {text : List Char}
    (h : text ∈ arguments (p :: ps)) :
    List.Forall₂ (fun chunk p => chunk ∈ space * {p.text} * space) (splitInsertions text)
      (p :: ps) := by
  induction ps generalizing p text with
  | nil =>
    rw [splitInsertions_of_passes (passes_chunk h)]
    exact .cons h .nil
  | cons q ps ih =>
    obtain ⟨front, hfront, rest, hrest, rfl⟩ := Language.mem_mul.1 h
    obtain ⟨chunk, hchunk, _, rfl, rfl⟩ := Language.mem_mul.1 hfront
    have hsplit := (passes_chunk hchunk).splitInsertionsFrom (by decide) ("<<".toList ++ rest)
    have hsign : splitInsertionsFrom .outside ("<<".toList ++ rest) =
        [] :: splitInsertions rest := by
      show splitInsertionsFrom .outside ('<' :: '<' :: rest) = _
      rw [splitInsertionsFrom]
      rfl
    rw [foldr_consFirst (chunk_ne_nil hchunk), hsign, List.head?_cons, Option.getD_some,
      List.append_nil, List.tail_cons] at hsplit
    rw [splitInsertions, List.append_assoc, hsplit]
    exact .cons hchunk (ih hrest)

theorem filterMap_pieceText? (b : Bindings) {chunks : List (List Char)} {ps : List Piece}
    (h : List.Forall₂ (fun chunk p => chunk ∈ space * {p.text} * space) chunks ps) :
    chunks.filterMap (pieceText? b) =
      (ps.filterMap Piece.inner?).map fun text => trim (replaceNames b text) := by
  induction h with
  | nil => rfl
  | @cons chunk p chunks ps hchunk _ ih =>
    rw [List.filterMap_cons, List.filterMap_cons, pieceText?_chunk hchunk, ih]
    cases p.inner? <;> rfl

theorem renderOutput_arguments (b : Bindings) {ps : List Piece} {text : List Char}
    (h : text ∈ arguments ps) : renderOutput b text = writtenText b ps := by
  cases ps with
  | nil =>
    have hblank : trim text = [] := by
      rw [trim, trimStart_eq_nil_iff.2 h]
      rfl
    have hpiece : pieceText? b text = some [] := by
      rw [pieceText?, hblank]
      rfl
    rw [renderOutput, splitInsertions_of_passes (passes_space h), List.filterMap_cons, hpiece,
      List.filterMap_nil]
    rfl
  | cons p ps =>
    rw [renderOutput, filterMap_pieceText? b (splitInsertions_arguments h)]
    rfl

/-! ## Lines of output -/

/-- Every scan reads a line of output in the same way: no brace of it counts, and it writes what its
pieces say, with the names of variables replaced by their values. -/
theorem classify_of_mem_outputLine (b : Bindings) {ps : List Piece} {line : List Char}
    (h : line ∈ outputLine ps) :
    countBraces line = (0, 0) ∧ classify b line = .output (writtenText b ps) := by
  simp only [outputLine, mul_assoc] at h
  obtain ⟨blanks, hblanks, _, hline, rfl⟩ := Language.mem_mul.1 h
  obtain ⟨start, hstart, _, hrest, rfl⟩ := Language.mem_mul.1 hline
  obtain ⟨args, hargs, _, hlast, rfl⟩ := Language.mem_mul.1 hrest
  obtain ⟨_, rfl, after, hafter, rfl⟩ := Language.mem_mul.1 hlast
  have hend : IsEnd after := by
    obtain ⟨more, hmore, rest, hcomment, rfl⟩ := Language.mem_mul.1 hafter
    rw [isEnd_append hmore]
    obtain rfl | ⟨rest, rfl⟩ := mem_comment.1 hcomment
    · exact .inl rfl
    · exact .inr ⟨rest, rfl⟩
  have hpasses := passes_arguments hargs
  have hhead : ∀ front ∈ space * outputStart, ∀ rest,
      outputHead (front ++ rest) = some ((), rest) := fun front hfront rest =>
    (reads_outputHead _ _).2 ⟨mem_top rest, front, hfront, rfl⟩
  constructor
  · have hbraces := keepsBraces_outputHead
      (hhead _ (Language.append_mem_mul hblanks hstart) (args ++ (";".toList ++ after)))
    rw [← List.append_assoc, ← hbraces, countBraces, hpasses.countBracesFrom (by decide)]
    exact (countBraces_cons_of_isPlain (by decide) after).trans (countBraces_of_isEnd hend)
  · have htrim : trim (blanks ++ (start ++ (args ++ (";".toList ++ after)))) =
        start ++ (args ++ ';' :: trimEnd after) := by
      have hstart' : start ++ (args ++ (";".toList ++ after)) ∈ outputStart * ⊤ :=
        Language.append_mem_mul hstart (mem_top _)
      have hsemicolon : IsSolidText ";".toList := ⟨by decide, by decide⟩
      rw [trim, trimStart_append hblanks
          (((opens_outputStart (by decide) (by decide)).mul ⊤).le_avoiding hstart'),
        ← List.append_assoc, trimEnd_append, hsemicolon.trimEnd_append, if_neg (by simp),
        List.append_assoc]
      rfl
    have hread : output.read? (start ++ (args ++ ';' :: trimEnd after)) = some args := by
      refine read?_output_eq_some_iff.2 ⟨_, trimEnd after,
        hhead start (Language.append_mem_mul nil_mem_space hstart) _, ?_, hend.trimEnd⟩
      rw [hpasses.splitAtSemicolon (by decide)]
      simp [splitAtSemicolon]
    rw [classify_of_read?_output (htrim ▸ hread), renderOutput_arguments b hargs]

/-- A literal that holds what scans look for. -/
def quotedPiece : Piece :=
  .literal '"' "i\\\"<<\x7b;".toList (.inl rfl) <| .plain (by decide) (by decide) <| .pair '"' <|
    .plain (by decide) (by decide) <| .plain (by decide) (by decide) <|
    .plain (by decide) (by decide) <| .plain (by decide) (by decide) .nil

/-- A line with that literal, a variable and an end of the line. -/
def quotedLine : List Char :=
  "cout << \"i\\\"<<\x7b;\" << i<<endl; // \x7d".toList

theorem classify_quotedLine :
    quotedLine ∈ outputLine [quotedPiece, .name "i" (by decide) (by decide), .endl false] ∧
      countBraces quotedLine = (0, 0) ∧
      classify (.ofList [("i", .int 3)]) quotedLine = .output "3\\\"<<\x7b; 3" := by
  have hspace : [' '] ∈ space := mem_space.2 (by decide)
  have hsign : ∀ wanted : String, wanted.toList ∈ Grammar.sign wanted := fun _ => rfl
  have hstart : [] ++ "cout".toList ++ [' '] ++ "<<".toList ∈ outputStart :=
    Language.append_mem_mul (Language.append_mem_mul (Language.append_mem_mul
      (.inl Language.nil_mem_one) (hsign "cout")) hspace) (hsign "<<")
  have hchunk : ∀ (p : Piece) {before after : List Char}, before ∈ space → after ∈ space →
      before ++ p.text ++ after ∈ space * {p.text} * space := fun p _ _ hbefore hafter =>
    Language.append_mem_mul (Language.append_mem_mul hbefore rfl) hafter
  have harguments := Language.append_mem_mul
    (Language.append_mem_mul (hchunk quotedPiece hspace hspace) (hsign "<<")) <|
    Language.append_mem_mul (Language.append_mem_mul
      (hchunk (.name "i" (by decide) (by decide)) hspace nil_mem_space) (hsign "<<")) <|
    hchunk (.endl false) nil_mem_space nil_mem_space
  have hcomment : "// \x7d".toList ∈ comment := mem_comment.2 (.inr ⟨" \x7d".toList, by decide⟩)
  have hparts := Language.append_mem_mul (Language.append_mem_mul (Language.append_mem_mul
    (Language.append_mem_mul (Language.append_mem_mul nil_mem_space hstart) harguments)
    (hsign ";")) hspace) hcomment
  have hquoted : quotedLine ∈
      outputLine [quotedPiece, .name "i" (by decide) (by decide), .endl false] := by
    refine Eq.mp (congrArg (· ∈ outputLine _) ?_) hparts
    decide +kernel
  have hread := classify_of_mem_outputLine (.ofList [("i", .int 3)]) hquoted
  refine ⟨hquoted, hread.1, hread.2.trans ?_⟩
  decide +kernel

end CLike

end TraceTutor
