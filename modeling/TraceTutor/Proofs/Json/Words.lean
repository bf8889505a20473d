import TraceTutor.Proofs.Json.Values

/-!
# Integers that are read

Whatever a text holds, the integers that are read from it are words (`fitsWords_of_read?`), and so are
those of the values that are made of it (`numbersIn_of_toValue?`).
-/

namespace TraceTutor

namespace Document

/-! ## Reading -/

/-- All integers in the document are words. -/
def FitsWords (d : Document) : Prop :=
  d.EveryLeaf (IfNumber Number.FitsWord)

theorem fitsWords_unreadable : unreadable.FitsWords :=
  trivial

theorem FitsWords.guardDepth {d : Document} (h : d.FitsWords) (depth : Nat) :
    (guardDepth depth d).FitsWords := by
  unfold Document.guardDepth
  split
  · exact h
  · exact fitsWords_unreadable

theorem Numeral.fitsWords_toDocument (x : Numeral) : x.toDocument.FitsWords := by
  unfold toDocument
  dsimp only
  split
  next h =>
    have hhigh : (Decimal.ofDigits x.whole : Int) < wordCount := by simp_all
    have hlow : -wordBound ≤ (Decimal.ofDigits x.whole : Int) := by
      unfold wordBound
      omega
    exact ⟨hlow, hhigh⟩
  next =>
    split
    next h =>
      have hword : isWord (-(Decimal.ofDigits x.whole : Int)) = true := by
        rw [Bool.and_eq_true] at h
        exact h.2
      have hrange : -wordBound ≤ -(Decimal.ofDigits x.whole : Int) ∧
          -(Decimal.ofDigits x.whole : Int) < wordBound := by
        simpa [isWord] using hword
      have hhigh : -(Decimal.ofDigits x.whole : Int) < wordCount := by
        unfold wordCount
        omega
      exact ⟨hrange.1, hhigh⟩
    next =>
      split
      · trivial
      · exact fitsWords_unreadable

mutual

theorem fitsWords_of_readValue? : ∀ {fuel depth : Nat} {text rest : List Char} {d : Document},
    readValue? fuel depth text = some (d, rest) → d.FitsWords
  | 0, _, _, _, _, h => by cases h
  | fuel + 1, depth, text, rest, d, h => by
    unfold readValue? at h
    split at h
    · cases h
      trivial
    · cases h
      trivial
    · cases h
      trivial
    · simp only [Option.bind_eq_bind, Option.bind_eq_some_iff] at h
      obtain ⟨pieces, -, h⟩ := h
      split at h
      · cases h
        trivial
      · cases h
        exact fitsWords_unreadable
    · split at h
      · cases h
        exact FitsWords.guardDepth (d := array []) trivial depth
      · simp only [Option.bind_eq_bind, Option.bind_eq_some_iff] at h
        obtain ⟨⟨items, after⟩, hitems, h⟩ := h
        cases h
        exact FitsWords.guardDepth (d := array items) (fitsWords_of_readItems? hitems) depth
    · split at h
      · cases h
        exact FitsWords.guardDepth (d := object []) trivial depth
      · simp only [Option.bind_eq_bind, Option.bind_eq_some_iff] at h
        obtain ⟨⟨fields, after⟩, hfields, h⟩ := h
        cases fields with
        | none =>
          cases h
          exact fitsWords_unreadable
        | some fields =>
          cases h
          exact FitsWords.guardDepth (d := object fields) (fitsWords_of_readFields? hfields) depth
    · simp only [Option.bind_eq_bind, Option.bind_eq_some_iff] at h
      obtain ⟨numeral, -, h⟩ := h
      cases h
      exact numeral.1.fitsWords_toDocument

theorem fitsWords_of_readItems? : ∀ {fuel depth : Nat} {text rest : List Char}
    {items : List Document}, readItems? fuel depth text = some (items, rest) →
    EveryItemLeaf (IfNumber Number.FitsWord) items
  | 0, _, _, _, _, h => by cases h
  | fuel + 1, depth, text, rest, items, h => by
    unfold readItems? at h
    simp only [Option.bind_eq_bind, Option.bind_eq_some_iff] at h
    obtain ⟨⟨item, after⟩, hitem, h⟩ := h
    have hitem := fitsWords_of_readValue? hitem
    split at h
    · cases h
      exact ⟨hitem, trivial⟩
    · simp only [Option.bind_eq_some_iff] at h
      obtain ⟨⟨more, last⟩, hmore, h⟩ := h
      cases h
      exact ⟨hitem, fitsWords_of_readItems? hmore⟩
    · cases h

theorem fitsWords_of_readFields? : ∀ {fuel depth : Nat} {text rest : List Char}
    {fields : List (String × Document)}, readFields? fuel depth text = some (some fields, rest) →
    EveryFieldLeaf (IfNumber Number.FitsWord) fields
  | 0, _, _, _, _, h => by cases h
  | fuel + 1, depth, text, rest, fields, h => by
    unfold readFields? at h
    split at h
    next =>
      simp only [Option.bind_eq_bind, Option.bind_eq_some_iff] at h
      obtain ⟨⟨pieces, afterKey⟩, -, h⟩ := h
      split at h
      next =>
        simp only [Option.bind_eq_some_iff] at h
        obtain ⟨⟨item, afterItem⟩, hitem, h⟩ := h
        have hitem := fitsWords_of_readValue? hitem
        split at h
        next =>
          cases hkey : joinPieces? pieces with
          | none =>
            rw [hkey] at h
            cases h
          | some key =>
            rw [hkey] at h
            cases h
            exact ⟨hitem, trivial⟩
        next =>
          simp only [Option.bind_eq_some_iff] at h
          obtain ⟨⟨more, last⟩, hmore, h⟩ := h
          cases hkey : joinPieces? pieces with
          | none =>
            rw [hkey] at h
            cases h
          | some key =>
            rw [hkey] at h
            cases more with
            | none => cases h
            | some more =>
              cases h
              exact ⟨hitem, fitsWords_of_readFields? hmore⟩
        next => cases h
      next => cases h
    next => cases h

end

theorem fitsWords_of_read? {text : String} {d : Document} (h : read? text = some d) :
    d.FitsWords := by
  unfold read? at h
  simp only [Option.bind_eq_bind, Option.bind_eq_some_iff] at h
  obtain ⟨⟨found, rest⟩, hread, h⟩ := h
  split at h
  · cases h
    exact fitsWords_of_readValue? hread
  · cases h

/-! ## Values -/

open Value

mutual

theorem numbersIn_of_toValue? : ∀ {d : Document} {v : Value}, d.FitsWords → d.toValue? = some v →
    v.NumbersIn Number.FitsWord
  | .null, _, _, h | .bool _, _, _, h | .string _, _, _, h => by
    cases h
    trivial
  | .number _, _, hd, h => by
    cases h
    exact hd
  | .array items, v, hd, h => by
    unfold toValue? at h
    obtain ⟨values, hvalues, rfl⟩ := Option.map_eq_some_iff.1 h
    exact itemNumbersIn_of_toValues? hd hvalues
  | .object fields, v, hd, h => by
    unfold toValue? at h
    obtain ⟨values, hvalues, rfl⟩ := Option.map_eq_some_iff.1 h
    have hnumbers := fieldNumbersIn_iff.1 (fieldNumbersIn_of_toValueFields? hd hvalues)
    exact fieldNumbersIn_iff.2 fun field hfield => hnumbers field (mem_of_ofFields rfl hfield)
  | .unreadable, _, _, h => by
    unfold toValue? at h
    cases h

theorem itemNumbersIn_of_toValues? : ∀ {ds : List Document} {vs : List Value},
    EveryItemLeaf (IfNumber Number.FitsWord) ds → toValues? ds = some vs →
    ItemNumbersIn Number.FitsWord vs
  | [], _, _, h => by
    unfold toValues? at h
    cases h
    trivial
  | d :: ds, _, hd, h => by
    unfold toValues? at h
    split at h
    next v vs hv hvs =>
      cases h
      exact ⟨numbersIn_of_toValue? hd.1 hv, itemNumbersIn_of_toValues? hd.2 hvs⟩
    next => cases h

theorem fieldNumbersIn_of_toValueFields? : ∀ {ds : List (String × Document)}
    {vs : List (String × Value)}, EveryFieldLeaf (IfNumber Number.FitsWord) ds →
    toValueFields? ds = some vs → FieldNumbersIn Number.FitsWord vs
  | [], _, _, h => by
    unfold toValueFields? at h
    cases h
    trivial
  | (key, d) :: ds, _, hd, h => by
    unfold toValueFields? at h
    split at h
    next v vs hv hvs =>
      cases h
      exact ⟨numbersIn_of_toValue? hd.1 hv, fieldNumbersIn_of_toValueFields? hd.2 hvs⟩
    next => cases h

end

end Document

end TraceTutor
