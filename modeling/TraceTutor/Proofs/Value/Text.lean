import TraceTutor.Proofs.Json.Numeral
import TraceTutor.Proofs.Text.Blank
import TraceTutor.Script.Builtin

/-!
# Numbers as text

A line-stepped program computes with numbers, and with `null` where a result is not finite
(`isNumeric_add`, `isNumeric_factorial`). Their texts have no white space and are not empty, so that
they stand in an output like words.
-/

namespace TraceTutor

open Text

/-! ## Texts of numbers -/

theorem isBlank_of_isDigit {c : Char} (h : c.isDigit = true) : Text.isBlank c = false := by
  obtain ⟨hlow, hhigh⟩ : 48 ≤ c.toNat ∧ c.toNat ≤ 57 := Char.isDigit_iff_toNat.1 h
  simp only [Text.isBlank, Bool.or_eq_false_iff, Bool.and_eq_false_iff, decide_eq_false_iff_not,
    beq_eq_false_iff_ne]
  omega

namespace Text.IsSolidText

theorem digits (n : Nat) : IsSolidText (Nat.toDigits 10 n) :=
  ⟨Nat.toDigits_ne_nil, fun c hc =>
    isBlank_of_isDigit ((Document.isDigits_toDigits n).isDigit c hc)⟩

theorem positional (d : Decimal) : IsSolidText (NumeralStyle.positional false d) := by
  have hdigits := IsSolidText.digits d.coefficient
  have hzeros : ∀ k, ∀ c ∈ List.replicate k '0', Text.isBlank c = false := by
    intro k c hc
    rw [List.eq_of_mem_replicate hc]
    decide
  unfold NumeralStyle.positional
  dsimp only
  split_ifs with hexponent hfraction hplaces
  · cases hfraction
  · exact (hdigits.append (hzeros _)).append (by simp)
  · refine IsSolidText.append ⟨?_, ?_⟩ ?_
    · have hpos : 0 < d.digits.length - (-d.exponent).toNat := by omega
      rw [Ne, List.take_eq_nil_iff, not_or]
      exact ⟨hpos.ne', hdigits.ne_nil⟩
    · exact fun c hc => hdigits.isBlank c (List.mem_of_mem_take hc)
    · exact List.forall_mem_cons.2
        ⟨by decide, fun c hc => hdigits.isBlank c (List.mem_of_mem_drop hc)⟩
  · exact .cons (by decide) (List.forall_mem_cons.2
      ⟨by decide, List.forall_mem_append.2 ⟨hzeros _, hdigits.isBlank⟩⟩)

theorem exponential (d : Decimal) : IsSolidText (NumeralStyle.exponential d) := by
  have hdigits := IsSolidText.digits d.coefficient
  have htail : ∀ c ∈ 'e' :: (if d.magnitude < 0 then '-' else '+') ::
      Nat.toDigits 10 d.magnitude.natAbs, Text.isBlank c = false := by
    refine List.forall_mem_cons.2 ⟨by decide, List.forall_mem_cons.2 ⟨?_, ?_⟩⟩
    · split <;> decide
    · exact (IsSolidText.digits _).isBlank
  unfold NumeralStyle.exponential
  dsimp only
  refine IsSolidText.append ?_ htail
  split
  next first second more h =>
    have hall : ∀ c ∈ first :: second :: more, Text.isBlank c = false := h ▸ hdigits.isBlank
    obtain ⟨hfirst, hmore⟩ := List.forall_mem_cons.1 hall
    exact .cons hfirst (List.forall_mem_cons.2 ⟨by decide, hmore⟩)
  next => exact hdigits

theorem write (x : Finite64) : IsSolidText (NumeralStyle.output.write x).toList := by
  unfold NumeralStyle.write
  dsimp only
  rw [String.toList_ofList]
  have hbody : IsSolidText (if x.isZero || (NumeralStyle.output.lowest ≤
      (x.shortest NumeralStyle.output.tie).magnitude &&
        (x.shortest NumeralStyle.output.tie).magnitude ≤ NumeralStyle.output.highest) then
      NumeralStyle.positional NumeralStyle.output.keepsFraction
        (x.shortest NumeralStyle.output.tie)
    else NumeralStyle.exponential (x.shortest NumeralStyle.output.tie)) := by
    split
    · exact positional _
    · exact exponential _
  split
  · exact .cons (by decide) hbody.isBlank
  · exact hbody

theorem toString_int (k : Int) : IsSolidText (toString k).toList := by
  rw [Int.toString_eq_repr, Int.repr_eq_if]
  split
  · rw [Nat.toList_repr]
    exact digits _
  · rw [String.toList_append, Nat.toList_repr]
    exact .cons (by decide) (digits _).isBlank

end Text.IsSolidText

/-! ## Numbers and `null` -/

namespace Value

/-- A number, or `null`. -/
def IsNumeric : Value → Prop
  | null => True
  | number _ => True
  | _ => False

theorem isNumeric_int (k : Int) : (int k).IsNumeric := trivial

theorem isNumeric_ofBinary64 (x : Binary64) : (ofBinary64 x).IsNumeric := by
  unfold ofBinary64
  split
  · split <;> exact trivial
  · exact trivial

theorem isNumeric_add {a b : Value} (ha : a.IsNumeric) (hb : b.IsNumeric) :
    (a.add b).IsNumeric := by
  have hplain : ∀ {v : Value}, v.IsNumeric → v.isString = false ∧ v.isCompound = false := by
    intro v hv
    cases v with
    | null | number => exact ⟨rfl, rfl⟩
    | bool | string | array | object => exact hv.elim
  unfold add
  rw [(hplain ha).1, (hplain ha).2, (hplain hb).1, (hplain hb).2]
  change (arithmetic .add a b).IsNumeric
  unfold arithmetic
  dsimp only
  split
  · exact isNumeric_int _
  · exact isNumeric_ofBinary64 _

theorem isNumeric_factorial (n : Int) : (factorial n).IsNumeric := by
  unfold factorial Product.toValue
  split
  · exact isNumeric_int _
  · exact isNumeric_ofBinary64 _

theorem isSolidText_display {v : Value} (h : v.IsNumeric) : IsSolidText v.display.toList := by
  cases v with
  | null => exact ⟨by decide, by decide⟩
  | number n =>
    change IsSolidText n.display.toList
    unfold Number.display
    split
    · exact .toString_int _
    · unfold NumeralStyle.writeAny
      split
      · exact ⟨by decide, by decide⟩
      · split <;> exact ⟨by decide, by decide⟩
      · exact .write _
  | bool | string | array | object => exact h.elim

end Value

end TraceTutor
