import TraceTutor.Json.Reader
import TraceTutor.Proofs.Number.Decimal

/-!
# Numerals in documents

A numeral that is written out in front of anything that does not continue it is read back as it is
(`readNumeral?_text`). The numerals of integers are of that form (`Numeral.text_ofInt`), and an
integer that is a word is read back (`Numeral.toDocument_ofInt`). A double is written as a numeral
that denotes its shortest decimal (`Numeral.exists_spells_writeNumber`).
-/

namespace TraceTutor.Document

/-! ## Digits -/

/-- Some digits, at least one. -/
structure IsDigits (text : List Char) : Prop where
  ne_nil : text ≠ []
  isDigit : ∀ c ∈ text, c.isDigit = true

theorem isDigits_toDigits (n : Nat) : IsDigits (Nat.toDigits 10 n) where
  ne_nil := Nat.toDigits_ne_nil
  isDigit _ hc := Nat.isDigit_of_mem_toDigits (by decide) (by decide) hc

theorem isDigits_append {digits more : List Char} (h : IsDigits digits)
    (hmore : ∀ c ∈ more, c.isDigit = true) : IsDigits (digits ++ more) where
  ne_nil := by simp [h.ne_nil]
  isDigit := List.forall_mem_append.2 ⟨h.isDigit, hmore⟩

theorem length_toDigits_of_head?_eq_zero {n : Nat} (h : (Nat.toDigits 10 n).head? = some '0') :
    (Nat.toDigits 10 n).length = 1 := by
  rcases Nat.eq_zero_or_pos n with rfl | hn
  · rfl
  · exact absurd h (Decimal.head?_toDigits_ne_zero hn)

/-! ## Numerals as text -/

/-- Whether a numeral could go on with the character. -/
def continuesNumeral (c : Char) : Bool :=
  c.isDigit || c == '.' || c == 'e' || c == 'E'

/-- No numeral in front of the text goes on in it. -/
def EndsNumeral (rest : List Char) : Prop :=
  ∀ c ∈ rest.head?, continuesNumeral c = false

theorem endsNumeral_nil : EndsNumeral [] := by
  intro c hc
  cases hc

theorem endsNumeral_cons {c : Char} (h : continuesNumeral c = false) (rest : List Char) :
    EndsNumeral (c :: rest) := by
  intro d hd
  cases hd
  exact h

namespace Numeral

def fractionText (x : Numeral) : List Char :=
  if x.fraction.isEmpty then [] else '.' :: x.fraction

def exponentText (x : Numeral) : List Char :=
  match x.exponent with
  | none => []
  | some (below, digits) => 'e' :: (if below then '-' else '+') :: digits

def signText (negative : Bool) : List Char :=
  if negative then ['-'] else []

/-- The numeral written out, with a sign in every exponent. -/
def text (x : Numeral) : List Char :=
  signText x.negative ++ (x.whole ++ (x.fractionText ++ x.exponentText))

/-- The parts of the numeral are digits, and a zero in front stands alone. -/
structure IsWellFormed (x : Numeral) : Prop where
  whole : IsDigits x.whole
  leading : x.whole.head? = some '0' → x.whole.length = 1
  fraction : ∀ c ∈ x.fraction, c.isDigit = true
  exponent : ∀ below digits, x.exponent = some (below, digits) → IsDigits digits

end Numeral

/-! ## Reading -/

theorem EndsNumeral.isDigit_eq_false {rest : List Char} (h : EndsNumeral rest) :
    ∀ c ∈ rest.head?, c.isDigit = false := by
  intro c hc
  have hcontinues := h c hc
  simp only [continuesNumeral, Bool.or_eq_false_iff] at hcontinues
  exact hcontinues.1.1.1

theorem readDigits?_append {digits rest : List Char} (h : IsDigits digits)
    (hrest : ∀ c ∈ rest.head?, c.isDigit = false) :
    readDigits? (digits ++ rest) = some (digits, rest) := by
  have htake : rest.takeWhile Char.isDigit = [] := by
    cases rest with
    | nil => rfl
    | cons c rest => simp [hrest c rfl]
  have hdrop : rest.dropWhile Char.isDigit = rest := by
    cases rest with
    | nil => rfl
    | cons c rest => simp [hrest c rfl]
  unfold readDigits?
  simp only [List.takeWhile_append_of_pos h.isDigit, List.dropWhile_append_of_pos h.isDigit, htake,
    hdrop, List.append_nil, List.isEmpty_iff]
  rw [if_neg h.ne_nil]

variable {x : Numeral} {rest : List Char}

/-- What follows the fraction is an exponent, or else ends the numeral. -/
theorem head?_exponentText_append (hrest : EndsNumeral rest) :
    ∀ c ∈ (x.exponentText ++ rest).head?, c.isDigit = false ∧ c ≠ '.' := by
  intro c hc
  unfold Numeral.exponentText at hc
  cases hexponent : x.exponent with
  | none =>
    rw [hexponent] at hc
    refine ⟨hrest.isDigit_eq_false c hc, ?_⟩
    rintro rfl
    cases hrest _ hc
  | some part =>
    rw [hexponent] at hc
    cases hc
    decide

/-- What follows the first digits is no digit either. -/
theorem head?_fractionText_append (hrest : EndsNumeral rest) :
    ∀ c ∈ (x.fractionText ++ (x.exponentText ++ rest)).head?, c.isDigit = false := by
  intro c hc
  unfold Numeral.fractionText at hc
  by_cases hfraction : x.fraction.isEmpty
  · rw [if_pos hfraction] at hc
    exact (head?_exponentText_append hrest c hc).1
  · rw [if_neg hfraction] at hc
    cases hc
    decide

theorem readExponent?_exponentText (h : x.IsWellFormed) (hrest : EndsNumeral rest) :
    readExponent? (x.exponentText ++ rest) = some (x.exponent, rest) := by
  unfold Numeral.exponentText
  cases hexponent : x.exponent with
  | none =>
    cases rest with
    | nil => rfl
    | cons c rest =>
      have hcontinues := hrest c rfl
      simp only [continuesNumeral, Bool.or_eq_false_iff] at hcontinues
      obtain ⟨⟨-, hlower⟩, hupper⟩ := hcontinues
      simp [readExponent?, hlower, hupper]
  | some part =>
    obtain ⟨below, digits⟩ := part
    have hdigits := readDigits?_append (h.exponent below digits hexponent) hrest.isDigit_eq_false
    cases below <;> simp [readExponent?, Binary64.splitSign, hdigits]

theorem readFraction?_fractionText (h : x.IsWellFormed) (hrest : EndsNumeral rest) :
    readFraction? (x.fractionText ++ (x.exponentText ++ rest)) =
      some (x.fraction, x.exponentText ++ rest) := by
  have hhead := head?_exponentText_append (x := x) hrest
  unfold Numeral.fractionText
  cases hfraction : x.fraction with
  | nil =>
    generalize x.exponentText ++ rest = after at hhead ⊢
    cases after with
    | nil => rfl
    | cons c after =>
      have hpoint := (hhead c rfl).2
      simp [readFraction?, hpoint]
  | cons c digits =>
    have hdigits : IsDigits (c :: digits) := ⟨by simp, hfraction ▸ h.fraction⟩
    simpa [readFraction?] using readDigits?_append hdigits fun c hc => (hhead c hc).1

/-- A numeral that is written out is read back. -/
theorem readNumeral?_text (h : x.IsWellFormed) (hrest : EndsNumeral rest) :
    readNumeral? (x.text ++ rest) = some (x, rest) := by
  have hwhole := readDigits?_append h.whole (head?_fractionText_append (x := x) hrest)
  have hfraction := readFraction?_fractionText h hrest
  have hexponent := readExponent?_exponentText h hrest
  have hleading := h.leading
  obtain ⟨c, digits, hcons⟩ := List.exists_cons_of_ne_nil h.whole.ne_nil
  have hminus : c ≠ '-' := by
    rintro rfl
    have hdigit := h.whole.isDigit '-' (by rw [hcons]; exact List.mem_cons_self)
    cases hdigit
  obtain ⟨negative, whole, fraction, exponent⟩ := x
  obtain rfl : whole = c :: digits := hcons
  have hzero : c = '0' → digits = [] := by simpa using hleading
  unfold Numeral.text Numeral.signText readNumeral?
  cases negative with
  | true => simp_all
  | false => simp_all

/-! ## Integers -/

namespace Numeral

/-- The numeral of an integer. -/
def ofInt (n : Int) : Numeral :=
  ⟨n < 0, Nat.toDigits 10 n.natAbs, [], none⟩

theorem isWellFormed_ofInt (n : Int) : (ofInt n).IsWellFormed where
  whole := isDigits_toDigits n.natAbs
  leading := length_toDigits_of_head?_eq_zero
  fraction _ hc := absurd hc List.not_mem_nil
  exponent _ _ h := by cases h

theorem text_ofInt (n : Int) : (ofInt n).text = writeInt n := by
  unfold writeInt text signText
  by_cases h : n < 0
  · simp [ofInt, h, fractionText, exponentText]
  · simp [ofInt, h, fractionText, exponentText]

/-- An integer that is a signed or an unsigned word is read back from its numeral. -/
theorem toDocument_ofInt {n : Int} (hlow : -wordBound ≤ n) (hhigh : n < wordCount) :
    (ofInt n).toDocument = int n := by
  have hdigits : Decimal.ofDigits (ofInt n).whole = n.natAbs := Decimal.ofDigits_toDigits n.natAbs
  unfold toDocument
  rw [hdigits]
  by_cases hneg : n < 0
  · have hpos : n ≠ 0 := by omega
    have habs : -(n.natAbs : Int) = n := by omega
    have hword : isWord n = true := by
      have hbelow : n < wordBound := by
        unfold wordBound
        omega
      simpa [isWord] using ⟨hlow, hbelow⟩
    simp only [habs]
    simp [ofInt, hneg, hpos, hword]
  · have habs : (n.natAbs : Int) = n := by omega
    simp only [habs]
    simp [ofInt, hneg, hhigh]

end Numeral

/-! ## Doubles -/

namespace Numeral

/-- The power of ten that the exponent stands for. -/
def power (x : Numeral) : Int :=
  match x.exponent with
  | none => 0
  | some (below, digits) =>
    if below then -(Decimal.ofDigits digits : Int) else Decimal.ofDigits digits

/-- The numeral denotes the decimal, and shows that it is no integer. -/
structure Spells (x : Numeral) (d : Decimal) : Prop where
  wellFormed : x.IsWellFormed
  notInteger : x.fraction ≠ [] ∨ x.exponent ≠ none
  /-- The digits before the point fit a word, with room to spare. -/
  whole_lt : Decimal.ofDigits x.whole < 10 ^ 16
  power_eq : x.exponent ≠ none → x.power = d.magnitude
  value_eq : (Decimal.ofDigits (x.whole ++ x.fraction) : ℚ) *
    10 ^ (x.power - x.fraction.length) = d.value

section

variable (negative : Bool) {d : Decimal}

/-- One digit, the other digits as the fraction, and an exponent. -/
def ofExponential (d : Decimal) : Numeral :=
  ⟨negative, d.digits.take 1, d.digits.drop 1,
    some (d.magnitude < 0, Nat.toDigits 10 d.magnitude.natAbs)⟩

theorem text_ofExponential (d : Decimal) : (ofExponential negative d).text =
    signText negative ++ NumeralStyle.exponential d := by
  unfold text fractionText exponentText ofExponential NumeralStyle.exponential
  rcases hdigits : d.digits with - | ⟨first, - | ⟨second, more⟩⟩
  · exact absurd hdigits Nat.toDigits_ne_nil
  · simp
  · simp

theorem power_ofExponential (d : Decimal) : (ofExponential negative d).power = d.magnitude := by
  unfold power ofExponential
  dsimp only
  rw [Decimal.ofDigits_toDigits]
  by_cases h : d.magnitude < 0
  · rw [if_pos (decide_eq_true h)]
    omega
  · rw [if_neg (by simpa using h)]
    omega

theorem spells_ofExponential (d : Decimal) : (ofExponential negative d).Spells d := by
  have hdigits := isDigits_toDigits d.coefficient
  have hpos : 0 < d.digits.length := List.length_pos_iff.2 hdigits.ne_nil
  have hwhole : IsDigits (d.digits.take 1) :=
    ⟨by simp [hdigits.ne_nil, Decimal.digits],
      fun c hc => hdigits.isDigit c (List.mem_of_mem_take hc)⟩
  have hlength : (d.digits.take 1).length = 1 := by
    rw [List.length_take]
    omega
  refine ⟨⟨hwhole, fun _ => hlength, fun c hc => hdigits.isDigit c (List.mem_of_mem_drop hc), ?_⟩,
    .inr (Option.some_ne_none _), ?_, fun _ => power_ofExponential negative d, ?_⟩
  · intro below digits h
    cases h
    exact isDigits_toDigits _
  · have hlt := Decimal.ofDigits_lt_pow hwhole.isDigit
    rw [hlength] at hlt
    exact hlt.trans (by decide)
  · have hall : Decimal.ofDigits (d.digits.take 1 ++ d.digits.drop 1) = d.coefficient := by
      rw [List.take_append_drop]
      exact Decimal.ofDigits_toDigits _
    have hshift : d.magnitude - ((d.digits.drop 1).length : Int) = d.exponent := by
      rw [List.length_drop]
      unfold Decimal.magnitude
      omega
    rw [power_ofExponential]
    unfold ofExponential
    dsimp only
    rw [hall, hshift]
    rfl

/-- All digits, with a point and as many zeros as it takes. -/
def ofPositional (d : Decimal) : Numeral :=
  if 0 ≤ d.exponent then
    ⟨negative, d.digits ++ List.replicate d.exponent.toNat '0', ['0'], none⟩
  else
    let places := (-d.exponent).toNat
    if places < d.digits.length then
      ⟨negative, d.digits.take (d.digits.length - places), d.digits.drop (d.digits.length - places),
        none⟩
    else ⟨negative, ['0'], List.replicate (places - d.digits.length) '0' ++ d.digits, none⟩

theorem text_ofPositional (d : Decimal) : (ofPositional negative d).text =
    signText negative ++ NumeralStyle.positional true d := by
  unfold text fractionText exponentText ofPositional NumeralStyle.positional
  dsimp only
  by_cases hexponent : 0 ≤ d.exponent
  · simp [hexponent]
  by_cases hplaces : (-d.exponent).toNat < d.digits.length
  · have hdrop : d.digits.length - (-d.exponent).toNat < d.digits.length := by omega
    have hne : ¬d.digits.length ≤ d.digits.length - (-d.exponent).toNat := by omega
    simp [hexponent, hplaces, hne]
  · have hne : d.digits ≠ [] := Nat.toDigits_ne_nil
    simp [hexponent, hplaces, hne]

theorem ofDigits_replicate_zero (k : Nat) : Decimal.ofDigits (List.replicate k '0') = 0 := by
  rw [Decimal.ofDigits_eq, Nat.ofDigitChars_replicate_zero, Nat.mul_zero]

theorem isDigit_replicate_zero (k : Nat) : ∀ c ∈ List.replicate k '0', c.isDigit = true := by
  intro c hc
  rw [List.eq_of_mem_replicate hc]
  rfl

theorem spells_ofPositional_whole {places : Nat} (h : d.exponent = (places : Int))
    (hzero : d.coefficient = 0 → places = 0) (hhigh : d.magnitude ≤ 15) :
    Spells ⟨negative, d.digits ++ List.replicate places '0', ['0'], none⟩ d := by
  have hdigits : IsDigits d.digits := isDigits_toDigits d.coefficient
  have hwhole := isDigits_append hdigits (isDigit_replicate_zero places)
  have hvalue : Decimal.ofDigits (d.digits ++ List.replicate places '0') =
      10 ^ places * d.coefficient := by
    rw [Decimal.ofDigits_append, ofDigits_replicate_zero, List.length_replicate, Nat.add_zero]
    exact congrArg _ (Decimal.ofDigits_toDigits _)
  refine ⟨⟨hwhole, fun hfirst => ?_, by simp, fun _ _ h => by cases h⟩,
    .inl (List.cons_ne_nil _ _), ?_, fun hnone => absurd rfl hnone, ?_⟩
  · have hcoefficient : d.coefficient = 0 := by
      by_contra hne
      refine Decimal.head?_toDigits_ne_zero (Nat.pos_of_ne_zero hne) ?_
      obtain ⟨c, more, hcons⟩ := List.exists_cons_of_ne_nil hdigits.ne_nil
      have hhead : d.digits.head? = some '0' := by simpa [hcons] using hfirst
      exact hhead
    rw [hzero hcoefficient, Decimal.digits, hcoefficient]
    rfl
  · refine (Decimal.ofDigits_lt_pow hwhole.isDigit).trans_le (Nat.pow_le_pow_right (by decide) ?_)
    unfold Decimal.magnitude at hhigh
    rw [List.length_append, List.length_replicate]
    omega
  · have hlast : Decimal.ofDigits ['0'] = 0 := rfl
    have hshift : (10 : ℚ) ^ ((0 : Int) - ((['0'].length : Nat) : Int)) = 1 / 10 := by norm_num
    unfold Decimal.value power
    dsimp only
    rw [Decimal.ofDigits_append, hvalue, hlast, hshift, h, zpow_natCast]
    push_cast
    rw [List.length_singleton]
    ring

theorem spells_ofPositional_point {places : Nat} (h : d.exponent = -(places : Int))
    (hpos : 0 < places) (hplaces : places < d.digits.length) (hhigh : d.magnitude ≤ 15) :
    Spells ⟨negative, d.digits.take (d.digits.length - places),
      d.digits.drop (d.digits.length - places), none⟩ d := by
  have hdigits : IsDigits d.digits := isDigits_toDigits d.coefficient
  have hlength : (d.digits.take (d.digits.length - places)).length = d.digits.length - places := by
    rw [List.length_take]
    omega
  have hwhole : IsDigits (d.digits.take (d.digits.length - places)) :=
    ⟨List.length_pos_iff.1 (by omega), fun c hc => hdigits.isDigit c (List.mem_of_mem_take hc)⟩
  refine ⟨⟨hwhole, fun hfirst => ?_, fun c hc => hdigits.isDigit c (List.mem_of_mem_drop hc),
    fun _ _ h => by cases h⟩, .inl ?_, ?_, fun hnone => absurd rfl hnone, ?_⟩
  · have hzero : d.digits.head? = some '0' := by
      rwa [List.head?_take, if_neg (by omega)] at hfirst
    have hone := length_toDigits_of_head?_eq_zero hzero
    unfold Decimal.digits at hplaces
    omega
  · refine List.length_pos_iff.1 ?_
    rw [List.length_drop]
    omega
  · refine (Decimal.ofDigits_lt_pow hwhole.isDigit).trans_le (Nat.pow_le_pow_right (by decide) ?_)
    unfold Decimal.magnitude at hhigh
    omega
  · have hall : Decimal.ofDigits d.digits = d.coefficient := Decimal.ofDigits_toDigits _
    have hshift : (0 : Int) - ((d.digits.drop (d.digits.length - places)).length : Int) =
        d.exponent := by
      rw [List.length_drop]
      omega
    dsimp only
    rw [List.take_append_drop, hall]
    unfold power
    dsimp only
    rw [hshift]
    rfl

theorem spells_ofPositional_fraction {places : Nat} (h : d.exponent = -(places : Int))
    (hplaces : d.digits.length ≤ places) :
    Spells ⟨negative, ['0'], List.replicate (places - d.digits.length) '0' ++ d.digits, none⟩
      d := by
  have hdigits : IsDigits d.digits := isDigits_toDigits d.coefficient
  have hzeros := isDigit_replicate_zero (places - d.digits.length)
  refine ⟨⟨⟨by simp, by simp⟩, fun _ => rfl,
    List.forall_mem_append.2 ⟨hzeros, hdigits.isDigit⟩, fun _ _ h => by cases h⟩,
    .inl (by simp [hdigits.ne_nil]), ?_, fun hnone => absurd rfl hnone, ?_⟩
  · dsimp only
    decide
  have hall : Decimal.ofDigits
      (['0'] ++ (List.replicate (places - d.digits.length) '0' ++ d.digits)) = d.coefficient := by
    have hfirst : Decimal.ofDigits ['0'] = 0 := rfl
    rw [Decimal.ofDigits_append, hfirst, Decimal.ofDigits_append, ofDigits_replicate_zero,
      Nat.mul_zero, Nat.mul_zero, Nat.zero_add, Nat.zero_add]
    exact Decimal.ofDigits_toDigits _
  have hshift : (0 : Int) -
      ((List.replicate (places - d.digits.length) '0' ++ d.digits).length : Int) = d.exponent := by
    rw [List.length_append, List.length_replicate]
    omega
  unfold power
  dsimp only
  rw [hall, hshift]
  rfl

theorem spells_ofPositional (hzero : d.coefficient = 0 → d.exponent ≤ 0)
    (hhigh : d.magnitude ≤ 15) : (ofPositional negative d).Spells d := by
  unfold ofPositional
  split
  next h =>
    have hexponent : d.exponent = (d.exponent.toNat : Int) := by omega
    refine spells_ofPositional_whole negative hexponent (fun hcoefficient => ?_) hhigh
    have hle := hzero hcoefficient
    omega
  next h =>
    have hexponent : d.exponent = -((-d.exponent).toNat : Int) := by omega
    dsimp only
    split
    next hplaces => exact spells_ofPositional_point negative hexponent (by omega) hplaces hhigh
    next hplaces => exact spells_ofPositional_fraction negative hexponent (not_lt.1 hplaces)

end

/-- A double is written as a numeral of its shortest decimal. -/
theorem exists_spells_writeNumber (x : Finite64) : ∃ numeral : Numeral,
    writeNumber (.float x) = numeral.text ∧ numeral.Spells (x.shortest .even) := by
  have hzero : (x.shortest .even).coefficient = 0 → (x.shortest .even).exponent ≤ 0 := by
    rcases Finite64.shortest_cases .even x with h | h
    · rw [h]
      exact fun _ => le_rfl
    · exact fun hcoefficient => absurd hcoefficient h.1.ne'
  have hwrite : writeNumber (.float x) = signText x.negative ++
      if x.isZero || (-5 ≤ (x.shortest .even).magnitude && (x.shortest .even).magnitude ≤ 15) then
        NumeralStyle.positional true (x.shortest .even)
      else NumeralStyle.exponential (x.shortest .even) := by
    unfold writeNumber NumeralStyle.write
    dsimp only
    rw [String.toList_ofList]
    cases x.negative <;> rfl
  split at hwrite
  next hstyle =>
    have hhigh : (x.shortest .even).magnitude ≤ 15 := by
      rw [Bool.or_eq_true, Bool.and_eq_true, decide_eq_true_eq, decide_eq_true_eq] at hstyle
      rcases hstyle with hxzero | hrange
      · unfold Finite64.shortest
        rw [if_pos hxzero]
        decide
      · exact hrange.2
    refine ⟨ofPositional x.negative (x.shortest .even), ?_, spells_ofPositional _ hzero hhigh⟩
    rw [hwrite, text_ofPositional]
  next hstyle =>
    refine ⟨ofExponential x.negative (x.shortest .even), ?_, spells_ofExponential _ _⟩
    rw [hwrite, text_ofExponential]

end Numeral

end TraceTutor.Document
