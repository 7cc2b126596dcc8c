import Mathlib.Data.Int.ModEq
import Script.Proofs.OperatorTable

/-!
# Arithmetic on integers

The integers of the language have 32 bits and wrap around. Sums, differences and products are the
exact ones up to a multiple of `2 ^ 32`; quotients are cut off toward zero, which goes wrong for one
pair of numbers only; and what a division leaves over makes up for what it has cut off, in the
wrapping arithmetic too. A character beside an integer is computed with as its code point.

## Key results

- `wraps_of_toInt_eq`: a balanced remainder is the one number in range that is congruent
- `toInt_div_eq`, `div_mul_add_mod`: division of integers with 32 bits
- `binary_of_same_numbers`: operators look at the numbers of integers and characters only
- `integer_arithmetic`: the laws of arithmetic, through the operators of the language
-/

namespace Script.Operation

/-! ## Integers with 32 bits -/

/-- The integer `n` is the only number in the range of the integers that is congruent to an exact
    result. -/
def Wraps (exact : Int) (n : Int32) : Prop :=
  ∀ z : Int, (-2 ^ 31 ≤ z ∧ z < 2 ^ 31 ∧ z ≡ exact [ZMOD 2 ^ 32]) ↔ z = n.toInt

/-- An integer that is the balanced remainder of a number is what the number wraps around to, and
    the only one. -/
theorem wraps_of_toInt_eq {exact : Int} {n : Int32} (h : n.toInt = exact.bmod (2 ^ 32)) :
    Wraps exact n := by
  intro z
  constructor
  · intro hz
    obtain ⟨hlow, hhigh, hmod⟩ := hz
    -- A number in the range is its own balanced remainder, which depends on the remainder only.
    have hrange : z.bmod (2 ^ 32) = z := Int.bmod_eq_of_le (by omega) (by omega)
    calc z = z.bmod (2 ^ 32) := hrange.symm
      _ = (z % 2 ^ 32).bmod (2 ^ 32) := (Int.emod_bmod z (2 ^ 32)).symm
      _ = (exact % 2 ^ 32).bmod (2 ^ 32) := by rw [hmod]
      _ = exact.bmod (2 ^ 32) := Int.emod_bmod exact (2 ^ 32)
      _ = n.toInt := h.symm
  · intro hz
    subst hz
    refine ⟨n.le_toInt, n.toInt_lt, ?_⟩
    rw [h]
    exact Int.bmod_emod

/-- Only the quotient of the least integer and `-1` is not in range. -/
theorem toInt_div_eq (a b : Int32) :
    (a / b).toInt =
      if a.toInt = -2 ^ 31 ∧ b.toInt = -1 then -2 ^ 31 else a.toInt.tdiv b.toInt := by
  -- The one quotient that does not fit is that of the least integer by minus one.
  split
  · rename_i h
    have ha : a = Int32.minValue := Int32.toInt_inj.mp (h.1.trans Int32.toInt_minValue.symm)
    have hb : b = -1 := Int32.toInt_inj.mp h.2
    rw [ha, hb]
    decide
  · rename_i h
    by_cases hb : b = -1
    · have ha : a ≠ Int32.minValue := by
        intro ha
        exact h ⟨by rw [ha, Int32.toInt_minValue], by rw [hb]; decide⟩
      exact Int32.toInt_div_of_ne_left a b ha
    · exact Int32.toInt_div_of_ne_right a b hb

/-- The remainder makes up for the division, also where the quotient wraps around. -/
theorem div_mul_add_mod (a b : Int32) : a / b * b + a % b = a := by
  apply Int32.toInt_inj.mp
  rw [Int32.toInt_add, Int32.toInt_mul, Int32.toInt_div, Int32.toInt_mod, Int.bmod_mul_bmod,
    Int.bmod_add_bmod, Int.tdiv_mul_add_tmod]
  exact a.toInt_bmod

/-- A remainder is less than the divisor in magnitude. -/
private theorem natAbs_toInt_mod_lt (a : Int32) {b : Int32} (hb : b ≠ 0) :
    (a % b).toInt.natAbs < b.toInt.natAbs := by
  have hb' : b.toInt ≠ 0 := fun h => hb (Int32.toInt_inj.mp h)
  rw [Int32.toInt_mod, Int.natAbs_tmod]
  exact Nat.mod_lt _ (Int.natAbs_pos.mpr hb')

/-- A remainder has the sign of the dividend, unless it is zero. -/
private theorem sign_toInt_mod (a b : Int32) :
    (a % b).toInt = 0 ∨ (a % b).toInt.sign = a.toInt.sign := by
  rw [Int32.toInt_mod, ← Int.sign_eq_zero_iff_zero, Int.sign_tmod]
  split
  · exact .inl rfl
  · exact .inr rfl

/-! ## Operators -/

/-- Negating is subtracting from zero. -/
private theorem unary_negate (a : Int32) :
    unary .negate (.integer a) = binary .sub (.integer 0) (.integer a) := by
  show Except.ok (Value.integer (-a)) = .ok (.integer (0 - a))
  rw [Int32.zero_sub]

/-- Division by anything but zero gives the quotient. -/
private theorem binary_div (a : Int32) {b : Int32} (hb : b ≠ 0) :
    binary .div (.integer a) (.integer b) = .ok (.integer (a / b)) := by
  simp [binary, combine, integers, hb]

/-- Division by anything but zero leaves the remainder. -/
private theorem binary_mod (a : Int32) {b : Int32} (hb : b ≠ 0) :
    binary .mod (.integer a) (.integer b) = .ok (.integer (a % b)) := by
  simp [binary, combine, integers, hb]

/-- An operator that is defined for integers looks at nothing but the numbers that its operands are,
    so a character may stand for the integer that is its code point. -/
theorem binary_of_same_numbers {op : BinaryOp} {left right left' right' : Value}
    (hop : resultKind? op .integer .integer ≠ none)
    (hpair : (left.kind, right.kind) ∈ integerPairs)
    (hpair' : (left'.kind, right'.kind) ∈ integerPairs)
    (hleft : number? left = number? left') (hright : number? right = number? right') :
    binary op left right = binary op left' right' := by
  have his : op ≠ .is := by
    intro h
    exact hop (by rw [h]; rfl)
  obtain ⟨a, b, ha, hb, hcombine⟩ := combine_of_mem_integerPairs hpair
  obtain ⟨a', b', ha', hb', hcombine'⟩ := combine_of_mem_integerPairs hpair'
  have haa : a = a' := Int32.toInt_inj.mp (Option.some.inj (ha ▸ ha' ▸ hleft))
  have hbb : b = b' := Int32.toInt_inj.mp (Option.some.inj (hb ▸ hb' ▸ hright))
  -- The two only differ in how operands that do not fit would be reported.
  simp only [binary, if_neg his, hcombine, hcombine', haa, hbb]
  cases hresult : integers op a' b' with
  | error fault => rfl
  | ok result =>
    cases result with
    | some value => rfl
    | none =>
      have hdiv : (op = .div ∨ op = .mod) → b' ≠ 0 := by
        intro hdivides hzero
        rw [hzero, integers_zero hdivides] at hresult
        cases hresult
      obtain ⟨result, hsome, hkind⟩ := integers_kind his hpair a' hdiv
      rw [hresult] at hsome
      cases hsome
      rw [resultKind?_of_mem_integerPairs hpair] at hkind
      exact (hop hkind.symm).elim

/-! ## The laws -/

/-- Sums, differences and products of integers wrap around, and negation is subtraction from zero.
    For a divisor other than zero, the quotient is the exact one cut off toward zero, but for the
    one that is not in range; the remainder is smaller than the divisor and has the sign of the
    dividend unless it is zero; and quotient times divisor plus remainder is the dividend again. In
    all five operations, a character may take the place of the integer that is its code point. -/
theorem integer_arithmetic (a b : Int32) :
    (∃ n, binary .add (.integer a) (.integer b) = .ok (.integer n) ∧
        Wraps (a.toInt + b.toInt) n) ∧
      (∃ n, binary .sub (.integer a) (.integer b) = .ok (.integer n) ∧
        Wraps (a.toInt - b.toInt) n) ∧
      (∃ n, binary .mul (.integer a) (.integer b) = .ok (.integer n) ∧
        Wraps (a.toInt * b.toInt) n) ∧
      unary .negate (.integer a) = binary .sub (.integer 0) (.integer a) ∧
      (b ≠ 0 → ∃ q r product,
        binary .div (.integer a) (.integer b) = .ok (.integer q) ∧
          q.toInt =
            (if a.toInt = -2 ^ 31 ∧ b.toInt = -1 then -2 ^ 31 else a.toInt.tdiv b.toInt) ∧
          binary .mod (.integer a) (.integer b) = .ok (.integer r) ∧
          r.toInt.natAbs < b.toInt.natAbs ∧ (r.toInt = 0 ∨ r.toInt.sign = a.toInt.sign) ∧
          binary .mul (.integer q) (.integer b) = .ok product ∧
          binary .add product (.integer r) = .ok (.integer a)) ∧
      ∀ op ∈ [BinaryOp.add, .sub, .mul, .div, .mod], ∀ c : Char,
        (a.toInt = c.toNat →
          binary op (.char c) (.integer b) = binary op (.integer a) (.integer b)) ∧
        (b.toInt = c.toNat →
          binary op (.integer a) (.char c) = binary op (.integer a) (.integer b)) := by
  refine ⟨⟨a + b, rfl, wraps_of_toInt_eq (Int32.toInt_add a b)⟩,
    ⟨a - b, rfl, wraps_of_toInt_eq (Int32.toInt_sub a b)⟩,
    ⟨a * b, rfl, wraps_of_toInt_eq (Int32.toInt_mul a b)⟩, unary_negate a, ?_, ?_⟩
  · intro hb
    refine ⟨a / b, a % b, .integer (a / b * b), binary_div a hb, toInt_div_eq a b, binary_mod a hb,
      natAbs_toInt_mod_lt a hb, sign_toInt_mod a b, rfl, ?_⟩
    show Except.ok (Value.integer (a / b * b + a % b)) = .ok (.integer a)
    rw [div_mul_add_mod]
  · intro op hop c
    -- For what the operators do, a character and the integer with its code are the same number.
    have hdefined : ∀ op ∈ [BinaryOp.add, .sub, .mul, .div, .mod],
        resultKind? op .integer .integer ≠ none := by decide
    have hintegers : (Kind.integer, Kind.integer) ∈ integerPairs := by decide
    constructor
    · intro ha
      have hpair : (Kind.char, Kind.integer) ∈ integerPairs := by decide
      refine binary_of_same_numbers (hdefined op hop) hpair hintegers ?_ rfl
      rw [number?, number?, ha]
    · intro hb
      have hpair : (Kind.integer, Kind.char) ∈ integerPairs := by decide
      refine binary_of_same_numbers (hdefined op hop) hpair hintegers rfl ?_
      rw [number?, number?, hb]

/-- The quotient that is not in range, and a character that is divided. -/
theorem integer_arithmetic_least_integer :
    (∃ q r product, binary .div (.integer Int32.minValue) (.integer (-1)) = .ok (.integer q) ∧
        q.toInt = -2 ^ 31 ∧
        binary .mod (.integer Int32.minValue) (.integer (-1)) = .ok (.integer r) ∧ r.toInt = 0 ∧
        binary .mul (.integer q) (.integer (-1)) = .ok product ∧
        binary .add product (.integer r) = .ok (.integer Int32.minValue)) ∧
      binary .mod (.char 'a') (.integer (-7)) = binary .mod (.integer 97) (.integer (-7)) := by
  constructor
  · obtain ⟨-, -, -, -, hdivide, -⟩ := integer_arithmetic Int32.minValue (-1)
    obtain ⟨q, r, product, hq, hquotient, hr, hsmall, -, hproduct, hsum⟩ := hdivide (by decide)
    have hone : (-1 : Int32).toInt.natAbs = 1 := by decide
    refine ⟨q, r, product, hq, ?_, hr, by omega, hproduct, hsum⟩
    rw [hquotient]
    decide
  · obtain ⟨-, -, -, -, -, hchar⟩ := integer_arithmetic 97 (-7)
    exact (hchar .mod (by decide) 'a').1 (by decide)

end Script.Operation
