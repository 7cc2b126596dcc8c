import Script.Evaluation

/-!
# The table of operators

Which binary operators are defined for which kinds, and of which kind their results are, as a table.
Applying an operator follows the table: the kinds of the operands say whether there is a value and
of which kind it is, and a division of integers by zero is the only failure that they do not decide.

The rows are arranged by operators, while operators are applied by pairs of kinds, so each way of
applying them is compared with the table on its own.

## Key results

- `combine_kind`, `binary_of_defined`, `binary_of_undefined`, `binary_of_divides`: what an operator
  gives for two values
- `unary_of_defined`, `unary_of_undefined`: the same for one value
- `binary_follows_table`: when there is which result, and on which line
-/

namespace Script

namespace Operation

/-! ## The table -/

/-- Operators that are defined for the same pairs of kinds, with results of the same kind. -/
structure TableRow where
  operators : List BinaryOp
  operands : List (Kind × Kind)
  result : Kind

/-- Whether the row defines an operator for two kinds. -/
def TableRow.covers (row : TableRow) (op : BinaryOp) (left right : Kind) : Bool :=
  op ∈ row.operators && (left, right) ∈ row.operands

/-- The kinds that are computed with as integers. -/
def integerPairs : List (Kind × Kind) :=
  [(.integer, .integer), (.integer, .char), (.char, .integer)]

/-- The kinds that are computed with as floats. -/
def floatPairs : List (Kind × Kind) :=
  [(.float, .float), (.float, .integer), (.integer, .float)]

/-- Texts of the same kind. -/
def textPairs : List (Kind × Kind) :=
  [(.char, .char), (.string, .string)]

/-- All operators but `is`. -/
def table : List TableRow :=
  [⟨[.add, .sub, .mul, .div, .mod], integerPairs, .integer⟩,
   ⟨[.pow], integerPairs ++ floatPairs, .float⟩,
   ⟨[.add, .sub, .mul, .div], floatPairs, .float⟩,
   ⟨[.add], textPairs, .string⟩,
   ⟨[.and, .or, .xor, .equal, .notEqual], [(.bool, .bool)], .bool⟩,
   ⟨[.equal, .notEqual], [(.type, .type)], .bool⟩,
   ⟨[.equal, .notEqual, .less, .lessEqual, .greater, .greaterEqual],
    integerPairs ++ floatPairs ++ textPairs, .bool⟩]

/-- The kind of the results of an operator for two kinds, if it is defined for them. Every value may
    be tested with `is`, for what has to be a type. -/
def resultKind? (op : BinaryOp) (left right : Kind) : Option Kind :=
  if op = .is then
    if right = .type then some .bool else none
  else
    (table.find? (·.covers op left right)).map TableRow.result

/-- Unlike the other arithmetic operators, the remainder is not defined for floats. -/
example : resultKind? .mod .float .integer = none := rfl

/-- All kinds for which some operator but `is` is defined. -/
def operandPairs : List (Kind × Kind) :=
  integerPairs ++ floatPairs ++ textPairs ++ [(.bool, .bool), (.type, .type)]

/-- The table defines no operator on kinds that are in none of its rows. -/
private theorem resultKind?_of_not_mem {op : BinaryOp} {left right : Kind} (hop : op ≠ .is)
    (h : (left, right) ∉ operandPairs) : resultKind? op left right = none := by
  have hrows : ∀ row ∈ table, ∀ pair ∈ row.operands, pair ∈ operandPairs := by decide
  have hnone : table.find? (·.covers op left right) = none := by
    rw [List.find?_eq_none]
    intro row hrow hcovers
    simp only [TableRow.covers, Bool.and_eq_true, decide_eq_true_eq] at hcovers
    exact h (hrows row hrow _ hcovers.2)
  rw [resultKind?, if_neg hop, hnone, Option.map_none]

/-- The table does not tell apart how integers and characters are paired. -/
theorem resultKind?_of_mem_integerPairs {left right : Kind} (h : (left, right) ∈ integerPairs)
    (op : BinaryOp) : resultKind? op left right = resultKind? op .integer .integer := by
  simp only [integerPairs, List.mem_cons, Prod.mk.injEq, List.not_mem_nil, or_false] at h
  rcases h with ⟨rfl, rfl⟩ | ⟨rfl, rfl⟩ | ⟨rfl, rfl⟩
  · rfl
  · cases op <;> rfl
  · cases op <;> rfl

/-! ## Numbers -/

/-- A code point is small enough to be an integer of the language. -/
private theorem toInt_codePoint (c : Char) : (codePoint c).toInt = c.toNat := by
  have hlt : c.toNat < 2 ^ 31 := by
    have hvalid := c.valid
    simp only [UInt32.isValidChar, Nat.isValidChar, Char.toNat_val] at hvalid
    omega
  exact Int32.toInt_ofNat_of_lt hlt

/-- The number that a value is beside an integer. -/
def number? : Value → Option Int
  | .integer n => some n.toInt
  | .char c => some c.toNat
  | _ => none

/-- The operator divides integers, and the divisor is zero. -/
def DividesByZero (op : BinaryOp) (left right : Value) : Prop :=
  (op = .div ∨ op = .mod) ∧ (left.kind, right.kind) ∈ integerPairs ∧ number? right = some 0

/-! ## Applying operators by pairs of kinds -/

section Pairs

variable {op : BinaryOp} {left right : Value}

/-- Beside an integer, a character is its code point. -/
theorem combine_of_mem_integerPairs (h : (left.kind, right.kind) ∈ integerPairs) :
    ∃ a b : Int32, number? left = some a.toInt ∧ number? right = some b.toInt ∧
      ∀ op, combine op left right = integers op a b := by
  -- A character takes part as its code point.
  have hnumber (c : Char) : number? (.char c) = some (codePoint c).toInt := by
    rw [toInt_codePoint, number?]
  cases left with
  | integer a =>
    cases right with
    | integer b => exact ⟨a, b, rfl, rfl, fun _ => rfl⟩
    | char c => exact ⟨a, codePoint c, rfl, hnumber c, fun _ => rfl⟩
    | _ => simp [Value.kind, integerPairs] at h
  | char c =>
    cases right with
    | integer b => exact ⟨codePoint c, b, hnumber c, rfl, fun _ => rfl⟩
    | _ => simp [Value.kind, integerPairs] at h
  | _ => simp [Value.kind, integerPairs] at h

/-- Beside a float, an integer is the float nearest to it. -/
private theorem combine_of_mem_floatPairs (h : (left.kind, right.kind) ∈ floatPairs) :
    ∃ a b : Float32, ∀ op, combine op left right = .ok (floats op a b) := by
  cases left with
  | float a =>
    cases right with
    | float b => exact ⟨a, b, fun _ => rfl⟩
    | integer b => exact ⟨a, promote b, fun _ => rfl⟩
    | _ => simp [Value.kind, floatPairs] at h
  | integer a =>
    cases right with
    | float b => exact ⟨promote a, b, fun _ => rfl⟩
    | _ => simp [Value.kind, floatPairs] at h
  | _ => simp [Value.kind, floatPairs] at h

/-- No operator is defined on values whose kinds are in no row. -/
private theorem combine_of_not_mem (h : (left.kind, right.kind) ∉ operandPairs) :
    combine op left right = .ok none := by
  unfold combine
  split
  case h_11 => rfl
  all_goals
    exact (h (by simp [Value.kind, operandPairs, integerPairs, floatPairs, textPairs])).elim

/-- Division by zero and its remainder are faults. -/
theorem integers_zero (hop : op = .div ∨ op = .mod) (a : Int32) :
    integers op a 0 = .error .divisionByZero := by
  rcases hop with rfl | rfl <;> simp [integers]

/-- A division of integers is the only operation that looks at a value before it is made. -/
theorem integers_kind (hop : op ≠ .is) {k l : Kind} (hpair : (k, l) ∈ integerPairs) (a : Int32)
    {b : Int32} (hdiv : (op = .div ∨ op = .mod) → b ≠ 0) :
    ∃ result, integers op a b = .ok result ∧ result.map Value.kind = resultKind? op k l := by
  rw [resultKind?_of_mem_integerPairs hpair]
  cases op with
  | is => exact (hop rfl).elim
  | div => exact ⟨_, if_neg (hdiv (.inl rfl)), rfl⟩
  | mod => exact ⟨_, if_neg (hdiv (.inr rfl)), rfl⟩
  | _ => exact ⟨_, rfl, rfl⟩

/-- Operators on numbers with a point give what the table says. -/
private theorem floats_kind {k l : Kind} (hpair : (k, l) ∈ floatPairs) (a b : Float32) :
    (floats op a b).map Value.kind = resultKind? op k l := by
  simp only [floatPairs, List.mem_cons, Prod.mk.injEq, List.not_mem_nil, or_false] at hpair
  rcases hpair with ⟨rfl, rfl⟩ | ⟨rfl, rfl⟩ | ⟨rfl, rfl⟩ <;> cases op <;> rfl

/-- Operators on truth values give what the table says. -/
private theorem bools_kind (a b : Bool) :
    (bools op a b).map Value.kind = resultKind? op .bool .bool := by
  cases op <;> rfl

/-- Operators on characters give what the table says. -/
private theorem chars_kind (a b : Char) :
    (chars op a b).map Value.kind = resultKind? op .char .char := by
  cases op <;> rfl

/-- Operators on strings give what the table says. -/
private theorem strings_kind (a b : String) :
    (strings op a b).map Value.kind = resultKind? op .string .string := by
  cases op <;> rfl

/-- Operators on types give what the table says. -/
private theorem types_kind (hop : op ≠ .is) (a b : Kind) :
    (types op a b).map Value.kind = resultKind? op .type .type := by
  cases op with
  | is => exact (hop rfl).elim
  | _ => rfl

/-- Combining operands gives a fault for a division by zero. -/
private theorem combine_of_divides (h : DividesByZero op left right) :
    combine op left right = .error .divisionByZero := by
  obtain ⟨hop, hpair, hzero⟩ := h
  obtain ⟨a, b, -, hb, hcombine⟩ := combine_of_mem_integerPairs hpair
  have hb : b = 0 := by
    rw [hb, Option.some.injEq] at hzero
    exact Int32.toInt_inj.mp hzero
  rw [hcombine, hb, integers_zero hop]

/-- Where no integer is divided by zero, the table says of which kind the result is, and whether
    there is one. -/
theorem combine_kind (hop : op ≠ .is) (hdiv : ¬ DividesByZero op left right) :
    ∃ result, combine op left right = .ok result ∧
      result.map Value.kind = resultKind? op left.kind right.kind := by
  by_cases hpair : (left.kind, right.kind) ∈ operandPairs
  · simp only [operandPairs, List.append_assoc, List.mem_append] at hpair
    rcases hpair with hinteger | hfloat | hsame
    · obtain ⟨a, b, -, hb, hcombine⟩ := combine_of_mem_integerPairs hinteger
      rw [hcombine]
      refine integers_kind hop hinteger a fun hdivides hzero => hdiv ⟨hdivides, hinteger, ?_⟩
      rw [hb, hzero]
      rfl
    · obtain ⟨a, b, hcombine⟩ := combine_of_mem_floatPairs hfloat
      exact ⟨_, hcombine op, floats_kind hfloat a b⟩
    · -- What is left are two values of the same kind.
      cases left with
      | bool a =>
        cases right with
        | bool b => exact ⟨_, rfl, bools_kind a b⟩
        | _ => simp [Value.kind, textPairs] at hsame
      | char a =>
        cases right with
        | char b => exact ⟨_, rfl, chars_kind a b⟩
        | _ => simp [Value.kind, textPairs] at hsame
      | string a =>
        cases right with
        | string b => exact ⟨_, rfl, strings_kind a b⟩
        | _ => simp [Value.kind, textPairs] at hsame
      | type a =>
        cases right with
        | type b => exact ⟨_, rfl, types_kind hop a b⟩
        | _ => simp [Value.kind, textPairs] at hsame
      | _ => simp [Value.kind, textPairs] at hsame
  · rw [combine_of_not_mem hpair, resultKind?_of_not_mem hop hpair]
    exact ⟨none, rfl, rfl⟩

/-! ## Binary and unary operators -/

/-- How a binary operator that is not defined for its operands is reported: `is` is only at odds
    with what it has on its right. -/
def refusal (op : BinaryOp) (left right : Value) : Mismatch :=
  if op = .is then .notAType (.ofValue right) else .binary op (.ofValue left) (.ofValue right)

/-- A division by zero is reported as one. -/
theorem binary_of_divides (h : DividesByZero op left right) :
    binary op left right = .error .divisionByZero := by
  have hop : op ≠ .is := by
    rcases h.1 with rfl | rfl <;> decide
  rw [binary, if_neg hop, combine_of_divides h]

/-- An operator gives a value of the kind in the table, unless it divides by zero. -/
theorem binary_of_defined {kind : Kind} (hdiv : ¬ DividesByZero op left right)
    (h : resultKind? op left.kind right.kind = some kind) :
    ∃ value, binary op left right = .ok value ∧ value.kind = kind := by
  by_cases hop : op = .is
  · -- A type test is defined for all values on its left if there is a type on its right.
    subst hop
    cases right with
    | type tag =>
      cases h
      exact ⟨_, rfl, rfl⟩
    | _ => cases h
  · obtain ⟨result, hcombine, hkind⟩ := combine_kind hop hdiv
    obtain ⟨value, rfl, hvalue⟩ := Option.map_eq_some_iff.mp (hkind.trans h)
    rw [binary, if_neg hop, hcombine]
    exact ⟨value, rfl, hvalue⟩

/-- An operator that the table does not define refuses its operands. -/
theorem binary_of_undefined (hdiv : ¬ DividesByZero op left right)
    (h : resultKind? op left.kind right.kind = none) :
    binary op left right = .error (.typeMismatch (refusal op left right)) := by
  by_cases hop : op = .is
  · subst hop
    cases right with
    | type tag => cases h
    | _ => rfl
  · obtain ⟨result, hcombine, hkind⟩ := combine_kind hop hdiv
    obtain rfl := Option.map_eq_none_iff.mp (hkind.trans h)
    rw [binary, if_neg hop, hcombine, refusal, if_neg hop]
    rfl

end Pairs

/-- The kind of the results of a unary operator for a kind, if it is defined for it. -/
def unaryKind? : UnaryOp → Kind → Option Kind
  | .negate, .integer => some .integer
  | .negate, .float => some .float
  | .not, .bool => some .bool
  | .typeof, _ => some .type
  | _, _ => none

/-- A unary operator gives a value of the kind in the table. -/
theorem unary_of_defined {op : UnaryOp} {operand : Value} {kind : Kind}
    (h : unaryKind? op operand.kind = some kind) :
    ∃ value, unary op operand = .ok value ∧ value.kind = kind := by
  -- Negation has two kinds of operands, the others have one or all of them.
  cases op with
  | typeof =>
    cases h
    exact ⟨_, rfl, rfl⟩
  | negate =>
    cases operand with
    | integer _ | float _ =>
      cases h
      exact ⟨_, rfl, rfl⟩
    | _ => cases h
  | not =>
    cases operand with
    | bool _ =>
      cases h
      exact ⟨_, rfl, rfl⟩
    | _ => cases h

/-- A unary operator that the table does not define refuses its operand. -/
theorem unary_of_undefined {op : UnaryOp} {operand : Value}
    (h : unaryKind? op operand.kind = none) :
    unary op operand = .error (.typeMismatch (.unary op (.ofValue operand))) := by
  cases op with
  | typeof => cases h
  | negate =>
    cases operand with
    | integer _ | float _ => cases h
    | _ => rfl
  | not =>
    cases operand with
    | bool _ => cases h
    | _ => rfl

end Operation

open Operation Script.Action in
/-- An operator between two values ends in one of three ways, on its own line. It divides by zero
    exactly if an integer, or a character beside an integer, is divided by one that is zero.
    Otherwise it has a value exactly if the table defines it for the two kinds, and the value is of
    the kind that the table names. Otherwise the operands do not fit, and the error shows them. -/
theorem binary_follows_table (op : BinaryOp) (left right : Value) (line : Nat) (m : Machine) :
    (ofFault line (binary op left right) m = some (.error ⟨.divisionByZero, line⟩, m) ↔
        DividesByZero op left right) ∧
      (∀ kind, (∃ value, ofFault line (binary op left right) m = some (.ok value, m) ∧
          value.kind = kind) ↔
        ¬ DividesByZero op left right ∧ resultKind? op left.kind right.kind = some kind) ∧
      (ofFault line (binary op left right) m =
          some (.error ⟨.typeMismatch (refusal op left right), line⟩, m) ↔
        ¬ DividesByZero op left right ∧ resultKind? op left.kind right.kind = none) := by
  by_cases hdiv : DividesByZero op left right
  · simp [binary_of_divides hdiv, ofFault, fail, hdiv]
  · cases hkind : resultKind? op left.kind right.kind with
    | none => simp [binary_of_undefined hdiv hkind, ofFault, fail, hdiv]
    | some kind =>
      obtain ⟨value, hvalue, rfl⟩ := binary_of_defined hdiv hkind
      simp [hvalue, ofFault, done, hdiv]

end Script
