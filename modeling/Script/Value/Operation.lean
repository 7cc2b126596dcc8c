import Script.RuntimeError

/-! # Operators on values

`binary` and `unary` apply an operator to values that are already evaluated.  The kinds of the
operands alone decide whether an operator is defined and, division by zero apart, of which kind the
result is.  Integers wrap around at 32 bits, an integer beside a float becomes a float, and a
character beside an integer becomes its code point. -/

namespace Script.Operation

/-- The integer that a character is beside an integer: its code point. -/
def codePoint (c : Char) : Int32 :=
  Int32.ofNat c.toNat

/-- The float nearest to an integer. -/
def promote (n : Int32) : Float32 :=
  Float32.ofInt n.toInt

/-- A comparison, from the answers to "less", "equal" and "greater"; `none` if the operator does
not compare. -/
def comparison (op : BinaryOp) (less equal greater : Bool) : Option Bool :=
  match op with
  | .equal => some equal
  | .notEqual => some (!equal)
  | .less => some less
  | .lessEqual => some (less || equal)
  | .greater => some greater
  | .greaterEqual => some (greater || equal)
  | _ => none

/-- An operator between integers.  Division truncates toward zero. -/
def integers (op : BinaryOp) (a b : Int32) : Except RuntimeFault (Option Value) :=
  match op with
  | .add => .ok (some (.integer (a + b)))
  | .sub => .ok (some (.integer (a - b)))
  | .mul => .ok (some (.integer (a * b)))
  | .div => if b = 0 then .error .divisionByZero else .ok (some (.integer (a / b)))
  | .mod => if b = 0 then .error .divisionByZero else .ok (some (.integer (a % b)))
  | .pow => .ok (some (.float (Float32.pow (promote a) (promote b))))
  | op => .ok ((comparison op (a < b) (a == b) (b < a)).map .bool)

/-- An operator between floats. -/
def floats (op : BinaryOp) (a b : Float32) : Option Value :=
  match op with
  | .add => some (.float (a + b))
  | .sub => some (.float (a - b))
  | .mul => some (.float (a * b))
  | .div => some (.float (a / b))
  | .pow => some (.float (Float32.pow a b))
  | op => (comparison op (a < b) (a == b) (b < a)).map .bool

/-- An operator between booleans. -/
def bools (op : BinaryOp) (a b : Bool) : Option Value :=
  match op with
  | .and => some (.bool (a && b))
  | .or => some (.bool (a || b))
  | .xor => some (.bool (a != b))
  | .equal => some (.bool (a == b))
  | .notEqual => some (.bool (a != b))
  | _ => none

/-- An operator between characters, which compare by code point. -/
def chars (op : BinaryOp) (a b : Char) : Option Value :=
  match op with
  | .add => some (.string (String.ofList [a, b]))
  | op => (comparison op (a < b) (a == b) (b < a)).map .bool

/-- An operator between strings, which compare character by character. -/
def strings (op : BinaryOp) (a b : String) : Option Value :=
  match op with
  | .add => some (.string (a ++ b))
  | op => (comparison op (a < b) (a == b) (b < a)).map .bool

/-- An operator between kinds. -/
def types (op : BinaryOp) (a b : Kind) : Option Value :=
  match op with
  | .equal => some (.bool (a == b))
  | .notEqual => some (.bool (a != b))
  | _ => none

/-- An operator other than `is` between two values; no value if their kinds do not define it. -/
def combine (op : BinaryOp) : Value → Value → Except RuntimeFault (Option Value)
  | .integer a, .integer b => integers op a b
  | .float a, .float b => .ok (floats op a b)
  | .integer a, .float b => .ok (floats op (promote a) b)
  | .float a, .integer b => .ok (floats op a (promote b))
  | .integer a, .char b => integers op a (codePoint b)
  | .char a, .integer b => integers op (codePoint a) b
  | .bool a, .bool b => .ok (bools op a b)
  | .char a, .char b => .ok (chars op a b)
  | .string a, .string b => .ok (strings op a b)
  | .type a, .type b => .ok (types op a b)
  | _, _ => .ok none

/-- The fault of a binary operator that is not defined for its operands. -/
def mismatch (op : BinaryOp) (left right : Value) : RuntimeFault :=
  .typeMismatch (.binary op (.ofValue left) (.ofValue right))

/-- Whether a value is of a kind. -/
def typeTest (value tag : Value) : Except RuntimeFault Value :=
  match tag with
  | .type kind => .ok (.bool (value.kind == kind))
  | other => .error (.typeMismatch (.notAType (.ofValue other)))

/-- Applies a binary operator. -/
def binary (op : BinaryOp) (left right : Value) : Except RuntimeFault Value :=
  if op = .is then
    typeTest left right
  else
    match combine op left right with
    | .error fault => .error fault
    | .ok (some value) => .ok value
    | .ok none => .error (mismatch op left right)

/-- Applies a unary operator. -/
def unary (op : UnaryOp) (operand : Value) : Except RuntimeFault Value :=
  match op, operand with
  | .negate, .integer n => .ok (.integer (-n))
  | .negate, .float x => .ok (.float (-x))
  | .not, .bool b => .ok (.bool (!b))
  | .typeof, value => .ok (.type value.kind)
  | op, value => .error (.typeMismatch (.unary op (.ofValue value)))

end Script.Operation
