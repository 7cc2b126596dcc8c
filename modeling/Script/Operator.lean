import Script.Token.Basic

/-! # Operators

The operators of expressions, how they are written, and how tightly the binary ones bind. -/

namespace Script

/-- The binary operators. -/
inductive BinaryOp where
  | add
  | sub
  | mul
  | div
  | mod
  | pow
  | equal
  | notEqual
  | less
  | lessEqual
  | greater
  | greaterEqual
  | and
  | or
  | xor
  | is
  deriving DecidableEq

namespace BinaryOp

/-- How the operator is written. -/
def spelling : BinaryOp → String
  | add => "+"
  | sub => "-"
  | mul => "*"
  | div => "/"
  | mod => "%"
  | pow => "^"
  | equal => "=="
  | notEqual => "!="
  | less => "<"
  | lessEqual => "<="
  | greater => ">"
  | greaterEqual => ">="
  | and => "and"
  | or => "or"
  | xor => "xor"
  | is => "is"

/-- The operator that a token stands for. -/
def ofToken? : TokenKind → Option BinaryOp
  | .symbol .plus => some add
  | .symbol .minus => some sub
  | .symbol .star => some mul
  | .symbol .slash => some div
  | .symbol .percent => some mod
  | .symbol .caret => some pow
  | .symbol .equal => some equal
  | .symbol .notEqual => some notEqual
  | .symbol .less => some less
  | .symbol .lessEqual => some lessEqual
  | .symbol .greater => some greater
  | .symbol .greaterEqual => some greaterEqual
  | .keyword .kwAnd => some and
  | .keyword .kwOr => some or
  | .keyword .kwXor => some xor
  | .keyword .kwIs => some is
  | _ => none

/-- How tightly an operator binds its operands, the loosest first. -/
def tightness : BinaryOp → Nat
  | is => 0
  | or => 1
  | and => 2
  | xor => 3
  | equal | notEqual => 4
  | less | lessEqual | greater | greaterEqual => 5
  | add | sub => 6
  | mul | div | mod => 7
  | pow => 8

end BinaryOp

/-- The unary operators. -/
inductive UnaryOp where
  | negate
  | not
  | typeof
  deriving DecidableEq

namespace UnaryOp

/-- How the operator is written. -/
def spelling : UnaryOp → String
  | negate => "-"
  | not => "not"
  | typeof => "typeof"

/-- The operator that a token stands for. -/
def ofToken? : TokenKind → Option UnaryOp
  | .symbol .minus => some negate
  | .keyword .kwNot => some not
  | .keyword .kwTypeof => some typeof
  | _ => none

end UnaryOp

end Script
