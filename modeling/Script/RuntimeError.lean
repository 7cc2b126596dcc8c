import Script.Value.Basic

/-! # Errors while a program runs -/

namespace Script

/-- An operand as error messages show it: its kind and its echoed text. -/
structure Operand where
  kind : Kind
  text : String
  deriving DecidableEq

/-- How an error message shows a value. -/
def Operand.ofValue (v : Value) : Operand :=
  ⟨v.kind, v.echo⟩

/-- The kind and the text. -/
def Operand.describe (o : Operand) : String :=
  o.kind.name ++ " " ++ o.text

/-- Why operands do not fit their operator. -/
inductive Mismatch where
  /-- A binary operator that is not defined for the kinds of its operands. -/
  | binary (op : BinaryOp) (left right : Operand)
  /-- A unary operator that is not defined for the kind of its operand. -/
  | unary (op : UnaryOp) (operand : Operand)
  /-- A test for a kind with something else than a kind on its right. -/
  | notAType (found : Operand)
  deriving DecidableEq

/-- The mismatch in words. -/
def Mismatch.describe : Mismatch → String
  | binary op left right =>
    s!"cannot apply '{op.spelling}' to {left.describe} and {right.describe}"
  | unary op operand => s!"cannot apply '{op.spelling}' to {operand.describe}"
  | notAType found => s!"'is' expects a type on the right, found {found.describe}"

/-- Why a program cannot go on. -/
inductive RuntimeFault where
  /-- A name that no enclosing frame binds. -/
  | unboundIdentifier (name : String)
  /-- A name that the current frame binds already. -/
  | redeclaredIdentifier (name : String)
  /-- An operator applied to operands of kinds that it does not take. -/
  | typeMismatch (mismatch : Mismatch)
  /-- A call of a name that is not bound to a function. -/
  | unknownFunction (name : String)
  /-- A call whose arguments the function does not take. -/
  | argumentMismatch (expected found : Signature)
  /-- An integer divided by zero. -/
  | divisionByZero
  /-- More calls active at once than are allowed. -/
  | callDepthExceeded (limit : Nat)
  /-- More expressions under evaluation at once than are allowed. -/
  | nestingTooDeep (limit : Nat)
  /-- An assertion that does not hold. -/
  | assertionFailed
  /-- A failure that a function of the host reports. -/
  | native (message : String)
  deriving DecidableEq

/-- The fault in words. -/
def RuntimeFault.describe : RuntimeFault → String
  | unboundIdentifier name => s!"'{name}' is not defined"
  | redeclaredIdentifier name => s!"'{name}' is already declared in this scope"
  | typeMismatch mismatch => "type mismatch: " ++ mismatch.describe
  | unknownFunction name => s!"'{name}' is not a function"
  | argumentMismatch expected found => s!"cannot call {expected.describe} as {found.describe}"
  | divisionByZero => "division by zero"
  | callDepthExceeded limit => s!"maximum call depth of {limit} exceeded"
  | nestingTooDeep limit => s!"expression nesting exceeds the limit of {limit} levels"
  | assertionFailed => "assertion failed"
  | native message => message

/-- A fault and the line on which it occurred. -/
structure RuntimeError where
  fault : RuntimeFault
  line : Nat
  deriving DecidableEq

/-- The error as it is reported. -/
def RuntimeError.message (e : RuntimeError) : String :=
  s!"Error on line {e.line}: {e.fault.describe}"

end Script
