import Script.Operator

/-! # Programs as trees

An expression or statement carries the line that errors about it name. -/

namespace Script

/-- An expression. -/
inductive Expr where
  /-- A constant. -/
  | literal (value : Literal) (line : Nat)
  /-- The value of a name. -/
  | identifier (name : String) (line : Nat)
  /-- A unary operator applied to its operand. -/
  | unary (op : UnaryOp) (operand : Expr) (line : Nat)
  /-- A binary operator between its operands. -/
  | binary (left : Expr) (op : BinaryOp) (right : Expr) (line : Nat)
  /-- A new value for a name that is already bound. -/
  | assign (name : String) (value : Expr) (line : Nat)
  /-- A call of a function by name. -/
  | call (name : String) (arguments : List Expr) (line : Nat)

/-- The line that errors about an expression name. -/
def Expr.line : Expr → Nat
  | .literal _ line => line
  | .identifier _ line => line
  | .unary _ _ line => line
  | .binary _ _ _ line => line
  | .assign _ _ line => line
  | .call _ _ line => line

/-- To prove something of every expression, it may be taken for granted of the parts. -/
@[elab_as_elim, induction_eliminator]
theorem Expr.induction {motive : Expr → Prop}
    (literal : ∀ value line, motive (.literal value line))
    (identifier : ∀ name line, motive (.identifier name line))
    (unary : ∀ op operand line, motive operand → motive (.unary op operand line))
    (binary : ∀ left op right line, motive left → motive right →
      motive (.binary left op right line))
    (assign : ∀ name value line, motive value → motive (.assign name value line))
    (call : ∀ name arguments line, (∀ e ∈ arguments, motive e) →
      motive (.call name arguments line)) : ∀ e, motive e
  | .literal value line => literal value line
  | .identifier name line => identifier name line
  | .unary op operand line =>
    unary op operand line (induction literal identifier unary binary assign call operand)
  | .binary left op right line =>
    binary left op right line (induction literal identifier unary binary assign call left)
      (induction literal identifier unary binary assign call right)
  | .assign name value line =>
    assign name value line (induction literal identifier unary binary assign call value)
  | .call name arguments line =>
    call name arguments line fun e _ => induction literal identifier unary binary assign call e

/-- A parameter of a declared function. -/
structure Parameter where
  kind : Kind
  name : String
  deriving DecidableEq

/-- A statement. -/
inductive Statement where
  /-- A new name, bound to the value of its initializer or to null. -/
  | declare (name : String) (init : Option Expr) (line : Nat)
  /-- Statements that run in a frame of their own. -/
  | block (statements : List Statement) (line : Nat)
  /-- One of two branches; the second may be missing. -/
  | branch (condition : Expr) (yes : Statement) (no : Option Statement) (line : Nat)
  /-- A loop that runs while its condition holds. -/
  | loop (condition : Expr) (body : Statement) (line : Nat)
  /-- The first case with the kind of the subject, or else the default case. -/
  | select (subject : Expr) (cases : List (Kind × Statement)) (default : Option Statement)
      (line : Nat)
  /-- A new function. -/
  | function (name : String) (params : List Parameter) (returnKind : Kind) (body : List Statement)
      (line : Nat)
  /-- The end of a call or of the program, with a value or null. -/
  | ret (value : Option Expr) (line : Nat)
  /-- An expression on its own. -/
  | expression (value : Expr) (line : Nat)

/-- The line that errors about a statement name. -/
def Statement.line : Statement → Nat
  | .declare _ _ line => line
  | .block _ line => line
  | .branch _ _ _ line => line
  | .loop _ _ line => line
  | .select _ _ _ line => line
  | .function _ _ _ _ line => line
  | .ret _ line => line
  | .expression _ line => line

/-- A program is its statements in order. -/
abbrev Program := List Statement

end Script
