import Script.Grammar.Basic

/-! # Expressions from tokens

```text
expression := IDENT "=" expression | typeTest
typeTest   := level 8 ("is" level 8)?
level n    := level (n - 1) (op level (n - 1))*     op of tightness 9 - n
level 0    := unary
unary      := "-" (INTEGER | FLOAT | IDENT) | "not" (BOOL | IDENT) | "typeof" factor | factor
factor     := literal | IDENT | IDENT "(" (expression ("," expression)*)? ")" | "(" expression ")"
```

An identifier behind `-` or `not` may carry call arguments.  Each `expression` opens one level of
nesting; `room` counts the levels that may still be opened, and every other rule takes the reader of
the expressions nested in it as an argument. -/

namespace Script.Grammar

open Script.Parser

/-- A literal, a name, a call or an expression in parentheses. -/
def factor (nested : Parser Expr) : Parser Expr := do
  let found ← next
  match found with
  | some ⟨.literal value, _, line, _⟩ => return .literal value line
  | some ⟨.identifier name, _, line, _⟩ =>
    match ← nextIf (.symbol .leftParen) with
    | some _ => return .call name (← listUntil nested .rightParen) line
    | none => return .identifier name line
  | some ⟨.symbol .leftParen, _, _, _⟩ =>
    let inner ← nested
    let _ ← symbol .rightParen
    return inner
  | _ => reject .expression found

/-- What may follow a unary operator; `none` if anything may. -/
def operandExpectation : UnaryOp → Option Expectation
  | .negate => some .negatable
  | .not => some .invertible
  | .typeof => none

/-- Whether a token may follow a unary operator. -/
def mayFollow : UnaryOp → TokenKind → Bool
  | .typeof, _ => true
  | .negate, .literal (.integer _) => true
  | .negate, .literal (.float _) => true
  | .negate, .identifier _ => true
  | .not, .literal (.bool _) => true
  | .not, .identifier _ => true
  | _, _ => false

/-- Fails unless the next token may follow the unary operator. -/
def checkOperand (op : UnaryOp) : Parser Unit := do
  match operandExpectation op with
  | none => return ()
  | some expected =>
    let found ← peek
    if found.any (fun token => mayFollow op token.kind) then
      return ()
    else
      reject expected found

/-- A factor, maybe with a unary operator in front. -/
def unary (nested : Parser Expr) : Parser Expr := do
  match ← peek with
  | none => reject .expression none
  | some token =>
    match UnaryOp.ofToken? token.kind with
    | none => factor nested
    | some op =>
      let _ ← next
      checkOperand op
      return .unary op (← factor nested) token.line

/-- The binary operator of the given tightness that comes next, if any, with its line. -/
def nextOperator (tightness : Nat) : Parser (Option (BinaryOp × Nat)) := do
  match ← peek with
  | none => return none
  | some token =>
    match BinaryOp.ofToken? token.kind with
    | none => return none
    | some op =>
      if op.tightness = tightness then
        let _ ← next
        return some (op, token.line)
      else
        return none

/-- The operators and operands of one tightness that follow `left`, grouped to the left.  The tokens
left at the start bound the rounds. -/
def operations (tightness : Nat) (operand : Parser Expr) : List Token → Expr → Parser Expr
  | [], left => return left
  | _ :: bound, left => do
    match ← nextOperator tightness with
    | none => return left
    | some (op, line) =>
      let right ← operand
      operations tightness operand bound (.binary left op right line)

/-- Operands of the next tighter level between operators of one tightness; level 0 holds the unary
expressions, and level `n + 1` the operators of tightness `8 - n`. -/
def level (nested : Parser Expr) : Nat → Parser Expr
  | 0 => unary nested
  | n + 1 => do
    let first ← level nested n
    operations (8 - n) (level nested n) (← remaining) first

/-- An expression of the loosest level, maybe tested for its kind. -/
def typeTest (nested : Parser Expr) : Parser Expr := do
  let left ← level nested 8
  match ← nextIf (.keyword .kwIs) with
  | none => return left
  | some token => return .binary left .is (← level nested 8) token.line

/-- The name and the equals sign that start an assignment, if they come next. -/
def assignmentTarget : Parser (Option (String × Nat)) := fun tokens =>
  match tokens with
  | ⟨.identifier name, _, line, _⟩ :: ⟨.symbol .assign, _, _, _⟩ :: rest =>
    .ok (some (name, line)) rest
  | _ => .ok none tokens

/-- Fails because one more level of nesting would be too much. -/
def tooDeep {α : Type} : Parser α := do
  fail .nestingTooDeep (((← peek).map Token.position).getD .nowhere)

/-- An expression, inside which `room` levels may still be opened, its own included. -/
def expression : Nat → Parser Expr
  | 0 => tooDeep
  | room + 1 => do
    match ← assignmentTarget with
    | some (name, line) => return .assign name (← expression room) line
    | none => typeTest (expression room)

end Script.Grammar
