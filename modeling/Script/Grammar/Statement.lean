import Script.Grammar.Expression
import Script.Token.Cursor

/-! # Statements and programs from tokens

```text
program   := statement*
statement := block | declaration | branch | loop | select | function | return
           | expression ";"
block     := "{" statement* "}"
select    := "match" "(" expression ")" "{" ((TYPE | "_") ":" statement)* "}"
function  := "fun" IDENT "(" (TYPE IDENT ("," TYPE IDENT)*)? ")" ":" TYPE block
```

Each statement opens one level of nesting, like each expression.  A rule takes the reader of the
statements nested in it as an argument.  Functions may not be declared inside functions. -/

namespace Script.Grammar

open Script.Parser

/-- Statements up to a closing brace, which is consumed too.  The tokens left at the start bound the
rounds. -/
def statementsToBrace (statement : Parser Statement) : List Token → Parser (List Statement)
  | [] => reject (.symbol .rightBrace) none
  | _ :: bound => do
    match ← peek with
    | none => reject (.symbol .rightBrace) none
    | some token =>
      if token.kind = .symbol .rightBrace then
        let _ ← next
        return []
      else
        let first ← statement
        let more ← statementsToBrace statement bound
        return first :: more

/-- Statements in braces. -/
def braced (statement : Parser Statement) : Parser (List Statement) := do
  let _ ← symbol .leftBrace
  statementsToBrace statement (← remaining)

/-- A block, on the line of its first token. -/
def block (statement : Parser Statement) : Parser Statement := do
  let line := ((← peek).map Token.line).getD 0
  return .block (← braced statement) line

/-- A new name, maybe with an initializer. -/
def declaration (room : Nat) : Parser Statement := do
  let start ← keyword .kwVar
  let name ← identifier
  match ← nextIf (.symbol .assign) with
  | some _ =>
    let init ← expression room
    let _ ← symbol .semicolon
    return .declare name (some init) start.line
  | none =>
    let _ ← symbol .semicolon
    return .declare name none start.line

/-- An expression in parentheses. -/
def condition (room : Nat) : Parser Expr := do
  let _ ← symbol .leftParen
  let value ← expression room
  let _ ← symbol .rightParen
  return value

/-- A branch.  An `else` belongs to the nearest branch that can take it. -/
def branch (room : Nat) (statement : Parser Statement) : Parser Statement := do
  let start ← keyword .kwIf
  let test ← condition room
  let yes ← statement
  match ← nextIf (.keyword .kwElse) with
  | some _ => return .branch test yes (some (← statement)) start.line
  | none => return .branch test yes none start.line

/-- A loop. -/
def loop (room : Nat) (statement : Parser Statement) : Parser Statement := do
  let start ← keyword .kwWhile
  let test ← condition room
  return .loop test (← statement) start.line

/-- The body of a case, behind its colon. -/
def caseBody (statement : Parser Statement) : Parser Statement := do
  let _ ← symbol .colon
  statement

/-- The cases of a match statement up to its closing brace: those with a type name in order, and the
default case.  The tokens left at the start bound the rounds. -/
def cases (statement : Parser Statement) :
    List Token → Option Statement → Parser (List (Kind × Statement) × Option Statement)
  | [], _ => reject .matchCase none
  | _ :: bound, default => do
    let found ← next
    match found with
    | some ⟨.symbol .rightBrace, _, _, _⟩ => return ([], default)
    | some ⟨.symbol .underscore, _, line, column⟩ =>
      if default.isSome then
        fail .duplicateDefaultCase { line, column }
      else
        let body ← caseBody statement
        cases statement bound (some body)
    | some ⟨.literal (.type kind), _, _, _⟩ =>
      let body ← caseBody statement
      let (more, default) ← cases statement bound default
      return ((kind, body) :: more, default)
    | _ => reject .matchCase found

/-- A match statement. -/
def select (room : Nat) (statement : Parser Statement) : Parser Statement := do
  let start ← keyword .kwMatch
  let subject ← condition room
  let _ ← symbol .leftBrace
  let (typed, default) ← cases statement (← remaining) none
  return .select subject typed default start.line

/-- A parameter: a type name and a name. -/
def parameter : Parser Parameter := do
  let kind ← typeName
  return ⟨kind, ← identifier⟩

/-- The first name that stands in a list for the second time. -/
def firstRepeated : List String → List String → Option String
  | _, [] => none
  | seen, name :: rest =>
    if name ∈ seen then some name else firstRepeated (name :: seen) rest

/-- A function declaration.  `body` reads the statements of its body, and `inFunction` says whether
the declaration stands inside another function. -/
def function (inFunction : Bool) (body : Parser Statement) : Parser Statement := do
  let start ← keyword .kwFun
  let name ← identifier
  if inFunction then
    fail (.nestedFunction name) start.position
  else
    let _ ← symbol .leftParen
    let params ← listUntil parameter .rightParen
    match firstRepeated [] (params.map Parameter.name) with
    | some repeated => fail (.duplicateParameter name repeated) start.position
    | none =>
      let _ ← symbol .colon
      let returnKind ← typeName
      return .function name params returnKind (← braced body) start.line

/-- The end of a call, maybe with a value. -/
def ret (room : Nat) : Parser Statement := do
  let start ← keyword .kwReturn
  if ← nextIs (.symbol .semicolon) then
    let _ ← symbol .semicolon
    return .ret none start.line
  else
    let value ← expression room
    let _ ← symbol .semicolon
    return .ret (some value) start.line

/-- An expression on its own, on the line of its first token. -/
def expressionStatement (room : Nat) (line : Nat) : Parser Statement := do
  let value ← expression room
  let _ ← symbol .semicolon
  return .expression value line

/-- A statement, inside which `room` levels may still be opened, its own included. -/
def statement : Nat → Bool → Parser Statement
  | 0, _ => do
    match ← peek with
    | none => reject .statement none
    | some _ => tooDeep
  | room + 1, inFunction => do
    match ← peek with
    | none => reject .statement none
    | some token =>
      match token.kind with
      | .symbol .leftBrace => block (statement room inFunction)
      | .keyword .kwVar => declaration room
      | .keyword .kwIf => branch room (statement room inFunction)
      | .keyword .kwWhile => loop room (statement room inFunction)
      | .keyword .kwMatch => select room (statement room inFunction)
      | .keyword .kwFun => function inFunction (statement room true)
      | .keyword .kwReturn => ret room
      | _ => expressionStatement room token.line

/-- Statements up to the end of the tokens.  The tokens left at the start bound the rounds. -/
def statementsToEnd : List Token → Parser Program
  | [] => return []
  | _ :: bound => do
    match ← peek with
    | none => return []
    | some _ =>
      let first ← statement maxNesting false
      let more ← statementsToEnd bound
      return first :: more

/-- A whole program. -/
def program : Parser Program := do
  statementsToEnd (← remaining)

end Script.Grammar

namespace Script

/-- Why a source text is no program. -/
inductive SourceError where
  | lex (error : LexError)
  | parse (error : ParseError)
  deriving DecidableEq

namespace SourceError

/-- The error as it is reported. -/
def message : SourceError → String
  | lex error => error.message
  | parse error => error.message

/-- Where the source text is at fault. -/
def position : SourceError → Position
  | lex error => error.position
  | parse error => error.position

end SourceError

/-- The program that a source text writes. -/
def parse (source : String) : Except SourceError Program :=
  match readTokens source with
  | .error error => .error (.lex error)
  | .ok tokens =>
    match Grammar.program tokens with
    | .ok program _ => .ok program
    | .error error _ => .error (.parse (error.inSource source))

end Script
