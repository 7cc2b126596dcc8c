import Script.Grammar.Statement
import Script.Machine
import Script.Value.Operation

/-! # Running programs

`eval` evaluates an expression and `exec` executes a statement.  Operands and arguments are
evaluated from left to right, and all of them before their operator or function is applied.  Both
functions recurse on a fuel that bounds how deep and how long a run may go; every other rule takes
the evaluation of the parts as an argument. -/

namespace Script

/-- How a statement ends. -/
inductive Flow where
  /-- The next statement follows; the value is the statement's own. -/
  | normal (value : Value)
  /-- The call, or the program, ends with a value. -/
  | returned (value : Value)

/-- The value that a statement ends with. -/
def Flow.value : Flow → Value
  | normal value => value
  | returned value => value

namespace Evaluation

open Script.Action

/-! ## Statements in order -/

/-- Executes statements in order until one returns.  The value is that of the last one executed, or
`last` if there is none. -/
def sequenceFrom (exec : Statement → Action Flow) : Value → List Statement → Action Flow
  | last, [] => done (.normal last)
  | _, statement :: rest => do
    match ← exec statement with
    | .normal value => sequenceFrom exec value rest
    | .returned value => done (.returned value)

/-- Executes statements in order in the current frame. -/
def sequence (exec : Statement → Action Flow) (statements : List Statement) : Action Flow :=
  sequenceFrom exec .null statements

/-- Executes a body while a condition holds.  The fuel bounds the number of rounds. -/
def repeatWhile (condition : Action Value) (body : Action Flow) : Nat → Action Flow
  | 0 => outOfFuel
  | fuel + 1 => fun m =>
    match condition m with
    | none => none
    | some (.error e, m) => some (.error e, m)
    | some (.ok value, m) =>
      if value.holds then
        match body m with
        | some (.ok (.normal _), m) => repeatWhile condition body fuel m
        | other => other
      else
        some (.ok (.normal .null), m)

/-! ## Calls -/

/-- Evaluates expressions from left to right. -/
def evalAll (eval : Expr → Action Value) : List Expr → Action (List Value)
  | [] => done []
  | first :: rest => do
    let value ← eval first
    let values ← evalAll eval rest
    done (value :: values)

/-- Binds parameters in order. -/
def bindAll (line : Nat) : List (String × Value) → Action Unit
  | [] => done ()
  | (name, value) :: rest => do
    define name value line
    bindAll line rest

/-- Calls a declared function: its body runs in a frame on top of the caller's. -/
def callUser (exec : Statement → Action Flow) (function : UserFunction) (arguments : List Value)
    (line : Nat) : Action Value :=
  inCall <| inScope do
    bindAll line (function.parameterNames.zip arguments)
    match ← sequence exec function.body with
    | .returned value => done value
    | .normal _ => done .null

/-- Calls a function of the host. -/
def callNative (host : Host) (native : Native) (arguments : List Value) (line : Nat) :
    Action Value :=
  match native with
  | .print => do
    write (Native.printed arguments)
    done .null
  | .assert => ofExcept (Native.assertion arguments line)
  | .host handle => ofExcept (host handle arguments line)

/-- Whether a function takes the arguments.  A declared function only counts them. -/
def accepts (callable : Callable) (call : Signature) (count : Nat) : Bool :=
  match callable with
  | .user function => function.signature.acceptsCount count
  | .native signature _ => signature.accepts call

/-- Calls the function that a name means with arguments that are already evaluated. -/
def apply (ctx : Context) (exec : Statement → Action Flow) (name : String) (arguments : List Value)
    (line : Nat) : Action Value := do
  match (← get).env.get? name with
  | some (.function function) =>
    let call := Signature.ofCall name arguments
    if ¬ accepts function.callable call arguments.length then
      fail (.argumentMismatch function.callable.signature call) line
    else if ctx.limits.maxCalls ≤ (← get).calls then
      fail (.callDepthExceeded ctx.limits.maxCalls) line
    else
      match function.callable with
      | .user user => callUser exec user arguments line
      | .native _ native => callNative ctx.host native arguments line
  | _ => fail (.unknownFunction name) line

/-! ## Expressions and statements -/

/-- Evaluates an expression by its form. -/
def evalForm (ctx : Context) (eval : Expr → Action Value) (exec : Statement → Action Flow) :
    Expr → Action Value
  | .literal value _ => done (.ofLiteral value)
  | .identifier name line => lookup name line
  | .unary op operand line => do
    let value ← eval operand
    ofFault line (Operation.unary op value)
  | .binary left op right line => do
    let a ← eval left
    let b ← eval right
    ofFault line (Operation.binary op a b)
  | .assign name value line => do
    let value ← eval value
    assign name value line
    done value
  | .call name arguments line => do
    let values ← evalAll eval arguments
    apply ctx exec name values line

/-- Evaluates an expression that may be missing, which gives null. -/
def evalOptional (eval : Expr → Action Value) : Option Expr → Action Value
  | some expr => eval expr
  | none => done .null

/-- Executes a statement that may be missing. -/
def execOptional (exec : Statement → Action Flow) : Option Statement → Action Flow
  | some statement => exec statement
  | none => done (.normal .null)

/-- The statement of the first case for a kind, or else the default. -/
def chosen (kind : Kind) (cases : List (Kind × Statement)) (default : Option Statement) :
    Option Statement :=
  match cases.lookup kind with
  | some statement => some statement
  | none => default

/-- Executes a statement by its form; `fuel` bounds the rounds of a loop. -/
def execForm (fuel : Nat) (eval : Expr → Action Value) (exec : Statement → Action Flow) :
    Statement → Action Flow
  | .expression value _ => do
    let value ← eval value
    done (.normal value)
  | .declare name init line => do
    let value ← evalOptional eval init
    define name value line
    done (.normal value)
  | .block statements _ => inScope (sequence exec statements)
  | .branch condition yes no _ => do
    if (← eval condition).holds then exec yes else execOptional exec no
  | .loop condition body _ => repeatWhile (eval condition) (exec body) fuel
  | .select subject cases default _ => do
    let value ← eval subject
    execOptional exec (chosen value.kind cases default)
  | .function name params returnKind body line => do
    let function ← makeFunction (.user (.ofDeclaration name params returnKind body))
    define name function line
    done (.normal function)
  | .ret value _ => do
    let value ← evalOptional eval value
    done (.returned value)

mutual

/-- Evaluates an expression. -/
def eval (ctx : Context) : Nat → Expr → Action Value
  | 0, _ => outOfFuel
  | fuel + 1, expr =>
    inExpression ctx.limits expr.line <|
      evalForm ctx (fun e => eval ctx fuel e) (fun s => exec ctx fuel s) expr

/-- Executes a statement. -/
def exec (ctx : Context) : Nat → Statement → Action Flow
  | 0, _ => outOfFuel
  | fuel + 1, statement =>
    execForm fuel (fun e => eval ctx fuel e) (fun s => exec ctx fuel s) statement

end

/-- Executes statements in a frame of their own. -/
def execBlock (ctx : Context) (fuel : Nat) (statements : List Statement) : Action Flow :=
  inScope (sequence (exec ctx fuel) statements)

end Evaluation

/-- Why source text could not be run to its end. -/
inductive Error where
  /-- The text is no program. -/
  | source (error : SourceError)
  /-- The program stopped with an error. -/
  | runtime (error : RuntimeError)
  deriving DecidableEq

/-- The error as it is reported. -/
def Error.message : Error → String
  | source error => error.message
  | runtime error => error.message

/-- Executes a program in the current frame of a session.  The value is that of the last statement
executed, or of a `return` outside of every function. -/
def execute (ctx : Context) (fuel : Nat) (program : Program) (s : Session) :
    Option (Except RuntimeError Value × Session) :=
  match Evaluation.sequence (Evaluation.exec ctx fuel) program (.start s) with
  | none => none
  | some (result, m) => some (result.map Flow.value, m.toSession)

/-- Parses source text and executes the program. -/
def run (ctx : Context) (fuel : Nat) (source : String) (s : Session) :
    Option (Except Error Value × Session) :=
  match parse source with
  | .error error => some (.error (.source error), s)
  | .ok program =>
    match execute ctx fuel program s with
    | none => none
    | some (result, s) => some (result.mapError .runtime, s)

end Script
