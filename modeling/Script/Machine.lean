import Script.Session

/-! # Machines and actions

A machine is a session in the middle of a run: it also counts the calls and the expressions that are
under way.  An action is a step of a run.  It ends with a value or with an error, in either case
leaving a machine behind, unless the fuel that bounds the run is used up. -/

namespace Script

/-- A session in the middle of a run. -/
structure Machine extends Session where
  /-- The number of calls under way. -/
  calls : Nat
  /-- The number of expressions under evaluation. -/
  nesting : Nat

/-- A machine that is about to run. -/
def Machine.start (s : Session) : Machine :=
  { s with calls := 0, nesting := 0 }

/-- How many calls and expressions may be under way at once. -/
structure Limits where
  maxCalls : Nat := 128
  maxNesting : Nat := 1024
  deriving DecidableEq

/-- What stays the same during a run. -/
structure Context where
  limits : Limits
  host : Host

/-- A step of a run; `none` if the fuel is used up. -/
def Action (α : Type) : Type :=
  Machine → Option (Except RuntimeError α × Machine)

namespace Action

variable {α β : Type}

/-- Ends with a value. -/
def done (a : α) : Action α :=
  fun m => some (.ok a, m)

/-- Goes on with the value of a step; an error ends both. -/
def andThen (step : Action α) (continuation : α → Action β) : Action β := fun m =>
  match step m with
  | none => none
  | some (.error e, m) => some (.error e, m)
  | some (.ok a, m) => continuation a m

instance : Monad Action where
  pure := done
  bind := andThen

/-- Ends with an error. -/
def fail (fault : RuntimeFault) (line : Nat) : Action α :=
  fun m => some (.error ⟨fault, line⟩, m)

/-- The fuel is used up. -/
def outOfFuel : Action α :=
  fun _ => none

/-- Ends with a value or an error that is already known. -/
def ofExcept (result : Except RuntimeError α) : Action α :=
  fun m => some (result, m)

/-- Ends with a value, or with a fault on a line. -/
def ofFault (line : Nat) (result : Except RuntimeFault α) : Action α :=
  match result with
  | .ok a => done a
  | .error fault => fail fault line

/-- The machine as it is. -/
def get : Action Machine :=
  fun m => some (.ok m, m)

/-- Changes the machine. -/
def modify (change : Machine → Machine) : Action Unit :=
  fun m => some (.ok (), change m)

/-- Changes the machine before an action, and changes it back behind the action's end, be it a value
or an error. -/
def around (before after : Machine → Machine) (action : Action α) : Action α := fun m =>
  match action (before m) with
  | none => none
  | some (result, m) => some (result, after m)

/-- Runs an action in a scope of its own. -/
def inScope (action : Action α) : Action α :=
  around (fun m => { m with env := m.env.enter }) (fun m => { m with env := m.env.exit }) action

/-- Runs an action as a call. -/
def inCall (action : Action α) : Action α :=
  around (fun m => { m with calls := m.calls + 1 })
    (fun m => { m with calls := m.calls - 1 }) action

/-- Runs an action as the evaluation of an expression. -/
def inExpression (limits : Limits) (line : Nat) (action : Action α) : Action α := do
  if limits.maxNesting ≤ (← get).nesting then
    fail (.nestingTooDeep limits.maxNesting) line
  else
    around (fun m => { m with nesting := m.nesting + 1 })
      (fun m => { m with nesting := m.nesting - 1 }) action

/-- The value that a name means. -/
def lookup (name : String) (line : Nat) : Action Value := do
  match (← get).env.get? name with
  | some value => done value
  | none => fail (.unboundIdentifier name) line

/-- Binds a name in the current frame. -/
def define (name : String) (value : Value) (line : Nat) : Action Unit := do
  match (← get).env.define? name value with
  | some env => modify (fun m => { m with env := env })
  | none => fail (.redeclaredIdentifier name) line

/-- Gives a bound name another value. -/
def assign (name : String) (value : Value) (line : Nat) : Action Unit := do
  match (← get).env.assign? name value with
  | some env => modify (fun m => { m with env := env })
  | none => fail (.unboundIdentifier name) line

/-- Writes text. -/
def write (text : String) : Action Unit :=
  modify (fun m => { m with output := m.output ++ text })

/-- Makes a function with an identity of its own. -/
def makeFunction (callable : Callable) : Action Value := do
  let identity := (← get).fresh
  modify (fun m => { m with fresh := m.fresh + 1 })
  done (.function ⟨identity, callable⟩)

end Action

end Script
