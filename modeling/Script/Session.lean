import Script.Environment
import Script.RuntimeError

/-! # Sessions

A session is what runs leave behind for later runs: the bindings, the text written so far, and the
supply of function identities.  This module also holds the functions that the host provides. -/

namespace Script

/-- What lasts from one run to the next. -/
structure Session where
  env : Environment
  /-- The text written so far. -/
  output : String
  /-- The identity of the next function that is made. -/
  fresh : Nat

/-- What the host does for a call of one of its functions: the arguments and the line of the call
give a value or an error.  A callback is taken to be a function of these two; functions of the host
that keep a state of their own, or that write output, are left out. -/
abbrev Callback := List Value → Nat → Except RuntimeError Value

/-- The host's functions, by handle. -/
abbrev Host := Nat → Callback

namespace Native

/-- Fails unless there are exactly `expected` arguments. -/
def requireCount (arguments : List Value) (expected : Nat) (name : String) (line : Nat) :
    Except RuntimeError Unit :=
  if arguments.length = expected then
    .ok ()
  else
    .error ⟨.native s!"{name} expects {expected} argument(s), got {arguments.length}", line⟩

/-- Fails unless the only argument is the boolean `true`. -/
def assertion : Callback := fun arguments line => do
  requireCount arguments 1 "assert" line
  match arguments with
  | [.bool true] => .ok .null
  | _ => .error ⟨.assertionFailed, line⟩

/-- The line that `print` writes for its arguments. -/
def printed (arguments : List Value) : String :=
  Value.joined arguments ++ "\n"

/-- The functions that every host provides, with their names and parameters. -/
def standard : List (String × Parameters × Native) :=
  [("print", .variadic .any, .print), ("assert", .fixed [.bool], .assert)]

end Native

namespace Session

/-- A session in which nothing is bound. -/
def empty : Session := ⟨.empty, "", 0⟩

/-- Binds a function of the host in the current frame; says whether the name was free there. -/
def register (s : Session) (name : String) (parameters : Parameters) (native : Native) :
    Bool × Session :=
  let function : Function := ⟨s.fresh, .native ⟨name, parameters⟩ native⟩
  match s.env.define? name (.function function) with
  | some env => (true, { s with env := env, fresh := s.fresh + 1 })
  | none => (false, s)

/-- Binds the standard functions in the current frame, except where a name is taken. -/
def addStandard (s : Session) : Session :=
  Native.standard.foldl
    (fun s (name, parameters, native) => (s.register name parameters native).2) s

/-- A session in which only the standard functions are bound. -/
def standard : Session :=
  empty.addStandard

end Session

end Script
