import Script.Kind

/-! # Signatures

A signature is a function's name with the kinds of its parameters.  A call has one too, made of the
kinds of its arguments. -/

namespace Script

/-- The kinds of arguments that a function takes. -/
inductive Parameters where
  /-- Exactly these kinds, in order. -/
  | fixed (kinds : List Kind)
  /-- Any number of arguments of one kind. -/
  | variadic (kind : Kind)
  deriving DecidableEq

/-- A function's name and parameters. -/
structure Signature where
  name : String
  parameters : Parameters
  deriving DecidableEq

namespace Parameters

/-- Whether a number of arguments fits. -/
def acceptsCount (p : Parameters) (count : Nat) : Bool :=
  match p with
  | fixed kinds => kinds.length == count
  | variadic _ => true

/-- Whether arguments of these kinds fit. -/
def acceptsKinds (p : Parameters) (arguments : List Kind) : Bool :=
  match p with
  | fixed kinds =>
    kinds.length == arguments.length && (kinds.zip arguments).all (fun (k, a) => k.accepts a)
  | variadic kind => arguments.all kind.accepts

/-- Whether a call with parameters `call` fits; a call always has a fixed number of arguments. -/
def accepts (p call : Parameters) : Bool :=
  match call with
  | fixed arguments => p.acceptsKinds arguments
  | variadic _ => false

/-- The parameters as signatures show them. -/
def describe : Parameters → String
  | fixed kinds => ", ".intercalate (kinds.map Kind.name)
  | variadic kind => kind.name ++ "..."

end Parameters

namespace Signature

/-- Whether a function with this signature can be called with a number of arguments. -/
def acceptsCount (s : Signature) (count : Nat) : Bool :=
  s.parameters.acceptsCount count

/-- Whether a function with this signature can be called by a call with signature `call`. -/
def accepts (s call : Signature) : Bool :=
  s.parameters.accepts call.parameters

/-- The signature as messages show it. -/
def describe (s : Signature) : String :=
  s.name ++ "(" ++ s.parameters.describe ++ ")"

end Signature

end Script
