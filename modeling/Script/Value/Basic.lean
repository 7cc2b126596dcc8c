import Script.Decimal.Shortest
import Script.Signature
import Script.Tree

/-! # Values

What expressions evaluate to.  Functions are values too: those declared by a program and those that
the host provides.  Each function has an identity, given out when it is made, so that two functions
are equal only if they are the same one. -/

namespace Script

/-- A function that the host provides. -/
inductive Native where
  /-- Writes its arguments. -/
  | print
  /-- Fails unless its argument holds. -/
  | assert
  /-- A function that is registered under a handle with the host. -/
  | host (handle : Nat)
  deriving DecidableEq

/-- A function that a program declares. -/
structure UserFunction where
  signature : Signature
  /-- The names of the parameters, in the order of the signature's kinds. -/
  parameterNames : List String
  /-- The declared kind of the result, which is not enforced. -/
  returnKind : Kind
  body : List Statement

/-- What happens when a function is called. -/
inductive Callable where
  | user (function : UserFunction)
  | native (signature : Signature) (function : Native)

/-- A function with its identity. -/
structure Function where
  identity : Nat
  callable : Callable

/-- A value. -/
inductive Value where
  | null
  | integer (value : Int32)
  | float (value : Float32)
  | bool (value : Bool)
  | char (value : Char)
  | string (value : String)
  | type (kind : Kind)
  | function (value : Function)

/-- The function that a declaration makes. -/
def UserFunction.ofDeclaration (name : String) (params : List Parameter) (returnKind : Kind)
    (body : List Statement) : UserFunction where
  signature := ⟨name, .fixed (params.map Parameter.kind)⟩
  parameterNames := params.map Parameter.name
  returnKind := returnKind
  body := body

namespace Callable

/-- The declared signature. -/
def signature : Callable → Signature
  | user function => function.signature
  | native signature _ => signature

/-- The function as it is shown. -/
def text : Callable → String
  | user function => s!"<fun {function.signature.describe}: {function.returnKind.name}>"
  | native signature _ => s!"<native {signature.describe}>"

end Callable

namespace Value

/-- The value of a literal. -/
def ofLiteral : Literal → Value
  | .integer n => integer n
  | .float x => float x
  | .bool b => bool b
  | .char c => char c
  | .string s => string s
  | .null => null
  | .type kind => type kind

/-- The kind of a value. -/
def kind : Value → Kind
  | null => .null
  | integer _ => .integer
  | float _ => .float
  | bool _ => .bool
  | char _ => .char
  | string _ => .string
  | type _ => .type
  | function _ => .function

/-- Whether a value counts as true in a condition: null does not, a boolean counts as itself, and
all else does, zero and the empty string included. -/
def holds : Value → Bool
  | null => false
  | bool b => b
  | _ => true

/-- Equality of values.  Values of different kinds differ, floats compare as numbers (so that the
not-a-number differs from itself), and functions are equal if they are the same one. -/
def equals : Value → Value → Bool
  | null, null => true
  | integer a, integer b => a == b
  | float a, float b => a == b
  | bool a, bool b => a == b
  | char a, char b => a == b
  | string a, string b => a == b
  | type a, type b => a == b
  | function a, function b => a.identity == b.identity
  | _, _ => false

/-- The text of a value as `print` writes it. -/
def text : Value → String
  | null => "null"
  | integer n => toString n.toInt
  | float x => floatText x
  | bool b => if b then "true" else "false"
  | char c => String.singleton c
  | string s => s
  | type kind => kind.name
  | function f => f.callable.text

/-- The text of a value as it is echoed: characters and strings keep their quotes. -/
def echo : Value → String
  | char c => "'" ++ String.singleton c ++ "'"
  | string s => "\"" ++ s ++ "\""
  | v => v.text

/-- Values with single spaces between them, as `print` writes them. -/
def joined (values : List Value) : String :=
  " ".intercalate (values.map text)

end Value

/-- The signature of a call with these arguments. -/
def Signature.ofCall (name : String) (arguments : List Value) : Signature :=
  ⟨name, .fixed (arguments.map Value.kind)⟩

end Script
