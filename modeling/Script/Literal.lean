import Script.Kind

/-! # Literals

The constants that a program can write down, type names included. -/

namespace Script

/-- A constant of the language. -/
inductive Literal where
  | integer (value : Int32)
  | float (value : Float32)
  | bool (value : Bool)
  | char (value : Char)
  | string (value : String)
  | null
  | type (kind : Kind)
  deriving DecidableEq

end Script
