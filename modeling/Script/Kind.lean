/-! # Kinds

Every value has a kind, and a kind is itself a value of the language: it is what `typeof` answers
and what a type name such as `INT` denotes.  Some kinds never belong to a value; they only occur in
signatures (`any`) or stand for items of a program (`identifier`, `operator`, `call`). -/

namespace Script

/-- The closed set of kinds. -/
inductive Kind where
  | null
  | integer
  | float
  | char
  | bool
  | string
  | identifier
  | operator
  | type
  | function
  | call
  | any
  deriving DecidableEq, Inhabited

namespace Kind

/-- The spelling under which a kind is displayed. -/
def name : Kind → String
  | null => "NULL"
  | integer => "INT"
  | float => "FLT"
  | char => "CHR"
  | bool => "BOOL"
  | string => "STR"
  | identifier => "IDENT"
  | operator => "OPERATOR"
  | type => "TYPE"
  | function => "FUN"
  | call => "CALL"
  | any => "ANY"

/-- The type names of the language with their kinds.  Each name is written all in capitals or all
in small letters; `null` in small letters is the null literal and so is no type name. -/
def typeNames : List (String × Kind) :=
  [("INT", integer), ("int", integer), ("FLT", float), ("flt", float), ("CHR", char),
   ("chr", char), ("STR", string), ("str", string), ("BOOL", bool), ("bool", bool),
   ("NULL", null)]

/-- The kind that a type name denotes. -/
def ofTypeName? (name : String) : Option Kind :=
  typeNames.lookup name

/-- Whether a parameter of kind `k` takes an argument of kind `other`: `any` on either side fits
everything. -/
def accepts (k other : Kind) : Bool :=
  k == any || other == any || k == other

/-- A kind is accepted if it is the same one or `any` is involved. -/
theorem accepts_iff {k other : Kind} :
    k.accepts other = true ↔ k = any ∨ other = any ∨ k = other := by
  simp [accepts, or_assoc]

end Kind

end Script
