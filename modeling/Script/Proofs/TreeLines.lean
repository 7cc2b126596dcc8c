import Script.Tree

/-!
# Trees with other lines

A tree with a function applied to all of its lines, in the functions that it declares too. Nothing
but the lines changes.

## Key results

- `Expr.mapLines`, `Statement.mapLines`: the changed trees
- `Expr.mapLines_id`, `Statement.mapLines_id`: a change that changes nothing
-/

namespace Script

/-! ## The changed trees -/

mutual

/-- The expression with every line in it changed. -/
def Expr.mapLines (f : Nat → Nat) : Expr → Expr
  | .literal value line => .literal value (f line)
  | .identifier name line => .identifier name (f line)
  | .unary op operand line => .unary op (operand.mapLines f) (f line)
  | .binary left op right line => .binary (left.mapLines f) op (right.mapLines f) (f line)
  | .assign name value line => .assign name (value.mapLines f) (f line)
  | .call name arguments line => .call name (mapLinesAll f arguments) (f line)

/-- The expressions with every line in them changed. -/
def Expr.mapLinesAll (f : Nat → Nat) : List Expr → List Expr
  | [] => []
  | e :: rest => e.mapLines f :: mapLinesAll f rest

end

mutual

/-- The statement with every line in it changed, in functions that it declares too. -/
def Statement.mapLines (f : Nat → Nat) : Statement → Statement
  | .declare name init line => .declare name (init.map (·.mapLines f)) (f line)
  | .block statements line => .block (mapLinesAll f statements) (f line)
  | .branch condition yes no line =>
    .branch (condition.mapLines f) (yes.mapLines f) (mapLinesOption f no) (f line)
  | .loop condition body line => .loop (condition.mapLines f) (body.mapLines f) (f line)
  | .select subject cases default line =>
    .select (subject.mapLines f) (mapLinesCases f cases) (mapLinesOption f default) (f line)
  | .function name params returnKind body line =>
    .function name params returnKind (mapLinesAll f body) (f line)
  | .ret value line => .ret (value.map (·.mapLines f)) (f line)
  | .expression value line => .expression (value.mapLines f) (f line)

/-- The statements with every line in them changed. -/
def Statement.mapLinesAll (f : Nat → Nat) : List Statement → List Statement
  | [] => []
  | s :: rest => s.mapLines f :: mapLinesAll f rest

/-- A statement that may be missing, with every line in it changed. -/
def Statement.mapLinesOption (f : Nat → Nat) : Option Statement → Option Statement
  | none => none
  | some s => some (s.mapLines f)

/-- The cases with every line in them changed. -/
def Statement.mapLinesCases (f : Nat → Nat) : List (Kind × Statement) → List (Kind × Statement)
  | [] => []
  | (kind, s) :: rest => (kind, s.mapLines f) :: mapLinesCases f rest

end

/-- The lines of all arguments are changed one by one. -/
theorem Expr.mapLinesAll_eq_map (f : Nat → Nat) (exprs : List Expr) :
    mapLinesAll f exprs = exprs.map (mapLines f) := by
  induction exprs with
  | nil => rfl
  | cons e rest ih => rw [mapLinesAll, ih, List.map_cons]

namespace Statement

/-- The lines of all statements are changed one by one. -/
theorem mapLinesAll_eq_map (f : Nat → Nat) (statements : List Statement) :
    mapLinesAll f statements = statements.map (mapLines f) := by
  induction statements with
  | nil => rfl
  | cons s rest ih => rw [mapLinesAll, ih, List.map_cons]

/-- The lines of an optional statement are changed where it is there. -/
theorem mapLinesOption_eq_map (f : Nat → Nat) (statement : Option Statement) :
    mapLinesOption f statement = statement.map (mapLines f) := by
  cases statement <;> rfl

/-- The lines of all cases are changed one by one. -/
theorem mapLinesCases_eq_map (f : Nat → Nat) (cases : List (Kind × Statement)) :
    mapLinesCases f cases = cases.map fun c => (c.1, c.2.mapLines f) := by
  induction cases with
  | nil => rfl
  | cons c rest ih => rw [mapLinesCases, ih, List.map_cons]

end Statement

/-! ## No change -/

/-- An expression with its own lines is the same. -/
theorem Expr.mapLines_id (e : Expr) : e.mapLines id = e := by
  induction e with
  | literal value line => rfl
  | identifier name line => rfl
  | unary op operand line ih => rw [mapLines, ih, id]
  | binary left op right line ihleft ihright => rw [mapLines, ihleft, ihright, id]
  | assign name value line ih => rw [mapLines, ih, id]
  | call name arguments line ih =>
    rw [mapLines, mapLinesAll_eq_map, List.map_congr_left ih, List.map_id', id]

/-- An expression that may be missing is the same too. -/
private theorem Expr.map_mapLines_id (e : Option Expr) : e.map (·.mapLines id) = e := by
  cases e with
  | none => rfl
  | some e => rw [Option.map_some, Expr.mapLines_id]

mutual

/-- A statement with its own lines is the same. -/
theorem Statement.mapLines_id : (s : Statement) → s.mapLines id = s
  | .declare name init line => by rw [mapLines, Expr.map_mapLines_id, id]
  | .block statements line => by rw [mapLines, mapLinesAll_id statements, id]
  | .branch condition yes no line => by
    rw [mapLines, condition.mapLines_id, mapLines_id yes, mapLinesOption_id no, id]
  | .loop condition body line => by rw [mapLines, condition.mapLines_id, mapLines_id body, id]
  | .select subject cases default line => by
    rw [mapLines, subject.mapLines_id, mapLinesCases_id cases, mapLinesOption_id default, id]
  | .function name params returnKind body line => by rw [mapLines, mapLinesAll_id body, id]
  | .ret value line => by rw [mapLines, Expr.map_mapLines_id, id]
  | .expression value line => by rw [mapLines, value.mapLines_id, id]

/-- The same for all statements of a block. -/
private theorem Statement.mapLinesAll_id : (statements : List Statement) →
    mapLinesAll id statements = statements
  | [] => rfl
  | s :: rest => by rw [mapLinesAll, mapLines_id s, mapLinesAll_id rest]

/-- The same for an optional statement. -/
private theorem Statement.mapLinesOption_id : (statement : Option Statement) →
    mapLinesOption id statement = statement
  | none => rfl
  | some s => by rw [mapLinesOption, mapLines_id s]

/-- The same for the cases of a `match`. -/
private theorem Statement.mapLinesCases_id : (cases : List (Kind × Statement)) →
    mapLinesCases id cases = cases
  | [] => rfl
  | (kind, s) :: rest => by rw [mapLinesCases, mapLines_id s, mapLinesCases_id rest]

end

end Script
