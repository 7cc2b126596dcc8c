import Script.Proofs.Checkpoints
import Script.Proofs.CorrespondingMachines

/-!
# Programs of the same form run alike

Two programs of the same form, which differ in their lines or are otherwise related, take the same
steps from corresponding machines. `Correspondence` says how lines, expressions, statements and
declared functions are related, and `Simulation` what that has to fulfil: related trees have the
same form and related parts, and related functions have related bodies. Then corresponding machines
stay so, values and errors correspond, and the one run ends if and only if the other one does.

What is related may depend on the number of calls under way and on the number of open scopes, so
that a relation between a program and itself says what can be run at which depth.

## Key results

- `Correspondence.Relates.bind`, `Correspondence.Relates.inScope`: one lemma for each way of
  building actions
- `Simulation.evalForm`, `Simulation.execForm`: one step, for parts that run alike
- `Simulation.eval_exec`, `Simulation.sequenceChecked`: whole runs, the first of them with a check
  on the way
- `Simulation.execute`: programs that are related end alike
- `Simulation.always`: what a relation between a run and itself says of the run
- `Correspondence.Diagonal`: such a relation, for what is required of all declared functions
-/

namespace Script

/-! ## Trees of the same form -/

/-- Expressions with the same form, the same names and operators, and related parts. -/
inductive Expr.SameForm (lines : Nat → Nat → Prop) (exprs : Expr → Expr → Prop) :
    Expr → Expr → Prop where
  | literal (value : Literal) {line line' : Nat} :
      lines line line' → SameForm lines exprs (.literal value line) (.literal value line')
  | identifier (name : String) {line line' : Nat} :
      lines line line' → SameForm lines exprs (.identifier name line) (.identifier name line')
  | unary (op : UnaryOp) {e e' : Expr} {line line' : Nat} :
      exprs e e' → lines line line' → SameForm lines exprs (.unary op e line) (.unary op e' line')
  | binary (op : BinaryOp) {a a' b b' : Expr} {line line' : Nat} :
      exprs a a' → exprs b b' → lines line line' →
        SameForm lines exprs (.binary a op b line) (.binary a' op b' line')
  | assign (name : String) {e e' : Expr} {line line' : Nat} :
      exprs e e' → lines line line' →
        SameForm lines exprs (.assign name e line) (.assign name e' line')
  | call (name : String) {arguments arguments' : List Expr} {line line' : Nat} :
      List.Forall₂ exprs arguments arguments' → lines line line' →
        SameForm lines exprs (.call name arguments line) (.call name arguments' line')

/-- Statements with the same form and related parts. The statements of a block, which run one scope
    deeper, may be related in another way than the other parts. -/
inductive Statement.SameForm (lines : Nat → Nat → Prop) (exprs : Expr → Expr → Prop)
    (parts inner : Statement → Statement → Prop) (functions : UserFunction → UserFunction → Prop) :
    Statement → Statement → Prop where
  | declare (name : String) {init init' : Option Expr} {line line' : Nat} :
      Option.Rel exprs init init' → lines line line' →
        SameForm lines exprs parts inner functions (.declare name init line)
          (.declare name init' line')
  | block {statements statements' : List Statement} {line line' : Nat} :
      List.Forall₂ inner statements statements' →
        SameForm lines exprs parts inner functions (.block statements line)
          (.block statements' line')
  | branch {condition condition' : Expr} {yes yes' : Statement} {no no' : Option Statement}
      {line line' : Nat} :
      exprs condition condition' → parts yes yes' → Option.Rel parts no no' →
        SameForm lines exprs parts inner functions (.branch condition yes no line)
          (.branch condition' yes' no' line')
  | loop {condition condition' : Expr} {body body' : Statement} {line line' : Nat} :
      exprs condition condition' → parts body body' →
        SameForm lines exprs parts inner functions (.loop condition body line)
          (.loop condition' body' line')
  | select {subject subject' : Expr} {cases cases' : List (Kind × Statement)}
      {default default' : Option Statement} {line line' : Nat} :
      exprs subject subject' →
        List.Forall₂ (fun c c' => c.1 = c'.1 ∧ parts c.2 c'.2) cases cases' →
        Option.Rel parts default default' →
        SameForm lines exprs parts inner functions (.select subject cases default line)
          (.select subject' cases' default' line')
  | function (name : String) (params : List Parameter) (returnKind : Kind)
      {body body' : List Statement} {line line' : Nat} :
      functions (.ofDeclaration name params returnKind body)
        (.ofDeclaration name params returnKind body') → lines line line' →
        SameForm lines exprs parts inner functions (.function name params returnKind body line)
          (.function name params returnKind body' line')
  | ret {value value' : Option Expr} {line line' : Nat} :
      Option.Rel exprs value value' →
        SameForm lines exprs parts inner functions (.ret value line) (.ret value' line')
  | expression {value value' : Expr} {line line' : Nat} :
      exprs value value' →
        SameForm lines exprs parts inner functions (.expression value line)
          (.expression value' line')

/-- The expressions that an expression consists of. -/
def Expr.parts : Expr → List Expr
  | .literal .. => []
  | .identifier .. => []
  | .unary _ operand _ => [operand]
  | .binary left _ right _ => [left, right]
  | .assign _ value _ => [value]
  | .call _ arguments _ => arguments

/-- The expressions that a statement consists of, those of its statements not counted. -/
def Statement.expressions : Statement → List Expr
  | .declare _ init _ => init.toList
  | .block .. => []
  | .branch condition .. => [condition]
  | .loop condition .. => [condition]
  | .select subject .. => [subject]
  | .function .. => []
  | .ret value _ => value.toList
  | .expression value _ => [value]

/-- The statements that a statement consists of. -/
def Statement.parts : Statement → List Statement
  | .declare .. => []
  | .block statements _ => statements
  | .branch _ yes no _ => yes :: no.toList
  | .loop _ body _ => [body]
  | .select _ cases default _ => cases.map Prod.snd ++ default.toList
  | .function _ _ _ body _ => body
  | .ret .. => []
  | .expression .. => []

/-- An optional value is related to itself if it is where it is there. -/
theorem rel_refl {α : Type} {related : α → α → Prop} {o : Option α}
    (h : ∀ a ∈ o, related a a) : Option.Rel related o o := by
  cases o with
  | none => exact .none
  | some a => exact .some (h a rfl)

/-- An expression has its own form, if its line and its parts are related to themselves. -/
theorem Expr.SameForm.of_parts {lines : Nat → Nat → Prop} {exprs : Expr → Expr → Prop} {e : Expr}
    (hline : lines e.line e.line) (hparts : ∀ part ∈ e.parts, exprs part part) :
    e.SameForm lines exprs e := by
  cases e with
  | literal value line => exact .literal value hline
  | identifier name line => exact .identifier name hline
  | unary op operand line => exact .unary op (hparts operand (by simp [parts])) hline
  | binary left op right line =>
    exact .binary op (hparts left (by simp [parts])) (hparts right (by simp [parts])) hline
  | assign name value line => exact .assign name (hparts value (by simp [parts])) hline
  | call name arguments line => exact .call name (List.forall₂_same.mpr hparts) hline

/-- A statement has its own form, if its line and its parts are related to themselves. -/
theorem Statement.SameForm.of_parts {lines : Nat → Nat → Prop} {exprs : Expr → Expr → Prop}
    {parts inner : Statement → Statement → Prop} {functions : UserFunction → UserFunction → Prop}
    {s : Statement} (hline : lines s.line s.line) (hexprs : ∀ e ∈ s.expressions, exprs e e)
    (hparts : ∀ t ∈ s.parts, parts t t) (hinner : ∀ t ∈ s.parts, inner t t)
    (hfunctions : ∀ name params returnKind body line,
      s = .function name params returnKind body line →
        functions (.ofDeclaration name params returnKind body)
          (.ofDeclaration name params returnKind body)) :
    s.SameForm lines exprs parts inner functions s := by
  -- For each constructor, where its parts are found in the lists of expressions and of parts.
  cases s with
  | declare name init line =>
    exact .declare name (rel_refl fun e he => hexprs e (Option.mem_toList.mpr he)) hline
  | block statements line => exact .block (List.forall₂_same.mpr hinner)
  | branch condition yes no line =>
    refine .branch (hexprs condition (List.mem_singleton_self _))
      (hparts yes List.mem_cons_self) (rel_refl fun t ht => ?_)
    exact hparts t (List.mem_cons_of_mem _ (Option.mem_toList.mpr ht))
  | loop condition body line =>
    exact .loop (hexprs condition (List.mem_singleton_self _))
      (hparts body (List.mem_singleton_self _))
  | select subject cases default line =>
    refine .select (hexprs subject (List.mem_singleton_self _))
      (List.forall₂_same.mpr fun c hc => ⟨rfl, ?_⟩) (rel_refl fun t ht => ?_)
    · exact hparts c.2 (List.mem_append_left _ (List.mem_map_of_mem hc))
    · exact hparts t (List.mem_append_right _ (Option.mem_toList.mpr ht))
  | function name params returnKind body line =>
    exact .function name params returnKind (hfunctions _ _ _ _ _ rfl) hline
  | ret value line =>
    exact .ret (rel_refl fun e he => hexprs e (Option.mem_toList.mpr he))
  | expression value line => exact .expression (hexprs value (List.mem_singleton_self _))

/-- Expressions of the same form stand on lines that are related. -/
theorem Expr.SameForm.line {lines : Nat → Nat → Prop} {exprs : Expr → Expr → Prop} {e e' : Expr}
    (h : SameForm lines exprs e e') : lines e.line e'.line := by
  cases h <;> assumption

/-! ## Corresponding outcomes -/

/-- How the programs of two runs and what they leave behind are related. -/
structure Correspondence where
  lines : Nat → Nat → Prop
  /-- Expressions that are evaluated with a number of calls under way and of scopes open. -/
  exprs : (calls depth : Nat) → Expr → Expr → Prop
  /-- Statements that are executed with a number of calls under way and of scopes open. -/
  statements : (calls depth : Nat) → Statement → Statement → Prop
  functions : UserFunction → UserFunction → Prop
  /-- The functions of the host that occur. -/
  natives : Native → Prop

namespace Correspondence

/-- Values that correspond. -/
abbrev Values (r : Correspondence) : Value → Value → Prop :=
  Value.Corresponds r.functions r.natives

/-- Errors that are the same up to their lines, which are related. -/
structure Errors (r : Correspondence) (e e' : RuntimeError) : Prop where
  fault : e.fault = e'.fault
  line : r.lines e.line e'.line

/-- Statements that end in the same way, with values that correspond. -/
inductive Flows (r : Correspondence) : Flow → Flow → Prop where
  | normal {v v' : Value} : r.Values v v' → Flows r (.normal v) (.normal v')
  | returned {v v' : Value} : r.Values v v' → Flows r (.returned v) (.returned v')

/-- Both end with a result, or both with an error. -/
inductive Results (r : Correspondence) {α : Type} (related : α → α → Prop) :
    Except RuntimeError α → Except RuntimeError α → Prop where
  | ok {a b : α} : related a b → Results r related (.ok a) (.ok b)
  | error {e e' : RuntimeError} : r.Errors e e' → Results r related (.error e) (.error e')

/-- What two actions leave behind: results that correspond, and machines that do. -/
structure Outcomes (r : Correspondence) (calls depth : Nat) {α : Type} (related : α → α → Prop)
    (o o' : Except RuntimeError α × Machine) : Prop where
  results : r.Results related o.1 o'.1
  machines : o.2.Corresponds r.Values calls depth o'.2

/-- From corresponding machines, the one action ends if and only if the other one does, and what
    they leave behind corresponds. -/
def Relates (r : Correspondence) (calls depth : Nat) {α : Type} (related : α → α → Prop)
    (x y : Action α) : Prop :=
  ∀ m m', m.Corresponds r.Values calls depth m' →
    Option.Rel (r.Outcomes calls depth related) (x m) (y m')

namespace Relates

variable {r : Correspondence} {calls depth : Nat} {α β : Type} {related : α → α → Prop}
  {x y : Action α} {line line' : Nat}

/-! ### Building actions -/

/-- Related results are related actions. -/
theorem ofExcept {result result' : Except RuntimeError α} (h : r.Results related result result') :
    r.Relates calls depth related (.ofExcept result) (.ofExcept result') :=
  fun _ _ hm => .some ⟨h, hm⟩

/-- Giving related values is related. -/
theorem done {a b : α} (h : related a b) :
    r.Relates calls depth related (.done a) (.done b) :=
  ofExcept (.ok h)

/-- Failing at related lines is related. -/
theorem fail (fault : RuntimeFault) (hline : r.lines line line') :
    r.Relates calls depth related (.fail fault line) (.fail fault line') :=
  ofExcept (.error ⟨rfl, hline⟩)

/-- Running out of fuel on both sides is related. -/
theorem outOfFuel : r.Relates calls depth related (Action.outOfFuel (α := α)) Action.outOfFuel :=
  fun _ _ _ => .none

/-- The same result on both sides is related, at related lines. -/
theorem ofFault {result result' : Except RuntimeFault α} (heq : result = result')
    (hok : ∀ a, result = .ok a → related a a) (hline : r.lines line line') :
    r.Relates calls depth related (.ofFault line result) (.ofFault line' result') := by
  subst heq
  cases result with
  | ok a => exact done (hok a rfl)
  | error fault => exact fail fault hline

/-- Actions in a row are related if each of them is, on values that the first ones relate. -/
theorem bind {related' : β → β → Prop} {f g : α → Action β}
    (hx : r.Relates calls depth related x y)
    (hf : ∀ a b, related a b → r.Relates calls depth related' (f a) (g b)) :
    r.Relates calls depth related' (x >>= f) (y >>= g) := by
  intro m m' hm
  -- Either both first actions go on with related values, or both end there in the same way.
  have hstep := hx m m' hm
  simp only [Bind.bind, Action.andThen]
  generalize x m = o, y m' = o' at hstep
  cases hstep with
  | none => exact .none
  | @some o o' houtcomes =>
    obtain ⟨result, m₁⟩ := o
    obtain ⟨result', m₁'⟩ := o'
    obtain ⟨hresults, hm₁⟩ := houtcomes
    -- An error of the first step ends both runs.
    cases hresults with
    | ok hab => exact hf _ _ hab m₁ m₁' hm₁
    | error he => exact .some ⟨.error he, hm₁⟩

/-- A choice by the same condition is related if its sides are. -/
theorem ite {c c' : Prop} [Decidable c] [Decidable c'] (hc : c ↔ c') {x' y' : Action α}
    (hx : r.Relates calls depth related x y) (hx' : r.Relates calls depth related x' y') :
    r.Relates calls depth related (if c then x else x') (if c' then y else y') := by
  by_cases h : c
  · rw [if_pos h, if_pos (hc.mp h)]
    exact hx
  · rw [if_neg h, if_neg fun h' => h (hc.mpr h')]
    exact hx'

/-- A name means related values. -/
theorem meaning (name : String) :
    r.Relates calls depth (Option.Rel r.Values) (.meaning name) (.meaning name) :=
  fun _ _ hm => .some ⟨.ok (hm.env.get? name), hm⟩

/-- Two changes of the environment that are possible in corresponding environments alike, and that
    open and close no scope. -/
theorem changing {change change' : Environment → Option Environment}
    (hchange : ∀ env env', env.Corresponds r.Values env' →
      Option.Rel (Environment.Corresponds r.Values) (change env) (change' env'))
    (hdepth : ∀ env env₁, change env = some env₁ → env₁.depth = env.depth)
    (fault : RuntimeFault) (hline : r.lines line line') :
    r.Relates calls depth (fun _ _ => True) (.changing change fault line)
      (.changing change' fault line') := by
  intro m m' hm
  have henv := hchange m.env m'.env hm.env
  simp only [Action.changing, Bind.bind, Action.andThen, Action.get]
  -- The relation rules out that only one of the two changes is possible.
  cases hc : change m.env with
  | none =>
    rw [hc] at henv
    generalize change' m'.env = o' at henv
    cases henv
    exact .some ⟨.error ⟨rfl, hline⟩, hm⟩
  | some env₁ =>
    rw [hc] at henv
    generalize change' m'.env = o' at henv
    cases henv with
    | some henv => exact .some ⟨.ok trivial, hm.withEnv henv (hdepth m.env env₁ hc)⟩

/-- Declaring a name with related values is related. -/
theorem define (name : String) {v v' : Value} (hv : r.Values v v') (hline : r.lines line line') :
    r.Relates calls depth (fun _ _ => True) (.define name v line) (.define name v' line') := by
  rw [Action.define_eq, Action.define_eq]
  refine changing (fun _ _ henv => henv.define? name hv) (fun env env₁ hc => ?_) _ hline
  rw [Environment.define?_eq_some hc, Environment.depth_update]

/-- Assigning related values to a name is related. -/
theorem assign (name : String) {v v' : Value} (hv : r.Values v v') (hline : r.lines line line') :
    r.Relates calls depth (fun _ _ => True) (.assign name v line) (.assign name v' line') := by
  rw [Action.assign_eq, Action.assign_eq]
  refine changing (fun _ _ henv => henv.assign? name hv) (fun env env₁ hc => ?_) _ hline
  obtain ⟨index, rfl⟩ := Environment.assign?_eq_some hc
  rw [Environment.depth_update]

/-- Looking a name up gives related values, or fails on both sides. -/
theorem lookup (name : String) (hline : r.lines line line') :
    r.Relates calls depth r.Values (.lookup name line) (.lookup name line') := by
  rw [Action.lookup_eq, Action.lookup_eq]
  apply bind (meaning name)
  intro o o' hvalue
  cases hvalue with
  | none => exact fail _ hline
  | some hvalue => exact done hvalue

/-- Writing the same text is related. -/
theorem write (text : String) :
    r.Relates calls depth (fun _ _ => True) (.write text) (.write text) :=
  fun _ _ hm => .some ⟨.ok trivial, { hm with output := congrArg (· ++ text) hm.output }⟩

/-- Functions that are made at the same point of two runs have the same identity. -/
theorem makeFunction {u u' : UserFunction} (hheader : u.SameHeader u') (hu : r.functions u u') :
    r.Relates calls depth r.Values (.makeFunction (.user u)) (.makeFunction (.user u')) := by
  intro m m' hm
  simp only [Action.makeFunction, Bind.bind, Action.andThen, Action.get, Action.modify,
    Action.done, hm.fresh]
  exact .some ⟨.ok (.user _ hheader hu), { hm with fresh := rfl }⟩

/-- While an action runs, other numbers of calls and of scopes may be open than around it. -/
theorem around {before after : Machine → Machine} {calls' depth' : Nat}
    (hbefore : ∀ m m', m.Corresponds r.Values calls depth m' →
      (before m).Corresponds r.Values calls' depth' (before m'))
    (hafter : ∀ m m', m.Corresponds r.Values calls' depth' m' →
      (after m).Corresponds r.Values calls depth (after m'))
    (hx : r.Relates calls' depth' related x y) :
    r.Relates calls depth related (.around before after x) (.around before after y) := by
  intro m m' hm
  have hinside := hx _ _ (hbefore m m' hm)
  simp only [Action.around]
  generalize x (before m) = o, y (before m') = o' at hinside
  cases hinside with
  | none => exact .none
  | some houtcomes => exact .some ⟨houtcomes.results, hafter _ _ houtcomes.machines⟩

/-- Related actions are related in scopes of their own. -/
theorem inScope (hpos : 0 < depth) (hx : r.Relates calls (depth + 1) related x y) :
    r.Relates calls depth related (.inScope x) (.inScope y) :=
  around (fun _ _ hm => hm.enter) (fun _ _ hm => hm.exit hpos) hx

/-- Related actions are related inside a call. -/
theorem inCall (hx : r.Relates (calls + 1) depth related x y) :
    r.Relates calls depth related (.inCall x) (.inCall y) := by
  refine around (fun m m' hm => ?_) (fun m m' hm => ?_) hx
  · exact { hm with
      calls_eq := congrArg (· + 1) hm.calls_eq, calls_eq' := congrArg (· + 1) hm.calls_eq' }
  · exact { hm with
      calls_eq := congrArg (· - 1) hm.calls_eq, calls_eq' := congrArg (· - 1) hm.calls_eq' }

/-- Both actions are refused, or neither is. -/
theorem below {count : Machine → Nat} {limit : Nat}
    (hcount : ∀ m m', m.Corresponds r.Values calls depth m' → count m = count m')
    (fault : RuntimeFault) (hline : r.lines line line')
    (hx : ∀ m m', m.Corresponds r.Values calls depth m' → count m < limit →
      Option.Rel (r.Outcomes calls depth related) (x m) (y m')) :
    r.Relates calls depth related (.below count limit fault line x)
      (.below count limit fault line' y) := by
  intro m m' hm
  -- Both sides count the same, so that both are refused or neither is.
  have heq := hcount m m' hm
  by_cases hlimit : limit ≤ count m
  · rw [Action.below_of_le hlimit, Action.below_of_le (heq ▸ hlimit)]
    exact .some ⟨.error ⟨rfl, hline⟩, hm⟩
  · have hlt := Nat.lt_of_not_le hlimit
    rw [Action.below_of_lt hlt, Action.below_of_lt (heq ▸ hlt)]
    exact hx m m' hm hlt

/-- A call that is not refused is below the limit. -/
theorem allowingCall (limits : Limits) (hline : r.lines line line')
    (hx : calls < limits.maxCalls → r.Relates calls depth related x y) :
    r.Relates calls depth related (.allowingCall limits line x)
      (.allowingCall limits line' y) := by
  refine below (fun m m' hm => ?_) _ hline (fun m m' hm hlt => ?_)
  · rw [hm.calls_eq, hm.calls_eq']
  · rw [hm.calls_eq] at hlt
    exact hx hlt m m' hm

/-- Related actions are related inside expressions at related lines. -/
theorem inExpression (limits : Limits) (hline : r.lines line line')
    (hx : r.Relates calls depth related x y) :
    r.Relates calls depth related (.inExpression limits line x)
      (.inExpression limits line' y) := by
  rw [Action.inExpression_eq, Action.inExpression_eq]
  have hnested : r.Relates calls depth related (.nested x) (.nested y) := by
    refine around (fun m m' hm => ?_) (fun m m' hm => ?_) hx
    · exact { hm with nesting := congrArg (· + 1) hm.nesting }
    · exact { hm with nesting := congrArg (· - 1) hm.nesting }
  exact below (fun _ _ hm => hm.nesting) _ hline (fun m m' hm _ => hnested m m' hm)

/-- A check that the first machine passes. -/
theorem checked {check : Machine → Bool} {alarm : RuntimeError}
    (hcheck : ∀ m m', m.Corresponds r.Values calls depth m' → check m = true)
    (hx : r.Relates calls depth related x y) :
    r.Relates calls depth related (.checked check alarm x) y := by
  intro m m' hm
  rw [Action.checked, if_pos (hcheck m m' hm)]
  exact hx m m' hm

end Relates

end Correspondence

/-! ## Simulations -/

/-- A correspondence under which two runs go alike. -/
structure Simulation (r : Correspondence) (c c' : Context) : Prop where
  limits : c.limits = c'.limits
  /-- Related expressions have the same form. -/
  exprs {calls depth : Nat} {e e' : Expr} :
    r.exprs calls depth e e' → e.SameForm r.lines (r.exprs calls depth) e'
  /-- Related statements have the same form. -/
  statements {calls depth : Nat} {s s' : Statement} :
    r.statements calls depth s s' →
      s.SameForm r.lines (r.exprs calls depth) (r.statements calls depth)
        (r.statements calls (depth + 1)) r.functions s'
  /-- Related functions have related bodies, which run in a call and in a scope of their own. -/
  bodies {calls depth : Nat} {e e' : Expr} {u u' : UserFunction} :
    r.exprs calls depth e e' → calls < c.limits.maxCalls → r.functions u u' →
      List.Forall₂ (r.statements (calls + 1) (depth + 1)) u.body u'.body
  /-- The functions of the host that occur cannot tell corresponding arguments apart. -/
  host {handle : Nat} {arguments arguments' : List Value} {line line' : Nat} :
    r.natives (.host handle) → List.Forall₂ r.Values arguments arguments' →
      r.lines line line' →
      r.Results r.Values (c.host handle arguments line) (c'.host handle arguments' line')

namespace Simulation

open Correspondence

variable {r : Correspondence} {c c' : Context} {calls depth : Nat} {line line' : Nat}

/-- Evaluation of expressions in which those that are related run alike. -/
def EvalRelated (r : Correspondence) (eval eval' : Expr → Action Value) : Prop :=
  ∀ {calls depth : Nat} {e e' : Expr}, r.exprs calls depth e e' → 0 < depth →
    r.Relates calls depth r.Values (eval e) (eval' e')

/-- Execution of statements in which those that are related run alike. -/
def ExecRelated (r : Correspondence) (exec exec' : Statement → Action Flow) : Prop :=
  ∀ {calls depth : Nat} {s s' : Statement}, r.statements calls depth s s' → 0 < depth →
    r.Relates calls depth r.Flows (exec s) (exec' s')

section Rules

variable {eval eval' : Expr → Action Value} {exec exec' : Statement → Action Flow}

/-! ## The rules of evaluation -/

/-- Related statements in a row are related. -/
theorem sequenceFrom (hx : ExecRelated r exec exec') (hpos : 0 < depth)
    {statements statements' : List Statement}
    (hs : List.Forall₂ (r.statements calls depth) statements statements') {last last' : Value}
    (hlast : r.Values last last') :
    r.Relates calls depth r.Flows (Evaluation.sequenceFrom exec last statements)
      (Evaluation.sequenceFrom exec' last' statements') := by
  induction hs generalizing last last' with
  | nil => exact .done (.normal hlast)
  | cons hhead _ ih =>
    apply Relates.bind (hx hhead hpos)
    intro flow flow' hflow
    cases hflow with
    | normal hv => exact ih hv
    | returned hv => exact .done (.returned hv)

/-- Loops with related conditions and bodies are related, round by round. -/
theorem repeatWhile {condition condition' : Action Value} {body body' : Action Flow}
    (hc : r.Relates calls depth r.Values condition condition')
    (hb : r.Relates calls depth r.Flows body body') (fuel : Nat) :
    r.Relates calls depth r.Flows (Evaluation.repeatWhile condition body fuel)
      (Evaluation.repeatWhile condition' body' fuel) := by
  induction fuel with
  | zero => exact .outOfFuel
  | succ fuel ih =>
    rw [Evaluation.repeatWhile_succ, Evaluation.repeatWhile_succ]
    apply Relates.bind hc
    intro v v' hv
    apply Relates.ite (by rw [hv.holds_eq])
    · apply Relates.bind hb
      intro flow flow' hflow
      cases hflow with
      | normal _ => exact ih
      | returned hv => exact .done (.returned hv)
    · exact .done (.normal .null)

/-- Related expressions in a row are related. -/
theorem evalAll (he : EvalRelated r eval eval') (hpos : 0 < depth) {exprs exprs' : List Expr}
    (h : List.Forall₂ (r.exprs calls depth) exprs exprs') :
    r.Relates calls depth (List.Forall₂ r.Values) (Evaluation.evalAll eval exprs)
      (Evaluation.evalAll eval' exprs') := by
  induction h with
  | nil => exact .done .nil
  | cons hhead _ ih =>
    exact .bind (he hhead hpos) fun _ _ hv => .bind ih fun _ _ hvs => .done (.cons hv hvs)

/-- Binding related values to the same names is related. -/
theorem bindAll (names : List String) {arguments arguments' : List Value}
    (h : List.Forall₂ r.Values arguments arguments') (hline : r.lines line line') :
    r.Relates calls depth (fun _ _ => True) (Evaluation.bindAll line (names.zip arguments))
      (Evaluation.bindAll line' (names.zip arguments')) := by
  induction h generalizing names with
  | nil => rw [List.zip_nil_right]; exact .done trivial
  | cons hv _ ih =>
    cases names with
    | nil => exact .done trivial
    | cons name names => exact .bind (.define name hv hline) fun _ _ _ => ih names

/-- Calls of functions with the same header and related bodies are related. -/
theorem callUser (hx : ExecRelated r exec exec') (hpos : 0 < depth) {u u' : UserFunction}
    (hheader : u.SameHeader u')
    (hbody : List.Forall₂ (r.statements (calls + 1) (depth + 1)) u.body u'.body)
    {arguments arguments' : List Value} (h : List.Forall₂ r.Values arguments arguments')
    (hline : r.lines line line') :
    r.Relates calls depth r.Values (Evaluation.callUser exec u arguments line)
      (Evaluation.callUser exec' u' arguments' line') := by
  -- The body runs with one more call under way, and in a scope of its own.
  apply Relates.inCall
  apply Relates.inScope hpos
  rw [hheader.parameterNames]
  apply Relates.bind (bindAll u'.parameterNames h hline)
  intro _ _ _
  apply Relates.bind (sequenceFrom hx (Nat.succ_pos depth) hbody .null)
  intro flow flow' hflow
  cases hflow with
  | normal _ => exact .done .null
  | returned hv => exact .done hv

/-- An assertion looks at a value only to see whether it is the boolean `true`. -/
theorem assertion {arguments arguments' : List Value}
    (h : List.Forall₂ r.Values arguments arguments') (hline : r.lines line line') :
    r.Results r.Values (Native.assertion arguments line)
      (Native.assertion arguments' line') := by
  have hlength := h.length_eq
  simp only [Native.assertion, Native.requireCount, bind, Except.bind, hlength]
  -- The number of arguments is checked first, and is the same on both sides.
  by_cases hone : arguments'.length = 1
  · simp only [if_pos hone]
    cases h with
    | nil => exact .error ⟨rfl, hline⟩
    | cons hv hrest =>
      cases hrest with
      | cons _ _ => simp at hone
      | nil =>
        cases hv with
        | plain _ =>
          split
          · exact .ok .null
          · exact .error ⟨rfl, hline⟩
        | native _ _ _ => exact .error ⟨rfl, hline⟩
        | user _ _ _ => exact .error ⟨rfl, hline⟩
  · simp only [if_neg hone]
    exact .error ⟨rfl, hline⟩

/-- Calls of the same function of the host are related. -/
theorem callNative (h : Simulation r c c') {native : Native} (hn : r.natives native)
    {arguments arguments' : List Value} (ha : List.Forall₂ r.Values arguments arguments')
    (hline : r.lines line line') :
    r.Relates calls depth r.Values (Evaluation.callNative c.host native arguments line)
      (Evaluation.callNative c'.host native arguments' line') := by
  cases native with
  | print =>
    simp only [Evaluation.callNative, Value.Corresponds.printed_eq ha]
    exact .bind (.write _) fun _ _ _ => .done .null
  | assert => exact .ofExcept (assertion ha hline)
  | host handle => exact .ofExcept (h.host hn ha hline)

/-- Calls of what a name means are related. -/
theorem apply (h : Simulation r c c') (hx : ExecRelated r exec exec') (hpos : 0 < depth)
    {e e' : Expr} (he : r.exprs calls depth e e') (name : String)
    {arguments arguments' : List Value} (ha : List.Forall₂ r.Values arguments arguments')
    (hline : r.lines line line') :
    r.Relates calls depth r.Values (Evaluation.apply c exec name arguments line)
      (Evaluation.apply c' exec' name arguments' line') := by
  rw [Evaluation.apply_eq, Evaluation.apply_eq]
  apply Relates.bind (.meaning name)
  intro o o' hvalue
  cases hvalue with
  | none => exact .fail _ hline
  | @some v v' hvalue =>
    rw [Value.Corresponds.ofCall_eq ha, ha.length_eq, ← h.limits]
    -- Only a function can be called, and both functions take the arguments or neither does.
    cases hvalue with
    | plain hplain =>
      cases v with
      | function function => exact absurd rfl (hplain function)
      | _ => exact .fail _ hline
    | native identity signature hn =>
      exact .ite Iff.rfl (.fail _ hline) (.allowingCall _ hline fun _ => h.callNative hn ha hline)
    | user identity hheader hu =>
      simp only [Evaluation.accepts, Callable.signature, hheader.signature]
      exact .ite Iff.rfl (.fail _ hline) (.allowingCall _ hline fun hlt =>
        callUser hx hpos hheader (h.bodies he hlt hu) ha hline)

/-- Expressions of the same form are evaluated in related ways, if their parts are. -/
theorem evalForm (h : Simulation r c c') (he : EvalRelated r eval eval')
    (hx : ExecRelated r exec exec') (hpos : 0 < depth) {e e' : Expr}
    (hexpr : r.exprs calls depth e e') :
    r.Relates calls depth r.Values (Evaluation.evalForm c eval exec e)
      (Evaluation.evalForm c' eval' exec' e') := by
  cases h.exprs hexpr with
  | literal value _ => exact .done (.ofLiteral value)
  | identifier name hline => exact .lookup name hline
  | unary op hoperand hline =>
    apply Relates.bind (he hoperand hpos)
    intro v v' hv
    -- Operators make no functions, so that a result corresponds to itself.
    refine .ofFault (hv.unary_eq op) (fun value hvalue => .plain fun function hf => ?_) hline
    rw [hf] at hvalue
    exact Operation.unary_ne_function hvalue
  | binary op hleft hright hline =>
    apply Relates.bind (he hleft hpos)
    intro v v' hv
    apply Relates.bind (he hright hpos)
    intro w w' hw
    refine .ofFault (hv.binary_eq hw op) (fun value hvalue => .plain fun function hf => ?_) hline
    rw [hf] at hvalue
    exact Operation.binary_ne_function hvalue
  | assign name hvalue hline =>
    apply Relates.bind (he hvalue hpos)
    intro v v' hv
    exact .bind (.assign name hv hline) fun _ _ _ => .done hv
  | call name harguments hline =>
    apply Relates.bind (evalAll he hpos harguments)
    intro values values' hvalues
    exact h.apply hx hpos hexpr name hvalues hline

/-- Optional expressions that are related are evaluated in related ways. -/
theorem evalOptional (he : EvalRelated r eval eval') (hpos : 0 < depth) {o o' : Option Expr}
    (h : Option.Rel (r.exprs calls depth) o o') :
    r.Relates calls depth r.Values (Evaluation.evalOptional eval o)
      (Evaluation.evalOptional eval' o') := by
  cases h with
  | none => exact .done .null
  | some h => exact he h hpos

/-- Optional statements that are related are executed in related ways. -/
theorem execOptional (hx : ExecRelated r exec exec') (hpos : 0 < depth) {o o' : Option Statement}
    (h : Option.Rel (r.statements calls depth) o o') :
    r.Relates calls depth r.Flows (Evaluation.execOptional exec o)
      (Evaluation.execOptional exec' o') := by
  cases h with
  | none => exact .done (.normal .null)
  | some h => exact hx h hpos

/-- The same case is chosen. -/
theorem chosen {parts : Statement → Statement → Prop} (kind : Kind)
    {cases cases' : List (Kind × Statement)} {default default' : Option Statement}
    (hcases : List.Forall₂ (fun c c' => c.1 = c'.1 ∧ parts c.2 c'.2) cases cases')
    (hdefault : Option.Rel parts default default') :
    Option.Rel parts (Evaluation.chosen kind cases default)
      (Evaluation.chosen kind cases' default') := by
  unfold Evaluation.chosen
  induction hcases with
  | nil => exact hdefault
  | @cons first first' _ _ hfirst _ ih =>
    obtain ⟨kind₁, body⟩ := first
    obtain ⟨kind₁', body'⟩ := first'
    obtain ⟨rfl, hbody⟩ := hfirst
    -- The cases are for the same kinds in the same order.
    simp only [List.lookup_cons]
    cases kind == kind₁ with
    | true => exact .some hbody
    | false => exact ih

/-- Statements of the same form are executed in related ways, if their parts are. -/
theorem execForm (h : Simulation r c c') (he : EvalRelated r eval eval')
    (hx : ExecRelated r exec exec') (hpos : 0 < depth) {s s' : Statement}
    (hstatement : r.statements calls depth s s') (fuel : Nat) :
    r.Relates calls depth r.Flows (Evaluation.execForm fuel eval exec s)
      (Evaluation.execForm fuel eval' exec' s') := by
  -- Conditions that correspond hold alike, so that both sides choose the same branch.
  cases h.statements hstatement with
  | declare name hinit hline =>
    apply Relates.bind (evalOptional he hpos hinit)
    intro v v' hv
    exact .bind (.define name hv hline) fun _ _ _ => .done (.normal hv)
  | block hs => exact .inScope hpos (sequenceFrom hx (Nat.succ_pos depth) hs .null)
  | branch hcondition hyes hno =>
    apply Relates.bind (he hcondition hpos)
    intro v v' hv
    exact .ite (by rw [hv.holds_eq]) (hx hyes hpos) (execOptional hx hpos hno)
  | loop hcondition hbody => exact repeatWhile (he hcondition hpos) (hx hbody hpos) fuel
  | select hsubject hcases hdefault =>
    apply Relates.bind (he hsubject hpos)
    intro v v' hv
    rw [hv.kind_eq]
    exact execOptional hx hpos (chosen _ hcases hdefault)
  | function name params returnKind hfunction hline =>
    refine Relates.bind (.makeFunction (.ofDeclaration name params returnKind _ _) hfunction)
      fun v v' hv => ?_
    exact .bind (.define name hv hline) fun _ _ _ => .done (.normal hv)
  | ret hvalue =>
    apply Relates.bind (evalOptional he hpos hvalue)
    intro v v' hv
    exact .done (.returned hv)
  | expression hvalue =>
    apply Relates.bind (he hvalue hpos)
    intro v v' hv
    exact .done (.normal hv)

end Rules

/-! ## Whole runs -/

/-- A check that passes wherever related expressions and statements are run. -/
structure Passes (r : Correspondence) (check : Step → Machine → Bool) : Prop where
  expression {calls depth : Nat} {e e' : Expr} {m m' : Machine} :
    r.exprs calls depth e e' → m.Corresponds r.Values calls depth m' →
      check (.expression e) m = true
  statement {calls depth : Nat} {s s' : Statement} {m m' : Machine} :
    r.statements calls depth s s' → m.Corresponds r.Values calls depth m' →
      check (.statement s) m = true

/-- Related expressions and statements run alike, and in the first run a check may be made on the
    way. Both runs use up their fuel at the same rate, and the induction is on it. -/
theorem eval_exec (h : Simulation r c c') {check : Step → Machine → Bool} (hcheck : Passes r check)
    (alarm : RuntimeError) (fuel : Nat) :
    EvalRelated r (Evaluation.evalChecked check alarm c fuel) (Evaluation.eval c' fuel) ∧
      ExecRelated r (Evaluation.execChecked check alarm c fuel) (Evaluation.exec c' fuel) := by
  -- One unit of fuel opens one expression or statement, whose parts run on the rest.
  induction fuel with
  | zero =>
    refine ⟨fun {_ _ e e'} _ _ => ?_, fun {_ _ s s'} _ _ => ?_⟩
    · rw [Evaluation.evalChecked, Evaluation.eval]
      exact .outOfFuel
    · rw [Evaluation.execChecked, Evaluation.exec]
      exact .outOfFuel
  | succ fuel ih =>
    obtain ⟨he, hx⟩ := ih
    refine ⟨fun {_ _ e e'} hexpr hpos => ?_, fun {_ _ s s'} hstatement hpos => ?_⟩
    · rw [Evaluation.evalChecked, Evaluation.eval, ← h.limits]
      exact .checked (fun _ _ hm => hcheck.expression hexpr hm)
        (.inExpression _ (h.exprs hexpr).line (h.evalForm he hx hpos hexpr))
    · rw [Evaluation.execChecked, Evaluation.exec]
      exact .checked (fun _ _ hm => hcheck.statement hstatement hm)
        (h.execForm he hx hpos hstatement fuel)

/-- Related expressions and statements run alike. -/
theorem eval_exec_plain (h : Simulation r c c') (fuel : Nat) :
    EvalRelated r (Evaluation.eval c fuel) (Evaluation.eval c' fuel) ∧
      ExecRelated r (Evaluation.exec c fuel) (Evaluation.exec c' fuel) := by
  -- A check that all machines pass makes the first run a plain one.
  have hpasses : Passes r fun _ _ => true := ⟨fun _ _ => rfl, fun _ _ => rfl⟩
  have hrun := h.eval_exec hpasses ⟨.assertionFailed, 0⟩ fuel
  rwa [funext (Evaluation.checked_true _ c fuel).1, funext (Evaluation.checked_true _ c fuel).2]
    at hrun

/-- Related statements in order run alike. -/
theorem sequenceChecked (h : Simulation r c c') {check : Step → Machine → Bool}
    (hcheck : Passes r check) (alarm : RuntimeError) (fuel : Nat) (hpos : 0 < depth)
    {statements statements' : List Statement}
    (hs : List.Forall₂ (r.statements calls depth) statements statements') :
    r.Relates calls depth r.Flows
      (Evaluation.sequence (Evaluation.execChecked check alarm c fuel) statements)
      (Evaluation.sequence (Evaluation.exec c' fuel) statements') :=
  sequenceFrom (h.eval_exec hcheck alarm fuel).2 hpos hs .null

/-- If trees, functions and lines are related to nothing but themselves, then a simulation says of a
    run what holds all along it. -/
theorem always (h : Simulation r c c) (hlines : ∀ line line', r.lines line line' → line = line')
    (hfunctions : ∀ u u', r.functions u u' → u = u') {check : Step → Machine → Bool}
    (hcheck : Passes r check) {p : Program} (hp : List.Forall₂ (r.statements 0 depth) p p)
    {s : Session} (hs : (Machine.start s).Corresponds r.Values 0 depth (.start s)) :
    Always c p s check := by
  intro alarm fuel
  have hrun := h.sequenceChecked hcheck alarm fuel hs.depth_pos hp _ _ hs
  generalize Evaluation.sequence (Evaluation.execChecked check alarm c fuel) p (.start s) = o,
    Evaluation.sequence (Evaluation.exec c fuel) p (.start s) = o' at hrun
  have hvalues (v v' : Value) (hv : r.Values v v') : v = v' := hv.eq hfunctions
  -- The checked run is related to the plain one, and related runs end alike.
  cases hrun with
  | none => rfl
  | @some o o' houtcomes =>
    obtain ⟨flow, m⟩ := o
    obtain ⟨flow', m'⟩ := o'
    obtain ⟨hresults, hm⟩ := houtcomes
    obtain rfl : m = m' := hm.eq hvalues
    have hflow : flow = flow' := by
      cases hresults with
      | @error e e' he =>
        obtain ⟨fault, line⟩ := e
        obtain ⟨fault', line'⟩ := e'
        obtain rfl : fault = fault' := he.fault
        obtain rfl : line = line' := hlines _ _ he.line
        rfl
      | ok hflow => cases hflow with
        | normal hv => rw [hvalues _ _ hv]
        | returned hv => rw [hvalues _ _ hv]
    rw [hflow]

/-- Related programs end alike in corresponding sessions, with the same fuel. -/
theorem execute (h : Simulation r c c') (fuel : Nat) {p p' : Program}
    (hp : List.Forall₂ (r.statements 0 depth) p p') {s s' : Session}
    (hs : (Machine.start s).Corresponds r.Values 0 depth (.start s')) :
    Option.Rel (fun o o' => r.Results r.Values o.1 o'.1 ∧ o.2.env.Corresponds r.Values o'.2.env ∧
        o.2.output = o'.2.output)
      (execute c fuel p s) (execute c' fuel p' s') := by
  have hrun := sequenceFrom (h.eval_exec_plain fuel).2 hs.depth_pos hp .null _ _ hs
  unfold Script.execute Evaluation.sequence
  generalize Evaluation.sequenceFrom (Evaluation.exec c fuel) .null p (.start s) = o,
    Evaluation.sequenceFrom (Evaluation.exec c' fuel) .null p' (.start s') = o' at hrun
  -- The two programs run out of fuel together or end together.
  cases hrun with
  | none => exact .none
  | @some o o' houtcomes =>
    obtain ⟨flow, m⟩ := o
    obtain ⟨flow', m'⟩ := o'
    obtain ⟨hresults, hm⟩ := houtcomes
    refine .some ⟨?_, hm.env, hm.output⟩
    cases hresults with
    | error he => exact .error he
    | ok hflow => cases hflow with
      | normal hv => exact .ok hv
      | returned hv => exact .ok hv

end Simulation

/-! ## Runs beside themselves -/

/-- A value that is no declared function, or one with a property. -/
def Value.IfDeclared (P : UserFunction → Prop) (value : Value) : Prop :=
  ∀ function user, value = .function function → function.callable = .user user → P user

/-- What an action that runs alike beside itself leaves behind. -/
theorem Correspondence.Relates.self {r : Correspondence} {calls depth : Nat} {α : Type}
    {related : α → α → Prop} {action : Action α} (h : r.Relates calls depth related action action)
    {m m₁ : Machine} (hm : m.Corresponds r.Values calls depth m)
    {result : Except RuntimeError α} (hrun : action m = some (result, m₁)) :
    r.Results related result result ∧ m₁.Corresponds r.Values calls depth m₁ := by
  have houtcomes := h m m hm
  rw [hrun] at houtcomes
  cases houtcomes with
  | some houtcomes => exact ⟨houtcomes.results, houtcomes.machines⟩

/-- A correspondence under which values correspond to nothing but themselves, and only declared
    functions with a property occur. -/
structure Correspondence.Diagonal (r : Correspondence) (P : UserFunction → Prop) : Prop where
  lines {line line' : Nat} : r.lines line line' ↔ line = line'
  functions {u u' : UserFunction} : r.functions u u' ↔ u = u' ∧ P u
  natives (native : Native) : r.natives native

namespace Correspondence.Diagonal

variable {r : Correspondence} {P : UserFunction → Prop}

/-- Values that correspond are equal, and have the property if they are declared functions. -/
theorem values_iff (h : r.Diagonal P) {v v' : Value} :
    r.Values v v' ↔ v = v' ∧ v.IfDeclared P := by
  constructor
  · intro hv
    have heq : v = v' := hv.eq fun _ _ hu => (h.functions.mp hu).1
    refine ⟨heq, fun function user hfunction huser => ?_⟩
    -- Only a declared function has anything to show, and it corresponds to itself by the relation.
    cases hv with
    | plain hplain => exact absurd hfunction (hplain function)
    | native _ _ _ =>
      cases hfunction
      cases huser
    | user _ _ hu =>
      cases hfunction
      cases huser
      exact (h.functions.mp hu).2
  · intro hv
    obtain ⟨rfl, hdeclared⟩ := hv
    cases v with
    | function function =>
      obtain ⟨identity, callable⟩ := function
      cases callable with
      | user u =>
        exact .user identity ⟨rfl, rfl, rfl⟩ (h.functions.mpr ⟨rfl, hdeclared _ u rfl rfl⟩)
      | native signature native => exact .native identity signature (h.natives native)
    | _ => exact .plain (by simp)

/-- Values that correspond are equal. -/
theorem eq_of_values (h : r.Diagonal P) (v v' : Value) (hv : r.Values v v') : v = v' :=
  (h.values_iff.mp hv).1

/-- A host that passes on declared functions only from its arguments makes none without the
    property. -/
theorem host (h : r.Diagonal P) {host : Host} (hhost : host.PassesFunctions) (handle : Nat)
    {arguments arguments' : List Value} {line line' : Nat}
    (harguments : List.Forall₂ r.Values arguments arguments') (hline : r.lines line line') :
    r.Results r.Values (host handle arguments line) (host handle arguments' line') := by
  obtain rfl : arguments = arguments' := by
    rw [← List.forall₂_eq_eq_eq]
    exact harguments.imp h.eq_of_values
  obtain rfl := h.lines.mp hline
  cases hresult : host handle arguments line with
  | error e => exact .error ⟨rfl, h.lines.mpr rfl⟩
  | ok value =>
    -- A function that the host returns is one of the arguments, which have the property.
    refine .ok (h.values_iff.mpr ⟨rfl, fun function user hvalue huser => ?_⟩)
    subst hvalue
    have hmem := hhost handle arguments line function user hresult huser
    exact (h.values_iff.mp (List.forall₂_same.mp harguments _ hmem)).2 function user rfl huser

/-- All that is bound in an environment that corresponds has the property. -/
theorem allBound (h : r.Diagonal P) {env env' : Environment}
    (henv : env.Corresponds r.Values env') : env.AllBound (Value.IfDeclared P) := by
  refine Environment.allBound_iff.mpr fun index frame hframe name value hget => ?_
  have hframes := henv.frame index
  rw [hframe] at hframes
  generalize env'.frames[index]? = o' at hframes
  cases hframes with
  | some hframes =>
    have hvalues := hframes.get? name
    rw [hget] at hvalues
    generalize Frame.get? _ name = o' at hvalues
    cases hvalues with
    | some hvalue => exact (h.values_iff.mp hvalue).2

/-- A session corresponds to itself if all that is bound in it has the property. -/
theorem start (h : r.Diagonal P) {s : Session} (hreachable : s.env.Reachable)
    (hbound : s.env.AllBound (Value.IfDeclared P)) :
    (Machine.start s).Corresponds r.Values 0 s.env.depth (.start s) :=
  .start hreachable fun index name value hvalue =>
    h.values_iff.mpr ⟨rfl, hbound index name value hvalue⟩

end Correspondence.Diagonal

end Script
