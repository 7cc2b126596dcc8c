import Script.Proofs.ActionSteps

/-!
# Runs side by side

To compare two runs of one program, or to follow what one run keeps, it is enough to look at the
ways in which actions are built. `Action.Congruence` lists them: a relation between actions that
every one of them respects relates the whole runs. The two runs may differ in their limits, and the
second may have more fuel.

The list comes in three parts, since not all relations respect all of it: expressions change less
than statements (`Action.ExprCongruence`), and the values of names may matter more than the names
(`Action.BindingCongruence`).

## Key results

- `Action.Congruence.eval_exec`: related evaluation of expressions and execution of statements
- `Action.Congruence.sequence`, `Action.Congruence.execBlock`: the same for statements in order and
  for blocks
- `Machine.StepRelation.congruence`: what every step keeps is kept by whole runs
-/

namespace Script

namespace Action

/-- A relation between the actions of two runs that is respected by all that the evaluation of an
    expression does, but for giving names other values and for calling declared functions. -/
structure ExprCongruence (c₁ c₂ : Context) (P : ∀ {α : Type}, Action α → Action α → Prop) :
    Prop where
  /-- The functions of the host are the same in both runs. -/
  host : c₁.host = c₂.host
  done {α : Type} (a : α) : P (done a) (done a)
  fail {α : Type} (fault : RuntimeFault) (line : Nat) :
    P (fail (α := α) fault line) (fail fault line)
  bind {α β : Type} {x y : Action α} {f g : α → Action β} :
    P x y → (∀ a, P (f a) (g a)) → P (x >>= f) (y >>= g)
  meaning (name : String) : P (meaning name) (meaning name)
  write (text : String) : P (write text) (write text)
  allowingCall {α : Type} {x y : Action α} (line : Nat) :
    P x y → P (allowingCall c₁.limits line x) (allowingCall c₂.limits line y)
  inExpression {α : Type} {x y : Action α} (line : Nat) :
    P x y → P (inExpression c₁.limits line x) (inExpression c₂.limits line y)

/-- A relation between the actions of two runs that is respected by all that they do, but for giving
    names other values. -/
structure BindingCongruence (c₁ c₂ : Context) (P : ∀ {α : Type}, Action α → Action α → Prop) :
    Prop extends ExprCongruence c₁ c₂ P where
  /-- The first run may be the one that is cut short. -/
  outOfFuel {α : Type} (y : Action α) : P outOfFuel y
  define (name : String) (value : Value) (line : Nat) :
    P (define name value line) (define name value line)
  makeFunction (callable : Callable) : P (makeFunction callable) (makeFunction callable)
  inScope {α : Type} {x y : Action α} : P x y → P (inScope x) (inScope y)
  inCall {α : Type} {x y : Action α} : P x y → P (inCall x) (inCall y)

/-- A relation between the actions of two runs that every way of building actions respects. -/
structure Congruence (c₁ c₂ : Context) (P : ∀ {α : Type}, Action α → Action α → Prop) :
    Prop extends BindingCongruence c₁ c₂ P where
  assign (name : String) (value : Value) (line : Nat) :
    P (assign name value line) (assign name value line)

section Rules

open Script.Evaluation

variable {c₁ c₂ : Context} {P : ∀ {α : Type}, Action α → Action α → Prop}
  {eval₁ eval₂ : Expr → Action Value} {exec₁ exec₂ : Statement → Action Flow}

/-! ## The rules of evaluation -/

/-- A case distinction that both runs make in the same way. -/
private theorem related_ite {α : Type} {c : Prop} [Decidable c] {x₁ x₂ y₁ y₂ : Action α}
    (hx : P x₁ x₂) (hy : P y₁ y₂) : P (if c then x₁ else y₁) (if c then x₂ else y₂) := by
  split
  · exact hx
  · exact hy

namespace ExprCongruence

/-- A result that is known already is a value or a fault in both runs. -/
theorem ofExcept {α : Type} (h : ExprCongruence c₁ c₂ P) (result : Except RuntimeError α) :
    P (ofExcept result) (ofExcept result) := by
  cases result with
  | ok a => exact h.done a
  | error e => exact h.fail e.fault e.line

/-- And so is one whose fault has no line yet. -/
theorem ofFault {α : Type} (h : ExprCongruence c₁ c₂ P) (line : Nat)
    (result : Except RuntimeFault α) : P (ofFault line result) (ofFault line result) := by
  cases result with
  | ok a => exact h.done a
  | error fault => exact h.fail fault line

/-- Both runs look up the same name, so that both find a value or neither does. -/
theorem lookup (h : ExprCongruence c₁ c₂ P) (name : String) (line : Nat) :
    P (lookup name line) (lookup name line) := by
  rw [lookup_eq]
  refine h.bind (h.meaning name) fun value => ?_
  cases value with
  | none => exact h.fail _ _
  | some value => exact h.done value

/-- Arguments are evaluated one after the other. -/
theorem evalAll (h : ExprCongruence c₁ c₂ P) (he : ∀ e, P (eval₁ e) (eval₂ e))
    (exprs : List Expr) : P (evalAll eval₁ exprs) (evalAll eval₂ exprs) := by
  induction exprs with
  | nil => exact h.done _
  | cons first rest ih => exact h.bind (he first) fun _ => h.bind ih fun _ => h.done _

/-- A function of the host answers in the same way, since the host is the same. -/
theorem callNative (h : ExprCongruence c₁ c₂ P) (native : Native) (arguments : List Value)
    (line : Nat) :
    P (callNative c₁.host native arguments line) (callNative c₂.host native arguments line) := by
  -- The hosts are parts of the contexts, which may differ in everything else.
  rw [h.host]
  cases native with
  | print => exact h.bind (h.write _) fun _ => h.done _
  | assert => exact h.ofExcept _
  | host handle => exact h.ofExcept _

/-- Both runs find the same function and compare it with the same arguments, so that only the call
    itself is left. -/
theorem apply (h : ExprCongruence c₁ c₂ P)
    (hcall : ∀ user arguments line,
      P (callUser exec₁ user arguments line) (callUser exec₂ user arguments line))
    (name : String) (arguments : List Value) (line : Nat) :
    P (apply c₁ exec₁ name arguments line) (apply c₂ exec₂ name arguments line) := by
  rw [apply_eq, apply_eq]
  refine h.bind (h.meaning name) fun value => ?_
  rcases value with _ | value
  · exact h.fail _ _
  cases value with
  | function function =>
    -- The arguments fit in both runs or in neither, and the limits are looked at behind that.
    refine related_ite (h.fail _ _) (h.allowingCall line ?_)
    cases function.callable with
    | user user => exact hcall user arguments line
    | native signature native => exact h.callNative native arguments line
  | _ => exact h.fail _ _

/-- One step of evaluation, for an expression whose parts are evaluated in related ways. -/
theorem evalForm (h : ExprCongruence c₁ c₂ P) (he : ∀ e, P (eval₁ e) (eval₂ e))
    (hcall : ∀ user arguments line,
      P (callUser exec₁ user arguments line) (callUser exec₂ user arguments line))
    {expr : Expr} (hassign : ∀ name value line, expr = .assign name value line →
      ∀ v, P (assign name v line) (assign name v line)) :
    P (evalForm c₁ eval₁ exec₁ expr) (evalForm c₂ eval₂ exec₂ expr) := by
  cases expr with
  | literal value line => exact h.done _
  | identifier name line => exact h.lookup name line
  | unary op operand line => exact h.bind (he operand) fun _ => h.ofFault line _
  | binary left op right line =>
    exact h.bind (he left) fun _ => h.bind (he right) fun _ => h.ofFault line _
  | assign name value line =>
    exact h.bind (he value) fun v => h.bind (hassign name value line rfl v) fun _ => h.done _
  | call name arguments line =>
    exact h.bind (h.evalAll he arguments) fun values => h.apply hcall name values line

/-- An expression that may be missing. -/
theorem evalOptional (h : ExprCongruence c₁ c₂ P) (he : ∀ e, P (eval₁ e) (eval₂ e))
    (expr : Option Expr) : P (evalOptional eval₁ expr) (evalOptional eval₂ expr) := by
  cases expr with
  | none => exact h.done _
  | some e => exact he e

end ExprCongruence

namespace BindingCongruence

/-- Statements one after the other, by induction on those that are left. -/
theorem sequenceFrom (h : BindingCongruence c₁ c₂ P) (hx : ∀ s, P (exec₁ s) (exec₂ s))
    (last : Value) (statements : List Statement) :
    P (sequenceFrom exec₁ last statements) (sequenceFrom exec₂ last statements) := by
  induction statements generalizing last with
  | nil => exact h.done _
  | cons statement rest ih =>
    refine h.bind (hx statement) fun flow => ?_
    -- The first statement goes on to the others, or it returns and they are passed over.
    cases flow with
    | normal value => exact ih value
    | returned value => exact h.done _

/-- Loops over related conditions and bodies are related, if the first one has no more rounds. -/
theorem repeatWhile (h : BindingCongruence c₁ c₂ P) {cond₁ cond₂ : Action Value}
    {body₁ body₂ : Action Flow} (hc : P cond₁ cond₂) (hb : P body₁ body₂) {fuel₁ fuel₂ : Nat}
    (hfuel : fuel₁ ≤ fuel₂) :
    P (repeatWhile cond₁ body₁ fuel₁) (repeatWhile cond₂ body₂ fuel₂) := by
  induction fuel₁ generalizing fuel₂ with
  | zero => exact h.outOfFuel _
  | succ fuel₁ ih =>
    -- The second run has a round for every round of the first one.
    obtain ⟨fuel₂, rfl⟩ := Nat.exists_eq_add_of_le' (Nat.le_trans (Nat.le_add_left 1 fuel₁) hfuel)
    rw [repeatWhile_succ, repeatWhile_succ]
    refine h.bind hc fun value => related_ite (h.bind hb fun flow => ?_) (h.done _)
    cases flow with
    | normal value => exact ih (Nat.le_of_succ_le_succ hfuel)
    | returned value => exact h.done _

/-- The parameters of a call are bound one after the other. -/
theorem bindAll (h : BindingCongruence c₁ c₂ P) (line : Nat) (bindings : List (String × Value)) :
    P (bindAll line bindings) (bindAll line bindings) := by
  induction bindings with
  | nil => exact h.done _
  | cons binding rest ih => exact h.bind (h.define _ _ line) fun _ => ih

/-- What a declared function does in its scope: binding its parameters, then its body. -/
theorem runBody (h : BindingCongruence c₁ c₂ P) (hx : ∀ s, P (exec₁ s) (exec₂ s))
    (function : UserFunction) (arguments : List Value) (line : Nat) :
    P (runBody exec₁ function arguments line) (runBody exec₂ function arguments line) := by
  refine h.bind (h.bindAll line _) fun _ => ?_
  refine h.bind (h.sequenceFrom hx .null function.body) fun flow => ?_
  cases flow with
  | normal value => exact h.done _
  | returned value => exact h.done _

/-- A call of a declared function is its body with a scope and a call around it. -/
theorem callUser (h : BindingCongruence c₁ c₂ P) (hx : ∀ s, P (exec₁ s) (exec₂ s))
    (function : UserFunction) (arguments : List Value) (line : Nat) :
    P (callUser exec₁ function arguments line) (callUser exec₂ function arguments line) := by
  rw [callUser_eq, callUser_eq]
  exact h.inCall (h.inScope (h.runBody hx function arguments line))

/-- A statement that may be missing. -/
theorem execOptional (h : BindingCongruence c₁ c₂ P) (hx : ∀ s, P (exec₁ s) (exec₂ s))
    (statement : Option Statement) :
    P (execOptional exec₁ statement) (execOptional exec₂ statement) := by
  cases statement with
  | none => exact h.done _
  | some s => exact hx s

/-- One step of execution, for a statement whose parts are executed in related ways. -/
theorem execForm (h : BindingCongruence c₁ c₂ P) (he : ∀ e, P (eval₁ e) (eval₂ e))
    (hx : ∀ s, P (exec₁ s) (exec₂ s)) {fuel₁ fuel₂ : Nat} (hfuel : fuel₁ ≤ fuel₂)
    (statement : Statement) :
    P (execForm fuel₁ eval₁ exec₁ statement) (execForm fuel₂ eval₂ exec₂ statement) := by
  cases statement with
  | expression value line => exact h.bind (he value) fun _ => h.done _
  | declare name init line =>
    exact h.bind (h.evalOptional he init) fun _ => h.bind (h.define name _ line) fun _ => h.done _
  | block statements line => exact h.inScope (h.sequenceFrom hx .null statements)
  | branch condition yes no line =>
    exact h.bind (he condition) fun _ => related_ite (hx yes) (h.execOptional hx no)
  | loop condition body line => exact h.repeatWhile (he condition) (hx body) hfuel
  | select subject cases default line =>
    exact h.bind (he subject) fun _ => h.execOptional hx _
  | function name params returnKind body line =>
    exact h.bind (h.makeFunction _) fun _ => h.bind (h.define name _ line) fun _ => h.done _
  | ret value line => exact h.bind (h.evalOptional he value) fun _ => h.done _

end BindingCongruence

namespace Congruence

/-! ## Whole runs -/

/-- Evaluating an expression and executing a statement are related. The induction is on the fuel of
    the first run, which both of its parts hand on. -/
theorem eval_exec (h : Congruence c₁ c₂ P) {fuel₁ fuel₂ : Nat} (hfuel : fuel₁ ≤ fuel₂) :
    (∀ e, P (eval c₁ fuel₁ e) (eval c₂ fuel₂ e)) ∧
      (∀ s, P (exec c₁ fuel₁ s) (exec c₂ fuel₂ s)) := by
  induction fuel₁ generalizing fuel₂ with
  | zero =>
    refine ⟨fun e => ?_, fun s => ?_⟩
    · rw [eval]; exact h.outOfFuel _
    · rw [exec]; exact h.outOfFuel _
  | succ fuel₁ ih =>
    -- The second run has at least as much fuel, so that it takes this step too.
    obtain ⟨fuel₂, rfl⟩ := Nat.exists_eq_add_of_le' (Nat.le_trans (Nat.le_add_left 1 fuel₁) hfuel)
    have hle : fuel₁ ≤ fuel₂ := Nat.le_of_succ_le_succ hfuel
    obtain ⟨he, hx⟩ := ih hle
    refine ⟨fun e => ?_, fun s => ?_⟩
    · -- A call executes the body of a function, with the fuel that is left.
      rw [eval, eval]
      exact h.inExpression e.line
        (h.evalForm he (h.callUser hx) fun name _ line _ value => h.assign name value line)
    · rw [exec, exec]; exact h.execForm he hx hle s

/-- Statements one after the other, from the start. -/
theorem sequence (h : Congruence c₁ c₂ P) {fuel₁ fuel₂ : Nat} (hfuel : fuel₁ ≤ fuel₂)
    (statements : List Statement) :
    P (sequence (exec c₁ fuel₁) statements) (sequence (exec c₂ fuel₂) statements) :=
  h.sequenceFrom (h.eval_exec hfuel).2 .null statements

/-- A block, with the scope around its statements. -/
theorem execBlock (h : Congruence c₁ c₂ P) {fuel₁ fuel₂ : Nat} (hfuel : fuel₁ ≤ fuel₂)
    (statements : List Statement) :
    P (execBlock c₁ fuel₁ statements) (execBlock c₂ fuel₂ statements) :=
  h.inScope (h.sequence hfuel statements)

end Congruence

end Rules

/-- An action whose end stands in a relation to its start, be it a value or an error. -/
def Keeps (R : Machine → Machine → Prop) {α : Type} (action : Action α) : Prop :=
  ∀ m result m', action m = some (result, m') → R m m'

end Action

/-! ## What every step keeps -/

namespace Machine

/-- A relation between machines before and after, which holds of what the evaluation of an
    expression changes, but for giving names other values and for calling declared functions. -/
structure ExprRelation (R : Machine → Machine → Prop) : Prop where
  refl (m : Machine) : R m m
  trans {m₁ m₂ m₃ : Machine} : R m₁ m₂ → R m₂ m₃ → R m₁ m₃
  write (m : Machine) (text : String) : R m { m with output := m.output ++ text }
  inExpression {m m' : Machine} :
    R { m with nesting := m.nesting + 1 } m' → R m { m' with nesting := m'.nesting - 1 }

/-- A relation between machines before and after, which holds of every change that a run makes, but
    for giving names other values, and of an opening and the matching closing if it holds of what
    lies between them. -/
structure BindingRelation (R : Machine → Machine → Prop) : Prop extends ExprRelation R where
  define {m : Machine} {name : String} {value : Value} {env : Environment} :
    m.env.define? name value = some env → R m { m with env := env }
  makeFunction (m : Machine) : R m { m with fresh := m.fresh + 1 }
  inScope {m m' : Machine} :
    R { m with env := m.env.enter } m' → R m { m' with env := m'.env.exit }
  inCall {m m' : Machine} :
    R { m with calls := m.calls + 1 } m' → R m { m' with calls := m'.calls - 1 }

/-- A relation between machines before and after, which holds of every change that a run makes. -/
structure StepRelation (R : Machine → Machine → Prop) : Prop extends BindingRelation R where
  assign {m : Machine} {name : String} {value : Value} {env : Environment} :
    m.env.assign? name value = some env → R m { m with env := env }

open Script.Action

variable {R : Machine → Machine → Prop}

/-- What both parts keep is kept by one after the other. -/
private theorem ExprRelation.keeps_bind (h : ExprRelation R) {α β : Type} {step : Action α}
    {next : α → Action β} (hs : Keeps R step) (hn : ∀ a, Keeps R (next a)) :
    Keeps R (step >>= next) := by
  intro m result m' hrun
  rcases bind_eq_some.mp hrun with ⟨e, hstep, rfl⟩ | ⟨a, m₁, hstep, hnext⟩
  · exact hs m _ m' hstep
  · exact h.trans (hs m _ m₁ hstep) (hn a m₁ result m' hnext)

/-- A change of the environment is made or not made. -/
theorem ExprRelation.keeps_changing (h : ExprRelation R)
    {change : Environment → Option Environment}
    (hc : ∀ m env, change m.env = some env → R m { m with env := env }) (fault : RuntimeFault)
    (line : Nat) : Keeps R (changing change fault line) := by
  intro m result m' hrun
  rcases changing_eq_some.mp hrun with ⟨env, hchange, -, rfl⟩ | ⟨-, -, rfl⟩
  · exact hc m env hchange
  · exact h.refl m'

/-- An action that is refused changes nothing. -/
private theorem ExprRelation.keeps_below (h : ExprRelation R) {α : Type} (count : Machine → Nat)
    (limit : Nat) (fault : RuntimeFault) (line : Nat) {action : Action α} (ha : Keeps R action) :
    Keeps R (below count limit fault line action) := by
  intro m result m' hrun
  by_cases hlimit : limit ≤ count m
  · rw [below_of_le hlimit] at hrun
    cases hrun
    exact h.refl m
  · rw [below_of_lt (Nat.lt_of_not_le hlimit)] at hrun
    exact ha m result m' hrun

/-- What holds between an opening and a closing, around something that is kept between them. -/
theorem keeps_around {S : Machine → Machine → Prop} {α : Type} {before after : Machine → Machine}
    (hc : ∀ m m', S (before m) m' → R m (after m')) {action : Action α} (ha : Keeps S action) :
    Keeps R (around before after action) := by
  intro m result m' hrun
  obtain ⟨m₁, hin, rfl⟩ := around_eq_some.mp hrun
  exact hc m m₁ (ha _ result m₁ hin)

/-- The level of nesting that an expression opens is closed again behind it. -/
theorem ExprRelation.keeps_inExpression (h : ExprRelation R) {α : Type} (limits : Limits)
    (line : Nat) {action : Action α} (ha : Keeps R action) :
    Keeps R (Action.inExpression limits line action) := by
  rw [inExpression_eq]
  exact h.keeps_below _ _ _ line (keeps_around (fun _ _ => h.inExpression) ha)

/-- What every step of an expression keeps is kept by all that is built from such steps. -/
theorem ExprRelation.congruence (h : ExprRelation R) (ctx : Context) :
    ExprCongruence ctx ctx (fun x _ => Keeps R x) where
  host := rfl
  done a := by rintro m _ _ ⟨⟩; exact h.refl m
  fail fault line := by rintro m _ _ ⟨⟩; exact h.refl m
  bind := h.keeps_bind
  meaning name := by rintro m _ _ ⟨⟩; exact h.refl m
  write text := by rintro m _ _ ⟨⟩; exact h.write m text
  allowingCall line := h.keeps_below _ _ _ line
  inExpression line := h.keeps_inExpression _ line

/-- The same for statements that give no name another value. -/
theorem BindingRelation.congruence (h : BindingRelation R) (ctx : Context) :
    BindingCongruence ctx ctx (fun x _ => Keeps R x) where
  toExprCongruence := h.toExprRelation.congruence ctx
  outOfFuel _ := by rintro m _ _ ⟨⟩
  define name value line := by
    rw [define_eq]
    exact h.keeps_changing (fun _ _ => h.define) _ line
  makeFunction callable := by rintro m _ _ ⟨⟩; exact h.makeFunction m
  inScope := keeps_around fun _ _ => h.inScope
  inCall := keeps_around fun _ _ => h.inCall

/-- What every step keeps is kept by whole runs. -/
theorem StepRelation.congruence (h : StepRelation R) (ctx : Context) :
    Congruence ctx ctx (fun x _ => Keeps R x) where
  toBindingCongruence := h.toBindingRelation.congruence ctx
  assign name value line := by
    rw [assign_eq]
    exact h.keeps_changing (fun _ _ => h.assign) _ line

/-! ### The rules of evaluation for one run -/

section OneRun

open Script.Evaluation

variable {eval : Expr → Action Value} {exec : Statement → Action Flow}

/-- What the parts of an expression keep is kept by the expression. -/
theorem ExprRelation.keeps_evalForm (h : ExprRelation R) (ctx : Context)
    (he : ∀ e, Keeps R (eval e))
    (hcall : ∀ user arguments line, Keeps R (callUser exec user arguments line)) {expr : Expr}
    (hassign : ∀ name value line, expr = .assign name value line →
      ∀ v, Keeps R (assign name v line)) :
    Keeps R (evalForm ctx eval exec expr) :=
  @ExprCongruence.evalForm ctx ctx _ eval eval exec exec (h.congruence ctx) he hcall expr hassign

/-- What the statements of a function keep is kept by its body. -/
theorem BindingRelation.keeps_runBody (h : BindingRelation R) (ctx : Context)
    (hx : ∀ s, Keeps R (exec s)) (function : UserFunction) (arguments : List Value) (line : Nat) :
    Keeps R (runBody exec function arguments line) :=
  @BindingCongruence.runBody ctx ctx _ exec exec (h.congruence ctx) hx function arguments line

/-- And by a call of the function. -/
theorem BindingRelation.keeps_callUser (h : BindingRelation R) (ctx : Context)
    (hx : ∀ s, Keeps R (exec s)) (function : UserFunction) (arguments : List Value) (line : Nat) :
    Keeps R (callUser exec function arguments line) :=
  @BindingCongruence.callUser ctx ctx _ exec exec (h.congruence ctx) hx function arguments line

/-- What the parts of a statement keep is kept by the statement. -/
theorem BindingRelation.keeps_execForm (h : BindingRelation R) (ctx : Context)
    (he : ∀ e, Keeps R (eval e)) (hx : ∀ s, Keeps R (exec s)) (fuel : Nat) (s : Statement) :
    Keeps R (execForm fuel eval exec s) :=
  @BindingCongruence.execForm ctx ctx _ eval eval exec exec (h.congruence ctx) he hx fuel fuel
    (Nat.le_refl fuel) s

/-- What statements keep is kept by one after the other. -/
theorem BindingRelation.keeps_sequence (h : BindingRelation R) (ctx : Context)
    (hx : ∀ s, Keeps R (exec s)) (statements : List Statement) :
    Keeps R (sequence exec statements) :=
  @BindingCongruence.sequenceFrom ctx ctx _ exec exec (h.congruence ctx) hx .null statements

end OneRun

end Machine

end Script
