import Script.Proofs.BoundValues
import Script.Proofs.RunLimits

/-!
# Without loops every program ends

Functions may call themselves and each other, and may be passed around and bound to other names, but
no more calls can be under way at once than the limit allows. A program without loops therefore
finishes, if no function in its reach has a loop either. The measure is the number of calls that are
still allowed, and within one call the size of what is run.

`Action.Settles` says that an action ends and, from some fuel on, always in the same way. It also
says what a call needs of the actions before it: the calls under way are as many as before, and no
value has a loop in it.

## Key results

- `Evaluation.settles_eval`, `Evaluation.settles_exec`: one call, if the calls inside it settle
- `Evaluation.settles_run`: all calls, by induction on the calls that are allowed
- `loopFree_program_finishes`: programs without loops finish
-/

namespace Script

/-! ## Trees without loops -/

/-- A statement without a loop in it, at any depth. -/
inductive Statement.LoopFree : Statement → Prop where
  | declare (name : String) (init : Option Expr) (line : Nat) : LoopFree (.declare name init line)
  | block {statements : List Statement} (line : Nat) :
      (∀ s ∈ statements, LoopFree s) → LoopFree (.block statements line)
  | branch (condition : Expr) {yes : Statement} {no : Option Statement} (line : Nat) :
      LoopFree yes → (∀ s ∈ no, LoopFree s) → LoopFree (.branch condition yes no line)
  | select (subject : Expr) {cases : List (Kind × Statement)} {default : Option Statement}
      (line : Nat) :
      (∀ c ∈ cases, LoopFree c.2) → (∀ s ∈ default, LoopFree s) →
        LoopFree (.select subject cases default line)
  | function (name : String) (params : List Parameter) (returnKind : Kind) {body : List Statement}
      (line : Nat) :
      (∀ s ∈ body, LoopFree s) → LoopFree (.function name params returnKind body line)
  | ret (value : Option Expr) (line : Nat) : LoopFree (.ret value line)
  | expression (value : Expr) (line : Nat) : LoopFree (.expression value line)

/-- A value that is no declared function with a loop in its body. -/
def Value.LoopFree (value : Value) : Prop :=
  ∀ function user, value = .function function → function.callable = .user user →
    ∀ s ∈ user.body, s.LoopFree

/-- A value that is no function has no body with a loop. -/
private theorem Value.LoopFree.of_ne_function {value : Value}
    (h : ∀ function, value ≠ .function function) :
    value.LoopFree :=
  fun function _ heq => absurd heq (h function)

/-! ## Actions that settle -/

/-- A machine with a number of calls under way, in which no bound function has a loop. -/
structure Machine.LoopFree (calls : Nat) (m : Machine) : Prop where
  calls : m.calls = calls
  bound : m.env.AllBound Value.LoopFree

namespace Action

variable {α β : Type}

/-- From some fuel on, an action always ends in the same way. It leaves the calls under way as it
    finds them, binds no function with a loop, and its value is one of those expected. -/
def Settles (calls : Nat) (expected : α → Prop) (run : Nat → Action α) : Prop :=
  ∀ m, m.LoopFree calls → ∃ fuel result m',
    (∀ fuel', fuel ≤ fuel' → run fuel' m = some (result, m')) ∧
      m'.LoopFree calls ∧ ∀ a, result = .ok a → expected a

namespace Settles

variable {calls : Nat} {expected : α → Prop}

/-- An action that needs no fuel. -/
private theorem of_eq {action : Action α} (h : ∀ m, m.LoopFree calls → ∃ result m',
    action m = some (result, m') ∧ m'.LoopFree calls ∧ ∀ a, result = .ok a → expected a) :
    Settles calls expected fun _ => action := by
  intro m hm
  obtain ⟨result, m', hrun, hrest⟩ := h m hm
  exact ⟨0, result, m', fun _ _ => hrun, hrest⟩

/-- Giving a value settles. -/
theorem done {a : α} (ha : expected a) : Settles calls expected fun _ => done a := by
  refine of_eq fun m hm => ⟨.ok a, m, rfl, hm, ?_⟩
  rintro _ ⟨⟩
  exact ha

/-- Failing settles. -/
theorem fail (fault : RuntimeFault) (line : Nat) :
    Settles calls expected fun _ => fail fault line := by
  refine of_eq fun m hm => ⟨_, m, rfl, hm, ?_⟩
  rintro _ ⟨⟩

/-- A result that is given settles. -/
theorem ofExcept {result : Except RuntimeError α} (h : ∀ a, result = .ok a → expected a) :
    Settles calls expected fun _ => ofExcept result :=
  of_eq fun m hm => ⟨result, m, rfl, hm, h⟩

/-- A result or a fault at a line settles. -/
theorem ofFault {line : Nat} {result : Except RuntimeFault α}
    (h : ∀ a, result = .ok a → expected a) :
    Settles calls expected fun _ => ofFault line result := by
  cases result with
  | ok a => exact done (h a rfl)
  | error fault => exact fail fault line

/-- Two steps settle as soon as there is enough fuel for either. -/
theorem bind {expected' : β → Prop} {run : Nat → Action α} {next : α → Nat → Action β}
    (hr : Settles calls expected run)
    (hn : ∀ a, expected a → Settles calls expected' (next a)) :
    Settles calls expected' fun fuel => run fuel >>= fun a => next a fuel := by
  intro m hm
  obtain ⟨fuel₁, result, m₁, hrun, hm₁, hexpected⟩ := hr m hm
  cases result with
  | error e =>
    refine ⟨fuel₁, .error e, m₁, fun fuel hfuel => ?_, hm₁, by rintro _ ⟨⟩⟩
    exact bind_eq_some.mpr (.inl ⟨e, hrun fuel hfuel, rfl⟩)
  | ok a =>
    obtain ⟨fuel₂, result, m₂, hnext, hm₂, hexpected'⟩ := hn a (hexpected a rfl) m₁ hm₁
    -- With the larger of the two amounts of fuel, both parts have enough.
    refine ⟨max fuel₁ fuel₂, result, m₂, fun fuel hfuel => ?_, hm₂, hexpected'⟩
    exact bind_eq_some.mpr (.inr ⟨a, m₁, hrun fuel (by omega), hnext fuel (by omega)⟩)

/-- One more unit of fuel may be used up before the action. -/
theorem succ {run next : Nat → Action α} (hr : Settles calls expected run)
    (hnext : ∀ fuel, next (fuel + 1) = run fuel) : Settles calls expected next := by
  intro m hm
  obtain ⟨fuel, result, m', hrun, hrest⟩ := hr m hm
  refine ⟨fuel + 1, result, m', fun fuel' hfuel' => ?_, hrest⟩
  obtain ⟨fuel', rfl⟩ := Nat.exists_eq_add_of_le' (Nat.le_trans (Nat.le_add_left 1 fuel) hfuel')
  rw [hnext]
  exact hrun fuel' (by omega)

/-- A choice settles if both sides do. -/
theorem ite {c : Prop} [Decidable c] {yes no : Nat → Action α} (hy : Settles calls expected yes)
    (hn : Settles calls expected no) :
    Settles calls expected fun fuel => if c then yes fuel else no fuel := by
  split
  · exact hy
  · exact hn

/-- What a name means has no loop in it, since it is bound. -/
theorem meaning (name : String) :
    Settles calls (fun found => ∀ value, found = some value → value.LoopFree)
      fun _ => meaning name := by
  refine of_eq fun m hm => ⟨_, m, rfl, hm, ?_⟩
  rintro _ ⟨⟩ value hget
  exact hm.bound.get? hget

/-- A change of the environment that binds no function with a loop settles. -/
theorem changing {change : Environment → Option Environment}
    (hc : ∀ env env', env.AllBound Value.LoopFree → change env = some env' →
      env'.AllBound Value.LoopFree) (fault : RuntimeFault) (line : Nat) :
    Settles calls (fun _ => True) fun _ => changing change fault line := by
  refine of_eq fun m hm => ?_
  cases hchange : change m.env with
  | none =>
    exact ⟨_, m, changing_eq_some.mpr (.inr ⟨hchange, rfl, rfl⟩), hm, fun _ _ => trivial⟩
  | some env =>
    exact ⟨_, _, changing_eq_some.mpr (.inl ⟨env, hchange, rfl, rfl⟩),
      ⟨hm.calls, hc _ _ hm.bound hchange⟩, fun _ _ => trivial⟩

/-- Declaring a name settles. -/
theorem define {value : Value} (hv : value.LoopFree) (name : String) (line : Nat) :
    Settles calls (fun _ => True) fun _ => define name value line :=
  changing (fun _ _ h => h.define hv) _ line

/-- Assigning to a name settles. -/
theorem assign {value : Value} (hv : value.LoopFree) (name : String) (line : Nat) :
    Settles calls (fun _ => True) fun _ => assign name value line :=
  changing (fun _ _ h => h.assign hv) _ line

/-- Writing output settles. -/
theorem write (text : String) : Settles calls (fun _ => True) fun _ => write text :=
  of_eq fun _ hm => ⟨_, _, rfl, ⟨hm.calls, hm.bound⟩, fun _ _ => trivial⟩

/-- A function has no loop in it if its body has none. -/
theorem makeFunction {user : UserFunction} (hbody : ∀ s ∈ user.body, s.LoopFree) :
    Settles calls Value.LoopFree fun _ => makeFunction (.user user) := by
  refine of_eq fun m hm => ⟨_, _, rfl, ⟨hm.calls, hm.bound⟩, ?_⟩
  rintro _ ⟨⟩ _ _ ⟨⟩ ⟨⟩
  exact hbody

/-- Looking a name up settles, and gives no function with a loop. -/
theorem lookup (name : String) (line : Nat) :
    Settles calls Value.LoopFree fun _ => lookup name line := by
  rw [lookup_eq]
  refine bind (meaning name) fun found hfound => ?_
  cases found with
  | none => exact fail _ _
  | some value => exact done (hfound value rfl)

/-- While an action runs, another number of calls may be under way than around it. -/
theorem around {inside : Nat} {before after : Machine → Machine}
    (hbefore : ∀ m, m.LoopFree calls → (before m).LoopFree inside)
    (hafter : ∀ m, m.LoopFree inside → (after m).LoopFree calls) {run : Nat → Action α}
    (hr : Settles inside expected run) :
    Settles calls expected fun fuel => around before after (run fuel) := by
  intro m hm
  obtain ⟨fuel, result, m', hrun, hm', hexpected⟩ := hr (before m) (hbefore m hm)
  exact ⟨fuel, result, _, fun fuel' hfuel' => around_eq_some.mpr ⟨m', hrun fuel' hfuel', rfl⟩,
    hafter m' hm', hexpected⟩

/-- Where the limit is reached, the action does not have to settle. -/
theorem below {count : Machine → Nat} {limit : Nat} (fault : RuntimeFault) (line : Nat)
    {run : Nat → Action α}
    (hr : (∃ m : Machine, m.LoopFree calls ∧ count m < limit) → Settles calls expected run) :
    Settles calls expected fun fuel => below count limit fault line (run fuel) := by
  intro m hm
  by_cases hlimit : limit ≤ count m
  · exact ⟨0, _, m, fun _ _ => below_of_le hlimit fault line _, hm, by rintro _ ⟨⟩⟩
  · have hlt := Nat.lt_of_not_le hlimit
    obtain ⟨fuel, result, m', hrun, hrest⟩ := hr ⟨m, hm, hlt⟩ m hm
    refine ⟨fuel, result, m', fun fuel' hfuel' => ?_, hrest⟩
    exact (below_of_lt hlt fault line _).trans (hrun fuel' hfuel')

/-- What settles does so in a scope of its own. -/
theorem inScope {run : Nat → Action α} (hr : Settles calls expected run) :
    Settles calls expected fun fuel => inScope (run fuel) := by
  refine around ?_ ?_ hr
  · exact fun m hm => ⟨hm.calls, hm.bound.enter⟩
  · exact fun m hm => ⟨hm.calls, hm.bound.exit⟩

/-- Inside a call, one more call is under way. -/
theorem inCall {run : Nat → Action α} (hr : Settles (calls + 1) expected run) :
    Settles calls expected fun fuel => inCall (run fuel) := by
  refine around ?_ ?_ hr
  · exact fun m hm => ⟨congrArg (· + 1) hm.calls, hm.bound⟩
  · exact fun m hm => ⟨congrArg (· - 1) hm.calls, hm.bound⟩

/-- A call has to settle only where another call is allowed. -/
theorem allowingCall {run : Nat → Action α} (limits : Limits) (line : Nat)
    (hr : calls < limits.maxCalls → Settles calls expected run) :
    Settles calls expected fun fuel => allowingCall limits line (run fuel) := by
  refine below _ line ?_
  rintro ⟨m, hm, hlt⟩
  exact hr (hm.calls ▸ hlt)

/-- What settles does so inside an expression. -/
theorem inExpression {run : Nat → Action α} (limits : Limits) (line : Nat)
    (hr : Settles calls expected run) :
    Settles calls expected fun fuel => inExpression limits line (run fuel) := by
  refine below _ line fun _ => around ?_ ?_ hr
  · exact fun m hm => ⟨hm.calls, hm.bound⟩
  · exact fun m hm => ⟨hm.calls, hm.bound⟩

end Settles

end Action

/-! ## One call -/

namespace Evaluation

open Script.Action

/-- The value of a statement has no loop in it. -/
def flowLoopFree (flow : Flow) : Prop :=
  flow.value.LoopFree

variable {calls : Nat} {evals : Nat → Expr → Action Value} {execs : Nat → Statement → Action Flow}

/-- Statements in a row settle if each of them does. -/
private theorem settles_sequenceFrom {statements : List Statement}
    (hx : ∀ s ∈ statements, Settles calls flowLoopFree fun fuel => execs fuel s) {last : Value}
    (hlast : last.LoopFree) :
    Settles calls flowLoopFree fun fuel => sequenceFrom (execs fuel) last statements := by
  induction statements generalizing last with
  | nil => exact .done hlast
  | cons statement rest ih =>
    obtain ⟨hstatement, hrest⟩ := List.forall_mem_cons.mp hx
    refine .bind hstatement fun flow hflow => ?_
    cases flow with
    | normal value => exact ih hrest hflow
    | returned value => exact .done hflow

/-- Expressions in a row settle if each of them does. -/
private theorem settles_evalAll {exprs : List Expr}
    (he : ∀ e ∈ exprs, Settles calls Value.LoopFree fun fuel => evals fuel e) :
    Settles calls (fun values => ∀ value ∈ values, value.LoopFree)
      fun fuel => evalAll (evals fuel) exprs := by
  induction exprs with
  | nil => exact .done (by simp)
  | cons first rest ih =>
    obtain ⟨hfirst, hrest⟩ := List.forall_mem_cons.mp he
    refine .bind hfirst fun value hvalue => .bind (ih hrest) fun values hvalues => ?_
    exact .done (List.forall_mem_cons.mpr ⟨hvalue, hvalues⟩)

/-- Binding values that are no functions with loops settles. -/
private theorem settles_bindAll (line : Nat) {bindings : List (String × Value)}
    (hb : ∀ binding ∈ bindings, binding.2.LoopFree) :
    Settles calls (fun _ => True) fun _ => bindAll line bindings := by
  induction bindings with
  | nil => exact .done trivial
  | cons binding rest ih =>
    obtain ⟨hbinding, hrest⟩ := List.forall_mem_cons.mp hb
    exact .bind (.define hbinding _ line) fun _ _ => ih hrest

/-- Nothing has no body. -/
private theorem loopFree_null : Value.null.LoopFree :=
  .of_ne_function nofun

/-- A call of a declared function settles if its body does with one more call under way. -/
private theorem settles_callUser {user : UserFunction}
    (hx : ∀ s ∈ user.body, Settles (calls + 1) flowLoopFree fun fuel => execs fuel s)
    {arguments : List Value} (ha : ∀ value ∈ arguments, value.LoopFree) (line : Nat) :
    Settles calls Value.LoopFree fun fuel => callUser (execs fuel) user arguments line := by
  have hparams : ∀ binding ∈ user.parameterNames.zip arguments, binding.2.LoopFree :=
    fun binding hmem => ha _ (List.of_mem_zip hmem).2
  refine .inCall (.inScope (.bind (settles_bindAll line hparams) fun _ _ => ?_))
  refine .bind (settles_sequenceFrom hx loopFree_null) fun flow hflow => ?_
  cases flow with
  | normal value => exact .done loopFree_null
  | returned value => exact .done hflow

/-- A function of the host ends at once, and returns no function with a loop. -/
private theorem settles_callNative {host : Host} (hhost : host.PassesFunctions) (native : Native)
    {arguments : List Value} (ha : ∀ value ∈ arguments, value.LoopFree) (line : Nat) :
    Settles calls Value.LoopFree fun _ => callNative host native arguments line := by
  cases native with
  | print => exact .bind (.write _) fun _ _ => .done loopFree_null
  | assert =>
    refine .ofExcept fun value hvalue => ?_
    rw [Native.eq_null_of_assertion hvalue]
    exact loopFree_null
  | host handle =>
    refine .ofExcept fun value hvalue => ?_
    -- A function that the host returns is one of its arguments.
    rintro function user rfl huser
    exact ha _ (hhost handle arguments line function user hvalue huser) function user rfl huser

/-- A call settles if the statements of declared functions settle inside one more call. -/
private theorem settles_apply {ctx : Context} (hhost : ctx.host.PassesFunctions)
    (hx : calls < ctx.limits.maxCalls → ∀ s, s.LoopFree →
      Settles (calls + 1) flowLoopFree fun fuel => execs fuel s)
    (name : String) {arguments : List Value} (ha : ∀ value ∈ arguments, value.LoopFree)
    (line : Nat) :
    Settles calls Value.LoopFree fun fuel => apply ctx (execs fuel) name arguments line := by
  simp only [apply_eq]
  refine .bind (.meaning name) fun found hfound => ?_
  rcases found with _ | value
  · exact .fail _ _
  cases value with
  | function function =>
    refine .ite (.fail _ _) (.allowingCall _ line fun hlt => ?_)
    cases hcallable : function.callable with
    | user user =>
      -- The function was found under a name, and what is bound has no loop in it.
      have hbody := hfound _ rfl function user rfl hcallable
      exact settles_callUser (fun s hs => hx hlt s (hbody s hs)) ha line
    | native signature native => exact settles_callNative hhost native ha line
  | _ => exact .fail _ _

/-- Evaluation settles, by induction on the expression. -/
theorem settles_eval {ctx : Context} (hhost : ctx.host.PassesFunctions)
    (hx : calls < ctx.limits.maxCalls → ∀ s, s.LoopFree →
      Settles (calls + 1) flowLoopFree fun fuel => exec ctx fuel s) (e : Expr) :
    Settles calls Value.LoopFree fun fuel => eval ctx fuel e := by
  -- An expression is evaluated by its form, with one unit of fuel less.
  have hform (e : Expr) (h : Settles calls Value.LoopFree fun fuel =>
      evalForm ctx (fun e => eval ctx fuel e) (fun s => exec ctx fuel s) e) :
      Settles calls Value.LoopFree fun fuel => eval ctx fuel e :=
    .succ (h.inExpression ctx.limits e.line) fun fuel => by rw [eval]
  induction e with
  | literal value line =>
    exact hform _ (.done (.of_ne_function (Value.ofLiteral_ne_function value)))
  | identifier name line => exact hform _ (.lookup name line)
  | unary op operand line ih =>
    refine hform _ (.bind ih fun value _ => .ofFault fun result hresult => ?_)
    exact .of_ne_function fun _ heq => Operation.unary_ne_function (heq ▸ hresult)
  | binary left op right line ihl ihr =>
    refine hform _ (.bind ihl fun a _ => .bind ihr fun b _ => .ofFault fun result hresult => ?_)
    exact .of_ne_function fun _ heq => Operation.binary_ne_function (heq ▸ hresult)
  | assign name value line ih =>
    exact hform _ (.bind ih fun _ hv => .bind (.assign hv name line) fun _ _ => .done hv)
  | call name arguments line ih =>
    exact hform _ (.bind (settles_evalAll ih) fun _ hvalues =>
      settles_apply hhost hx name hvalues line)

/-- An optional expression settles if every expression does. -/
private theorem settles_evalOptional
    (he : ∀ e, Settles calls Value.LoopFree fun fuel => evals fuel e) (expr : Option Expr) :
    Settles calls Value.LoopFree fun fuel => evalOptional (evals fuel) expr := by
  cases expr with
  | none => exact .done loopFree_null
  | some e => exact he e

/-- An optional statement settles if it does where it is there. -/
private theorem settles_execOptional {statement : Option Statement}
    (hx : ∀ s ∈ statement, Settles calls flowLoopFree fun fuel => execs fuel s) :
    Settles calls flowLoopFree fun fuel => execOptional (execs fuel) statement := by
  cases statement with
  | none => exact .done loopFree_null
  | some s => exact hx s rfl

/-- The statement that is chosen is that of a case or the default. -/
private theorem mem_of_mem_chosen {kind : Kind} {cases : List (Kind × Statement)}
    {default : Option Statement} {s : Statement} (h : s ∈ chosen kind cases default) :
    (∃ c ∈ cases, c.2 = s) ∨ s ∈ default := by
  unfold chosen at h
  split at h
  · rename_i statement hlookup
    cases h
    obtain ⟨before, after, rfl, -⟩ := List.lookup_eq_some_iff.mp hlookup
    exact .inl ⟨(kind, s), by simp, rfl⟩
  · exact .inr h

/-- Execution settles, by induction on the statement. -/
theorem settles_exec {ctx : Context}
    (he : ∀ e, Settles calls Value.LoopFree fun fuel => eval ctx fuel e) {s : Statement}
    (hs : s.LoopFree) : Settles calls flowLoopFree fun fuel => exec ctx fuel s := by
  have hform (s : Statement) (h : Settles calls flowLoopFree fun fuel =>
      execForm fuel (fun e => eval ctx fuel e) (fun s => exec ctx fuel s) s) :
      Settles calls flowLoopFree fun fuel => exec ctx fuel s :=
    .succ h fun fuel => by rw [exec]
  induction hs with
  | declare name init line =>
    exact hform _ (.bind (settles_evalOptional he init) fun _ hv =>
      .bind (.define hv name line) fun _ _ => .done hv)
  | block line _ ih => exact hform _ (.inScope (settles_sequenceFrom ih loopFree_null))
  | branch condition line _ _ ihy ihn =>
    exact hform _ (.bind (he condition) fun _ _ => .ite ihy (settles_execOptional ihn))
  | select subject line _ _ ihc ihd =>
    -- Which statement is chosen depends on the value, but it is always a part of this one.
    refine hform _ (.bind (he subject) fun value _ => settles_execOptional fun s hs => ?_)
    rcases mem_of_mem_chosen hs with ⟨c, hc, rfl⟩ | hd
    · exact ihc c hc
    · exact ihd s hd
  | function name params returnKind line hbody _ =>
    exact hform _ (.bind (.makeFunction hbody) fun _ hv =>
      .bind (.define hv name line) fun _ _ => .done hv)
  | ret value line => exact hform _ (.bind (settles_evalOptional he value) fun _ hv => .done hv)
  | expression value line => exact hform _ (.bind (he value) fun _ hv => .done hv)

/-! ## All calls -/

/-- With a number of calls under way and the rest of the limit left, everything settles. The
    induction is on what is left of the limit. -/
theorem settles_run {ctx : Context} (hhost : ctx.host.PassesFunctions) (left calls : Nat)
    (hleft : ctx.limits.maxCalls ≤ calls + left) {s : Statement} (hs : s.LoopFree) :
    Settles calls flowLoopFree fun fuel => exec ctx fuel s := by
  induction left generalizing calls s with
  | zero =>
    -- No call is allowed any more, so that no function body has to settle.
    exact settles_exec (settles_eval hhost fun hlt => absurd hleft (by omega)) hs
  | succ left ih =>
    exact settles_exec (settles_eval hhost fun _ s hs => ih (calls + 1) (by omega) hs) hs

end Evaluation

/-- A program without loops finishes, with a value or an error, in every session in which no bound
    function has a loop in its body, whatever the functions call, and whatever the limits are. -/
theorem loopFree_program_finishes (ctx : Context) (hhost : ctx.host.PassesFunctions)
    (program : Program) (hprogram : ∀ s ∈ program, s.LoopFree) (s : Session)
    (hbound : s.env.AllBound Value.LoopFree) :
    ∃ result s', Finishes ctx program s result s' := by
  have hsettles : Action.Settles 0 Evaluation.flowLoopFree
      fun fuel => Evaluation.sequence (Evaluation.exec ctx fuel) program :=
    Evaluation.settles_sequenceFrom
      (fun s hs => Evaluation.settles_run hhost ctx.limits.maxCalls 0 (by omega) (hprogram s hs))
      Evaluation.loopFree_null
  obtain ⟨fuel, flow, m', hrun, -⟩ := hsettles (.start s) ⟨rfl, hbound⟩
  exact ⟨_, _, fuel, execute_eq_some.mpr ⟨flow, m', hrun fuel (Nat.le_refl fuel), rfl, rfl⟩⟩

/-- A function that is passed to itself and calls what it is passed, without end. -/
theorem loopFree_program_finishes_self_application :
    let ctx : Context := ⟨{}, fun _ arguments _ => .ok (arguments.headD .null)⟩
    let program : Program :=
      [.function "f" [⟨.function, "g"⟩] .null
        [.ret (some (.call "g" [.identifier "g" 1] 1)) 1] 1,
        .expression (.call "f" [.identifier "f" 2] 2) 2]
    ∃ result s', Finishes ctx program .empty result s' := by
  intro ctx program
  have hhost : ctx.host.PassesFunctions := by
    intro handle arguments line function user hresult _
    cases arguments with
    | nil => cases hresult
    | cons first rest =>
      cases hresult
      exact List.mem_cons_self
  have hprogram : ∀ s ∈ program, s.LoopFree := by
    refine List.forall_mem_cons.mpr ⟨?_, List.forall_mem_singleton.mpr (.expression _ _)⟩
    exact .function _ _ _ _ (List.forall_mem_singleton.mpr (.ret _ _))
  exact loopFree_program_finishes ctx hhost program hprogram .empty .empty

end Script
