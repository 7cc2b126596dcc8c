import Script.Evaluation

/-!
# What actions do

For each way of building actions, the outcomes that it can have: `bind` ends with the error of its
first part or as its second part ends, a binding succeeds or leaves the machine alone, and so on.
Proofs about runs take an outcome apart with these lemmas and open no definition.

The actions that differ only in what they ask of the machine are members of a family here: a binding
changes the environment if that is possible (`changing`), and a call or an expression is refused
where a count has reached its limit (`below`). The evaluator also reads the machine to find what a
name means, which is `meaning`. The equations `lookup_eq`, `apply_eq` and so on put the rules in
these terms.
-/

namespace Script

namespace Action

variable {α β : Type}

/-! ## Families of actions -/

/-- Reads what a name means. -/
def meaning (name : String) : Action (Option Value) :=
  fun m => some (.ok (m.env.get? name), m)

/-- Changes the environment, or fails where the change is not possible. -/
def changing (change : Environment → Option Environment) (fault : RuntimeFault) (line : Nat) :
    Action Unit := do
  match change (← get).env with
  | some env => modify (fun m => { m with env := env })
  | none => fail fault line

/-- Runs an action unless a count has reached its limit. -/
def below (count : Machine → Nat) (limit : Nat) (fault : RuntimeFault) (line : Nat)
    (action : Action α) : Action α := do
  if limit ≤ count (← get) then fail fault line else action

/-- Runs an action unless the limit of calls is reached. -/
def allowingCall (limits : Limits) (line : Nat) (action : Action α) : Action α :=
  below Machine.calls limits.maxCalls (.callDepthExceeded limits.maxCalls) line action

/-- Counts one more expression under evaluation while an action runs. -/
def nested (action : Action α) : Action α :=
  around (fun m => { m with nesting := m.nesting + 1 })
    (fun m => { m with nesting := m.nesting - 1 }) action

/-- To look a name up is to read its meaning, and to fail if it has none. -/
theorem lookup_eq (name : String) (line : Nat) :
    lookup name line = meaning name >>= fun
      | some value => done value
      | none => fail (.unboundIdentifier name) line := rfl

/-- To bind a new name is a change that fails where the name is bound already. -/
theorem define_eq (name : String) (value : Value) (line : Nat) :
    define name value line =
      changing (·.define? name value) (.redeclaredIdentifier name) line := rfl

/-- To give a name another value is a change that fails where the name is not bound. -/
theorem assign_eq (name : String) (value : Value) (line : Nat) :
    assign name value line = changing (·.assign? name value) (.unboundIdentifier name) line := rfl

/-- An expression is evaluated below the limit of nesting, one level further in. -/
theorem inExpression_eq (limits : Limits) (line : Nat) (action : Action α) :
    inExpression limits line action =
      below Machine.nesting limits.maxNesting (.nestingTooDeep limits.maxNesting) line
        (nested action) := rfl

/-! ## Outcomes -/

/-- A sequence of two steps ends with the error of the first, or as the second ends. -/
theorem bind_eq_some {step : Action α} {next : α → Action β} {m m' : Machine}
    {result : Except RuntimeError β} :
    (step >>= next) m = some (result, m') ↔
      (∃ e, step m = some (.error e, m') ∧ result = .error e) ∨
      (∃ a m₁, step m = some (.ok a, m₁) ∧ next a m₁ = some (result, m')) := by
  simp only [Bind.bind, andThen]
  rcases hstep : step m with _ | ⟨e | a, m₁⟩
  · -- Out of fuel: neither side has an outcome.
    simp
  · constructor
    · rintro ⟨⟩
      exact .inl ⟨e, rfl, rfl⟩
    · rintro (⟨_, ⟨⟩, rfl⟩ | ⟨_, _, ⟨⟩, _⟩)
      rfl
  · constructor
    · exact fun h => .inr ⟨a, m₁, rfl, h⟩
    · rintro (⟨_, ⟨⟩, _⟩ | ⟨_, _, ⟨⟩, h⟩)
      exact h

/-- What surrounds an action is done to the machine before and after it, also where it fails. -/
theorem around_eq_some {before after : Machine → Machine} {action : Action α} {m m' : Machine}
    {result : Except RuntimeError α} :
    around before after action m = some (result, m') ↔
      ∃ m₁, action (before m) = some (result, m₁) ∧ m' = after m₁ := by
  simp only [around]
  rcases action (before m) with _ | ⟨r, m₁⟩
  · simp
  · constructor
    · rintro ⟨⟩
      exact ⟨m₁, rfl, rfl⟩
    · rintro ⟨_, ⟨⟩, rfl⟩
      rfl

/-- A change of the environment is made, or it fails and nothing changes. -/
theorem changing_eq_some {change : Environment → Option Environment} {fault : RuntimeFault}
    {line : Nat} {m m' : Machine} {result : Except RuntimeError Unit} :
    changing change fault line m = some (result, m') ↔
      (∃ env, change m.env = some env ∧ result = .ok () ∧ m' = { m with env := env }) ∨
      (change m.env = none ∧ result = .error ⟨fault, line⟩ ∧ m' = m) := by
  simp only [changing, Bind.bind, andThen, get]
  cases change m.env <;> simp [modify, fail, eq_comm]

variable {count : Machine → Nat} {limit : Nat} {m : Machine}

/-- Where the count has reached the limit, the action is refused and nothing changes. -/
theorem below_of_le (h : limit ≤ count m) (fault : RuntimeFault) (line : Nat)
    (action : Action α) :
    below count limit fault line action m = some (.error ⟨fault, line⟩, m) := by
  simp [below, Bind.bind, andThen, get, h, fail]

/-- Below the limit, nothing but the action is done. -/
theorem below_of_lt (h : count m < limit) (fault : RuntimeFault) (line : Nat)
    (action : Action α) : below count limit fault line action m = action m := by
  simp [below, Bind.bind, andThen, get, Nat.not_le_of_lt h]

end Action

/-! ## Rules in terms of `bind` -/

namespace Evaluation

open Script.Action

/-- A call finds the function first, then compares the arguments with its signature, and only then
    is refused if too many calls are under way. -/
theorem apply_eq (ctx : Context) (exec : Statement → Action Flow) (name : String)
    (arguments : List Value) (line : Nat) :
    apply ctx exec name arguments line = meaning name >>= fun
      | some (.function function) =>
        let call := Signature.ofCall name arguments
        if ¬ accepts function.callable call arguments.length then
          fail (.argumentMismatch function.callable.signature call) line
        else
          allowingCall ctx.limits line <|
            match function.callable with
            | .user user => callUser exec user arguments line
            | .native _ native => callNative ctx.host native arguments line
      | _ => fail (.unknownFunction name) line := rfl

/-- What a declared function does in the scope of its call. -/
def runBody (exec : Statement → Action Flow) (function : UserFunction) (arguments : List Value)
    (line : Nat) : Action Value :=
  bindAll line (function.parameterNames.zip arguments) >>= fun _ =>
    sequence exec function.body >>= fun
      | .returned value => done value
      | .normal _ => done .null

/-- A declared function runs in a scope of its own, inside a call. -/
theorem callUser_eq (exec : Statement → Action Flow) (function : UserFunction)
    (arguments : List Value) (line : Nat) :
    callUser exec function arguments line =
      inCall (inScope (runBody exec function arguments line)) := rfl

/-- One round of a loop: the body runs if the condition holds, and unless it returns, the loop
    starts over. -/
theorem repeatWhile_succ (condition : Action Value) (body : Action Flow) (fuel : Nat) :
    repeatWhile condition body (fuel + 1) = condition >>= fun value =>
      if value.holds then
        body >>= fun
          | .normal _ => repeatWhile condition body fuel
          | .returned value => done (.returned value)
      else
        done (.normal .null) := by
  funext m
  simp only [repeatWhile, Bind.bind, andThen]
  cases condition m with
  | none => rfl
  | some p =>
    obtain ⟨r, m₁⟩ := p
    cases r with
    | error e => rfl
    | ok value =>
      -- The condition has a value, and only a value that holds goes on to the body.
      by_cases hv : value.holds
      · simp only [hv, if_true, andThen]
        rcases body m₁ with _ | ⟨e | flow, m₂⟩
        · rfl
        · rfl
        · cases flow <;> rfl
      · simp [hv, done]

end Evaluation

end Script
