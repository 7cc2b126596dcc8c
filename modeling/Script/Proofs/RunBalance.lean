import Script.Proofs.RunCongruence

/-!
# Runs give back what they take

A run opens scopes, counts calls and counts expressions under evaluation, and takes all of it back
before it ends, whether it ends with a value, with a `return` or with an error. `Machine.Restored`
says what is given back, and `Action.Balanced` says that an action gives it back. Every step of a
run does, so that whole runs do.

## Key results

- `Machine.Restored.inScope`: closing a scope undoes opening it, whatever happens inside
- `Environment.BindingRelation.restoredWith`: what follows for a relation between the environments
  before and behind a run
- `balanced_eval_exec`: evaluating an expression and executing a statement are balanced
- `evaluation_restores_shape`: the same for statement lists and blocks, spelled out
-/

namespace Script

/-! ## Environments that a host can build -/

/-- The environments that can be made from the empty one by the operations on environments. -/
inductive Environment.Reachable : Environment → Prop where
  | empty : Reachable .empty
  | enter {env : Environment} : Reachable env → Reachable env.enter
  | exit {env : Environment} : Reachable env → Reachable env.exit
  | define {env env' : Environment} {name : String} {value : Value} :
      Reachable env → env.define? name value = some env' → Reachable env'
  | assign {env env' : Environment} {name : String} {value : Value} :
      Reachable env → env.assign? name value = some env' → Reachable env'
  | undefine {env : Environment} (name : String) :
      Reachable env → Reachable (env.undefine name).2
  | clear {env : Environment} : Reachable env → Reachable env.clear

namespace Environment

/-- Changing a frame removes none and adds none. -/
@[simp] theorem depth_update (env : Environment) (index : Nat) (change : Frame → Frame) :
    (env.update index change).depth = env.depth := by
  simp [update, depth]

/-- And the current frame is the same one. -/
@[simp] theorem current_update (env : Environment) (index : Nat) (change : Frame → Frame) :
    (env.update index change).current = env.current := rfl

/-- Changing the bindings of a frame changes no parent. -/
theorem parents_update (env : Environment) (index : Nat) {change : Frame → Frame}
    (hc : ∀ f, (change f).parent = f.parent) :
    (env.update index change).parents = env.parents := by
  apply List.ext_getElem
  · simp [parents, update]
  · intro i h₁ h₂
    simp only [parents, update, List.getElem_map, Array.getElem_toList, Array.getElem_modify]
    -- The changed frame has its parent still, and the others are not touched.
    split
    · exact hc _
    · rfl

/-- A new name is added to the current frame. -/
theorem define?_eq_some {env env' : Environment} {name : String} {value : Value}
    (h : env.define? name value = some env') :
    env' = env.update env.current (·.add name value) := by
  unfold define? at h
  split at h
  · exact nomatch h
  · exact (Option.some.inj h).symm

/-- Another value replaces the old one in some frame. -/
theorem assign?_eq_some {env env' : Environment} {name : String} {value : Value}
    (h : env.assign? name value = some env') :
    ∃ index, env' = env.update index (·.replace name value) := by
  obtain ⟨index, -, rfl⟩ := Option.map_eq_some_iff.mp h
  exact ⟨index, rfl⟩

/-- There is always an outermost frame. -/
theorem Reachable.depth_pos {env : Environment} (h : env.Reachable) : 0 < env.depth := by
  induction h with
  | empty => decide
  | enter _ _ => simp [Environment.enter, depth]
  | exit _ ih =>
    unfold Environment.exit
    split
    · exact ih -- the last frame is never removed
    · simp only [depth, Array.size_pop]; omega
  | define _ h ih => rw [define?_eq_some h, depth_update]; exact ih
  | assign _ h ih =>
    obtain ⟨index, rfl⟩ := assign?_eq_some h
    rw [depth_update]; exact ih
  | undefine name _ ih => simpa [Environment.undefine] using ih
  | clear _ ih =>
    simp only [depth] at ih
    simp [Environment.clear, depth]; omega

/-- A scope that is opened is one frame more. -/
@[simp] theorem depth_enter (env : Environment) : env.enter.depth = env.depth + 1 := by
  simp [enter, depth]

/-- A scope that is closed is one frame less. -/
theorem depth_exit {env : Environment} (h : 1 < env.depth) : env.exit.depth = env.depth - 1 := by
  have hnot : ¬ env.frames.size ≤ 1 := Nat.not_le_of_lt h
  simp [exit, hnot, depth]

/-- Closing a scope gives back the current frame and the parents that stood before it was opened,
    if the frames have changed in nothing but their bindings in between. -/
private theorem exit_of_enter {env inner : Environment} (hpos : 0 < env.depth)
    (hpar : inner.parents = env.enter.parents) :
    inner.exit.current = env.current ∧ inner.exit.parents = env.parents := by
  simp only [parents, enter, Array.toList_push, List.map_append] at hpar
  have hsize : inner.frames.size = env.frames.size + 1 := by
    simpa using congrArg List.length hpar
  -- The parent of the innermost frame is the frame that was current before.
  have hlast : inner.frames.back?.bind Frame.parent = some env.current := by
    have hb := congrArg List.getLast? hpar
    simp only [List.getLast?_map, Array.getLast?_toList] at hb
    cases hf : inner.frames.back? with
    | none => simp [hf] at hb
    | some f => simpa [hf] using hb
  -- The outermost frame stays, so that there is a frame to remove.
  have hnot : ¬ inner.frames.size ≤ 1 := by simp only [depth] at hpos; omega
  refine ⟨?_, ?_⟩
  · -- So the current frame behind the closing is that one.
    simp [exit, hnot, hlast]
  · simpa [exit, hnot, parents, List.map_dropLast] using congrArg List.dropLast hpar

end Environment

/-! ## Balanced actions -/

/-- What a run gives back: the calls and expressions under way, the current frame and the parents
    of all frames. The bindings may have changed, by operations that a host has too. -/
structure Machine.Restored (before after : Machine) : Prop where
  calls : after.calls = before.calls
  nesting : after.nesting = before.nesting
  current : after.env.current = before.env.current
  parents : after.env.parents = before.env.parents
  reachable : before.env.Reachable → after.env.Reachable

namespace Machine.Restored

/-- Where nothing happens, everything is given back. -/
theorem refl (m : Machine) : m.Restored m := ⟨rfl, rfl, rfl, rfl, id⟩

/-- What two runs give back is given back by one after the other. -/
theorem trans {m₁ m₂ m₃ : Machine} (h₁ : m₁.Restored m₂) (h₂ : m₂.Restored m₃) :
    m₁.Restored m₃ :=
  ⟨h₂.calls.trans h₁.calls, h₂.nesting.trans h₁.nesting, h₂.current.trans h₁.current,
    h₂.parents.trans h₁.parents, h₂.reachable ∘ h₁.reachable⟩

/-- The parents of all frames are given back, and so is their number. -/
theorem depth {m m' : Machine} (h : m.Restored m') : m'.env.depth = m.env.depth := by
  simpa [Environment.parents, Environment.depth] using congrArg List.length h.parents

/-- Inside of a scope there is one frame more. -/
theorem depth_inside {m m' : Machine} (h : Restored { m with env := m.env.enter } m') :
    m'.env.depth = m.env.depth + 1 := by
  rw [h.depth, Environment.depth_enter]

/-- Binding a name changes nothing but the bindings of the current frame. -/
theorem define {m : Machine} {name : String} {value : Value} {env : Environment}
    (hdef : m.env.define? name value = some env) : m.Restored { m with env := env } := by
  have henv := Environment.define?_eq_some hdef
  refine ⟨rfl, rfl, ?_, ?_, fun hm => .define hm hdef⟩
  · show env.current = m.env.current
    rw [henv, Environment.current_update]
  · show env.parents = m.env.parents
    rw [henv]
    exact Environment.parents_update _ _ fun _ => rfl

/-- Giving a name another value changes nothing but the bindings of one frame. -/
theorem assign {m : Machine} {name : String} {value : Value} {env : Environment}
    (hasg : m.env.assign? name value = some env) : m.Restored { m with env := env } := by
  obtain ⟨index, henv⟩ := Environment.assign?_eq_some hasg
  refine ⟨rfl, rfl, ?_, ?_, fun hm => .assign hm hasg⟩
  · show env.current = m.env.current
    rw [henv, Environment.current_update]
  · show env.parents = m.env.parents
    rw [henv]
    exact Environment.parents_update _ _ fun _ => rfl

/-- Closing a scope undoes opening it, whatever happens inside. -/
theorem inScope {m m' : Machine} (hm : m.env.Reachable)
    (h : Restored { m with env := m.env.enter } m') :
    m.Restored { m' with env := m'.env.exit } := by
  -- The frames inside differ from those behind `enter` in their bindings only.
  obtain ⟨hcur, hpar⟩ := Environment.exit_of_enter hm.depth_pos h.parents
  exact ⟨h.calls, h.nesting, hcur, hpar, fun h' => .exit (h.reachable (.enter h'))⟩

/-- The count of calls is taken back behind a call. -/
theorem inCall {m m' : Machine} (h : Restored { m with calls := m.calls + 1 } m') :
    m.Restored { m' with calls := m'.calls - 1 } :=
  ⟨by simp [h.calls], h.nesting, h.current, h.parents, h.reachable⟩

/-- The count of expressions is taken back behind an expression. -/
theorem inExpression {m m' : Machine} (h : Restored { m with nesting := m.nesting + 1 } m') :
    m.Restored { m' with nesting := m'.nesting - 1 } :=
  ⟨h.calls, by simp [h.nesting], h.current, h.parents, h.reachable⟩

/-- Every step gives back what it takes, in an environment that a host can build. -/
theorem stepRelation : StepRelation (fun m m' => m.env.Reachable → m.Restored m') where
  refl m _ := refl m
  trans h₁ h₂ hm := (h₁ hm).trans (h₂ ((h₁ hm).reachable hm))
  define hdef _ := define hdef
  assign hasg _ := assign hasg
  write _ _ _ := ⟨rfl, rfl, rfl, rfl, id⟩
  makeFunction _ _ := ⟨rfl, rfl, rfl, rfl, id⟩
  inScope h hm := inScope hm (h (.enter hm))
  inCall h hm := inCall (h hm)
  inExpression h hm := inExpression (h hm)

end Machine.Restored

/-! ## What balanced runs do to environments -/

/-- In an environment that a host can build, a run gives back what it takes, and the environment
    behind it stands in a relation to the one before it. -/
def Machine.RestoredWith (Q : Environment → Environment → Prop) (before after : Machine) : Prop :=
  before.env.Reachable → before.Restored after ∧ Q before.env after.env

/-- A relation between environments before and after, which holds of declarations, and of an opening
    and the matching closing if it holds of what lies between them. -/
structure Environment.BindingRelation (Q : Environment → Environment → Prop) : Prop where
  refl (env : Environment) : Q env env
  trans {env₁ env₂ env₃ : Environment} : Q env₁ env₂ → Q env₂ env₃ → Q env₁ env₃
  define {env env' : Environment} {name : String} {value : Value} :
    env.Reachable → env.define? name value = some env' → Q env env'
  inScope {env inner : Environment} :
    env.Reachable → inner.depth = env.depth + 1 → Q env.enter inner → Q env inner.exit

section RestoredWith

variable {Q : Environment → Environment → Prop}

/-- Expressions change an environment only where they assign to names and call functions. -/
theorem Machine.RestoredWith.exprRelation (hrefl : ∀ env, Q env env)
    (htrans : ∀ {env₁ env₂ env₃}, Q env₁ env₂ → Q env₂ env₃ → Q env₁ env₃) :
    ExprRelation (RestoredWith Q) where
  refl m _ := ⟨.refl m, hrefl m.env⟩
  trans h₁ h₂ hm := by
    obtain ⟨hr₁, hq₁⟩ := h₁ hm
    obtain ⟨hr₂, hq₂⟩ := h₂ (hr₁.reachable hm)
    exact ⟨hr₁.trans hr₂, htrans hq₁ hq₂⟩
  write m text hm := ⟨Restored.stepRelation.write m text hm, hrefl m.env⟩
  inExpression h hm := ⟨.inExpression (h hm).1, (h hm).2⟩

/-- What holds of declarations and of scopes holds of all statements that give no name another
    value. -/
theorem Environment.BindingRelation.restoredWith (h : Environment.BindingRelation Q) :
    Machine.BindingRelation (Machine.RestoredWith Q) where
  toExprRelation := Machine.RestoredWith.exprRelation h.refl h.trans
  define hdef hm := ⟨.define hdef, h.define hm hdef⟩
  makeFunction m hm := ⟨Machine.Restored.stepRelation.makeFunction m hm, h.refl m.env⟩
  inScope hinside hm := by
    obtain ⟨hr, hq⟩ := hinside (.enter hm)
    exact ⟨.inScope hm hr, h.inScope hm hr.depth_inside hq⟩
  inCall hinside hm := ⟨.inCall (hinside hm).1, (hinside hm).2⟩

end RestoredWith

namespace Action

variable {α β : Type}

/-- An action that gives back what it takes, however it ends. -/
def Balanced (action : Action α) : Prop :=
  ∀ m result m', m.env.Reachable → action m = some (result, m') → m.Restored m'

namespace Balanced

/-- An action that keeps what is given back is balanced. -/
private theorem of_keeps {action : Action α}
    (h : Keeps (fun m m' => m.env.Reachable → m.Restored m') action) : Balanced action :=
  fun m result m' hm hrun => h m result m' hrun hm

/-- A value is a balanced action, since nothing happens. -/
theorem done (a : α) : Balanced (Action.done a) := by
  intro m result m' _ h
  cases h
  exact .refl m

/-- A step and what follows it are balanced together: an error of the step ends both. -/
theorem bind {step : Action α} {next : α → Action β} (hs : Balanced step)
    (hn : ∀ a, Balanced (next a)) : Balanced (step >>= next) := by
  intro m result m' hm h
  rcases bind_eq_some.mp h with ⟨e, hstep, -⟩ | ⟨a, m₁, hstep, hnext⟩
  · exact hs m _ m' hm hstep
  · have h₁ := hs m _ m₁ hm hstep
    exact h₁.trans (hn a m₁ result m' (h₁.reachable hm) hnext)

/-- A scope around a balanced action is balanced. -/
theorem inScope {action : Action α} (ha : Balanced action) : Balanced (inScope action) := by
  intro m result m' hm h
  obtain ⟨m₁, hin, rfl⟩ := around_eq_some.mp h
  exact .inScope hm (ha _ result m₁ (.enter hm) hin)

end Balanced

end Action

/-! ## Whole runs -/

namespace Evaluation

open Script.Action (Balanced)

/-- Statements in order are balanced if each of them is. -/
private theorem balanced_sequence {exec : Statement → Action Flow} (hx : ∀ s, Balanced (exec s))
    (statements : List Statement) : Balanced (sequence exec statements) := by
  rw [sequence]
  generalize Value.null = last
  induction statements generalizing last with
  | nil => exact .done _
  | cons statement rest ih =>
    refine .bind (hx statement) fun flow => ?_
    -- Statements behind one that returns are not executed.
    cases flow with
    | normal value => exact ih value
    | returned value => exact .done _

/-- Evaluating an expression and executing a statement are balanced. -/
theorem balanced_eval_exec (ctx : Context) (fuel : Nat) :
    (∀ e, Balanced (eval ctx fuel e)) ∧ (∀ s, Balanced (exec ctx fuel s)) := by
  -- What every step gives back is given back by whole runs.
  have hkeeps := (Machine.Restored.stepRelation.congruence ctx).eval_exec (Nat.le_refl fuel)
  exact ⟨fun e => .of_keeps (hkeeps.1 e), fun s => .of_keeps (hkeeps.2 s)⟩

/-- A run leads to an environment that a host can build. -/
theorem reachable_of_execute {ctx : Context} {fuel : Nat} {program : Program} {s s' : Session}
    {result : Except RuntimeError Value} (hs : s.env.Reachable)
    (hrun : execute ctx fuel program s = some (result, s')) : s'.env.Reachable := by
  unfold execute at hrun
  split at hrun
  · cases hrun
  · rename_i flow m hsequence
    cases hrun
    exact (balanced_sequence (balanced_eval_exec ctx fuel).2 program _ flow m hs
      hsequence).reachable hs

/-- Whenever the evaluation of an expression or the execution of a statement, of statements in
    order or of a block ends, with a value, a `return` or an error, the calls and expressions under
    way, the number of frames, the current frame and all parents are what they were before, and the
    environment is again one that a host can build. -/
theorem evaluation_restores_shape (ctx : Context) (fuel : Nat) (m m' : Machine)
    (hm : m.env.Reachable)
    (hrun : (∃ e r, eval ctx fuel e m = some (r, m')) ∨
      (∃ s r, exec ctx fuel s m = some (r, m')) ∨
      (∃ ss r, sequence (exec ctx fuel) ss m = some (r, m')) ∨
      (∃ ss r, execBlock ctx fuel ss m = some (r, m'))) :
    m'.calls = m.calls ∧ m'.nesting = m.nesting ∧ m'.env.depth = m.env.depth ∧
      m'.env.current = m.env.current ∧ m'.env.parents = m.env.parents ∧ m'.env.Reachable := by
  obtain ⟨he, hx⟩ := balanced_eval_exec ctx fuel
  -- All four ways of running are balanced.
  have hr : m.Restored m' := by
    rcases hrun with ⟨e, r, h⟩ | ⟨s, r, h⟩ | ⟨ss, r, h⟩ | ⟨ss, r, h⟩
    · exact he e m r m' hm h
    · exact hx s m r m' hm h
    · exact balanced_sequence hx ss m r m' hm h
    · exact Balanced.inScope (balanced_sequence hx ss) m r m' hm h
  exact ⟨hr.calls, hr.nesting, hr.depth, hr.current, hr.parents, hr.reachable hm⟩

/-- A call whose body fails inside a block, from a machine that is in the middle of a run. -/
theorem evaluation_restores_shape_failing_call :
    let ctx : Context := ⟨{}, fun _ _ line => .error ⟨.assertionFailed, line⟩⟩
    let m : Machine := { env := .enter .empty, output := "", fresh := 0, calls := 1, nesting := 2 }
    let failing : Statement := .block
      [.function "f" [⟨.integer, "x"⟩] .integer [.block [.expression (.identifier "y" 1) 1] 1] 1,
        .expression (.call "f" [.literal .null 2] 2) 2] 1
    ∃ e m', exec ctx 9 failing m = some (.error e, m') ∧
      m'.calls = 1 ∧ m'.nesting = 2 ∧ m'.env.depth = 2 ∧ m'.env.current = 1 ∧
        m'.env.parents = [none, some 0] ∧ m'.env.Reachable := by
  intro ctx m failing
  have hfail : (exec ctx 9 failing m).map (·.1.toBool) = some false := by decide +kernel
  obtain ⟨⟨r, m'⟩, h, hr⟩ := Option.map_eq_some_iff.mp hfail
  cases r with
  | ok flow => cases hr
  | error e =>
    exact ⟨e, m', h,
      evaluation_restores_shape ctx 9 m m' (.enter .empty) (.inr (.inl ⟨failing, _, h⟩))⟩

end Evaluation

end Script
