import Mathlib.Data.Set.Defs
import Script.Proofs.BoundValues

/-!
# Which names a run binds

A declaration binds its name in the current frame, and nothing removes a binding but the end of the
scope that it stands in. So statements add names to the current frame and to no other one. A call
binds its parameters and runs its body in a frame of its own, which is gone behind it, and nothing
else in an expression declares anything: expressions and blocks leave the names of all frames as
they were. An error changes nothing of this, since scopes are closed behind errors too.

## Key results

- `stepRelation_moreNames`: what every step does to the names
- `keepsNames_eval`: evaluating an expression leaves all names in place
- `bound_names_kept`: both, for all that can be run
-/

namespace Script

/-- The names that the frame at an index binds. -/
def Environment.names (env : Environment) (index : Nat) : Set String :=
  { name | (env.binding index name).isSome }

/-- Names are compared one by one. -/
private theorem Environment.names_eq {env env' : Environment} {index : Nat}
    (h : ∀ name, (env'.binding index name).isSome = (env.binding index name).isSome) :
    env'.names index = env.names index := by
  apply Set.ext
  intro name
  show (env'.binding index name).isSome = true ↔ (env.binding index name).isSome = true
  rw [h name]

/-! ## What steps do to names -/

namespace Environment

/-- Every frame binds the names that it bound before. -/
def SameNames (before after : Environment) : Prop :=
  ∀ index, after.names index = before.names index

/-- The innermost frame may bind more names than before, and every other frame binds the names that
    it bound before. -/
structure MoreNames (before after : Environment) : Prop where
  depth : after.depth = before.depth
  others : ∀ index, index + 1 ≠ before.depth → after.names index = before.names index
  gained : ∀ index, before.names index ⊆ after.names index

variable {env env' inner : Environment} {name : String} {value : Value}

/-- An environment binds the names that it binds. -/
theorem SameNames.refl (env : Environment) : env.SameNames env :=
  fun _ => rfl

/-- What stays the same twice stays the same. -/
theorem SameNames.trans {env₁ env₂ env₃ : Environment} (h₁ : env₁.SameNames env₂)
    (h₂ : env₂.SameNames env₃) : env₁.SameNames env₃ :=
  fun index => (h₂ index).trans (h₁ index)

/-- An assignment binds no new name. -/
theorem SameNames.assign (h : env.assign? name value = some env') : env.SameNames env' :=
  fun _ => names_eq fun _ => isSome_binding_assign h

/-- What is declared inside of a scope is gone behind it: the frames around it were not current, and
    the frame that was current is closed. -/
theorem SameNames.inScope (hm : env.Reachable) (hdepth : inner.depth = env.depth + 1)
    (h : env.enter.MoreNames inner) : env.SameNames inner.exit := by
  -- The frames that are left bind the names that they bound on entering the scope.
  intro index
  apply names_eq
  intro name
  rw [binding_exit hm.depth_pos hdepth]
  split
  · rename_i hindex
    have hnames := h.others index (by rw [depth_enter]; omega)
    have hname : (inner.binding index name).isSome = true ↔
        (env.enter.binding index name).isSome = true := Set.ext_iff.mp hnames name
    rwa [binding_enter, ← Bool.eq_iff_iff] at hname
  · rename_i hindex
    rw [binding_eq_none (Nat.le_of_not_lt hindex)]

/-- Names that stay the same are a case of names that may be gained. -/
private theorem SameNames.moreNames (h : env.SameNames env') (hdepth : env'.depth = env.depth) :
    env.MoreNames env' :=
  ⟨hdepth, fun index _ => h index, fun index _ hname => (h index).symm ▸ hname⟩

/-- A declaration binds its name in the innermost frame. -/
theorem MoreNames.define (hm : env.Reachable) (h : env.define? name value = some env') :
    env.MoreNames env' := by
  refine ⟨?_, fun index hindex => ?_, fun index other hother => ?_⟩
  · rw [define?_eq_some h, depth_update]
  · -- The current frame is the innermost one.
    have hcurrent := hm.stacked.current
    apply names_eq
    intro other
    rw [binding_define_of_ne h (by omega)]
  · obtain ⟨found, hfound⟩ := Option.isSome_iff_exists.mp hother
    exact Option.isSome_iff_exists.mpr ⟨found, binding_define_of_some h hfound⟩

/-- What is gained stays gained. -/
theorem MoreNames.trans {env₁ env₂ env₃ : Environment} (h₁ : env₁.MoreNames env₂)
    (h₂ : env₂.MoreNames env₃) : env₁.MoreNames env₃ := by
  refine ⟨h₂.depth.trans h₁.depth, fun index hindex => ?_, fun index name hname => ?_⟩
  · rw [h₂.others index (h₁.depth ▸ hindex), h₁.others index hindex]
  · exact h₂.gained index (h₁.gained index hname)

/-- Gaining names in the innermost frame is kept by declarations and by scopes. -/
theorem MoreNames.bindingRelation : BindingRelation MoreNames where
  refl env := (SameNames.refl env).moreNames rfl
  trans h₁ h₂ := h₁.trans h₂
  define hm h := .define hm h
  inScope hm hdepth h := by
    have hpos := hm.depth_pos
    apply (SameNames.inScope hm hdepth h).moreNames
    rw [depth_exit (by omega), hdepth, Nat.add_sub_cancel]

end Environment

/-! ## Whole runs -/

namespace Action

variable {α : Type}

/-- An action that leaves the names of all frames as they were, however it ends. -/
abbrev KeepsNames : Action α → Prop :=
  Keeps (Machine.RestoredWith Environment.SameNames)

/-- An action that adds names to the innermost frame at most, however it ends. -/
abbrev AddsNames : Action α → Prop :=
  Keeps (Machine.RestoredWith Environment.MoreNames)

/-- A scope around what adds names keeps the names: those added are gone behind it. -/
theorem AddsNames.inScope {action : Action α} (h : AddsNames action) :
    KeepsNames (inScope action) := by
  refine Machine.keeps_around (fun m m' hinside hm => ?_) h
  obtain ⟨hr, hmore⟩ := hinside (.enter hm)
  exact ⟨.inScope hm hr, .inScope hm hr.depth_inside hmore⟩

/-- Counting a call does not touch the names. -/
theorem KeepsNames.inCall {action : Action α} (h : KeepsNames action) :
    KeepsNames (inCall action) :=
  Machine.keeps_around (fun _ _ hinside hm => ⟨.inCall (hinside hm).1, (hinside hm).2⟩) h

end Action

/-- The evaluation of an expression, but for assignments and calls. -/
private theorem exprRelation_sameNames :
    Machine.ExprRelation (Machine.RestoredWith Environment.SameNames) :=
  Machine.RestoredWith.exprRelation .refl .trans

/-- Every step of a run adds names to the innermost frame at most. -/
theorem stepRelation_moreNames :
    Machine.StepRelation (Machine.RestoredWith Environment.MoreNames) where
  toBindingRelation := Environment.MoreNames.bindingRelation.restoredWith
  assign hasg _ := by
    have hr := Machine.Restored.assign hasg
    exact ⟨hr, (Environment.SameNames.assign hasg).moreNames hr.depth⟩

namespace Evaluation

open Script.Action

/-- Executing a statement, or statements in order, adds names to the innermost frame at most. -/
private theorem addsNames_exec (ctx : Context) (fuel : Nat) (s : Statement) :
    AddsNames (exec ctx fuel s) :=
  ((stepRelation_moreNames.congruence ctx).eval_exec (Nat.le_refl fuel)).2 s

/-- Statements in a row add names to the innermost frame only. -/
private theorem addsNames_sequence (ctx : Context) (fuel : Nat) (ss : List Statement) :
    AddsNames (sequence (exec ctx fuel) ss) :=
  (stepRelation_moreNames.congruence ctx).sequence (Nat.le_refl fuel) ss

/-- A call binds its parameters, and what its body declares, in a scope of its own. -/
private theorem keepsNames_callUser (ctx : Context) (fuel : Nat) (function : UserFunction)
    (arguments : List Value) (line : Nat) :
    KeepsNames (callUser (exec ctx fuel) function arguments line) := by
  have hbody := stepRelation_moreNames.keeps_runBody ctx (addsNames_exec ctx fuel) function
    arguments line
  rw [callUser_eq]
  exact (AddsNames.inScope hbody).inCall

/-- An assignment keeps the names, whether it succeeds or not. -/
private theorem keepsNames_assign (name : String) (value : Value) (line : Nat) :
    KeepsNames (assign name value line) := by
  rw [assign_eq]
  exact exprRelation_sameNames.keeps_changing (fun _ _ hasg _ => ⟨.assign hasg, .assign hasg⟩) _
    line

/-- Evaluating an expression leaves all names in place. Only calls declare anything, and the
    statements of their bodies run with less fuel. -/
theorem keepsNames_eval (ctx : Context) (fuel : Nat) (e : Expr) : KeepsNames (eval ctx fuel e) := by
  induction fuel generalizing e with
  | zero =>
    intro m result m' hrun
    rw [eval] at hrun
    cases hrun
  | succ fuel ih =>
    have hform := exprRelation_sameNames.keeps_evalForm ctx ih (keepsNames_callUser ctx fuel)
      fun name _ line (_ : e = _) value => keepsNames_assign name value line
    rw [eval]
    exact exprRelation_sameNames.keeps_inExpression ctx.limits e.line hform

/-- A block keeps the names. -/
private theorem keepsNames_execBlock (ctx : Context) (fuel : Nat) (ss : List Statement) :
    KeepsNames (execBlock ctx fuel ss) :=
  (addsNames_sequence ctx fuel ss).inScope

/-- The execution of a block as a statement. -/
private theorem keepsNames_exec_block (ctx : Context) (fuel : Nat) (ss : List Statement)
    (line : Nat) :
    KeepsNames (exec ctx fuel (.block ss line)) := by
  cases fuel with
  | zero =>
    intro m result m' hrun
    rw [exec] at hrun
    cases hrun
  | succ fuel =>
    rw [exec]
    exact keepsNames_execBlock ctx fuel ss

/-- Whenever the evaluation of an expression or the execution of a block ends, with a value, a
    `return` or an error, every frame binds exactly the names that it bound before. Whenever the
    execution of a statement or of statements in order ends, in whichever way, the same holds of
    every frame but the current one, and the current frame still binds all the names that it
    bound. -/
theorem bound_names_kept (ctx : Context) (fuel : Nat) (m m' : Machine) (hm : m.env.Reachable) :
    ((∃ e r, eval ctx fuel e m = some (r, m')) ∨
        (∃ ss r, execBlock ctx fuel ss m = some (r, m')) ∨
        (∃ ss line r, exec ctx fuel (.block ss line) m = some (r, m')) →
      ∀ index, m'.env.names index = m.env.names index) ∧
    ((∃ s r, exec ctx fuel s m = some (r, m')) ∨
        (∃ ss r, sequence (exec ctx fuel) ss m = some (r, m')) →
      (∀ index, index ≠ m.env.current → m'.env.names index = m.env.names index) ∧
        m.env.names m.env.current ⊆ m'.env.names m.env.current) := by
  constructor
  · intro hrun
    rcases hrun with ⟨e, r, h⟩ | ⟨ss, r, h⟩ | ⟨ss, line, r, h⟩
    · exact (keepsNames_eval ctx fuel e m r m' h hm).2
    · exact (keepsNames_execBlock ctx fuel ss m r m' h hm).2
    · exact (keepsNames_exec_block ctx fuel ss line m r m' h hm).2
  · intro hrun
    have hmore : m.env.MoreNames m'.env := by
      rcases hrun with ⟨s, r, h⟩ | ⟨ss, r, h⟩
      · exact (addsNames_exec ctx fuel s m r m' h hm).2
      · exact (addsNames_sequence ctx fuel ss m r m' h hm).2
    -- The current frame is the innermost one.
    have hcurrent := hm.stacked.current
    exact ⟨fun index hindex => hmore.others index (by omega), hmore.gained _⟩

/-- A function that is declared in the current frame, and a call of it that fails behind the
    declaration of a local name. -/
theorem bound_names_kept_failing_call :
    let ctx : Context := ⟨{}, fun _ _ line => .error ⟨.assertionFailed, line⟩⟩
    let env : Environment := ⟨#[⟨[("x", .integer 1)], none⟩, ⟨[("y", .null)], some 0⟩], 1⟩
    let m : Machine := { env := env, output := "", fresh := 0, calls := 0, nesting := 0 }
    let failing : List Statement :=
      [.function "f" [⟨.integer, "x"⟩] .null
          [.declare "z" none 2, .expression (.identifier "unknown" 3) 3] 1,
        .expression (.call "f" [.literal (.integer 2) 4] 4) 4]
    ∃ e m', sequence (exec ctx 9) failing m = some (.error e, m') ∧
      m'.env.names 0 = m.env.names 0 ∧ m.env.names 1 ⊆ m'.env.names 1 := by
  intro ctx env m failing
  have hm : m.env.Reachable := .define (.enter (.define .empty rfl)) rfl
  have hfail : (sequence (exec ctx 9) failing m).map (·.1.toBool) = some false := by
    decide +kernel
  obtain ⟨⟨r, m'⟩, hrun, hr⟩ := Option.map_eq_some_iff.mp hfail
  -- The statements fail at the unknown name, in the call of the function they declare.
  cases r with
  | ok flow => cases hr
  | error e =>
    obtain ⟨hothers, hcurrent⟩ := (bound_names_kept ctx 9 m m' hm).2 (.inr ⟨failing, _, hrun⟩)
    exact ⟨e, m', hrun, hothers 0 (by decide), hcurrent⟩

end Evaluation

end Script
