import Script.Proofs.FlatFunctions
import Script.Proofs.RunLimits

/-!
# Names that are never given another value

A name that a call can see may be given another value by the body of that call, and the function may
come from anywhere: from a variable, from an argument or from the result of another call. But all
code that a run can reach stands in the program or in a function that was bound before it. If none
of it assigns to a name, then every binding of the name that was there before the run is there
behind it, with its old value. Declarations of the name do not count: where the name is bound they
fail, and elsewhere they make another binding.

## Key results

- `simulation_sparing`: only code that does not assign to the name is run
- `keepsValue_checked`: a run that is stopped at every assignment to a name keeps its bindings
- `unassigned_bindings_kept`: the two together
-/

namespace Script

/-! ## Assignments inside programs -/

/-- A name is given another value somewhere in an expression. -/
inductive Expr.Assigns (name : String) : Expr → Prop where
  | here (value : Expr) (line : Nat) : Assigns name (.assign name value line)
  | part {e part : Expr} : part ∈ e.parts → Assigns name part → Assigns name e

/-- A name is given another value somewhere in a statement, in the bodies of functions as well. -/
def Statement.Assigns (name : String) (s : Statement) : Prop :=
  ∃ t, s.Contains t ∧ ∃ e ∈ t.expressions, e.Assigns name

/-- A function whose body gives a name no other value. -/
def UserFunction.Spares (name : String) (u : UserFunction) : Prop :=
  ∀ s ∈ u.body, ¬ s.Assigns name

/-- An expression assigns to a name itself, or one of its parts does. -/
private theorem Expr.assigns_iff {name : String} {e : Expr} :
    e.Assigns name ↔ (∃ value line, e = .assign name value line) ∨
      ∃ part ∈ e.parts, part.Assigns name := by
  constructor
  · intro h
    cases h with
    | here value line => exact .inl ⟨value, line, rfl⟩
    | part hmem h => exact .inr ⟨_, hmem, h⟩
  · intro h
    rcases h with ⟨value, line, rfl⟩ | ⟨part, hmem, h⟩
    · exact .here value line
    · exact .part hmem h

/-- A statement assigns to a name in one of its expressions, or in one of its parts. -/
private theorem Statement.assigns_iff {name : String} {s : Statement} :
    s.Assigns name ↔ (∃ e ∈ s.expressions, e.Assigns name) ∨
      ∃ part ∈ s.parts, part.Assigns name := by
  constructor
  · intro h
    obtain ⟨t, hc, h⟩ := h
    rcases contains_iff.mp hc with rfl | ⟨part, hpart, hc⟩
    · exact .inl h
    · exact .inr ⟨part, hpart, t, hc, h⟩
  · intro h
    rcases h with h | ⟨part, hpart, t, hc, h⟩
    · exact ⟨s, .self s, h⟩
    · exact ⟨t, contains_iff.mpr (.inr ⟨part, hpart, hc⟩), h⟩

/-! ## Only code without such assignments is run -/

/-- A run beside itself, in which nothing gives a name another value. -/
def Correspondence.sparing (name : String) : Correspondence where
  lines := Eq
  exprs _ _ e e' := e = e' ∧ ¬ e.Assigns name
  statements _ _ s s' := s = s' ∧ ¬ s.Assigns name
  functions u u' := u = u' ∧ u.Spares name
  natives _ := True

/-- Machines that correspond by sparing a name are equal, and bind only functions that spare it. -/
private theorem Correspondence.sparing_diagonal (name : String) :
    (sparing name).Diagonal (UserFunction.Spares name) where
  lines := Iff.rfl
  functions := Iff.rfl
  natives _ := trivial

/-- What is run are parts of what is run, and the bodies of functions that are bound or declared. -/
theorem simulation_sparing {ctx : Context} (hhost : ctx.host.PassesFunctions) (name : String) :
    Simulation (.sparing name) ctx ctx where
  limits := rfl
  exprs := by
    intro calls depth e e' h
    obtain ⟨rfl, he⟩ := h
    apply Expr.SameForm.of_parts rfl
    intro part hpart
    exact ⟨rfl, fun h => he (.part hpart h)⟩
  statements := by
    intro calls depth s s' h
    obtain ⟨rfl, hs⟩ := h
    -- Neither the expressions of the statement nor its parts assign to the name.
    rw [Statement.assigns_iff, not_or] at hs
    obtain ⟨hexprs, hparts⟩ := hs
    have hpart (t : Statement) (ht : t ∈ s.parts) : t = t ∧ ¬ t.Assigns name :=
      ⟨rfl, fun h => hparts ⟨t, ht, h⟩⟩
    refine .of_parts rfl (fun e he => ?_) hpart hpart ?_
    · exact ⟨rfl, fun h => hexprs ⟨e, he, h⟩⟩
    · intro function params returnKind body line hfunction
      subst hfunction
      exact ⟨rfl, fun t ht => (hpart t ht).2⟩
  bodies := by
    intro calls depth e e' u u' _ _ h
    obtain ⟨rfl, hu⟩ := h
    exact List.forall₂_same.mpr fun s hs => ⟨rfl, hu s hs⟩
  host := fun _ => (Correspondence.sparing_diagonal name).host hhost _

/-- A step that is an assignment to a name. -/
def Step.assigns (name : String) : Step → Bool
  | .expression (.assign target _ _) => target == name
  | _ => false

/-- No checkpoint of such a run is an assignment to the name. -/
private theorem passes_sparing (name : String) :
    Simulation.Passes (.sparing name) fun step _ => !step.assigns name where
  expression {_ _ e _ _ _} he _ := by
    cases e with
    | assign target value line =>
      have hne : target ≠ name := by
        rintro rfl
        exact he.2 (.here value line)
      simp [Step.assigns, hne]
    | _ => rfl
  statement _ _ := rfl

/-- No step of a run is an assignment to a name that all its code spares. -/
private theorem always_not_assigns {ctx : Context} (hhost : ctx.host.PassesFunctions)
    {name : String} {program : Program} (hprogram : ∀ s ∈ program, ¬ s.Assigns name) {s : Session}
    (hreachable : s.env.Reachable)
    (hbound : s.env.AllBound (Value.IfDeclared (UserFunction.Spares name))) :
    Always ctx program s fun step _ => !step.assigns name := by
  have hstatements : List.Forall₂ ((Correspondence.sparing name).statements 0 s.env.depth)
      program program := List.forall₂_same.mpr fun t ht => ⟨rfl, hprogram t ht⟩
  exact (simulation_sparing hhost name).always (fun _ _ => id) (fun _ _ hu => hu.1)
    (passes_sparing name) hstatements
    ((Correspondence.sparing_diagonal name).start hreachable hbound)

/-! ## Runs that are stopped at assignments -/

/-- Every binding of a name has the value that it had before. -/
def Environment.KeepsValue (name : String) (before after : Environment) : Prop :=
  ∀ index value, before.binding index name = some value → after.binding index name = some value

/-- Declarations and scopes keep the value of a name in every frame. -/
theorem Environment.KeepsValue.bindingRelation (name : String) :
    BindingRelation (KeepsValue name) where
  refl _ _ _ hvalue := hvalue
  trans h₁ h₂ index value hvalue := h₂ index value (h₁ index value hvalue)
  define _ hdef _ _ hvalue := binding_define_of_some hdef hvalue
  inScope {env inner} hm hdepth h index value hvalue := by
    have hindex : index < env.depth := by
      by_contra hle
      rw [binding_eq_none (Nat.le_of_not_lt hle)] at hvalue
      cases hvalue
    rw [binding_exit hm.depth_pos hdepth, if_pos hindex]
    apply h
    rw [binding_enter, hvalue]

namespace Evaluation

open Script.Action Script.Machine

/-- An assignment to another name keeps the value. -/
private theorem keepsValue_assign {name target : String} (hne : target ≠ name) (value : Value)
    (line : Nat) :
    Keeps (RestoredWith (Environment.KeepsValue name)) (assign target value line) := by
  rw [assign_eq]
  apply (Environment.KeepsValue.bindingRelation name).restoredWith.keeps_changing
  intro m env hasg _
  refine ⟨.assign hasg, fun index found hfound => ?_⟩
  rw [← hfound]
  exact Environment.binding_assign_of_ne hasg hne.symm

/-- A check that the machine does not pass ends the run where it is. -/
private theorem keeps_checked {R : Machine → Machine → Prop} (h : ExprRelation R) {α : Type}
    {check : Machine → Bool} (alarm : RuntimeError) {action : Action α}
    (ha : (∃ m, check m = true) → Keeps R action) : Keeps R (checked check alarm action) := by
  intro m result m' hrun
  unfold checked at hrun
  split at hrun
  · rename_i hpass
    exact ha ⟨m, hpass⟩ m result m' hrun
  · cases hrun
    exact h.refl m

/-- A run that is stopped at every assignment to a name keeps the values of its bindings. The
    induction is on the fuel, and what lies behind the check of an assignment assigns to another
    name. -/
theorem keepsValue_checked (name : String) (alarm : RuntimeError) (ctx : Context) (fuel : Nat) :
    (∀ e, Keeps (RestoredWith (Environment.KeepsValue name))
      (evalChecked (fun step _ => !step.assigns name) alarm ctx fuel e)) ∧
    (∀ s, Keeps (RestoredWith (Environment.KeepsValue name))
      (execChecked (fun step _ => !step.assigns name) alarm ctx fuel s)) := by
  have hrel := (Environment.KeepsValue.bindingRelation name).restoredWith
  -- As for every other relation, except that an assignment to the name does not pass the check.
  induction fuel with
  | zero =>
    refine ⟨fun e m result m' hrun => ?_, fun s m result m' hrun => ?_⟩
    · rw [evalChecked] at hrun
      cases hrun
    · rw [execChecked] at hrun
      cases hrun
  | succ fuel ih =>
    obtain ⟨he, hx⟩ := ih
    constructor
    · intro e
      rw [evalChecked]
      apply keeps_checked hrel.toExprRelation
      intro hpass
      obtain ⟨_, hpass⟩ := hpass
      apply hrel.keeps_inExpression
      apply hrel.keeps_evalForm ctx he (hrel.keeps_callUser ctx hx)
      intro target value line hassign
      subst hassign
      have hne : target ≠ name := by simpa [Step.assigns] using hpass
      exact fun v => keepsValue_assign hne v line
    · intro s
      rw [execChecked]
      apply keeps_checked hrel.toExprRelation
      intro _
      exact hrel.keeps_execForm ctx he hx fuel s

end Evaluation

/-- If neither the program nor a declared function that is bound in the session gives a name another
    value, and the host returns no declared functions but those among its arguments, then behind the
    program, whether it ends with a value or with an error, every binding of the name that was there
    before has its old value, in whichever frame. -/
theorem unassigned_bindings_kept (ctx : Context) (hhost : ctx.host.PassesFunctions) (name : String)
    (program : Program) (hprogram : ∀ t ∈ program, ¬ t.Assigns name) (s s' : Session)
    (hreachable : s.env.Reachable)
    (hbound : s.env.AllBound (Value.IfDeclared (UserFunction.Spares name)))
    (result : Except RuntimeError Value) (hrun : Finishes ctx program s result s') (index : Nat)
    (value : Value) (hvalue : s.env.binding index name = some value) :
    s'.env.binding index name = some value := by
  obtain ⟨fuel, hrun⟩ := hrun
  obtain ⟨flow, m', hsequence, -, rfl⟩ := execute_eq_some.mp hrun
  -- Stopping at assignments to the name makes no difference, since there are none.
  rw [← always_not_assigns hhost hprogram hreachable hbound ⟨.assertionFailed, 0⟩ fuel]
    at hsequence
  have hexec := (Evaluation.keepsValue_checked name ⟨.assertionFailed, 0⟩ ctx fuel).2
  have hrel := (Environment.KeepsValue.bindingRelation name).restoredWith
  have hkeeps := hrel.keeps_sequence ctx hexec program (.start s) flow m' hsequence hreachable
  exact hkeeps.2 index value hvalue

/-- A function that is called through a variable, declares the name for itself, and fails at an
    assignment to another name. -/
theorem unassigned_bindings_kept_function_in_variable :
    let ctx : Context := ⟨{}, fun _ _ line => .error ⟨.assertionFailed, line⟩⟩
    let f : UserFunction := .ofDeclaration "f" [] .null
      [.declare "x" none 1, .expression (.assign "y" (.identifier "x" 2) 2) 2]
    let env : Environment := ⟨#[⟨[("f", .function ⟨0, .user f⟩), ("x", .integer 1)], none⟩], 0⟩
    let program : Program :=
      [.declare "g" (some (.identifier "f" 3)) 3, .expression (.call "g" [] 4) 4]
    ∃ e s', Finishes ctx program ⟨env, "", 1⟩ (.error e) s' ∧
      s'.env.binding 0 "x" = some (.integer 1) := by
  intro ctx f env program
  have hhost : ctx.host.PassesFunctions := fun _ _ _ _ _ h => nomatch h
  -- Nothing assigns to the name, neither in the program nor in the function.
  have hidentifier (name : String) (line : Nat) : ¬ (Expr.identifier name line).Assigns "x" := by
    rw [Expr.assigns_iff]
    simp [Expr.parts]
  have hcall : ¬ (Expr.call "g" [] 4).Assigns "x" := by
    rw [Expr.assigns_iff]
    simp [Expr.parts]
  have hassign : ¬ (Expr.assign "y" (.identifier "x" 2) 2).Assigns "x" := by
    rw [Expr.assigns_iff]
    simp [Expr.parts, hidentifier]
  have hleaf (s : Statement) (hparts : s.parts = [])
      (hexprs : ∀ e ∈ s.expressions, ¬ e.Assigns "x") : ¬ s.Assigns "x" := by
    rw [Statement.assigns_iff, hparts]
    simpa using hexprs
  have hf : f.Spares "x" := by
    intro s hs
    rcases List.mem_cons.mp hs with rfl | hs
    · exact hleaf _ rfl (by simp [Statement.expressions])
    · obtain rfl := List.mem_singleton.mp hs
      exact hleaf _ rfl (by simpa [Statement.expressions] using hassign)
  have hprogram : ∀ t ∈ program, ¬ t.Assigns "x" := by
    intro t ht
    rcases List.mem_cons.mp ht with rfl | ht
    · exact hleaf _ rfl (by simp [Statement.expressions, hidentifier])
    · obtain rfl := List.mem_singleton.mp ht
      exact hleaf _ rfl (by simpa [Statement.expressions] using hcall)
  -- The session binds the name and the function.
  have hx : Environment.empty.define? "x" (.integer 1) =
      some ⟨#[⟨[("x", .integer 1)], none⟩], 0⟩ := rfl
  have hdefine : Environment.define? ⟨#[⟨[("x", .integer 1)], none⟩], 0⟩ "f"
      (.function ⟨0, .user f⟩) = some env := rfl
  have hbound : env.AllBound (Value.IfDeclared (UserFunction.Spares "x")) := by
    refine .define (.define .empty ?_ hx) ?_ hdefine
    · rintro function user ⟨⟩
    · rintro function user ⟨⟩ ⟨⟩
      exact hf
  have hends : (execute ctx 9 program ⟨env, "", 1⟩).map (·.1.toBool) = some false := by
    decide +kernel
  obtain ⟨⟨r, s'⟩, hrun, hr⟩ := Option.map_eq_some_iff.mp hends
  cases r with
  | ok value => cases hr
  | error e =>
    have hfinishes : Finishes ctx program ⟨env, "", 1⟩ (.error e) s' := ⟨9, hrun⟩
    refine ⟨e, s', hfinishes, ?_⟩
    exact unassigned_bindings_kept ctx hhost "x" program hprogram ⟨env, "", 1⟩ s'
      (.define (.define .empty hx) hdefine) hbound _ hfinishes 0 _ rfl

end Script
