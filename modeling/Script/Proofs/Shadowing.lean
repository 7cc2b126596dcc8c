import Script.Proofs.BoundValues

/-!
# What a shadowed binding is safe from

A name is looked up and changed in the innermost scope that binds it, also by the functions that are
called, which run in scopes on top of their caller's. As long as a scope binds a name, nothing that
runs can therefore reach the bindings of the name in the scopes around it. `Scopes.Kept` says so for
a stack of scopes, scope by scope, and every step of a run keeps it.

## Key results

- `Scopes.Kept.define`, `Scopes.Kept.assign`: the two steps that change bindings
- `Scopes.Kept.stepRelation`: every step of a run keeps shadowed bindings
- `Evaluation.shadowed_bindings_kept`: the same for frames and whole runs
-/

namespace Script

/-! ## Shadowed bindings of a stack of scopes -/

namespace Scopes

/-- The bindings of one name in all scopes. -/
def column (scopes : Scopes) (name : String) : List (Option Value) :=
  scopes.map (· name)

/-- The binding of a name in the scope at a place. -/
def binding (scopes : Scopes) (place : Nat) (name : String) : Option Value :=
  scopes[place]?.bind (· name)

/-- Further out, the bindings are those of the other scopes. -/
private theorem binding_cons_succ (scope : Scope) (rest : Scopes) (place : Nat) (name : String) :
    binding (scope :: rest) (place + 1) name = binding rest place name := by
  simp [binding]

/-- What a scope binds a name to stands in the column of the name. -/
private theorem binding_eq_column (scopes : Scopes) (place : Nat) (name : String) :
    binding scopes place name = (column scopes name)[place]?.join := by
  cases h : scopes[place]? <;> simp [binding, column, h]

/-- Scope by scope, every name that was bound is still bound, and the scopes around it have the
    bindings of the name that they had. -/
inductive Kept : Scopes → Scopes → Prop where
  | nil : Kept [] []
  | cons {scope scope' : Scope} {rest rest' : Scopes} :
      (∀ name, (scope name).isSome → (scope' name).isSome ∧ column rest' name = column rest name) →
      Kept rest rest' → Kept (scope :: rest) (scope' :: rest')

/-- An assignment leaves the columns of other names alone. -/
private theorem column_assign? {scopes scopes' : Scopes} {name other : String} {value : Value}
    (h : assign? scopes name value = some scopes') (hne : other ≠ name) :
    column scopes' other = column scopes other := by
  induction scopes generalizing scopes' with
  | nil => simp [assign?] at h
  | cons scope rest ih =>
    simp only [assign?] at h
    split at h
    · cases h
      simp [column, hne]
    · obtain ⟨rest', hrest, rfl⟩ := Option.map_eq_some_iff.mp h
      simpa [column] using ih hrest

namespace Kept

/-- Scopes that do not change are kept. -/
theorem refl (scopes : Scopes) : Kept scopes scopes := by
  induction scopes with
  | nil => exact .nil
  | cons scope rest ih => exact .cons (fun _ hbound => ⟨hbound, rfl⟩) ih

/-- What is kept twice is kept. -/
theorem trans {s₁ s₂ s₃ : Scopes} (h₁ : Kept s₁ s₂) (h₂ : Kept s₂ s₃) : Kept s₁ s₃ := by
  induction h₁ generalizing s₃ with
  | nil => exact h₂
  | cons hscope₁ _ ih =>
    cases h₂ with
    | cons hscope₂ hrest₂ =>
      refine .cons (fun name hbound => ?_) (ih hrest₂)
      obtain ⟨hbound₁, hcolumn₁⟩ := hscope₁ name hbound
      obtain ⟨hbound₂, hcolumn₂⟩ := hscope₂ name hbound₁
      exact ⟨hbound₂, hcolumn₂.trans hcolumn₁⟩

/-- A change of the innermost scope that unbinds no name. -/
private theorem of_innermost {scope scope' : Scope}
    (h : ∀ name, (scope name).isSome → (scope' name).isSome) (rest : Scopes) :
    Kept (scope :: rest) (scope' :: rest) :=
  .cons (fun name hbound => ⟨h name hbound, rfl⟩) (refl rest)

/-- Binding a name takes no binding away. -/
private theorem isSome_update {scope : Scope} {name other : String} (value : Value)
    (h : (scope other).isSome) : (Function.update scope name (some value) other).isSome := by
  rw [Function.update_apply]
  split
  · rfl
  · exact h

/-- A new binding goes to the innermost scope. -/
theorem define {scopes scopes' : Scopes} {name : String} {value : Value}
    (h : define? scopes name value = some scopes') : Kept scopes scopes' := by
  cases scopes with
  | nil => simp [define?] at h
  | cons scope rest =>
    simp only [define?] at h
    split at h
    · cases h
    · cases h
      exact of_innermost (fun _ => isSome_update value) rest

/-- A new value goes to the first scope that binds the name: the scopes further in do not bind it,
    and so shadow nothing that changes. -/
theorem assign {scopes scopes' : Scopes} {name : String} {value : Value}
    (h : assign? scopes name value = some scopes') : Kept scopes scopes' := by
  induction scopes generalizing scopes' with
  | nil => simp [assign?] at h
  | cons scope rest ih =>
    simp only [assign?] at h
    split at h
    · cases h
      exact of_innermost (fun _ => isSome_update value) rest
    · rename_i hfree
      obtain ⟨rest', hrest, rfl⟩ := Option.map_eq_some_iff.mp h
      -- This scope does not bind the name, so a name that it does bind is another one.
      refine .cons (fun other hbound => ⟨hbound, ?_⟩) (ih hrest)
      exact column_assign? hrest fun heq => hfree (heq ▸ hbound)

/-- What is kept is also kept without the innermost scope. -/
theorem tail {scopes scopes' : Scopes} (h : Kept scopes scopes') :
    Kept scopes.tail scopes'.tail := by
  cases h with
  | nil => exact .nil
  | cons _ hrest => exact hrest

/-- The scope at a place keeps its names, and the scopes further out keep their bindings of these
    names. -/
private theorem at_place {scopes scopes' : Scopes} (h : Kept scopes scopes') {name : String}
    {place : Nat} (hbound : (binding scopes place name).isSome) :
    (binding scopes' place name).isSome ∧
      ∀ further, place < further → binding scopes' further name = binding scopes further name := by
  induction h generalizing place with
  | nil => simp [binding] at hbound
  | cons hscope _ ih =>
    cases place with
    | zero =>
      -- The name is bound here, so that nothing further out has changed.
      obtain ⟨hbound', hcolumn⟩ := hscope name hbound
      refine ⟨hbound', fun further hfurther => ?_⟩
      obtain ⟨further, rfl⟩ := Nat.exists_eq_add_of_lt hfurther
      simp only [Nat.zero_add, binding_cons_succ]
      rw [binding_eq_column, binding_eq_column, hcolumn]
    | succ place =>
      rw [binding_cons_succ] at hbound
      obtain ⟨hbound', hfurther'⟩ := ih hbound
      refine ⟨hbound', fun further hfurther => ?_⟩
      cases further with
      | zero => exact absurd hfurther (Nat.not_lt_zero _)
      | succ further => exact hfurther' further (Nat.lt_of_succ_lt_succ hfurther)

end Kept

end Scopes

/-! ## Runs -/

/-- Frames are counted from the outside, and scopes from the inside. -/
private theorem Environment.binding_eq {env : Environment} {index : Nat} (h : index < env.depth)
    (name : String) :
    env.binding index name = Scopes.binding env.scopes (env.depth - 1 - index) name := by
  have hlen : (env.frames.toList.map Frame.get?).length = env.depth := by simp [depth]
  have hplace : env.depth - 1 - (env.depth - 1 - index) = index := by omega
  rw [binding, Scopes.binding, scopes, List.getElem?_reverse (by omega), hlen, hplace,
    List.getElem?_map, Array.getElem?_toList, Option.bind_map]
  rfl

/-- A name is bound only where there is a frame. -/
private theorem Environment.lt_depth_of_binding {env : Environment} {index : Nat} {name : String}
    (h : (env.binding index name).isSome) : index < env.depth := by
  by_contra hle
  have hnone : env.frames[index]? = none := Array.getElem?_eq_none (Nat.le_of_not_lt hle)
  simp [binding, hnone] at h

namespace Scopes.Kept

/-- Declarations and scopes keep what is shadowed. -/
theorem bindingRelation :
    Environment.BindingRelation fun env env' => Kept env.scopes env'.scopes where
  refl env := .refl env.scopes
  trans h₁ h₂ := h₁.trans h₂
  define {env env' name value} hm hdef := by
    have hscopes := hm.define?_eq name value
    rw [hdef] at hscopes
    exact .define hscopes.symm
  inScope {env inner} hm hdepth h := by
    -- The scope that is closed is the one that was opened.
    have hpos := hm.depth_pos
    have htail := h.tail
    rw [Environment.scopes_enter] at htail
    rw [Environment.scopes_exit (by omega)]
    exact htail

/-- Every step of a run keeps what is shadowed. -/
theorem stepRelation : Machine.StepRelation
    (Machine.RestoredWith fun env env' => Kept env.scopes env'.scopes) where
  toBindingRelation := bindingRelation.restoredWith
  assign {m name value env} hasg hm := by
    have hscopes := hm.assign?_eq name value
    rw [hasg] at hscopes
    exact ⟨.assign hasg, .assign hscopes.symm⟩

end Scopes.Kept

namespace Evaluation

open Script.Action

/-- If a frame binds a name, then whenever the evaluation of an expression or the execution of a
    statement, of statements in order or of a block ends, with a value, a `return` or an error, the
    frame still binds the name, and every frame further out has the binding of the name that it had,
    or still has none. -/
theorem shadowed_bindings_kept (ctx : Context) (fuel : Nat) (m m' : Machine)
    (hm : m.env.Reachable) (name : String) (index : Nat)
    (hbound : (m.env.binding index name).isSome)
    (hrun : (∃ e r, eval ctx fuel e m = some (r, m')) ∨
      (∃ s r, exec ctx fuel s m = some (r, m')) ∨
      (∃ ss r, sequence (exec ctx fuel) ss m = some (r, m')) ∨
      (∃ ss r, execBlock ctx fuel ss m = some (r, m'))) :
    (m'.env.binding index name).isSome ∧
      ∀ outer < index, m'.env.binding outer name = m.env.binding outer name := by
  have hcong := Scopes.Kept.stepRelation.congruence ctx
  obtain ⟨he, hx⟩ := hcong.eval_exec (Nat.le_refl fuel)
  obtain ⟨hrestored, hkept⟩ : m.Restored m' ∧ Scopes.Kept m.env.scopes m'.env.scopes := by
    rcases hrun with ⟨e, r, h⟩ | ⟨s, r, h⟩ | ⟨ss, r, h⟩ | ⟨ss, r, h⟩
    · exact he e m r m' h hm
    · exact hx s m r m' h hm
    · exact hcong.sequence (Nat.le_refl fuel) ss m r m' h hm
    · exact hcong.execBlock (Nat.le_refl fuel) ss m r m' h hm
  -- A frame further out has a smaller index, and its scope a larger place.
  have hindex := Environment.lt_depth_of_binding hbound
  have hdepth := hrestored.depth
  rw [Environment.binding_eq hindex] at hbound
  obtain ⟨hbound', hfurther⟩ := hkept.at_place hbound
  refine ⟨?_, fun outer houter => ?_⟩
  · rw [Environment.binding_eq (by omega), hdepth]
    exact hbound'
  · rw [Environment.binding_eq (by omega), Environment.binding_eq (by omega), hdepth]
    exact hfurther _ (by omega)

/-- A call that gives a shadowed name another value and then fails. -/
theorem shadowed_bindings_kept_failing_call :
    let ctx : Context := ⟨{}, fun _ _ line => .error ⟨.assertionFailed, line⟩⟩
    let env : Environment :=
      ⟨#[⟨[("x", .integer 1)], none⟩, ⟨[("x", .integer 2)], some 0⟩], 1⟩
    let m : Machine := { env := env, output := "", fresh := 0, calls := 0, nesting := 0 }
    let failing : Statement := .block
      [.function "f" [] .null
        [.expression (.assign "x" (.literal (.integer 3) 2) 2) 2,
          .expression (.identifier "y" 3) 3] 1,
        .expression (.call "f" [] 4) 4] 1
    ∃ e m', exec ctx 9 failing m = some (.error e, m') ∧ (m'.env.binding 1 "x").isSome ∧
      m'.env.binding 0 "x" = some (.integer 1) := by
  intro ctx env m failing
  have hm : m.env.Reachable := .define (.enter (.define .empty rfl)) rfl
  have hfail : (exec ctx 9 failing m).map (·.1.toBool) = some false := by decide +kernel
  obtain ⟨⟨r, m'⟩, hrun, hr⟩ := Option.map_eq_some_iff.mp hfail
  cases r with
  | ok flow => cases hr
  | error e =>
    obtain ⟨hbound, houter⟩ :=
      shadowed_bindings_kept ctx 9 m m' hm "x" 1 rfl (.inr (.inl ⟨failing, _, hrun⟩))
    exact ⟨e, m', hrun, hbound, houter 0 (by decide)⟩

end Evaluation

end Script
