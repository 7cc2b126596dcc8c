import Script.Proofs.RunLimits
import Script.Proofs.ScopeStack

/-!
# Hidden bindings cannot be observed

All that a program can see of its environment is what each name means and whether the current frame
binds it. Two environments that look the same in this way may differ in bindings that are hidden by
others, and in the number of their frames; a program runs alike in both. During the run the two
stacks of scopes have the scopes that the run has opened in common, on top of two bases that still
look the same: `Scopes.Alike` counts the common scopes.

## Key results

- `Scopes.Alike.define?`, `Scopes.Alike.assign?`: bindings change in both stacks alike
- `Machine.Alike.congruence`: every step of a run keeps two machines alike
- `hidden_bindings_unobservable`: a program finishes alike in environments that look the same
-/

namespace Script

/-! ## Stacks of scopes -/

/-- Two optional values are related if both are missing or both are there and related. -/
private theorem rel_of_none_iff {α : Type} {r : α → α → Prop} {o₁ o₂ : Option α}
    (hnone : o₁ = none ↔ o₂ = none) (hsome : ∀ a b, o₁ = some a → o₂ = some b → r a b) :
    Option.Rel r o₁ o₂ := by
  cases o₁ with
  | none =>
    rw [hnone.mp rfl]
    exact .none
  | some a =>
    cases o₂ with
    | none => cases hnone.mpr rfl
    | some b => exact .some (hsome a b rfl rfl)

/-- Related optional values stay related under functions that keep the relation. -/
private theorem rel_map {α : Type} {r r' : α → α → Prop} {o₁ o₂ : Option α} {f g : α → α}
    (h : Option.Rel r o₁ o₂) (hr : ∀ a b, r a b → r' (f a) (g b)) :
    Option.Rel r' (o₁.map f) (o₂.map g) := by
  cases h with
  | none => exact .none
  | some h => exact .some (hr _ _ h)

/-- A weaker relation holds of optional values where the stronger one does. -/
private theorem rel_mono {α : Type} {r r' : α → α → Prop} {o₁ o₂ : Option α}
    (h : Option.Rel r o₁ o₂) (hr : ∀ a b, r a b → r' a b) : Option.Rel r' o₁ o₂ := by
  cases h with
  | none => exact .none
  | some h => exact .some (hr _ _ h)

namespace Scopes

/-- Two stacks of scopes in which every name means the same, and whose innermost scopes bind the
    same names. -/
structure SameView (s₁ s₂ : Scopes) : Prop where
  get? : get? s₁ = get? s₂
  containsLocally : containsLocally s₁ = containsLocally s₂
  ne_nil₁ : s₁ ≠ []
  ne_nil₂ : s₂ ≠ []

namespace SameView

variable {s₁ s₂ : Scopes}

/-- The same names can be bound, and the scopes look the same afterwards. -/
theorem define? (h : SameView s₁ s₂) (name : String) (value : Value) :
    Option.Rel SameView (define? s₁ name value) (define? s₂ name value) := by
  refine rel_of_none_iff ?_ fun s₁' s₂' h₁ h₂ => ?_
  · rw [define?_eq_none_iff h.ne_nil₁, define?_eq_none_iff h.ne_nil₂, h.containsLocally]
  · obtain ⟨hget₁, hlocal₁, hne₁⟩ := of_define? h₁
    obtain ⟨hget₂, hlocal₂, hne₂⟩ := of_define? h₂
    exact ⟨by rw [hget₁, hget₂, h.get?], by rw [hlocal₁, hlocal₂, h.containsLocally], hne₁, hne₂⟩

/-- The same names can be given another value, and the scopes look the same afterwards. -/
theorem assign? (h : SameView s₁ s₂) (name : String) (value : Value) :
    Option.Rel SameView (assign? s₁ name value) (assign? s₂ name value) := by
  refine rel_of_none_iff ?_ fun s₁' s₂' h₁ h₂ => ?_
  · rw [assign?_eq_none_iff, assign?_eq_none_iff, h.get?]
  · obtain ⟨hget₁, hlocal₁, hne₁⟩ := of_assign? h₁
    obtain ⟨hget₂, hlocal₂, hne₂⟩ := of_assign? h₂
    exact ⟨by rw [hget₁, hget₂, h.get?], by rw [hlocal₁, hlocal₂, h.containsLocally], hne₁, hne₂⟩

end SameView

/-- Two stacks of scopes that have a number of innermost scopes in common, on top of bases that look
    the same. -/
inductive Alike : Nat → Scopes → Scopes → Prop where
  | base {s₁ s₂ : Scopes} : SameView s₁ s₂ → Alike 0 s₁ s₂
  | common {count : Nat} (scope : Scope) {s₁ s₂ : Scopes} :
      Alike count s₁ s₂ → Alike (count + 1) (scope :: s₁) (scope :: s₂)

namespace Alike

variable {count : Nat} {s₁ s₂ : Scopes}

/-- Stacks of scopes that are alike look the same. -/
private theorem sameView (h : Alike count s₁ s₂) : SameView s₁ s₂ := by
  induction h with
  | base h => exact h
  | @common _ scope s₁ s₂ _ ih =>
    refine ⟨?_, rfl, List.cons_ne_nil _ _, List.cons_ne_nil _ _⟩
    funext name
    rw [get?_cons, get?_cons, ih.get?]

/-- Binding a name in scopes that are alike leaves them alike, or both refuse it. -/
theorem define? (h : Alike count s₁ s₂) (name : String) (value : Value) :
    Option.Rel (Alike count) (define? s₁ name value) (define? s₂ name value) := by
  cases h with
  | base h => exact rel_mono (h.define? name value) fun _ _ => .base
  | common scope h =>
    simp only [Scopes.define?]
    split
    · exact .none
    · exact .some (.common _ h)

/-- A name gets another value in a common scope, or else in both bases. -/
theorem assign? (h : Alike count s₁ s₂) (name : String) (value : Value) :
    Option.Rel (Alike count) (assign? s₁ name value) (assign? s₂ name value) := by
  induction h with
  | base h => exact rel_mono (h.assign? name value) fun _ _ => .base
  | common scope h ih =>
    simp only [Scopes.assign?]
    split
    · exact .some (.common _ h)
    · exact rel_map ih fun _ _ => .common scope

/-- Closing a common scope. -/
theorem tail (h : Alike (count + 1) s₁ s₂) : Alike count s₁.tail s₂.tail := by
  cases h with
  | common scope h => exact h

/-- With a common scope there is more than one scope on either side. -/
private theorem one_lt_length (h : Alike (count + 1) s₁ s₂) : 1 < s₁.length ∧ 1 < s₂.length := by
  cases h with
  | common scope h =>
    have hview := h.sameView
    have hpos₁ := List.length_pos_iff.mpr hview.ne_nil₁
    have hpos₂ := List.length_pos_iff.mpr hview.ne_nil₂
    simp only [List.length_cons]
    omega

end Alike

end Scopes

/-! ## Runs -/

/-- Two machines in the middle of runs that have opened the same scopes, and that can differ in
    hidden bindings only. -/
structure Machine.Alike (count : Nat) (m₁ m₂ : Machine) : Prop where
  reachable₁ : m₁.env.Reachable
  reachable₂ : m₂.env.Reachable
  scopes : Scopes.Alike count m₁.env.scopes m₂.env.scopes
  output : m₁.output = m₂.output
  fresh : m₁.fresh = m₂.fresh
  calls : m₁.calls = m₂.calls
  nesting : m₁.nesting = m₂.nesting

/-- Whenever the first action ends, the second one ends in the same way from a machine that is
    alike, and leaves one that is alike again. -/
def Action.Mirrors {α : Type} (x y : Action α) : Prop :=
  ∀ count m₁ m₂ result m₁', m₁.Alike count m₂ → x m₁ = some (result, m₁') →
    ∃ m₂', y m₂ = some (result, m₂') ∧ m₁'.Alike count m₂'

namespace Machine.Alike

open Script.Action

variable {count : Nat} {m₁ m₂ : Machine}

/-- A name means the same in machines that are alike. -/
theorem get? (h : m₁.Alike count m₂) (name : String) : m₁.env.get? name = m₂.env.get? name := by
  rw [h.reachable₁.get?_eq, h.reachable₂.get?_eq, h.scopes.sameView.get?]

/-- Environments are alike, where there are any, if their scopes are. -/
private theorem environments_alike {o₁ o₂ : Option Environment} {p₁ p₂ : Option Scopes}
    (h₁ : o₁.map Environment.scopes = p₁) (h₂ : o₂.map Environment.scopes = p₂)
    (h : Option.Rel (Scopes.Alike count) p₁ p₂) :
    Option.Rel (fun env₁ env₂ => Scopes.Alike count env₁.scopes env₂.scopes) o₁ o₂ := by
  subst h₁ h₂
  cases o₁ <;> cases o₂ <;> cases h
  · exact .none
  · rename_i h
    exact .some h

/-- A declaration succeeds in both machines or in neither, and leaves them alike. -/
theorem define? (h : m₁.Alike count m₂) (name : String) (value : Value) :
    Option.Rel (fun env₁ env₂ => Scopes.Alike count env₁.scopes env₂.scopes)
      (m₁.env.define? name value) (m₂.env.define? name value) :=
  environments_alike (h.reachable₁.define?_eq name value) (h.reachable₂.define?_eq name value)
    (h.scopes.define? name value)

/-- An assignment succeeds in both machines or in neither, and leaves them alike. -/
theorem assign? (h : m₁.Alike count m₂) (name : String) (value : Value) :
    Option.Rel (fun env₁ env₂ => Scopes.Alike count env₁.scopes env₂.scopes)
      (m₁.env.assign? name value) (m₂.env.assign? name value) :=
  environments_alike (h.reachable₁.assign?_eq name value) (h.reachable₂.assign?_eq name value)
    (h.scopes.assign? name value)

/-- Actions in a row are mirrored if each of them is. -/
private theorem mirrors_bind {α β : Type} {x y : Action α} {f g : α → Action β} (hx : Mirrors x y)
    (hf : ∀ a, Mirrors (f a) (g a)) : Mirrors (x >>= f) (y >>= g) := by
  intro count m₁ m₂ result m₁' h hrun
  rcases bind_eq_some.mp hrun with ⟨e, hstep, rfl⟩ | ⟨a, n₁, hstep, hnext⟩
  · obtain ⟨m₂', hy, h'⟩ := hx count m₁ m₂ _ m₁' h hstep
    exact ⟨m₂', bind_eq_some.mpr (.inl ⟨e, hy, rfl⟩), h'⟩
  · obtain ⟨n₂, hy, h'⟩ := hx count m₁ m₂ _ n₁ h hstep
    obtain ⟨m₂', hg, h''⟩ := hf a count n₁ n₂ result m₁' h' hnext
    exact ⟨m₂', bind_eq_some.mpr (.inr ⟨a, n₂, hy, hg⟩), h''⟩

/-- A change of the environment is mirrored if it keeps the scopes alike. -/
private theorem mirrors_changing {change : Environment → Option Environment}
    (hreachable : ∀ env env', env.Reachable → change env = some env' → env'.Reachable)
    (hscopes : ∀ count (m₁ m₂ : Machine), m₁.Alike count m₂ →
      Option.Rel (fun env₁ env₂ => Scopes.Alike count env₁.scopes env₂.scopes)
        (change m₁.env) (change m₂.env))
    (fault : RuntimeFault) (line : Nat) :
    Mirrors (changing change fault line) (changing change fault line) := by
  intro count m₁ m₂ result m₁' h hrun
  have hrel := hscopes count m₁ m₂ h
  -- The relation rules out that only one of the two environments can be changed.
  rcases changing_eq_some.mp hrun with ⟨env₁, hchange₁, rfl, rfl⟩ | ⟨hchange₁, rfl, rfl⟩
  · rw [hchange₁] at hrel
    cases hchange₂ : change m₂.env with
    | none => rw [hchange₂] at hrel; cases hrel
    | some env₂ =>
      rw [hchange₂] at hrel
      cases hrel with
      | some hscopes =>
        exact ⟨_, changing_eq_some.mpr (.inl ⟨env₂, hchange₂, rfl, rfl⟩),
          { h with
            reachable₁ := hreachable _ _ h.reachable₁ hchange₁
            reachable₂ := hreachable _ _ h.reachable₂ hchange₂
            scopes := hscopes }⟩
  · rw [hchange₁] at hrel
    cases hchange₂ : change m₂.env with
    | some env₂ => rw [hchange₂] at hrel; cases hrel
    | none => exact ⟨m₂, changing_eq_some.mpr (.inr ⟨hchange₂, rfl, rfl⟩), h⟩

/-- While an action runs, the two machines may have other scopes in common than around it. -/
private theorem mirrors_around {α : Type} {before after : Machine → Machine} (inside : Nat → Nat)
    (hbefore : ∀ {count m₁ m₂}, Alike count m₁ m₂ → Alike (inside count) (before m₁) (before m₂))
    (hafter : ∀ {count m₁ m₂}, Alike (inside count) m₁ m₂ → Alike count (after m₁) (after m₂))
    {x y : Action α} (hx : Mirrors x y) :
    Mirrors (around before after x) (around before after y) := by
  intro count m₁ m₂ result m₁' h hrun
  obtain ⟨n₁, hin, rfl⟩ := around_eq_some.mp hrun
  obtain ⟨n₂, hy, h'⟩ := hx _ _ _ result n₁ (hbefore h) hin
  exact ⟨_, around_eq_some.mpr ⟨n₂, hy, rfl⟩, hafter h'⟩

/-- An action below a limit is mirrored, since the counter that is compared is the same. -/
private theorem mirrors_below {α : Type} {counter : Machine → Nat}
    (hcounter : ∀ {count m₁ m₂}, Alike count m₁ m₂ → counter m₁ = counter m₂) (limit : Nat)
    (fault : RuntimeFault) (line : Nat) {x y : Action α} (hx : Mirrors x y) :
    Mirrors (below counter limit fault line x) (below counter limit fault line y) := by
  intro count m₁ m₂ result m₁' h hrun
  by_cases hlimit : limit ≤ counter m₁
  · rw [below_of_le hlimit] at hrun
    cases hrun
    exact ⟨m₂, below_of_le (hcounter h ▸ hlimit) fault line y, h⟩
  · have hlt := Nat.lt_of_not_le hlimit
    rw [below_of_lt hlt] at hrun
    rw [below_of_lt (hcounter h ▸ hlt)]
    exact hx count m₁ m₂ result m₁' h hrun

/-- A scope that is opened is common to both machines. -/
theorem enter (h : m₁.Alike count m₂) :
    Alike (count + 1) { m₁ with env := m₁.env.enter } { m₂ with env := m₂.env.enter } where
  reachable₁ := .enter h.reachable₁
  reachable₂ := .enter h.reachable₂
  scopes := by
    rw [Environment.scopes_enter, Environment.scopes_enter]
    exact .common _ h.scopes
  output := h.output
  fresh := h.fresh
  calls := h.calls
  nesting := h.nesting

/-- A common scope is not the last one, so that it is closed in both machines. -/
theorem exit (h : m₁.Alike (count + 1) m₂) :
    Alike count { m₁ with env := m₁.env.exit } { m₂ with env := m₂.env.exit } where
  reachable₁ := .exit h.reachable₁
  reachable₂ := .exit h.reachable₂
  scopes := by
    -- Either machine has the scope that is left and one under it.
    obtain ⟨hlt₁, hlt₂⟩ := h.scopes.one_lt_length
    rw [Environment.length_scopes] at hlt₁ hlt₂
    rw [Environment.scopes_exit hlt₁, Environment.scopes_exit hlt₂]
    exact h.scopes.tail
  output := h.output
  fresh := h.fresh
  calls := h.calls
  nesting := h.nesting

/-- Every step of a run keeps two machines alike. -/
theorem congruence (ctx : Context) : Congruence ctx ctx Mirrors where
  host := rfl
  done a := by rintro _ _ m₂ _ _ h ⟨⟩; exact ⟨m₂, rfl, h⟩
  fail fault line := by rintro _ _ m₂ _ _ h ⟨⟩; exact ⟨m₂, rfl, h⟩
  outOfFuel _ := by rintro _ _ _ _ _ _ ⟨⟩
  bind := mirrors_bind
  -- The two machines differ in what no name means, so that looking names up does not tell them
  -- apart.
  meaning name := by
    rintro _ m₁ m₂ _ _ h ⟨⟩
    exact ⟨m₂, by rw [meaning, h.get?], h⟩
  define name value line := by
    rw [define_eq]
    exact mirrors_changing (fun _ _ => .define) (fun _ _ _ h => h.define? name value) _ line
  assign name value line := by
    rw [assign_eq]
    exact mirrors_changing (fun _ _ => .assign) (fun _ _ _ h => h.assign? name value) _ line
  write text := by
    rintro _ m₁ m₂ _ _ h ⟨⟩
    exact ⟨_, rfl, { h with output := congrArg (· ++ text) h.output }⟩
  makeFunction callable := by
    rintro _ m₁ m₂ _ _ h ⟨⟩
    exact ⟨{ m₂ with fresh := m₂.fresh + 1 }, by rw [h.fresh]; rfl,
      { h with fresh := congrArg (· + 1) h.fresh }⟩
  inScope := mirrors_around (· + 1) enter exit
  inCall hx := by
    refine mirrors_around id ?_ ?_ hx
    · exact fun h => { h with calls := congrArg (· + 1) h.calls }
    · exact fun h => { h with calls := congrArg (· - 1) h.calls }
  allowingCall line hx := mirrors_below calls _ _ line hx
  inExpression line hx := by
    rw [inExpression_eq, inExpression_eq]
    refine mirrors_below nesting _ _ line (mirrors_around id ?_ ?_ hx)
    · exact fun h => { h with nesting := congrArg (· + 1) h.nesting }
    · exact fun h => { h with nesting := congrArg (· - 1) h.nesting }

end Machine.Alike

/-! ## Whole programs -/

/-- Two environments in which every name means the same, and whose current frames bind the same
    names. -/
structure Environment.SameView (env₁ env₂ : Environment) : Prop where
  get? (name : String) : env₁.get? name = env₂.get? name
  containsLocally (name : String) : env₁.containsLocally name = env₂.containsLocally name

namespace Environment.SameView

variable {env₁ env₂ : Environment}

/-- Having the same view does not depend on the order of the environments. -/
theorem symm (h : env₁.SameView env₂) : env₂.SameView env₁ :=
  ⟨fun name => (h.get? name).symm, fun name => (h.containsLocally name).symm⟩

/-- Two environments have the same view if their scopes do. -/
private theorem iff_scopes (h₁ : env₁.Reachable) (h₂ : env₂.Reachable) :
    env₁.SameView env₂ ↔ Scopes.SameView env₁.scopes env₂.scopes := by
  have hne {env : Environment} (h : env.Reachable) : env.scopes ≠ [] :=
    List.ne_nil_of_length_pos (by rw [length_scopes]; exact h.depth_pos)
  constructor
  · intro h
    refine ⟨?_, ?_, hne h₁, hne h₂⟩
    · funext name
      rw [← h₁.get?_eq, ← h₂.get?_eq, h.get?]
    · funext name
      rw [← h₁.containsLocally_eq, ← h₂.containsLocally_eq, h.containsLocally]
  · intro h
    refine ⟨fun name => ?_, fun name => ?_⟩
    · rw [h₁.get?_eq, h₂.get?_eq, h.get?]
    · rw [h₁.containsLocally_eq, h₂.containsLocally_eq, h.containsLocally]

/-- What a program does in an environment, it also does in one that looks the same. -/
private theorem finishes (h : env₁.SameView env₂) (h₁ : env₁.Reachable) (h₂ : env₂.Reachable)
    {ctx : Context} {program : Program} {output : String} {fresh : Nat}
    {result : Except RuntimeError Value} {s₁ : Session}
    (hrun : Finishes ctx program ⟨env₁, output, fresh⟩ result s₁) :
    ∃ s₂, Finishes ctx program ⟨env₂, output, fresh⟩ result s₂ ∧ s₁.env.SameView s₂.env ∧
      s₁.output = s₂.output ∧ s₁.fresh = s₂.fresh := by
  obtain ⟨fuel, hrun⟩ := hrun
  obtain ⟨flow, m₁, hseq, rfl, rfl⟩ := execute_eq_some.mp hrun
  -- At the start no scope has been opened, and both stacks are bases.
  have hstart : Machine.Alike 0 (.start ⟨env₁, output, fresh⟩) (.start ⟨env₂, output, fresh⟩) :=
    ⟨h₁, h₂, .base ((iff_scopes h₁ h₂).mp h), rfl, rfl, rfl, rfl⟩
  have hmirrors := (Machine.Alike.congruence ctx).sequence (Nat.le_refl fuel) program
  obtain ⟨m₂, hseq₂, halike⟩ := hmirrors 0 _ _ flow m₁ hstart hseq
  refine ⟨m₂.toSession, ⟨fuel, execute_eq_some.mpr ⟨flow, m₂, hseq₂, rfl, rfl⟩⟩, ?_,
    halike.output, halike.fresh⟩
  exact (iff_scopes halike.reachable₁ halike.reachable₂).mpr halike.scopes.sameView

end Environment.SameView

/-- Programs cannot tell environments apart that look the same, whatever bindings are hidden in
    them and however many frames they have: a program finishes in both or in neither, with the same
    result and the same text written, and leaves environments that look the same. -/
theorem hidden_bindings_unobservable (ctx : Context) (program : Program)
    (env₁ env₂ : Environment) (h₁ : env₁.Reachable) (h₂ : env₂.Reachable)
    (hview : env₁.SameView env₂) (output : String) (fresh : Nat) :
    ((∃ r s, Finishes ctx program ⟨env₁, output, fresh⟩ r s) ↔
      (∃ r s, Finishes ctx program ⟨env₂, output, fresh⟩ r s)) ∧
    ∀ r₁ s₁ r₂ s₂, Finishes ctx program ⟨env₁, output, fresh⟩ r₁ s₁ →
      Finishes ctx program ⟨env₂, output, fresh⟩ r₂ s₂ →
        r₁ = r₂ ∧ s₁.output = s₂.output ∧ s₁.fresh = s₂.fresh ∧ s₁.env.SameView s₂.env := by
  refine ⟨⟨?_, ?_⟩, ?_⟩
  · rintro ⟨r, s₁, hrun⟩
    obtain ⟨s₂, hrun₂, -⟩ := hview.finishes h₁ h₂ hrun
    exact ⟨r, s₂, hrun₂⟩
  · rintro ⟨r, s₂, hrun⟩
    obtain ⟨s₁, hrun₁, -⟩ := hview.symm.finishes h₂ h₁ hrun
    exact ⟨r, s₁, hrun₁⟩
  · intro r₁ s₁ r₂ s₂ hrun₁ hrun₂
    obtain ⟨s, hrun, hview', houtput, hfresh⟩ := hview.finishes h₁ h₂ hrun₁
    -- The second run is the one that mirrors the first.
    obtain ⟨rfl, rfl⟩ := hrun.unique hrun₂
    exact ⟨rfl, houtput, hfresh, hview'⟩

/-- One environment hides a binding of `x` behind another one, and the other has none to hide. -/
theorem hidden_bindings_unobservable_assignment :
    let ctx : Context := ⟨{}, fun _ _ line => .error ⟨.assertionFailed, line⟩⟩
    let env₁ : Environment :=
      ⟨#[⟨[("x", .integer 1)], none⟩, ⟨[("x", .integer 2)], some 0⟩], 1⟩
    let env₂ : Environment := ⟨#[⟨[("x", .integer 2)], none⟩], 0⟩
    let program : Program :=
      [.expression (.assign "x" (.binary (.identifier "x" 1) .add (.literal (.integer 1) 1) 1) 1) 1]
    env₁.SameView env₂ ∧ ∃ s₁ s₂,
      Finishes ctx program ⟨env₁, "", 0⟩ (.ok (.integer 3)) s₁ ∧
        Finishes ctx program ⟨env₂, "", 0⟩ (.ok (.integer 3)) s₂ ∧ s₁.env.SameView s₂.env := by
  intro ctx env₁ env₂ program
  have h₁ : env₁.Reachable := .define (.enter (.define .empty rfl)) rfl
  have h₂ : env₂.Reachable := .define .empty rfl
  -- In both environments `x` is 2, and nothing else is bound; the first one hides another `x`.
  have hview : env₁.SameView env₂ := by
    refine ⟨fun name => ?_, fun name => ?_⟩
    · rw [h₁.get?_eq, h₂.get?_eq]
      by_cases hx : name = "x"
      · subst hx; rfl
      · simp [env₁, env₂, Environment.scopes, Scopes.get?_cons, Frame.get?, List.lookup_cons,
          beq_false_of_ne hx]
    · rfl
  have hrun : Finishes ctx program ⟨env₁, "", 0⟩ (.ok (.integer 3)) _ := ⟨9, rfl⟩
  obtain ⟨hfinish, hsame⟩ :=
    hidden_bindings_unobservable ctx program env₁ env₂ h₁ h₂ hview "" 0
  obtain ⟨r, s₂, hrun₂⟩ := hfinish.mp ⟨_, _, hrun⟩
  obtain ⟨rfl, -, -, hview'⟩ := hsame _ _ r s₂ hrun hrun₂
  exact ⟨hview, _, s₂, hrun, hrun₂, hview'⟩

end Script
