import Script.Proofs.RunCongruence

/-!
# What bounds a run does not steer it

A run is cut short by its fuel, and fails at the limits of calls and of nesting. Neither has any
other influence: with more fuel a run that has ended ends in the same way, and with larger limits a
run that did not fail at one of them is the same run. Both follow from one relation between actions,
`Action.Extends`, which lets the first run off for some errors: for none if only the fuel grows, and
for those at the limits if the limits grow too.

## Key results

- `execute_of_le`: more fuel changes no result
- `Finishes.unique`: how a program finishes does not depend on the fuel
- `finishes_of_larger_limits`: larger limits change no result but that of reaching them
-/

namespace Script

/-- An error at the limit of calls or of nesting. -/
def RuntimeFault.IsLimit : RuntimeFault → Prop
  | callDepthExceeded _ => True
  | nestingTooDeep _ => True
  | _ => False

/-! ## Extending an action -/

namespace Action

variable {α β : Type}

/-- Whenever the first action ends, the second one ends in the same way, unless the first one ends
    with an error for which it is excused. -/
def Extends (excused : RuntimeError → Prop) (x y : Action α) : Prop :=
  ∀ m result m', x m = some (result, m') → (∀ e, result = .error e → ¬ excused e) →
    y m = some (result, m')

namespace Extends

variable {excused : RuntimeError → Prop} {x y : Action α}

/-- An action extends itself, whatever is excused. -/
theorem refl (x : Action α) : Extends excused x x :=
  fun _ _ _ hrun _ => hrun

/-- A run that does not end is extended by every run. -/
theorem outOfFuel (y : Action α) : Extends excused outOfFuel y :=
  fun _ _ _ hrun _ => nomatch hrun

/-- The first error ends both, so that the steps before it have to be the same. -/
theorem bind {f g : α → Action β} (hx : Extends excused x y)
    (hf : ∀ a, Extends excused (f a) (g a)) : Extends excused (x >>= f) (y >>= g) := by
  intro m result m' hrun hresult
  rcases bind_eq_some.mp hrun with ⟨e, hstep, rfl⟩ | ⟨a, m₁, hstep, hnext⟩
  · -- The first step fails, and only for the error of the whole can it be excused.
    have hy := hx m _ m' hstep (by rintro _ ⟨⟩; exact hresult e rfl)
    exact bind_eq_some.mpr (.inl ⟨e, hy, rfl⟩)
  · -- It succeeds, so that there is nothing to excuse yet.
    have hy := hx m _ m₁ hstep (by rintro _ ⟨⟩)
    exact bind_eq_some.mpr (.inr ⟨a, m₁, hy, hf a m₁ result m' hnext hresult⟩)

/-- What surrounds an action is done in both runs. -/
theorem around (before after : Machine → Machine) (hx : Extends excused x y) :
    Extends excused (around before after x) (around before after y) := by
  intro m result m' hrun hresult
  obtain ⟨m₁, hin, rfl⟩ := around_eq_some.mp hrun
  exact around_eq_some.mpr ⟨m₁, hx _ result m₁ hin hresult, rfl⟩

/-- With a larger limit, an action is refused in the same way or, where that is excused, less
    often. -/
theorem below {count : Machine → Nat} {limit₁ limit₂ : Nat} {fault₁ fault₂ : RuntimeFault}
    (hle : limit₁ ≤ limit₂) (line : Nat)
    (hrefused : (limit₁ = limit₂ ∧ fault₁ = fault₂) ∨ excused ⟨fault₁, line⟩)
    (hx : Extends excused x y) :
    Extends excused (below count limit₁ fault₁ line x) (below count limit₂ fault₂ line y) := by
  intro m result m' hrun hresult
  by_cases hlimit : limit₁ ≤ count m
  · rw [below_of_le hlimit] at hrun
    cases hrun
    -- The first run is refused: the second is too, unless the first is let off.
    rcases hrefused with ⟨rfl, rfl⟩ | hexcused
    · exact below_of_le hlimit _ line y
    · exact (hresult _ rfl hexcused).elim
  · -- The first run is let in, and so is the second one.
    have hlt := Nat.lt_of_not_le hlimit
    rw [below_of_lt hlt] at hrun
    rw [below_of_lt (Nat.lt_of_lt_of_le hlt hle)]
    exact hx m result m' hrun hresult

end Extends

end Action

/-! ## Larger limits -/

/-- The second context allows at least what the first one allows; if it allows more, errors at the
    limits are excused. -/
structure Context.Relaxes (excused : RuntimeError → Prop) (c₁ c₂ : Context) : Prop where
  host : c₁.host = c₂.host
  calls : c₁.limits.maxCalls ≤ c₂.limits.maxCalls
  nesting : c₁.limits.maxNesting ≤ c₂.limits.maxNesting
  excuses : c₁.limits = c₂.limits ∨ ∀ e : RuntimeError, e.fault.IsLimit → excused e

namespace Context.Relaxes

open Script.Action

variable {excused : RuntimeError → Prop} {c₁ c₂ : Context} {α : Type} {x y : Action α}

/-- The limit of calls grows, or the limits are the same. -/
theorem allowingCall (h : Relaxes excused c₁ c₂) (line : Nat) (hx : Extends excused x y) :
    Extends excused (allowingCall c₁.limits line x) (allowingCall c₂.limits line y) := by
  refine hx.below h.calls line ?_
  rcases h.excuses with heq | hexcused
  · exact .inl ⟨by rw [heq], by rw [heq]⟩
  · exact .inr (hexcused _ trivial)

/-- The limit of nesting grows, or the limits are the same. -/
theorem inExpression (h : Relaxes excused c₁ c₂) (line : Nat) (hx : Extends excused x y) :
    Extends excused (inExpression c₁.limits line x) (inExpression c₂.limits line y) := by
  rw [inExpression_eq, inExpression_eq]
  -- The level that is counted is the same in both runs.
  refine (hx.around _ _).below h.nesting line ?_
  rcases h.excuses with heq | hexcused
  · exact .inl ⟨by rw [heq], by rw [heq]⟩
  · exact .inr (hexcused _ trivial)

/-- The limits are read in two places only; all else is the same in both runs. -/
theorem congruence (h : Relaxes excused c₁ c₂) : Congruence c₁ c₂ (Extends excused) where
  host := h.host
  done _ := .refl _
  fail _ _ := .refl _
  outOfFuel := .outOfFuel
  bind := .bind
  meaning _ := .refl _
  define _ _ _ := .refl _
  assign _ _ _ := .refl _
  write _ := .refl _
  makeFunction _ := .refl _
  inScope hx := hx.around _ _
  inCall hx := hx.around _ _
  allowingCall := h.allowingCall
  inExpression := h.inExpression

end Context.Relaxes

/-! ## Whole programs -/

/-- A program is its statements one after the other, and a `return` outside of calls ends it. -/
theorem execute_eq_some {ctx : Context} {fuel : Nat} {program : Program} {s s' : Session}
    {result : Except RuntimeError Value} :
    execute ctx fuel program s = some (result, s') ↔
      ∃ flow m',
        Evaluation.sequence (Evaluation.exec ctx fuel) program (.start s) = some (flow, m') ∧
          result = flow.map Flow.value ∧ s' = m'.toSession := by
  simp only [execute]
  rcases Evaluation.sequence (Evaluation.exec ctx fuel) program (.start s) with _ | ⟨flow, m'⟩
  · simp
  · constructor
    · rintro ⟨⟩
      exact ⟨flow, m', rfl, rfl, rfl⟩
    · rintro ⟨_, _, ⟨⟩, rfl, rfl⟩
      rfl

open Script.Action in
/-- A program ends in the same way in a context that allows more, unless its error is excused. -/
theorem Context.Relaxes.execute {excused : RuntimeError → Prop} {c₁ c₂ : Context}
    (h : Relaxes excused c₁ c₂) {fuel₁ fuel₂ : Nat} (hfuel : fuel₁ ≤ fuel₂) {program : Program}
    {s s' : Session} {result : Except RuntimeError Value}
    (hrun : execute c₁ fuel₁ program s = some (result, s'))
    (hresult : ∀ e, result = .error e → ¬ excused e) :
    execute c₂ fuel₂ program s = some (result, s') := by
  obtain ⟨flow, m', hseq, rfl, rfl⟩ := execute_eq_some.mp hrun
  have hext : Extends excused (Evaluation.sequence (Evaluation.exec c₁ fuel₁) program)
      (Evaluation.sequence (Evaluation.exec c₂ fuel₂) program) :=
    h.congruence.sequence hfuel program
  -- An error of the program is the error of its statements.
  have hsame := hext (.start s) flow m' hseq (by rintro e rfl; exact hresult e rfl)
  exact execute_eq_some.mpr ⟨flow, m', hsame, rfl, rfl⟩

/-- More fuel does not change the end of a program that has ended. -/
theorem execute_of_le {ctx : Context} {fuel₁ fuel₂ : Nat} (hfuel : fuel₁ ≤ fuel₂)
    {program : Program} {s s' : Session} {result : Except RuntimeError Value}
    (hrun : execute ctx fuel₁ program s = some (result, s')) :
    execute ctx fuel₂ program s = some (result, s') := by
  have hrelax : ctx.Relaxes (fun _ => False) ctx := ⟨rfl, Nat.le_refl _, Nat.le_refl _, .inl rfl⟩
  exact hrelax.execute hfuel hrun fun _ _ => id

/-- A program finishes in a session with a result and a session left behind, if it does so with
    enough fuel. A program that does not finish runs forever. -/
def Finishes (ctx : Context) (program : Program) (s : Session)
    (result : Except RuntimeError Value) (s' : Session) : Prop :=
  ∃ fuel, execute ctx fuel program s = some (result, s')

/-- A program finishes in one way at most, whatever the fuel. -/
theorem Finishes.unique {ctx : Context} {program : Program} {s s₁ s₂ : Session}
    {r₁ r₂ : Except RuntimeError Value} (h₁ : Finishes ctx program s r₁ s₁)
    (h₂ : Finishes ctx program s r₂ s₂) : r₁ = r₂ ∧ s₁ = s₂ := by
  obtain ⟨fuel₁, hrun₁⟩ := h₁
  obtain ⟨fuel₂, hrun₂⟩ := h₂
  -- With the larger amount of fuel, both runs are one.
  have hmax₁ := execute_of_le (Nat.le_max_left fuel₁ fuel₂) hrun₁
  have hmax₂ := execute_of_le (Nat.le_max_right fuel₁ fuel₂) hrun₂
  simpa using hmax₁.symm.trans hmax₂

/-- If a program finishes under some limits with a value, or with an error other than one at a
    limit, then under all larger limits it finishes with the same result, the same text written and
    the same environment. -/
theorem finishes_of_larger_limits (host : Host) (l₁ l₂ : Limits)
    (hcalls : l₁.maxCalls ≤ l₂.maxCalls) (hnesting : l₁.maxNesting ≤ l₂.maxNesting)
    (program : Program) (s s' : Session) (result : Except RuntimeError Value)
    (hrun : Finishes ⟨l₁, host⟩ program s result s')
    (hresult : ∀ e, result = .error e → ¬ e.fault.IsLimit) :
    Finishes ⟨l₂, host⟩ program s result s' := by
  obtain ⟨fuel, hrun⟩ := hrun
  -- The errors at the limits are the ones that the first run would have to be excused for.
  have hrelax : Context.Relaxes (fun e => e.fault.IsLimit) ⟨l₁, host⟩ ⟨l₂, host⟩ :=
    ⟨rfl, hcalls, hnesting, .inr fun _ => id⟩
  exact ⟨fuel, hrelax.execute (Nat.le_refl fuel) hrun hresult⟩

/-- A division by zero inside a call, under limits that the run just meets. -/
theorem finishes_of_larger_limits_division :
    let host : Host := fun _ _ line => .error ⟨.assertionFailed, line⟩
    let inverse : Statement := .function "inverse" [⟨.integer, "n"⟩] .integer
      [.ret (some (.binary (.literal (.integer 1) 2) .div (.identifier "n" 2) 2)) 2] 1
    let program : Program :=
      [inverse, .expression (.call "inverse" [.literal (.integer 0) 3] 3) 3]
    ∃ s', Finishes ⟨⟨1, 3⟩, host⟩ program .standard (.error ⟨.divisionByZero, 2⟩) s' ∧
      Finishes ⟨⟨128, 1024⟩, host⟩ program .standard (.error ⟨.divisionByZero, 2⟩) s' := by
  intro host inverse program
  have hrun : Finishes ⟨⟨1, 3⟩, host⟩ program .standard (.error ⟨.divisionByZero, 2⟩) _ :=
    ⟨9, rfl⟩
  exact ⟨_, hrun, finishes_of_larger_limits host ⟨1, 3⟩ ⟨128, 1024⟩ (by decide) (by decide)
    program .standard _ _ hrun (by rintro _ ⟨⟩; exact id)⟩

end Script
