import Script.Proofs.RunLimits

/-!
# One program after the other

To execute two lists of statements as one program is to execute them in turn. The one run goes on
with the machine that the first list leaves behind, and the other starts a second run with the
session that is left. Both are the same, since every run gives back the calls and the expressions
that it has counted. If the first list returns or fails, then the second one is never reached.

## Key results

- `sequenceFrom_append`: a list of statements is executed by parts
- `Machine.start_toSession_of_run`: behind a run, a machine could as well be starting
- `programs_in_turn`: programs end to end, and one after the other
-/

namespace Script

/-! ## Statements by parts -/

namespace Evaluation

open Script.Action

/-- The second part is executed unless the first one returns or fails, and its value is the value of
    the whole unless it has no statements. -/
theorem sequenceFrom_append (exec : Statement → Action Flow) (last : Value)
    (first second : List Statement) :
    sequenceFrom exec last (first ++ second) =
      sequenceFrom exec last first >>= fun
        | .normal value => sequenceFrom exec value second
        | .returned value => done (.returned value) := by
  induction first generalizing last with
  | nil => rfl
  | cons statement rest ih =>
    funext m
    simp only [List.cons_append, sequenceFrom, Bind.bind, andThen]
    rcases exec statement m with _ | ⟨e | flow, m₁⟩
    · rfl
    · rfl
    · -- Only a statement that ends normally leads on to the rest of the first part.
      cases flow with
      | normal value =>
        have hrest := congrFun (ih value) m₁
        simpa only [Bind.bind, andThen] using hrest
      | returned value => rfl

/-- The value in front of a list of statements matters only if the list is empty. -/
private theorem sequenceFrom_eq_some {exec : Statement → Action Flow} {last : Value}
    {statements : List Statement} {m m' : Machine} {flow : Except RuntimeError Flow} :
    sequenceFrom exec last statements m = some (flow, m') ↔
      ∃ flow', sequence exec statements m = some (flow', m') ∧
        flow = if statements.isEmpty then .ok (.normal last) else flow' := by
  cases statements with
  | nil => simp [sequence, sequenceFrom, done, eq_comm, and_comm]
  | cons statement rest => simp [sequence, sequenceFrom]

/-- With more fuel, statements that have ended end in the same way. -/
private theorem sequence_of_le {ctx : Context} {fuel₁ fuel₂ : Nat} (hfuel : fuel₁ ≤ fuel₂)
    {statements : List Statement} {m m' : Machine} {flow : Except RuntimeError Flow}
    (hrun : sequence (exec ctx fuel₁) statements m = some (flow, m')) :
    sequence (exec ctx fuel₂) statements m = some (flow, m') := by
  have hrelax : ctx.Relaxes (fun _ => False) ctx := ⟨rfl, Nat.le_refl _, Nat.le_refl _, .inl rfl⟩
  have hextends : Extends (fun _ => False) (sequence (exec ctx fuel₁) statements)
      (sequence (exec ctx fuel₂) statements) := hrelax.congruence.sequence hfuel statements
  exact hextends m flow m' hrun fun _ _ => id

end Evaluation

/-! ## Counts that are given back -/

namespace Machine

/-- As many calls and expressions are under way behind every step as in front of it. -/
private theorem stepRelation_counts :
    StepRelation fun m m' => m'.calls = m.calls ∧ m'.nesting = m.nesting where
  refl _ := ⟨rfl, rfl⟩
  trans h₁ h₂ := ⟨h₂.1.trans h₁.1, h₂.2.trans h₁.2⟩
  define _ := ⟨rfl, rfl⟩
  assign _ := ⟨rfl, rfl⟩
  write _ _ := ⟨rfl, rfl⟩
  makeFunction _ := ⟨rfl, rfl⟩
  inScope h := h
  inCall h := by
    obtain ⟨hcalls, hnesting⟩ := h
    exact ⟨by simp only at hcalls ⊢; omega, hnesting⟩
  inExpression h := by
    obtain ⟨hcalls, hnesting⟩ := h
    exact ⟨hcalls, by simp only at hnesting ⊢; omega⟩

/-- Behind the statements of a program, a machine is as good as one that is about to run. -/
theorem start_toSession_of_run {ctx : Context} {fuel : Nat} {program : Program} {s : Session}
    {flow : Except RuntimeError Flow} {m : Machine}
    (hrun : Evaluation.sequence (Evaluation.exec ctx fuel) program (.start s) = some (flow, m)) :
    Machine.start m.toSession = m := by
  have hkeeps := (stepRelation_counts.congruence ctx).sequence (Nat.le_refl fuel) program
  obtain ⟨hcalls, hnesting⟩ := hkeeps (.start s) flow m hrun
  cases m
  simp_all only [start]

end Machine

/-! ## Programs by parts -/

/-- How the statements of a program end when they are executed in a session: normally, by a
    `return` or with an error. -/
def Ends (ctx : Context) (program : Program) (s : Session) (flow : Except RuntimeError Flow)
    (s' : Session) : Prop :=
  ∃ fuel m', Evaluation.sequence (Evaluation.exec ctx fuel) program (.start s) = some (flow, m') ∧
    s' = m'.toSession

/-- A program finishes as its statements end. -/
private theorem finishes_iff_ends {ctx : Context} {program : Program} {s s' : Session}
    {result : Except RuntimeError Value} :
    Finishes ctx program s result s' ↔
      ∃ flow, Ends ctx program s flow s' ∧ result = flow.map Flow.value := by
  unfold Finishes Ends
  constructor
  · intro h
    obtain ⟨fuel, hrun⟩ := h
    obtain ⟨flow, m', hseq, hresult, hs'⟩ := execute_eq_some.mp hrun
    exact ⟨flow, ⟨fuel, m', hseq, hs'⟩, hresult⟩
  · intro h
    obtain ⟨flow, ⟨fuel, m', hseq, hs'⟩, hresult⟩ := h
    exact ⟨fuel, execute_eq_some.mpr ⟨flow, m', hseq, hresult, hs'⟩⟩

namespace Ends

variable {ctx : Context} {p₁ p₂ : Program} {s s₁ s' : Session} {flow : Except RuntimeError Flow}

/-- Statements end in one way at most, whatever the fuel. -/
theorem unique {flow' : Except RuntimeError Flow} (h₁ : Ends ctx p₁ s flow s₁)
    (h₂ : Ends ctx p₁ s flow' s') : flow = flow' ∧ s₁ = s' := by
  obtain ⟨fuel₁, m₁, hrun₁, rfl⟩ := h₁
  obtain ⟨fuel₂, m₂, hrun₂, rfl⟩ := h₂
  have hmax₁ := Evaluation.sequence_of_le (Nat.le_max_left fuel₁ fuel₂) hrun₁
  have hmax₂ := Evaluation.sequence_of_le (Nat.le_max_right fuel₁ fuel₂) hrun₂
  rw [hmax₁] at hmax₂
  cases hmax₂
  exact ⟨rfl, rfl⟩

/-- The whole of a program ends with the error or the `return` of its first part, or the first part
    ends normally and the second part goes on behind it. -/
private theorem append_iff :
    Ends ctx (p₁ ++ p₂) s flow s' ↔
      (Ends ctx p₁ s flow s' ∧ ∀ v, flow ≠ .ok (.normal v)) ∨
      ∃ v s₁ flow₂, Ends ctx p₁ s (.ok (.normal v)) s₁ ∧ Ends ctx p₂ s₁ flow₂ s' ∧
        flow = if p₂.isEmpty then .ok (.normal v) else flow₂ := by
  constructor
  · intro h
    obtain ⟨fuel, m', hrun, rfl⟩ := h
    rw [Evaluation.sequence, Evaluation.sequenceFrom_append] at hrun
    rcases Action.bind_eq_some.mp hrun with ⟨e, hfirst, rfl⟩ | ⟨flow₁, m₁, hfirst, hsecond⟩
    · exact .inl ⟨⟨fuel, m', hfirst, rfl⟩, nofun⟩
    · cases flow₁ with
      | returned v =>
        cases hsecond
        exact .inl ⟨⟨fuel, _, hfirst, rfl⟩, nofun⟩
      | normal v =>
        obtain ⟨flow₂, hsecond, hflow⟩ := Evaluation.sequenceFrom_eq_some.mp hsecond
        -- The machine between the parts is one that is about to run.
        rw [← Machine.start_toSession_of_run hfirst] at hsecond
        exact .inr ⟨v, _, flow₂, ⟨fuel, m₁, hfirst, rfl⟩, ⟨fuel, m', hsecond, rfl⟩, hflow⟩
  · intro h
    rcases h with ⟨⟨fuel, m', hfirst, rfl⟩, hflow⟩ |
      ⟨v, _, flow₂, ⟨fuel₁, m₁, hfirst, rfl⟩, ⟨fuel₂, m', hsecond, rfl⟩, hflow⟩
    · refine ⟨fuel, m', ?_, rfl⟩
      rw [Evaluation.sequence, Evaluation.sequenceFrom_append]
      apply Action.bind_eq_some.mpr
      rcases flow with e | ⟨v | v⟩
      · exact .inl ⟨e, hfirst, rfl⟩
      · exact absurd rfl (hflow v)
      · exact .inr ⟨.returned v, m', hfirst, rfl⟩
    · rw [Machine.start_toSession_of_run hfirst] at hsecond
      -- With the larger amount of fuel, both parts end as they do.
      have hfirst := Evaluation.sequence_of_le (Nat.le_max_left fuel₁ fuel₂) hfirst
      have hsecond := Evaluation.sequence_of_le (Nat.le_max_right fuel₁ fuel₂) hsecond
      refine ⟨max fuel₁ fuel₂, m', ?_, rfl⟩
      rw [Evaluation.sequence, Evaluation.sequenceFrom_append]
      exact Action.bind_eq_some.mpr (.inr ⟨.normal v, m₁, hfirst,
        Evaluation.sequenceFrom_eq_some.mpr ⟨flow₂, hsecond, hflow⟩⟩)

end Ends

/-- If the statements of the first program end normally, then both programs as one finish if and
    only if the second one does in the session that the first one leaves, and they leave the same
    session. The result is that of the second program, or that of the first if the second has no
    statements. If the first program ends by a `return` or with an error, then both as one finish as
    the first one does. -/
theorem programs_in_turn (ctx : Context) (p₁ p₂ : Program) (s s₁ : Session)
    (flow : Except RuntimeError Flow) (hfirst : Ends ctx p₁ s flow s₁) :
    (∀ r s', Finishes ctx p₁ s r s' ↔ r = flow.map Flow.value ∧ s' = s₁) ∧
    (∀ v, flow = .ok (.normal v) → ∀ r s', Finishes ctx (p₁ ++ p₂) s r s' ↔
      ∃ r₂, Finishes ctx p₂ s₁ r₂ s' ∧ r = if p₂.isEmpty then .ok v else r₂) ∧
    ((∀ v, flow ≠ .ok (.normal v)) → ∀ r s', Finishes ctx (p₁ ++ p₂) s r s' ↔
      Finishes ctx p₁ s r s') := by
  refine ⟨fun r s' => ?_, ?_, ?_⟩
  · rw [finishes_iff_ends]
    constructor
    · intro h
      obtain ⟨flow', hends, rfl⟩ := h
      obtain ⟨rfl, rfl⟩ := hfirst.unique hends
      exact ⟨rfl, rfl⟩
    · intro h
      obtain ⟨rfl, rfl⟩ := h
      exact ⟨flow, hfirst, rfl⟩
  · -- A normal end of the first program is where the second one starts.
    intro v hv r s'
    subst hv
    simp only [finishes_iff_ends, Ends.append_iff]
    constructor
    · intro h
      obtain ⟨flow', ⟨hends, hflow'⟩ | ⟨v', s₁', flow₂, hends, hsecond, rfl⟩, rfl⟩ := h
      · exact absurd (hfirst.unique hends).1.symm (hflow' v)
      · obtain ⟨heq, rfl⟩ := hfirst.unique hends
        cases heq
        refine ⟨_, ⟨flow₂, hsecond, rfl⟩, ?_⟩
        split <;> rfl
    · intro h
      obtain ⟨_, ⟨flow₂, hsecond, rfl⟩, rfl⟩ := h
      refine ⟨_, .inr ⟨v, s₁, flow₂, hfirst, hsecond, rfl⟩, ?_⟩
      split <;> rfl
  · -- Any other end is the end of both, and the second program does not run.
    intro hflow r s'
    simp only [finishes_iff_ends, Ends.append_iff]
    constructor
    · intro h
      obtain ⟨flow', ⟨hends, -⟩ | ⟨v, _, _, hends, -⟩, rfl⟩ := h
      · exact ⟨flow', hends, rfl⟩
      · exact absurd (hfirst.unique hends).1 (hflow v)
    · intro h
      obtain ⟨flow', hends, rfl⟩ := h
      obtain ⟨rfl, rfl⟩ := hfirst.unique hends
      exact ⟨flow, .inl ⟨hends, hflow⟩, rfl⟩

/-- A declaration ends normally, so that its name can be used behind it; a loop that is left by a
    `return` in a block ends the program. -/
theorem programs_in_turn_declaration_and_return :
    let ctx : Context := ⟨{}, fun _ _ line => .error ⟨.assertionFailed, line⟩⟩
    let declaration : Program := [.declare "x" (some (.literal (.integer 1) 1)) 1]
    let leaving : Program :=
      [.loop (.literal (.bool true) 2) (.block [.ret (some (.identifier "x" 2)) 2] 2) 2]
    let sum : Program :=
      [.expression (.binary (.identifier "x" 3) .add (.literal (.integer 1) 3) 3) 3]
    let s : Session := ⟨⟨#[⟨[("x", .integer 1)], none⟩], 0⟩, "", 0⟩
    Ends ctx declaration .empty (.ok (.normal (.integer 1))) s ∧
      Finishes ctx (declaration ++ sum) .empty (.ok (.integer 2)) s ∧
      Ends ctx leaving s (.ok (.returned (.integer 1))) s ∧
      Finishes ctx (leaving ++ sum) s (.ok (.integer 1)) s := by
  intro ctx declaration leaving sum s
  have hdeclared : Ends ctx declaration .empty (.ok (.normal (.integer 1))) s := ⟨9, _, rfl, rfl⟩
  have hleft : Ends ctx leaving s (.ok (.returned (.integer 1))) s := ⟨9, _, rfl, rfl⟩
  obtain ⟨-, hgoes, -⟩ := programs_in_turn ctx declaration sum _ _ _ hdeclared
  obtain ⟨hends, -, hstops⟩ := programs_in_turn ctx leaving sum _ _ _ hleft
  exact ⟨hdeclared, (hgoes _ rfl _ _).mpr ⟨_, ⟨9, rfl⟩, rfl⟩, hleft,
    (hstops nofun _ _).mpr ((hends _ _).mpr ⟨rfl, rfl⟩)⟩

end Script
