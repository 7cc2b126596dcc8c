import Script.Proofs.ActionSteps

/-!
# What holds all along a run

A run passes from one expression and statement to the next. To say what holds at each of them, they
are tested when their turn comes: `evalChecked` and `execChecked` follow the rules of `eval` and
`exec`, and end the run with an alarm at the first one that fails a check. A check holds all along a
run if testing it makes no difference to the run, whatever the alarm and whatever the fuel.
-/

namespace Script

/-- What a run is about to evaluate or to execute. -/
inductive Step where
  | expression (value : Expr)
  | statement (value : Statement)

/-- Runs an action if the machine passes a check, and else ends with an alarm. -/
def Action.checked {α : Type} (check : Machine → Bool) (alarm : RuntimeError)
    (action : Action α) : Action α :=
  fun m => if check m then action m else some (.error alarm, m)

namespace Evaluation

open Script.Action

mutual

/-- Evaluates an expression, with a check of every expression and statement on the way. -/
def evalChecked (check : Step → Machine → Bool) (alarm : RuntimeError) (ctx : Context) :
    Nat → Expr → Action Value
  | 0, _ => outOfFuel
  | fuel + 1, expr =>
    checked (check (.expression expr)) alarm <|
      inExpression ctx.limits expr.line <|
        evalForm ctx (fun e => evalChecked check alarm ctx fuel e)
          (fun s => execChecked check alarm ctx fuel s) expr

/-- Executes a statement, with a check of every expression and statement on the way. -/
def execChecked (check : Step → Machine → Bool) (alarm : RuntimeError) (ctx : Context) :
    Nat → Statement → Action Flow
  | 0, _ => outOfFuel
  | fuel + 1, statement =>
    checked (check (.statement statement)) alarm <|
      execForm fuel (fun e => evalChecked check alarm ctx fuel e)
        (fun s => execChecked check alarm ctx fuel s) statement

end

/-- A check that all machines pass makes no difference. -/
theorem checked_true (alarm : RuntimeError) (ctx : Context) (fuel : Nat) :
    (∀ e, evalChecked (fun _ _ => true) alarm ctx fuel e = eval ctx fuel e) ∧
      (∀ s, execChecked (fun _ _ => true) alarm ctx fuel s = exec ctx fuel s) := by
  induction fuel with
  | zero => exact ⟨fun _ => by rw [evalChecked, eval], fun _ => by rw [execChecked, exec]⟩
  | succ fuel ih =>
    obtain ⟨heval, hexec⟩ := ih
    have hchecked {α : Type} (action : Action α) :
        checked (fun _ => true) alarm action = action := rfl
    refine ⟨fun e => ?_, fun s => ?_⟩
    · rw [evalChecked, eval, hchecked, funext heval, funext hexec]
    · rw [execChecked, exec, hchecked, funext heval, funext hexec]

end Evaluation

/-- A check that every expression and statement passes when its turn comes in a run. -/
def Always (ctx : Context) (program : Program) (s : Session) (check : Step → Machine → Bool) :
    Prop :=
  ∀ alarm fuel,
    Evaluation.sequence (Evaluation.execChecked check alarm ctx fuel) program (.start s) =
      Evaluation.sequence (Evaluation.exec ctx fuel) program (.start s)

end Script
