import Script.Proofs.RunLimits
import Mathlib.Data.List.Forall2

/-!
# What functions of the host are called with

A function of the host is declared with parameters, and a call whose arguments do not fit them is
refused before the function is reached, under whichever name the function is called. A function of
the host may thus rely on its declaration.

To say which invocations a run makes, what the host does for each of them becomes a parameter of the
run: `evalWith` and `execWith` follow the rules of `eval` and `exec`, and hand the invocations of
host functions to `invoke`. A run makes an invocation if it depends on what happens there.

## Key results

- `sequence_execWith_eq`: what is done for invocations whose arguments do not fit makes no
  difference to a run
- `invocation_fits`: every invocation that a run makes fits the declaration of its function
-/

namespace Script

/-! ## Arguments that fit -/

/-- A parameter of some kind takes a value: it takes all values, or the value has this kind. -/
def Kind.Takes (k : Kind) (value : Value) : Prop :=
  k = .any ∨ k = value.kind

/-- Arguments that fit parameters: one for each, or any number of them for variadic ones, and every
    argument is of the kind that is asked for. -/
def Parameters.Fit : Parameters → List Value → Prop
  | fixed kinds, arguments => List.Forall₂ Kind.Takes kinds arguments
  | variadic kind, arguments => ∀ value ∈ arguments, kind.Takes value

/-- No value has the kind `any`. -/
private theorem Value.kind_ne_any (value : Value) : value.kind ≠ .any := by
  cases value <;> simp [kind]

/-- Two kinds are also compatible if the second one is `any`. For the kind of a value this does not
    happen. -/
private theorem Kind.accepts_kind_iff {k : Kind} {value : Value} :
    k.accepts value.kind = true ↔ k.Takes value := by
  rw [Kind.accepts_iff, Takes, or_iff_right value.kind_ne_any]

/-- The comparison of signatures decides whether the arguments of a call fit. -/
private theorem Signature.accepts_ofCall_iff {signature : Signature} {name : String}
    {arguments : List Value} :
    signature.accepts (.ofCall name arguments) = true ↔ signature.parameters.Fit arguments := by
  unfold Signature.accepts Signature.ofCall
  -- A fixed list is compared kind by kind, and further arguments are checked one by one.
  cases signature.parameters with
  | fixed kinds =>
    show (_ && _) = true ↔ List.Forall₂ Kind.Takes kinds arguments
    rw [Bool.and_eq_true, beq_iff_eq, List.length_map, List.forall₂_iff_zip, List.zip_map_right,
      List.all_map, List.all_eq_true]
    refine and_congr_right fun _ => ?_
    constructor
    · intro hall k value hmem
      exact Kind.accepts_kind_iff.mp (hall (k, value) hmem)
    · intro hall entry hmem
      exact Kind.accepts_kind_iff.mpr (hall hmem)
  | variadic kind =>
    show (arguments.map Value.kind).all kind.accepts = true ↔ ∀ value ∈ arguments, kind.Takes value
    rw [List.all_map, List.all_eq_true]
    exact forall₂_congr fun _ _ => Kind.accepts_kind_iff

/-! ## Runs over invocations -/

/-- A function of the host that is called: its declaration, the function, the arguments and the line
    of the call. -/
structure Invocation where
  signature : Signature
  native : Native
  arguments : List Value
  line : Nat

namespace Invocation

/-- What the host does. -/
def run (host : Host) (i : Invocation) : Action Value :=
  Evaluation.callNative host i.native i.arguments i.line

/-- The arguments are those that the declaration asks for. -/
def Fits (i : Invocation) : Prop :=
  i.signature.parameters.Fit i.arguments

end Invocation

namespace Evaluation

open Script.Action

/-- Calls the function that a name means, with `invoke` for functions of the host. -/
def applyWith (invoke : Invocation → Action Value) (ctx : Context) (exec : Statement → Action Flow)
    (name : String) (arguments : List Value) (line : Nat) : Action Value :=
  meaning name >>= fun
    | some (.function function) =>
      let call := Signature.ofCall name arguments
      if ¬ accepts function.callable call arguments.length then
        fail (.argumentMismatch function.callable.signature call) line
      else
        allowingCall ctx.limits line <|
          match function.callable with
          | .user user => callUser exec user arguments line
          | .native signature native => invoke ⟨signature, native, arguments, line⟩
    | _ => fail (.unknownFunction name) line

/-- Evaluates an expression by its form, with `invoke` for functions of the host. -/
def evalFormWith (invoke : Invocation → Action Value) (ctx : Context) (eval : Expr → Action Value)
    (exec : Statement → Action Flow) : Expr → Action Value
  | .call name arguments line => do
    let values ← evalAll eval arguments
    applyWith invoke ctx exec name values line
  | expr => evalForm ctx eval exec expr

mutual

/-- Evaluates an expression, with `invoke` for functions of the host. -/
def evalWith (invoke : Invocation → Action Value) (ctx : Context) : Nat → Expr → Action Value
  | 0, _ => outOfFuel
  | fuel + 1, expr =>
    inExpression ctx.limits expr.line <|
      evalFormWith invoke ctx (fun e => evalWith invoke ctx fuel e)
        (fun s => execWith invoke ctx fuel s) expr

/-- Executes a statement, with `invoke` for functions of the host. -/
def execWith (invoke : Invocation → Action Value) (ctx : Context) : Nat → Statement → Action Flow
  | 0, _ => outOfFuel
  | fuel + 1, statement =>
    execForm fuel (fun e => evalWith invoke ctx fuel e) (fun s => execWith invoke ctx fuel s)
      statement

end

variable {invoke : Invocation → Action Value} {ctx : Context}

/-- A call is refused unless the arguments fit, so that only invocations that fit matter. -/
private theorem applyWith_eq (h : ∀ i, i.Fits → invoke i = i.run ctx.host)
    (exec : Statement → Action Flow) (name : String) (arguments : List Value) (line : Nat) :
    applyWith invoke ctx exec name arguments line = apply ctx exec name arguments line := by
  rw [apply_eq, applyWith]
  congr 1
  funext value
  rcases value with _ | value
  · rfl
  cases value with
  | function function =>
    obtain ⟨identity, callable⟩ := function
    cases callable with
    | user user => rfl
    | native signature native =>
      -- Where the signature does not accept the call, nothing is invoked.
      by_cases haccepts : signature.accepts (.ofCall name arguments) = true
      · have hfits : Invocation.Fits ⟨signature, native, arguments, line⟩ :=
          Signature.accepts_ofCall_iff.mp haccepts
        simp only [h _ hfits, Invocation.run]
      · have hrefused : ¬ accepts (.native signature native) (.ofCall name arguments)
            arguments.length = true := haccepts
        simp only [if_pos hrefused]
  | _ => rfl

/-- An expression whose invocations fit is evaluated as if nothing had been replaced. -/
private theorem evalFormWith_eq (h : ∀ i, i.Fits → invoke i = i.run ctx.host)
    (eval : Expr → Action Value) (exec : Statement → Action Flow) (expr : Expr) :
    evalFormWith invoke ctx eval exec expr = evalForm ctx eval exec expr := by
  cases expr with
  | call name arguments line =>
    simp only [evalFormWith, evalForm, applyWith_eq h]
  | _ => rfl

/-- Both runs go through the same expressions and statements, by induction on the fuel. -/
private theorem evalWith_execWith_eq (h : ∀ i, i.Fits → invoke i = i.run ctx.host) (fuel : Nat) :
    (∀ e, evalWith invoke ctx fuel e = eval ctx fuel e) ∧
      (∀ s, execWith invoke ctx fuel s = exec ctx fuel s) := by
  induction fuel with
  | zero => exact ⟨fun _ => by rw [evalWith, eval], fun _ => by rw [execWith, exec]⟩
  | succ fuel ih =>
    obtain ⟨heval, hexec⟩ := ih
    refine ⟨fun e => ?_, fun s => ?_⟩
    · rw [evalWith, eval, funext heval, funext hexec, evalFormWith_eq h]
    · rw [execWith, exec, funext heval, funext hexec]

end Evaluation

/-- Whatever is done for invocations whose arguments do not fit, a run stays the same. -/
theorem sequence_execWith_eq {invoke : Invocation → Action Value} {ctx : Context}
    (h : ∀ i, i.Fits → invoke i = i.run ctx.host) (fuel : Nat) (program : Program) :
    Evaluation.sequence (Evaluation.execWith invoke ctx fuel) program =
      Evaluation.sequence (Evaluation.exec ctx fuel) program := by
  rw [funext (Evaluation.evalWith_execWith_eq h fuel).2]

/-- A run makes an invocation: were something else done for this one alone, the run would be another
    one. (At an invocation that is made, a run can be broken off by an error or for want of fuel,
    and one of the two differs from how the run goes on.) -/
def Invokes (ctx : Context) (program : Program) (s : Session) (i : Invocation) : Prop :=
  ∃ invoke fuel, (∀ j, j ≠ i → invoke j = j.run ctx.host) ∧
    Evaluation.sequence (Evaluation.execWith invoke ctx fuel) program (.start s) ≠
      Evaluation.sequence (Evaluation.exec ctx fuel) program (.start s)

/-- Every invocation that a run depends on fits. -/
private theorem Invokes.fits {ctx : Context} {program : Program} {s : Session} {i : Invocation}
    (h : Invokes ctx program s i) : i.Fits := by
  obtain ⟨invoke, fuel, hothers, hdiffers⟩ := h
  by_contra hfits
  -- The invocation is one of those that make no difference.
  apply hdiffers
  rw [sequence_execWith_eq]
  intro j hj
  apply hothers
  rintro rfl
  exact hfits hj

/-! ## The standard assertion -/

/-- The only argument of an invocation of `assert` is a boolean. -/
private theorem Invocation.Fits.of_assert {i : Invocation} (h : i.Fits)
    (hdeclared : ("assert", i.signature.parameters, i.native) ∈ Native.standard) :
    ∃ b, i.arguments = [.bool b] := by
  have hstandard : i.signature.parameters = .fixed [.bool] ∧ i.native = .assert := by
    simpa [Native.standard] using hdeclared
  rw [Fits, hstandard.1] at h
  -- The one parameter is a truth value, so that there is one argument, of this kind.
  obtain ⟨value, rest, htakes, hrest, harguments⟩ := List.forall₂_cons_left_iff.mp h
  rw [List.forall₂_nil_left_iff.mp hrest] at harguments
  rcases htakes with hany | hkind
  · cases hany
  · cases value with
    | bool b => exact ⟨b, harguments⟩
    | _ => cases hkind

/-- Whatever is bound in a session, every function of the host that a program calls in it gets the
    arguments of its declaration: as many as there are parameters, and each one of the kind asked
    for unless all kinds are taken. So the standard `assert` is never called with another number of
    arguments, and it fails for the boolean `false` and for nothing else. -/
theorem invocation_fits (ctx : Context) (program : Program) (s : Session) (i : Invocation)
    (h : Invokes ctx program s i) :
    i.signature.parameters.Fit i.arguments ∧
      (("assert", i.signature.parameters, i.native) ∈ Native.standard →
        ∃ b, i.arguments = [.bool b] ∧
          Native.requireCount i.arguments 1 "assert" i.line = .ok () ∧
          ((∃ e, Native.assertion i.arguments i.line = .error e ∧ e.fault = .assertionFailed) ↔
            b = false)) := by
  refine ⟨h.fits, fun hdeclared => ?_⟩
  obtain ⟨b, hb⟩ := h.fits.of_assert hdeclared
  refine ⟨b, hb, ?_⟩
  rw [hb]
  cases b with
  | false => simp [Native.requireCount, Native.assertion, bind, Except.bind]
  | true => simp [Native.requireCount, Native.assertion, bind, Except.bind]

/-- A run in which the standard `assert` is called through a variable. -/
theorem invocation_fits_assert_in_variable :
    let ctx : Context := ⟨{}, fun _ _ line => .error ⟨.assertionFailed, line⟩⟩
    let program : Program :=
      [.declare "check" (some (.identifier "assert" 1)) 1,
        .expression (.call "check" [.literal (.bool false) 2] 2) 2]
    let i : Invocation := ⟨⟨"assert", .fixed [.bool]⟩, .assert, [.bool false], 2⟩
    Invokes ctx program .standard i ∧ i.signature.parameters.Fit i.arguments ∧
      ∃ e, Native.assertion i.arguments i.line = .error e ∧ e.fault = .assertionFailed := by
  intro ctx program i
  -- Broken off at the invocation, the run has no end; else it ends with the failed assertion.
  let invoke : Invocation → Action Value := fun j =>
    if j.signature = i.signature ∧ j.native = .assert ∧ j.line = 2 ∧
        j.arguments.map Value.kind = [.bool] ∧ j.arguments.any Value.holds = false
    then Action.outOfFuel else j.run ctx.host
  have hothers : ∀ j, j ≠ i → invoke j = j.run ctx.host := by
    intro j hj
    refine if_neg fun h => hj ?_
    obtain ⟨signature, native, arguments, line⟩ := j
    obtain ⟨rfl, rfl, rfl, hkind, hholds⟩ := h
    obtain ⟨value, rfl, hvalue⟩ := List.map_eq_singleton_iff.mp hkind
    cases value with
    | bool b => cases b with
      | false => rfl
      | true => cases hholds
    | _ => cases hvalue
  have hbroken :
      Evaluation.sequence (Evaluation.execWith invoke ctx 4) program (.start .standard) = none :=
    rfl
  have hinvokes : Invokes ctx program .standard i := by
    refine ⟨invoke, 4, hothers, ?_⟩
    rw [hbroken]
    exact nofun
  obtain ⟨hfit, hassert⟩ := invocation_fits ctx program .standard i hinvokes
  obtain ⟨b, hb, -, hfails⟩ := hassert (by decide)
  cases hb
  exact ⟨hinvokes, hfit, hfails.mpr rfl⟩

end Script
