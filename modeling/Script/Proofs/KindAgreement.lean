import Script.Proofs.BoundValues
import Script.Proofs.OperatorTable

/-!
# Kinds decide what an expression does

Operators look at the kinds of their operands to find out whether they are defined, and assignments
give a name whatever value there is. So an expression without calls does not tell apart two
environments that bind the same names to values of the same kinds, as long as no integer is divided
by zero: there is a value in both or in neither, and then of the same kind, and the same operator is
refused.

The two evaluations go on side by side until one of them divides by zero, which ends it. The other
one may then go anywhere, but it ends as well, as does every evaluation without calls.

## Key results

- `Environment.SameKinds.find?_eq`, `Environment.SameKinds.get?`, `Environment.SameKinds.assign?`:
  names are found alike, and given values alike
- `Action.Alike.bind`, `Action.Alike.binary`, `Action.Alike.inExpression`: one lemma for each way of
  building actions
- `Evaluation.total_eval`, `Evaluation.alike_eval`: whole evaluations end, and they end alike
- `Evaluation.kinds_decide_outcome`: both together
-/

namespace Script

/-- An expression without a call in it, at any depth. -/
inductive Expr.CallFree : Expr → Prop where
  | literal (value : Literal) (line : Nat) : CallFree (.literal value line)
  | identifier (name : String) (line : Nat) : CallFree (.identifier name line)
  | unary (op : UnaryOp) {operand : Expr} (line : Nat) :
      CallFree operand → CallFree (.unary op operand line)
  | binary (op : BinaryOp) {left right : Expr} (line : Nat) :
      CallFree left → CallFree right → CallFree (.binary left op right line)
  | assign (name : String) {value : Expr} (line : Nat) :
      CallFree value → CallFree (.assign name value line)

/-! ## Environments of the same kinds -/

/-- Values of the same kind. -/
def Value.SameKind (v v' : Value) : Prop :=
  v.kind = v'.kind

/-- Environments with the same frames, which bind the same names to values of the same kinds. -/
structure Environment.SameKinds (env env' : Environment) : Prop where
  parents : env.parents = env'.parents
  current : env.current = env'.current
  kinds (index : Nat) (name : String) :
    (env.binding index name).map Value.kind = (env'.binding index name).map Value.kind

namespace Environment.SameKinds

variable {env env' : Environment} {v v' : Value}

/-- A name is found in the same frame, since the same names are bound. -/
theorem find?_eq (h : SameKinds env env') (name : String) : env.find? name = env'.find? name := by
  apply find?_congr h.parents h.current
  intro index
  rw [← Option.isSome_map (f := Value.kind), h.kinds, Option.isSome_map]

/-- A name means values of the same kind. -/
theorem get? (h : SameKinds env env') (name : String) :
    (env.get? name).map Value.kind = (env'.get? name).map Value.kind := by
  rw [Environment.get?, Environment.get?, h.find?_eq]
  cases env'.find? name with
  | none => rfl
  | some index => exact h.kinds index name

/-- Replacing values by values of one kind keeps the kinds the same. -/
theorem replace (h : SameKinds env env') (index : Nat) (name : String) (hv : v.kind = v'.kind) :
    SameKinds (env.update index (·.replace name v)) (env'.update index (·.replace name v')) where
  parents := by
    have hkept (w : Value) : ∀ frame : Frame, (frame.replace name w).parent = frame.parent :=
      fun _ => rfl
    rw [parents_update env index (hkept v), parents_update env' index (hkept v'), h.parents]
  current := h.current
  kinds at_ other := by
    rw [binding_replace, binding_replace]
    split
    · -- The kind of the new value does not depend on the values that the name had.
      have hnew (env : Environment) (w : Value) :
          ((env.binding at_ name).map fun _ => w).map Value.kind =
            ((env.binding at_ name).map Value.kind).map fun _ => w.kind := by
        rw [Option.map_map, Option.map_map]
        rfl
      rw [hnew, hnew, h.kinds, hv]
    · exact h.kinds at_ other

/-- The same names can be given another value, in the same frames. -/
theorem assign? (h : SameKinds env env') (name : String) (hv : v.kind = v'.kind) :
    Option.Rel SameKinds (env.assign? name v) (env'.assign? name v') := by
  rw [Environment.assign?, Environment.assign?, h.find?_eq]
  cases env'.find? name with
  | none => exact .none
  | some index => exact .some (h.replace index name hv)

end Environment.SameKinds

/-- Machines whose environments have the same kinds, with as many expressions under evaluation. -/
structure Machine.SameKinds (m m' : Machine) : Prop where
  env : m.env.SameKinds m'.env
  nesting : m.nesting = m'.nesting

/-! ## Errors without texts -/

/-- The mismatch with the kinds of the operands, but not with their texts. -/
def Mismatch.withoutTexts : Mismatch → Mismatch
  | binary op left right => binary op ⟨left.kind, ""⟩ ⟨right.kind, ""⟩
  | unary op operand => unary op ⟨operand.kind, ""⟩
  | notAType found => notAType ⟨found.kind, ""⟩

/-- The same fault, but for the texts of operands that do not fit. -/
def RuntimeFault.withoutTexts : RuntimeFault → RuntimeFault
  | typeMismatch mismatch => typeMismatch mismatch.withoutTexts
  | fault => fault

/-- The same error, but for the texts of operands that do not fit. -/
def RuntimeError.withoutTexts (e : RuntimeError) : RuntimeError :=
  { e with fault := e.fault.withoutTexts }

/-- Which operands an operator refuses shows in their kinds, except for their texts. -/
private theorem Operation.withoutTexts_refusal {a a' b b' : Value} (op : BinaryOp)
    (ha : a.kind = a'.kind)
    (hb : b.kind = b'.kind) : (refusal op a b).withoutTexts = (refusal op a' b').withoutTexts := by
  simp only [refusal]
  split
  · simp only [Mismatch.withoutTexts, Operand.ofValue, hb]
  · simp only [Mismatch.withoutTexts, Operand.ofValue, ha, hb]

/-! ## Actions that end alike -/

namespace Action

variable {α β : Type}

/-- Two actions end in values that are related, or both in the same error, or one of them has
    divided by zero. -/
inductive EndAlike (related : α → α → Prop) :
    Except RuntimeError α × Machine → Except RuntimeError α × Machine → Prop where
  | value {a a' : α} {m m' : Machine} :
      related a a' → m.SameKinds m' → EndAlike related (.ok a, m) (.ok a', m')
  | error {e e' : RuntimeError} {m m' : Machine} :
      e.withoutTexts = e'.withoutTexts → m.SameKinds m' →
        EndAlike related (.error e, m) (.error e', m')
  | dividedLeft (line : Nat) (m : Machine) (outcome : Except RuntimeError α × Machine) :
      EndAlike related (.error ⟨.divisionByZero, line⟩, m) outcome
  | dividedRight (outcome : Except RuntimeError α × Machine) (line : Nat) (m : Machine) :
      EndAlike related outcome (.error ⟨.divisionByZero, line⟩, m)

/-- Two actions that end alike from machines of the same kinds, if both end. -/
def Alike (related : α → α → Prop) (x x' : Action α) : Prop :=
  ∀ m m', m.SameKinds m' → ∀ outcome outcome', x m = some outcome → x' m' = some outcome' →
    EndAlike related outcome outcome'

namespace Alike

variable {related : α → α → Prop} {x x' : Action α}

/-- Giving related values is alike. -/
theorem done {a a' : α} (ha : related a a') : Alike related (done a) (done a') := by
  rintro m m' hm _ _ ⟨⟩ ⟨⟩
  exact .value ha hm

/-- Failing with faults that differ in texts only is alike. -/
theorem fail {fault fault' : RuntimeFault} (h : fault.withoutTexts = fault'.withoutTexts)
    (line : Nat) : Alike related (fail fault line) (fail fault' line) := by
  rintro m m' hm _ _ ⟨⟩ ⟨⟩
  refine .error ?_ hm
  simp only [RuntimeError.withoutTexts, h]

/-- A division by zero on the left excuses whatever happens on the right. -/
private theorem dividedLeft (line : Nat) (x' : Action α) :
    Alike related (Action.fail .divisionByZero line) x' := by
  rintro m m' - _ outcome ⟨⟩ -
  exact .dividedLeft line m outcome

/-- A division by zero on the right excuses whatever happens on the left. -/
private theorem dividedRight (x : Action α) (line : Nat) :
    Alike related x (Action.fail .divisionByZero line) := by
  rintro m m' - outcome _ - ⟨⟩
  exact .dividedRight outcome line m'

/-- Where only one of two first steps fails, it has divided by zero. -/
theorem bind {related' : β → β → Prop} {f f' : α → Action β} (hx : Alike related x x')
    (hf : ∀ a a', related a a' → Alike related' (f a) (f' a')) :
    Alike related' (x >>= f) (x' >>= f') := by
  rintro m m' hm ⟨r, n⟩ ⟨r', n'⟩ hrun hrun'
  -- An end of the first actions that is no pair of values is the end of all.
  rcases bind_eq_some.mp hrun with ⟨e, hstep, rfl⟩ | ⟨a, m₁, hstep, hnext⟩
  · rcases bind_eq_some.mp hrun' with ⟨e', hstep', rfl⟩ | ⟨a', m₁', hstep', hnext'⟩
    · cases hx m m' hm _ _ hstep hstep' with
      | error he hm => exact .error he hm
      | dividedLeft line => exact .dividedLeft line _ _
      | dividedRight _ line => exact .dividedRight _ line _
    · cases hx m m' hm _ _ hstep hstep' with
      | dividedLeft line => exact .dividedLeft line _ _
  · rcases bind_eq_some.mp hrun' with ⟨e', hstep', rfl⟩ | ⟨a', m₁', hstep', hnext'⟩
    · cases hx m m' hm _ _ hstep hstep' with
      | dividedRight _ line => exact .dividedRight _ line _
    · cases hx m m' hm _ _ hstep hstep' with
      | value ha hm₁ => exact hf a a' ha m₁ m₁' hm₁ _ _ hnext hnext'

/-- A name is bound in both machines or in neither, to values of the same kind. -/
theorem meaning (name : String) :
    Alike (fun found found' => found.map Value.kind = found'.map Value.kind) (meaning name)
      (meaning name) := by
  rintro m m' hm _ _ ⟨⟩ ⟨⟩
  exact .value (hm.env.get? name) hm

/-- Looking a name up gives values of one kind, or fails in both runs. -/
theorem lookup (name : String) (line : Nat) :
    Alike Value.SameKind (lookup name line) (lookup name line) := by
  rw [lookup_eq]
  refine bind (meaning name) fun found found' hfound => ?_
  cases found with
  | none =>
    rw [Option.map_none, eq_comm, Option.map_eq_none_iff] at hfound
    subst hfound
    exact fail rfl line
  | some value =>
    rw [Option.map_some, eq_comm, Option.map_eq_some_iff] at hfound
    obtain ⟨value', rfl, hkind⟩ := hfound
    exact done hkind.symm

/-- Assigning values of one kind succeeds in both runs or fails in both. -/
theorem assign (name : String) {v v' : Value} (hv : v.kind = v'.kind) (line : Nat) :
    Alike (fun _ _ => True) (assign name v line) (assign name v' line) := by
  rintro m m' hm ⟨r, n⟩ ⟨r', n'⟩ hrun hrun'
  rw [assign_eq] at hrun hrun'
  -- The name is found in both environments or in neither.
  have hassign := hm.env.assign? name hv
  rcases changing_eq_some.mp hrun with ⟨env, henv, rfl, rfl⟩ | ⟨hnone, rfl, rfl⟩
  · rcases changing_eq_some.mp hrun' with ⟨env', henv', rfl, rfl⟩ | ⟨hnone', rfl, rfl⟩
    · rw [henv, henv'] at hassign
      cases hassign with
      | some hkinds => exact .value trivial ⟨hkinds, hm.nesting⟩
    · rw [henv, hnone'] at hassign
      cases hassign
  · rcases changing_eq_some.mp hrun' with ⟨env', henv', rfl, rfl⟩ | ⟨hnone', rfl, rfl⟩
    · rw [hnone, henv'] at hassign
      cases hassign
    · exact .error rfl hm

/-- A unary operator gives values of one kind for operands of one kind, or refuses both. -/
theorem unary (op : UnaryOp) {v v' : Value} (hv : v.kind = v'.kind) (line : Nat) :
    Alike Value.SameKind (ofFault line (Operation.unary op v))
      (ofFault line (Operation.unary op v')) := by
  cases hkind : Operation.unaryKind? op v.kind with
  | none =>
    rw [Operation.unary_of_undefined hkind, Operation.unary_of_undefined (hv ▸ hkind)]
    refine fail ?_ line
    simp only [RuntimeFault.withoutTexts, Mismatch.withoutTexts, Operand.ofValue, hv]
  | some kind =>
    obtain ⟨w, hw, hwkind⟩ := Operation.unary_of_defined hkind
    obtain ⟨w', hw', hwkind'⟩ := Operation.unary_of_defined (hv ▸ hkind)
    rw [hw, hw']
    exact done (hwkind.trans hwkind'.symm)

/-- The table of operators looks at kinds only. -/
theorem binary (op : BinaryOp) {a a' b b' : Value} (ha : a.kind = a'.kind) (hb : b.kind = b'.kind)
    (line : Nat) :
    Alike Value.SameKind (ofFault line (Operation.binary op a b))
      (ofFault line (Operation.binary op a' b')) := by
  by_cases hdiv : Operation.DividesByZero op a b
  · rw [Operation.binary_of_divides hdiv]
    exact dividedLeft line _
  by_cases hdiv' : Operation.DividesByZero op a' b'
  · rw [Operation.binary_of_divides hdiv']
    exact dividedRight _ line
  have hsame : Operation.resultKind? op a'.kind b'.kind =
      Operation.resultKind? op a.kind b.kind := by rw [ha, hb]
  -- Where no division by zero is involved, the kinds of the operands decide what happens.
  cases hkind : Operation.resultKind? op a.kind b.kind with
  | none =>
    rw [Operation.binary_of_undefined hdiv hkind,
      Operation.binary_of_undefined hdiv' (hsame.trans hkind)]
    refine fail ?_ line
    simp only [RuntimeFault.withoutTexts, Operation.withoutTexts_refusal op ha hb]
  | some kind =>
    obtain ⟨w, hw, hwkind⟩ := Operation.binary_of_defined hdiv hkind
    obtain ⟨w', hw', hwkind'⟩ := Operation.binary_of_defined hdiv' (hsame.trans hkind)
    rw [hw, hw']
    exact done (hwkind.trans hwkind'.symm)

/-- Counting a level of nesting around actions that are alike leaves them alike. -/
theorem nested (hx : Alike related x x') : Alike related (nested x) (nested x') := by
  rintro m m' hm ⟨r, n⟩ ⟨r', n'⟩ hrun hrun'
  obtain ⟨n₁, hinner, rfl⟩ := around_eq_some.mp hrun
  obtain ⟨n₁', hinner', rfl⟩ := around_eq_some.mp hrun'
  have hinside : Machine.SameKinds { m with nesting := m.nesting + 1 }
      { m' with nesting := m'.nesting + 1 } := ⟨hm.env, congrArg (· + 1) hm.nesting⟩
  cases hx _ _ hinside _ _ hinner hinner' with
  | value ha hn => exact .value ha ⟨hn.env, congrArg (· - 1) hn.nesting⟩
  | error he hn => exact .error he ⟨hn.env, congrArg (· - 1) hn.nesting⟩
  | dividedLeft line => exact .dividedLeft line _ _
  | dividedRight _ line => exact .dividedRight _ line _

/-- The limit is reached in both evaluations or in neither. -/
theorem inExpression (limits : Limits) (line : Nat) (hx : Alike related x x') :
    Alike related (inExpression limits line x) (inExpression limits line x') := by
  intro m m' hm outcome outcome' hrun hrun'
  rw [inExpression_eq] at hrun hrun'
  -- Both runs have reached the same level.
  by_cases hlimit : limits.maxNesting ≤ m.nesting
  · rw [below_of_le hlimit] at hrun
    rw [below_of_le (hm.nesting ▸ hlimit)] at hrun'
    exact fail rfl line m m' hm _ _ hrun hrun'
  · have hlt := Nat.lt_of_not_le hlimit
    rw [below_of_lt hlt] at hrun
    rw [below_of_lt (hm.nesting ▸ hlt)] at hrun'
    exact hx.nested m m' hm _ _ hrun hrun'

end Alike

/-! ## Actions that end -/

/-- An action that ends, from whatever machine. -/
def Total (x : Action α) : Prop :=
  ∀ m, ∃ outcome, x m = some outcome

namespace Total

variable {x : Action α}

/-- Giving a value is an end. -/
theorem done (a : α) : Total (done a) :=
  fun _ => ⟨_, rfl⟩

/-- Failing is an end. -/
theorem fail (fault : RuntimeFault) (line : Nat) : Total (fail (α := α) fault line) :=
  fun _ => ⟨_, rfl⟩

/-- Giving a value or failing is an end. -/
theorem ofFault (line : Nat) (result : Except RuntimeFault α) : Total (ofFault line result) := by
  cases result with
  | ok a => exact done a
  | error fault => exact fail fault line

/-- Actions in a row end if each of them does. -/
theorem bind {f : α → Action β} (hx : Total x) (hf : ∀ a, Total (f a)) : Total (x >>= f) := by
  intro m
  obtain ⟨⟨r, m₁⟩, hstep⟩ := hx m
  cases r with
  | error e => exact ⟨_, bind_eq_some.mpr (.inl ⟨e, hstep, rfl⟩)⟩
  | ok a =>
    obtain ⟨⟨r, m₂⟩, hnext⟩ := hf a m₁
    exact ⟨_, bind_eq_some.mpr (.inr ⟨a, m₁, hstep, hnext⟩)⟩

/-- Looking a name up ends. -/
theorem lookup (name : String) (line : Nat) : Total (lookup name line) := by
  rw [lookup_eq]
  refine bind (fun _ => ⟨_, rfl⟩) fun found => ?_
  cases found with
  | none => exact fail _ line
  | some value => exact done value

/-- An assignment ends. -/
theorem assign (name : String) (value : Value) (line : Nat) : Total (assign name value line) := by
  intro m
  rw [assign_eq]
  cases hassign : m.env.assign? name value with
  | none => exact ⟨_, changing_eq_some.mpr (.inr ⟨hassign, rfl, rfl⟩)⟩
  | some env => exact ⟨_, changing_eq_some.mpr (.inl ⟨env, hassign, rfl, rfl⟩)⟩

/-- An expression ends if what it does inside its level does. -/
theorem inExpression (limits : Limits) (line : Nat) (hx : Total x) :
    Total (inExpression limits line x) := by
  intro m
  rw [inExpression_eq]
  by_cases hlimit : limits.maxNesting ≤ m.nesting
  · exact ⟨_, below_of_le hlimit _ line _⟩
  · obtain ⟨⟨r, n⟩, hrun⟩ := hx { m with nesting := m.nesting + 1 }
    rw [below_of_lt (Nat.lt_of_not_le hlimit)]
    exact ⟨_, around_eq_some.mpr ⟨n, hrun, rfl⟩⟩

end Total

end Action

/-! ## Whole evaluations -/

namespace Evaluation

open Script.Action

variable {e : Expr}

/-- No expression without calls runs on without end. -/
theorem total_eval (ctx : Context) (he : e.CallFree) :
    ∃ bound, ∀ fuel, bound ≤ fuel → Total (eval ctx fuel e) := by
  -- One more unit of fuel opens the outermost expression.
  have hform (e : Expr) (bound : Nat) (h : ∀ fuel, bound ≤ fuel →
      Total (evalForm ctx (fun e => eval ctx fuel e) (fun s => exec ctx fuel s) e)) :
      ∃ bound, ∀ fuel, bound ≤ fuel → Total (eval ctx fuel e) := by
    refine ⟨bound + 1, fun fuel hfuel => ?_⟩
    obtain ⟨fuel, rfl⟩ := Nat.exists_eq_add_of_le' (Nat.le_trans (Nat.le_add_left 1 bound) hfuel)
    rw [eval]
    exact .inExpression ctx.limits e.line (h fuel (by omega))
  induction he with
  | literal value line => exact hform _ 0 fun _ _ => .done _
  | identifier name line => exact hform _ 0 fun _ _ => .lookup name line
  | unary op line _ ih =>
    obtain ⟨bound, h⟩ := ih
    exact hform _ bound fun fuel hfuel => .bind (h fuel hfuel) fun _ => .ofFault line _
  | binary op line _ _ ihl ihr =>
    obtain ⟨bound, hl⟩ := ihl
    obtain ⟨bound', hr⟩ := ihr
    exact hform _ (max bound bound') fun fuel hfuel =>
      .bind (hl fuel (by omega)) fun _ => .bind (hr fuel (by omega)) fun _ => .ofFault line _
  | assign name line _ ih =>
    obtain ⟨bound, h⟩ := ih
    exact hform _ bound fun fuel hfuel =>
      .bind (h fuel hfuel) fun value => .bind (.assign name value line) fun _ => .done value

/-- An assignment may change the kind of a name on the way, but it does so in both evaluations. -/
theorem alike_eval (ctx : Context) (he : e.CallFree) (fuel : Nat) :
    Alike Value.SameKind (eval ctx fuel e) (eval ctx fuel e) := by
  induction fuel generalizing e with
  | zero => rintro m m' - _ _ ⟨⟩
  | succ fuel ih =>
    rw [eval]
    refine .inExpression ctx.limits e.line ?_
    cases he with
    | literal value line => exact .done rfl
    | identifier name line => exact .lookup name line
    | unary op line he => exact .bind (ih he) fun v v' hv => .unary op hv line
    | binary op line hl hr =>
      exact .bind (ih hl) fun a a' ha => .bind (ih hr) fun b b' hb => .binary op ha hb line
    | assign name line he =>
      exact .bind (ih he) fun v v' hv => .bind (.assign name hv line) fun _ _ _ => .done hv

/-- Take two machines in whose environments the same frames bind the same names to values of the
    same kinds. An expression without calls ends in both of them. It ends with values of the same
    kind, behind which the environments again agree in frames, names and kinds, or with the same
    error but for the texts of operands, unless it divides by zero in one of them. -/
theorem kinds_decide_outcome (ctx : Context) (he : e.CallFree) :
    ∃ bound, ∀ fuel, bound ≤ fuel → ∀ m m' : Machine, m.nesting = m'.nesting →
      m.env.SameKinds m'.env → ∃ r n r' n',
        eval ctx fuel e m = some (r, n) ∧ eval ctx fuel e m' = some (r', n') ∧
          ((∃ v v', r = .ok v ∧ r' = .ok v' ∧ v.kind = v'.kind ∧ n.env.SameKinds n'.env) ∨
            (∃ error error', r = .error error ∧ r' = .error error' ∧
              error.withoutTexts = error'.withoutTexts) ∨
            (∃ line, r = .error ⟨.divisionByZero, line⟩) ∨
            ∃ line, r' = .error ⟨.divisionByZero, line⟩) := by
  obtain ⟨bound, hends⟩ := total_eval ctx he
  refine ⟨bound, fun fuel hfuel m m' hnesting henv => ?_⟩
  obtain ⟨⟨r, n⟩, hrun⟩ := hends fuel hfuel m
  obtain ⟨⟨r', n'⟩, hrun'⟩ := hends fuel hfuel m'
  refine ⟨r, n, r', n', hrun, hrun', ?_⟩
  cases alike_eval ctx he fuel m m' ⟨henv, hnesting⟩ _ _ hrun hrun' with
  | value hv hn => exact .inl ⟨_, _, rfl, rfl, hv, hn.env⟩
  | error he _ => exact .inr (.inl ⟨_, _, rfl, rfl, he⟩)
  | dividedLeft line => exact .inr (.inr (.inl ⟨line, rfl⟩))
  | dividedRight _ line => exact .inr (.inr (.inr ⟨line, rfl⟩))

/-- A name is given a string where it had an integer, and is then added to the string. The two
    environments were built in different orders. -/
theorem kinds_decide_outcome_other_kind :
    let ctx : Context := ⟨{}, fun _ _ line => .error ⟨.assertionFailed, line⟩⟩
    let e : Expr := .binary (.assign "x" (.identifier "s" 1) 1) .add (.identifier "x" 1) 1
    let frame : Frame := ((Frame.under none).add "s" (.string "a")).add "x" (.integer 1)
    let frame' : Frame := ((Frame.under none).add "x" (.integer (-7))).add "s" (.string "")
    let m : Machine := { env := ⟨#[frame], 0⟩, output := "", fresh := 0, calls := 0, nesting := 0 }
    let m' : Machine :=
      { env := ⟨#[frame'], 0⟩, output := "", fresh := 0, calls := 0, nesting := 0 }
    e.CallFree ∧ m.env.SameKinds m'.env ∧ ∃ fuel v v' n n', eval ctx fuel e m = some (.ok v, n) ∧
      eval ctx fuel e m' = some (.ok v', n') ∧ v.kind = v'.kind ∧ n.env.SameKinds n'.env := by
  intro ctx e frame frame' m m'
  have he : e.CallFree := .binary .add 1 (.assign "x" 1 (.identifier "s" 1)) (.identifier "x" 1)
  have henv : m.env.SameKinds m'.env := by
    refine ⟨rfl, rfl, fun index name => ?_⟩
    cases index with
    | zero =>
      show (frame.get? name).map Value.kind = (frame'.get? name).map Value.kind
      simp only [frame, frame', Frame.get?_add, Frame.get?_under, Function.update_apply]
      by_cases hx : name = "x"
      · simp [hx, Value.kind]
      · by_cases hs : name = "s"
        · simp [hs, Value.kind]
        · simp [hx, hs]
    | succ index => rfl
  -- Both evaluations succeed, so that of the possible ends only two values of one kind are left.
  refine ⟨he, henv, ?_⟩
  obtain ⟨bound, h⟩ := kinds_decide_outcome ctx he
  obtain ⟨r, n, r', n', hrun, hrun', hends⟩ := h (bound + 3) (by omega) m m' rfl henv
  have hok : (eval ctx (bound + 3) e m).map (·.1.toBool) = some true := rfl
  have hok' : (eval ctx (bound + 3) e m').map (·.1.toBool) = some true := rfl
  rw [hrun] at hok
  rw [hrun'] at hok'
  rcases hends with ⟨v, v', rfl, rfl, hkind, hn⟩ | ⟨_, _, rfl, -⟩ | ⟨_, rfl⟩ | ⟨_, rfl⟩
  · exact ⟨bound + 3, v, v', n, n', hrun, hrun', hkind, hn⟩
  · cases hok
  · cases hok
  · cases hok'

end Evaluation

end Script
