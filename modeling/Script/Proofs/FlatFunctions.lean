import Mathlib.Logic.Relation
import Script.Proofs.RunBalance
import Script.Proofs.ScopeDepth

/-!
# Functions without functions inside

The grammar allows no declaration of a function in the body of another one, at whatever depth, and
no two parameters of one name. A declared function that keeps to this is flat. Since all declared
functions come from programs, all of them are flat, wherever runs move them: into variables,
through arguments and results, and from one run of a session to the next. Two things follow. The
parameters of a call can always be bound, since the scope of the call is new and no name comes
twice. And no function is declared while a call is under way, since only bodies are run then.

## Key results

- `Grammar.DerivesStatement.flatIn`: what the grammar requires of declarations
- `simulation_flat`: only flat functions occur, and calls run statements without declarations
- `exists_bindAll`: different names can be bound in a new scope
- `functions_stay_flat`: declared functions, all along a sequence of runs
-/

namespace Script

/-! ## Declarations inside statements -/

/-- What a statement contains is the statement itself or contained in one of its parts. -/
theorem Statement.contains_iff {s t : Statement} :
    s.Contains t ↔ s = t ∨ ∃ part ∈ s.parts, part.Contains t := by
  constructor
  · intro h
    cases h with
    | self => exact .inl rfl
    | block _ hmem h => exact .inr ⟨_, hmem, h⟩
    | yes _ _ _ h => exact .inr ⟨_, List.mem_cons_self, h⟩
    | no _ _ _ h => exact .inr ⟨_, by simp [parts], h⟩
    | loop _ _ h => exact .inr ⟨_, List.mem_singleton_self _, h⟩
    | @case _ cases c _ _ _ hmem h =>
      exact .inr ⟨_, List.mem_append_left _ (List.mem_map_of_mem hmem), h⟩
    | default _ _ _ h => exact .inr ⟨_, by simp [parts], h⟩
    | function _ _ _ _ hmem h => exact .inr ⟨_, hmem, h⟩
  · -- A part stands in exactly one place of the statement, and there is a rule for each of them.
    rintro (rfl | ⟨part, hpart, h⟩)
    · exact .self s
    · cases s with
      | block statements line => exact .block line hpart h
      | branch condition yes no line =>
        rcases List.mem_cons.mp hpart with rfl | hno
        · exact .yes condition no line h
        · obtain rfl := Option.mem_toList.mp hno
          exact .no condition yes line h
      | loop condition body line =>
        obtain rfl := List.mem_singleton.mp hpart
        exact .loop condition line h
      | select subject cases default line =>
        rcases List.mem_append.mp hpart with hcase | hdefault
        · obtain ⟨c, hc, rfl⟩ := List.mem_map.mp hcase
          exact .case subject default line hc h
        · obtain rfl := Option.mem_toList.mp hdefault
          exact .default subject cases line h
      | function name params returnKind body line =>
        exact .function name params returnKind line hpart h
      | declare | ret | expression => cases hpart

/-- A function is declared in the statement, at whatever depth. -/
def Statement.DeclaresFunction (s : Statement) : Prop :=
  ∃ name params returnKind body line, s.Contains (.function name params returnKind body line)

/-- A function whose parameters have different names, and that has no functions in its body. -/
structure UserFunction.Flat (u : UserFunction) : Prop where
  names : u.parameterNames.Nodup
  body : ∀ s ∈ u.body, ¬ s.DeclaresFunction

/-- A statement that declares only flat functions, and none in the body of a function. -/
structure Statement.FlatIn (inFunction : Bool) (s : Statement) : Prop where
  functions : ∀ name params returnKind body line,
    s.Contains (.function name params returnKind body line) →
      (UserFunction.ofDeclaration name params returnKind body).Flat
  outside : inFunction = true → ¬ s.DeclaresFunction

namespace Statement.FlatIn

variable {inFunction : Bool} {s t : Statement}

/-- The parts of a flat statement are flat. -/
theorem part (h : s.FlatIn inFunction) (ht : t ∈ s.parts) : t.FlatIn inFunction where
  functions name params returnKind body line hc :=
    h.functions name params returnKind body line (contains_iff.mpr (.inr ⟨t, ht, hc⟩))
  outside hin hdeclares := by
    obtain ⟨name, params, returnKind, body, line, hc⟩ := hdeclares
    exact h.outside hin
      ⟨name, params, returnKind, body, line, contains_iff.mpr (.inr ⟨t, ht, hc⟩)⟩

/-- A statement that is no declaration of a function itself. -/
theorem of_parts (hs : ∀ name params returnKind body line,
      s ≠ .function name params returnKind body line)
    (hparts : ∀ part ∈ s.parts, part.FlatIn inFunction) : s.FlatIn inFunction where
  functions name params returnKind body line hc := by
    rcases contains_iff.mp hc with heq | ⟨part, hpart, hc⟩
    · exact absurd heq (hs name params returnKind body line)
    · exact (hparts part hpart).functions name params returnKind body line hc
  outside hin hdeclares := by
    obtain ⟨name, params, returnKind, body, line, hc⟩ := hdeclares
    rcases contains_iff.mp hc with heq | ⟨part, hpart, hc⟩
    · exact absurd heq (hs name params returnKind body line)
    · exact (hparts part hpart).outside hin ⟨name, params, returnKind, body, line, hc⟩

/-- The declaration of a function is flat outside of functions, if its names are distinct and its
    body is flat inside of them. -/
theorem function {name : String} {params : List Parameter} {returnKind : Kind}
    {body : List Statement} {line : Nat} (hnames : (params.map Parameter.name).Nodup)
    (hbody : ∀ part ∈ body, part.FlatIn true) :
    FlatIn false (.function name params returnKind body line) where
  functions name' params' returnKind' body' line' hc := by
    rcases contains_iff.mp hc with heq | ⟨part, hpart, hc⟩
    · cases heq
      exact ⟨hnames, fun part hpart => (hbody part hpart).outside rfl⟩
    · exact absurd ⟨name', params', returnKind', body', line', hc⟩
        ((hbody part hpart).outside rfl)
  outside hin := nomatch hin

end Statement.FlatIn

/-- The statements of a flat function. -/
theorem UserFunction.Flat.flatIn {u : UserFunction} (h : u.Flat) :
    ∀ s ∈ u.body, s.FlatIn true := by
  intro s hs
  refine ⟨fun name params returnKind body line hc => ?_, fun _ => h.body s hs⟩
  exact absurd ⟨name, params, returnKind, body, line, hc⟩ (h.body s hs)

namespace Grammar

/-- The flag that says where a statement stands is passed on to its parts, and set for bodies. -/
theorem DerivesStatement.flatIn {inFunction : Bool} {level : Nat} {tokens : List Token}
    {s : Statement} (h : DerivesStatement inFunction level tokens s) : s.FlatIn inFunction := by
  induction h with
  | block _ _ _ _ ih =>
    refine .of_parts nofun fun s hs => ?_
    obtain ⟨part, hpart, rfl⟩ := List.mem_map.mp hs
    exact ih part hpart
  | declare | declareWith | ret | retWith | expression => exact .of_parts nofun nofun
  | branch _ _ _ _ _ _ ih =>
    refine .of_parts nofun fun s hs => ?_
    obtain rfl := List.mem_singleton.mp hs
    exact ih
  | branchElse _ _ _ _ _ _ _ _ _ ihyes ihno =>
    refine .of_parts nofun fun s hs => ?_
    rcases List.mem_cons.mp hs with rfl | hs
    · exact ihyes
    · obtain rfl := List.mem_singleton.mp hs
      exact ihno
  | loop _ _ _ _ _ _ ih =>
    refine .of_parts nofun fun s hs => ?_
    obtain rfl := List.mem_singleton.mp hs
    exact ih
  | select _ _ _ _ _ _ _ _ _ _ _ ih =>
    refine .of_parts nofun fun s hs => ?_
    rcases List.mem_append.mp hs with hs | hs
    · obtain ⟨entry, hentry, rfl⟩ := List.mem_map.mp hs
      obtain ⟨c, hc, hbody⟩ := exists_case_of_mem_typedCases hentry
      exact hbody ▸ ih c hc
    · obtain ⟨c, hc, hbody⟩ :=
        exists_case_of_mem_defaultBodies (List.mem_of_mem_head? (Option.mem_toList.mp hs))
      exact hbody ▸ ih c hc
  | function _ _ _ _ _ _ hnames _ _ _ _ _ _ ih =>
    -- This rule is for statements outside of functions only, and its body is derived inside.
    refine .function ?_ fun s hs => ?_
    · rw [List.map_map]
      exact hnames
    · obtain ⟨part, hpart, rfl⟩ := List.mem_map.mp hs
      exact ih part hpart

end Grammar

/-- The statements of every program that is read are flat. -/
private theorem flatIn_of_parse {source : String} {program : Program}
    (hparse : parse source = .ok program) : ∀ s ∈ program, s.FlatIn false := by
  intro s hs
  obtain ⟨tokens, rest, -, hread⟩ := parse_ok_iff.mp hparse
  obtain ⟨parts, hparts, -, rfl⟩ := Grammar.program_sound hread
  obtain ⟨part, hpart, rfl⟩ := List.mem_map.mp hs
  exact (hparts part hpart).flatIn

/-! ## Runs with flat functions -/

/-- A value that is no declared function, or a flat one. -/
abbrev Value.Flat : Value → Prop :=
  Value.IfDeclared UserFunction.Flat

/-- A run beside itself: all declared functions are flat, and with calls under way no statement
    declares a function. -/
def Correspondence.flat : Correspondence where
  lines := Eq
  exprs _ _ e e' := e = e'
  statements calls _ s s' := s = s' ∧ s.FlatIn (0 < calls)
  functions u u' := u = u' ∧ u.Flat
  natives _ := True

namespace Correspondence

/-- Machines that correspond by flat functions are equal and bind only these. -/
private theorem flat_diagonal : flat.Diagonal UserFunction.Flat where
  lines := Iff.rfl
  functions := Iff.rfl
  natives _ := trivial

/-- The parts of a statement stand in a function if the statement does. -/
private theorem flat_statements {calls depth : Nat} {s s' : Statement}
    (h : flat.statements calls depth s s') :
    s.SameForm Eq (flat.exprs calls depth) (flat.statements calls depth)
      (flat.statements calls (depth + 1)) flat.functions s' := by
  obtain ⟨rfl, hs⟩ := h
  have hpart (t : Statement) (ht : t ∈ s.parts) : flat.statements calls depth t t :=
    ⟨rfl, hs.part ht⟩
  refine .of_parts rfl (fun _ _ => rfl) hpart hpart ?_
  rintro name params returnKind body line rfl
  exact ⟨rfl, hs.functions name params returnKind body line (.self _)⟩

/-- The statements of a program that is read correspond to themselves as flat ones. -/
private theorem flat_of_parse {source : String} {program : Program}
    (hparse : parse source = .ok program)
    (depth : Nat) : List.Forall₂ (flat.statements 0 depth) program program :=
  List.forall₂_same.mpr fun s hs => ⟨rfl, flatIn_of_parse hparse s hs⟩

end Correspondence

/-- Only flat functions occur in a run, and calls run statements without declarations. -/
theorem simulation_flat {ctx : Context} (hhost : ctx.host.PassesFunctions) :
    Simulation .flat ctx ctx where
  limits := rfl
  exprs := by
    rintro calls depth e _ rfl
    exact .of_parts rfl fun _ _ => rfl
  statements := Correspondence.flat_statements
  bodies := by
    -- A body runs with at least one call under way, and a flat one has no declarations.
    rintro calls depth e e' u _ - - ⟨rfl, hu⟩
    exact List.forall₂_same.mpr fun s hs => ⟨rfl, hu.flatIn s hs⟩
  host := fun _ => Correspondence.flat_diagonal.host hhost _

/-! ## Binding parameters -/

namespace Environment

/-- A new scope binds no name. -/
private theorem containsLocally_enter (env : Environment) (name : String) :
    env.enter.containsLocally name = false := by
  simp [containsLocally, enter, Frame.contains]

/-- A binding takes no other name. -/
private theorem containsLocally_define? {env env' : Environment} {name other : String}
    {value : Value} (h : env.define? name value = some env') (hne : other ≠ name) :
    env'.containsLocally other = env.containsLocally other := by
  have hframe (frame : Frame) : (frame.add name value).contains other = frame.contains other := by
    rw [Frame.contains, Frame.get?_add, Function.update_of_ne hne, Frame.contains]
  rw [define?_eq_some h]
  simp only [containsLocally, update, Array.getElem?_modify, if_true]
  cases env.frames[env.current]? with
  | none => rfl
  | some frame => exact hframe frame

end Environment

/-- Different names that are free in the current scope can be bound there. -/
theorem exists_bindAll {names : List String} (hnames : names.Nodup) (values : List Value)
    (line : Nat) (m : Machine) (hfree : ∀ name ∈ names, m.env.containsLocally name = false) :
    ∃ m', Evaluation.bindAll line (names.zip values) m = some (.ok (), m') ∧
      ∀ P : Value → Prop, m.env.AllBound P → (∀ v ∈ values, P v) → m'.env.AllBound P := by
  induction names generalizing values m with
  | nil => exact ⟨m, rfl, fun _ h _ => h⟩
  | cons name names ih =>
    cases values with
    | nil => exact ⟨m, rfl, fun _ h _ => h⟩
    | cons value values =>
      rw [List.nodup_cons] at hnames
      rw [List.forall_mem_cons] at hfree
      obtain ⟨env, hdefine⟩ : ∃ env, m.env.define? name value = some env := by
        rw [Environment.define?, hfree.1]
        exact ⟨_, rfl⟩
      -- The name is bound, and none of the others is taken by that.
      have hfree' : ∀ other ∈ names, env.containsLocally other = false := by
        intro other hother
        have hne : other ≠ name := fun heq => hnames.1 (heq ▸ hother)
        rw [Environment.containsLocally_define? hdefine hne]
        exact hfree.2 other hother
      obtain ⟨m', hbind, hbound⟩ := ih hnames.2 values { m with env := env } hfree'
      refine ⟨m', ?_, fun P hP hvalues => ?_⟩
      · rw [List.zip_cons_cons, Evaluation.bindAll, Action.bind_eq_some]
        refine .inr ⟨(), { m with env := env }, ?_, hbind⟩
        rw [Action.define_eq, Action.changing_eq_some]
        exact .inl ⟨env, hdefine, rfl, rfl⟩
      · rw [List.forall_mem_cons] at hvalues
        exact hbound P (hP.define hvalues.1 hdefine) hvalues.2

/-! ## All along a sequence of runs -/

open Classical in
/-- A property that holds wherever a run is about to evaluate an expression or to execute a
    statement. -/
def Throughout (ctx : Context) (program : Program) (s : Session)
    (property : Step → Machine → Prop) : Prop :=
  Always ctx program s fun step m => decide (property step m)

/-- A step ends with a value. -/
def Step.Gives (ctx : Context) (m : Machine) (value : Value) : Step → Prop
  | .expression e => ∃ fuel m', Evaluation.eval ctx fuel e m = some (.ok value, m')
  | .statement s =>
    ∃ fuel flow m', Evaluation.exec ctx fuel s m = some (.ok flow, m') ∧ flow.value = value

/-- Where a call has its arguments, and the name means a declared function, the parameters of that
    function can be bound in the scope of the call. -/
def BindsParameters (ctx : Context) (name : String) (arguments : List Expr) (line : Nat)
    (m : Machine) : Prop :=
  ∀ fuel values m₁ identity user,
    Evaluation.evalAll (Evaluation.eval ctx fuel) arguments { m with nesting := m.nesting + 1 } =
        some (.ok values, m₁) →
      m₁.env.get? name = some (.function ⟨identity, .user user⟩) →
      ∃ m₂, Evaluation.bindAll line (user.parameterNames.zip values)
          { m₁ with env := m₁.env.enter, calls := m₁.calls + 1 } = some (.ok (), m₂) ∧
        m₂.env.AllBound Value.Flat

/-- What holds where a step is about to be taken. -/
structure FlatAt (ctx : Context) (step : Step) (m : Machine) : Prop where
  /-- Every declared function that is bound is flat. -/
  bound : m.env.AllBound Value.Flat
  /-- And so is every one that is computed, and may be bound then. -/
  gives : ∀ value, step.Gives ctx m value → value.Flat
  /-- A function is declared while no call is under way. -/
  declares : ∀ name params returnKind body line,
    step = .statement (.function name params returnKind body line) → m.calls = 0
  /-- The parameters of calls can be bound. -/
  binds : ∀ name arguments line,
    step = .expression (.call name arguments line) → BindsParameters ctx name arguments line m

section Steps

open Correspondence

variable {ctx : Context} {calls depth : Nat} {m m' : Machine}

/-- A machine that corresponds to another one is that machine. -/
private theorem self_of_flat (hm : m.Corresponds flat.Values calls depth m') :
    m.Corresponds flat.Values calls depth m := by
  have heq : m = m' := hm.eq flat_diagonal.eq_of_values
  rwa [← heq] at hm

/-- A call of a flat function binds its parameters, for their names are distinct and the frame is
    new. -/
private theorem bindsParameters_of_flat (hhost : ctx.host.PassesFunctions) (name : String)
    (arguments : List Expr) (line : Nat) (hm : m.Corresponds flat.Values calls depth m) :
    BindsParameters ctx name arguments line m := by
  intro fuel values m₁ identity user hrun hget
  have hinside : Machine.Corresponds flat.Values calls depth
      { m with nesting := m.nesting + 1 } { m with nesting := m.nesting + 1 } :=
    { hm with nesting := rfl }
  have hrelates : flat.Relates calls depth (List.Forall₂ flat.Values)
      (Evaluation.evalAll (Evaluation.eval ctx fuel) arguments)
      (Evaluation.evalAll (Evaluation.eval ctx fuel) arguments) :=
    Simulation.evalAll ((simulation_flat hhost).eval_exec_plain fuel).1 hm.depth_pos
      (List.forall₂_same.mpr fun _ _ => rfl)
  obtain ⟨hresult, hm₁⟩ := hrelates.self hinside hrun
  -- The function is bound where the arguments have been evaluated, so that it is flat.
  have hbound := flat_diagonal.allBound hm₁.env
  have huser : user.Flat := hbound.get? hget _ user rfl rfl
  obtain ⟨m₂, hbind, hbound₂⟩ := exists_bindAll huser.names values line
    { m₁ with env := m₁.env.enter, calls := m₁.calls + 1 }
    fun name _ => m₁.env.containsLocally_enter name
  refine ⟨m₂, hbind, hbound₂ _ hbound.enter fun v hv => ?_⟩
  cases hresult with
  | ok hvalues => exact (flat_diagonal.values_iff.mp (List.forall₂_same.mp hvalues v hv)).2

/-- Flat machines stay flat while an expression is evaluated. -/
private theorem flatAt_expression (hhost : ctx.host.PassesFunctions) (e : Expr)
    (hm : m.Corresponds flat.Values calls depth m) : FlatAt ctx (.expression e) m where
  bound := flat_diagonal.allBound hm.env
  gives value h := by
    obtain ⟨fuel, m₁, hrun⟩ := h
    have hrelates : flat.Relates calls depth flat.Values (Evaluation.eval ctx fuel e)
        (Evaluation.eval ctx fuel e) :=
      ((simulation_flat hhost).eval_exec_plain fuel).1 rfl hm.depth_pos
    cases (hrelates.self hm hrun).1 with
    | ok hvalue => exact (flat_diagonal.values_iff.mp hvalue).2
  declares _ _ _ _ _ h := nomatch h
  binds name arguments line _ := bindsParameters_of_flat hhost name arguments line hm

/-- Flat machines stay flat while a flat statement is executed. -/
private theorem flatAt_statement (hhost : ctx.host.PassesFunctions) {s : Statement}
    (hs : s.FlatIn (0 < calls)) (hm : m.Corresponds flat.Values calls depth m) :
    FlatAt ctx (.statement s) m where
  bound := flat_diagonal.allBound hm.env
  gives value h := by
    obtain ⟨fuel, flow, m₁, hrun, rfl⟩ := h
    have hrelates : flat.Relates calls depth flat.Flows (Evaluation.exec ctx fuel s)
        (Evaluation.exec ctx fuel s) :=
      ((simulation_flat hhost).eval_exec_plain fuel).2 ⟨rfl, hs⟩ hm.depth_pos
    cases (hrelates.self hm hrun).1 with
    | ok hflow => cases hflow with
      | normal hvalue => exact (flat_diagonal.values_iff.mp hvalue).2
      | returned hvalue => exact (flat_diagonal.values_iff.mp hvalue).2
  declares name params returnKind body line h := by
    cases h
    rw [hm.calls_eq]
    -- With a call under way, the statement stands in the body of a function.
    by_contra hcalls
    have hin : decide (0 < calls) = true := decide_eq_true (Nat.pos_of_ne_zero hcalls)
    exact hs.outside hin ⟨name, params, returnKind, body, line, .self _⟩
  binds _ _ _ h := nomatch h

open Classical in
/-- Flat machines pass at every checkpoint of a flat program. -/
private theorem passes_flat (hhost : ctx.host.PassesFunctions) :
    Simulation.Passes .flat fun step m => decide (FlatAt ctx step m) where
  expression _ hm := decide_eq_true (flatAt_expression hhost _ (self_of_flat hm))
  statement hs hm := decide_eq_true (flatAt_statement hhost hs.2 (self_of_flat hm))

end Steps

/-- A run of a program that is parsed leads from a session to another one, with a value or an
    error. -/
def Session.Runs (s s' : Session) : Prop :=
  ∃ ctx fuel source program result, ctx.host.PassesFunctions ∧ parse source = .ok program ∧
    execute ctx fuel program s = some (result, s')

/-- What is kept from run to run. -/
structure Session.Flat (s : Session) : Prop where
  reachable : s.env.Reachable
  bound : s.env.AllBound Value.Flat

namespace Session.Flat

variable {s s' : Session}

/-- A flat session corresponds to itself by flat functions. -/
private theorem corresponds (h : s.Flat) :
    (Machine.start s).Corresponds Correspondence.flat.Values 0 s.env.depth (.start s) :=
  Correspondence.flat_diagonal.start h.reachable h.bound

/-- Every checkpoint of a program in a flat session is one of a flat machine. -/
private theorem throughout (h : s.Flat) {ctx : Context} (hhost : ctx.host.PassesFunctions)
    {source : String} {program : Program} (hparse : parse source = .ok program) :
    Throughout ctx program s (FlatAt ctx) :=
  (simulation_flat hhost).always (fun _ _ => id) (fun _ _ hu => hu.1) (passes_flat hhost)
    (Correspondence.flat_of_parse hparse s.env.depth) h.corresponds

/-- One run. -/
theorem run (h : s.Flat) (hrun : s.Runs s') : s'.Flat := by
  obtain ⟨ctx, fuel, source, program, result, hhost, hparse, hexecute⟩ := hrun
  have houtcome := (simulation_flat hhost).execute fuel
    (Correspondence.flat_of_parse hparse s.env.depth) h.corresponds
  rw [hexecute] at houtcome
  refine ⟨Evaluation.reachable_of_execute h.reachable hexecute, ?_⟩
  cases houtcome with
  | some houtcome => exact Correspondence.flat_diagonal.allBound houtcome.2.1

/-- All runs, one after the other. -/
private theorem runs (h : s.Flat) (hruns : Relation.ReflTransGen Session.Runs s s') : s'.Flat := by
  induction hruns with
  | refl => exact h
  | tail _ hrun ih => exact ih.run hrun

end Session.Flat

/-- A session in which no declared function is bound: all that is bound comes from the host. -/
structure Session.HostOnly (s : Session) : Prop where
  reachable : s.env.Reachable
  bound : s.env.AllBound (Value.IfDeclared fun _ => False)

namespace Session.HostOnly

/-- The first session has no functions. -/
theorem empty : Session.empty.HostOnly :=
  ⟨.empty, .empty⟩

/-- Functions of the host may be registered. -/
theorem register {s : Session} (h : s.HostOnly) (name : String) (parameters : Parameters)
    (native : Native) : (s.register name parameters native).2.HostOnly := by
  simp only [Session.register]
  split
  · rename_i env hdefine
    refine ⟨.define h.reachable hdefine, h.bound.define ?_ hdefine⟩
    rintro _ user ⟨⟩ ⟨⟩
  · exact h

/-- The standard functions are functions of the host. -/
theorem addStandard {s : Session} (h : s.HostOnly) : s.addStandard.HostOnly := by
  unfold Session.addStandard
  generalize Native.standard = natives
  induction natives generalizing s with
  | nil => exact h
  | cons native natives ih => exact ih (h.register _ _ _)

/-- The standard session has functions of the host only. -/
theorem standard : Session.standard.HostOnly :=
  empty.addStandard

/-- A session with functions of the host only is flat. -/
private theorem flat {s : Session} (h : s.HostOnly) : s.Flat :=
  ⟨h.reachable, fun index name value hvalue function user hfunction huser =>
    (h.bound index name value hvalue function user hfunction huser).elim⟩

end Session.HostOnly

/-- In a session in which no declared function is bound, parsed programs are run one after the
    other, with hosts that return no declared functions but those among their arguments. Then all
    declared functions that are bound behind these runs are flat, and all along every further run
    all that are bound or computed are flat, the parameters of calls can be bound, and functions are
    declared only while no call is under way. -/
theorem functions_stay_flat {s₀ s : Session} (hhost : s₀.HostOnly)
    (hruns : Relation.ReflTransGen Session.Runs s₀ s) :
    s.env.AllBound Value.Flat ∧
      ∀ ctx source program, ctx.host.PassesFunctions → parse source = .ok program →
        Throughout ctx program s (FlatAt ctx) := by
  have hflat := hhost.flat.runs hruns
  exact ⟨hflat.bound, fun ctx source program hpasses hparse => hflat.throughout hpasses hparse⟩

/-- A function of two parameters that is declared in one run, and gets itself as an argument in the
    next one. -/
theorem functions_stay_flat_two_runs :
    let ctx : Context := ⟨{}, fun _ _ line => .error ⟨.assertionFailed, line⟩⟩
    let declaring : Program :=
      [.function "f" [⟨.integer, "x"⟩, ⟨.integer, "y"⟩] .integer
        [.ret (some (.identifier "x" 1)) 1] 1]
    let calling : Program :=
      [.expression (.call "f" [.identifier "f" 1, .literal (.integer 1) 1] 1) 1]
    parse "fun f(int x, int y): int \x7b return x; \x7d" = .ok declaring ∧
      parse "f(f, 1);" = .ok calling ∧
      ∃ s, Session.Runs .standard s ∧ s.env.contains "f" ∧ s.env.AllBound Value.Flat ∧
        Throughout ctx calling s (FlatAt ctx) := by
  intro ctx declaring calling
  have htokens : readTokens "fun f(int x, int y): int \x7b return x; \x7d" = .ok
      [⟨.keyword .kwFun, "fun", 1, 1⟩, ⟨.identifier "f", "f", 1, 5⟩,
        ⟨.symbol .leftParen, "(", 1, 6⟩, ⟨.literal (.type .integer), "int", 1, 7⟩,
        ⟨.identifier "x", "x", 1, 11⟩, ⟨.symbol .comma, ",", 1, 12⟩,
        ⟨.literal (.type .integer), "int", 1, 14⟩, ⟨.identifier "y", "y", 1, 18⟩,
        ⟨.symbol .rightParen, ")", 1, 19⟩, ⟨.symbol .colon, ":", 1, 20⟩,
        ⟨.literal (.type .integer), "int", 1, 22⟩, ⟨.symbol .leftBrace, "\x7b", 1, 26⟩,
        ⟨.keyword .kwReturn, "return", 1, 28⟩, ⟨.identifier "x", "x", 1, 35⟩,
        ⟨.symbol .semicolon, ";", 1, 36⟩, ⟨.symbol .rightBrace, "\x7d", 1, 38⟩] := by
    decide +kernel
  have htokens' : readTokens "f(f, 1);" = .ok
      [⟨.identifier "f", "f", 1, 1⟩, ⟨.symbol .leftParen, "(", 1, 2⟩,
        ⟨.identifier "f", "f", 1, 3⟩, ⟨.symbol .comma, ",", 1, 4⟩,
        ⟨.literal (.integer 1), "1", 1, 6⟩, ⟨.symbol .rightParen, ")", 1, 7⟩,
        ⟨.symbol .semicolon, ";", 1, 8⟩] := by decide +kernel
  have hdeclaring : parse "fun f(int x, int y): int \x7b return x; \x7d" = .ok declaring :=
    parse_ok_iff.mpr ⟨_, _, htokens, rfl⟩
  have hcalling : parse "f(f, 1);" = .ok calling := parse_ok_iff.mpr ⟨_, _, htokens', rfl⟩
  have hhost : ctx.host.PassesFunctions := fun _ _ _ _ _ h => nomatch h
  -- The first run ends, and binds the function.
  have hbinds : (execute ctx 2 declaring .standard).map (fun o => o.2.env.contains "f") =
      some true := by decide +kernel
  obtain ⟨⟨result, s⟩, hexecute, hf⟩ := Option.map_eq_some_iff.mp hbinds
  have hruns : Session.Runs .standard s := ⟨ctx, 2, _, _, result, hhost, hdeclaring, hexecute⟩
  obtain ⟨hbound, hthroughout⟩ := functions_stay_flat .standard (.single hruns)
  exact ⟨hdeclaring, hcalling, s, hruns, hf, hbound, hthroughout ctx _ calling hhost hcalling⟩

end Script
