import Script.Proofs.GrammarSound
import Script.Proofs.RunSimulation

/-!
# How many scopes can be open

Scopes are opened by blocks and by calls. The grammar lets statements be nested `maxNesting` levels
deep, so that a program opens at most that many scopes outside of its calls, and the body of a
function one less. Every call under way adds the scope of its body to that. So the number of scopes
is bounded by the nesting that the grammar allows and by the number of calls that the limits allow,
for functions that are passed around as for those that are called by their names.

`Statement.ScopesWithin` says how many scopes a statement opens at most, one inside the other. What
remains below the bound is enough for it at every point of a run: that is `Correspondence.withRoom`,
a relation between a run and itself.

## Key results

- `Grammar.DerivesStatement.scopesWithin`: the levels of the grammar bound the scopes
- `simulation_withRoom`: every statement is run where there is room for its scopes
- `scopes_bounded`: the bound on the number of open scopes, all along a run
-/

namespace Script

/-! ## Scopes inside statements -/

/-- A statement that opens at most a number of scopes one inside the other, calls not counted. The
    body of a function that it declares needs a level less than the grammar allows. -/
inductive Statement.ScopesWithin : Nat → Statement → Prop where
  | declare (room : Nat) (name : String) (init : Option Expr) (line : Nat) :
      ScopesWithin room (.declare name init line)
  | block {room : Nat} {statements : List Statement} (line : Nat) :
      (∀ s ∈ statements, ScopesWithin room s) → ScopesWithin (room + 1) (.block statements line)
  | branch {room : Nat} (condition : Expr) {yes : Statement} {no : Option Statement} (line : Nat) :
      ScopesWithin room yes → (∀ s ∈ no, ScopesWithin room s) →
        ScopesWithin room (.branch condition yes no line)
  | loop {room : Nat} (condition : Expr) {body : Statement} (line : Nat) :
      ScopesWithin room body → ScopesWithin room (.loop condition body line)
  | select {room : Nat} (subject : Expr) {cases : List (Kind × Statement)}
      {default : Option Statement} (line : Nat) :
      (∀ c ∈ cases, ScopesWithin room c.2) → (∀ s ∈ default, ScopesWithin room s) →
        ScopesWithin room (.select subject cases default line)
  | function (room : Nat) (name : String) (params : List Parameter) (returnKind : Kind)
      {body : List Statement} (line : Nat) :
      (∀ s ∈ body, ScopesWithin (maxNesting - 1) s) →
        ScopesWithin room (.function name params returnKind body line)
  | ret (room : Nat) (value : Option Expr) (line : Nat) : ScopesWithin room (.ret value line)
  | expression (room : Nat) (value : Expr) (line : Nat) :
      ScopesWithin room (.expression value line)

namespace Grammar

/-- The body of a typed case is the body of a case. -/
theorem exists_case_of_mem_typedCases {cases : List Case} {entry : Kind × Statement}
    (h : entry ∈ typedCases cases) : ∃ c ∈ cases, c.body = entry.2 := by
  obtain ⟨c, hc, hentry⟩ := List.mem_filterMap.mp h
  obtain ⟨kind, -, rfl⟩ := Option.map_eq_some_iff.mp hentry
  exact ⟨c, hc, rfl⟩

/-- The body of a default case is the body of a case. -/
theorem exists_case_of_mem_defaultBodies {cases : List Case} {body : Statement}
    (h : body ∈ defaultBodies cases) : ∃ c ∈ cases, c.body = body := by
  obtain ⟨c, hc, hbody⟩ := List.mem_map.mp h
  exact ⟨c, (List.mem_filter.mp hc).1, hbody⟩

/-- A statement opens no more scopes than there are levels left. The induction is on the derivation:
    every part of a statement is a level deeper, and a block is the only one to open a scope. -/
theorem DerivesStatement.scopesWithin {inFunction : Bool} {level : Nat} {tokens : List Token}
    {s : Statement} (h : DerivesStatement inFunction level tokens s) (hlevel : 0 < level)
    {room : Nat} (hroom : maxNesting < level + room) : s.ScopesWithin room := by
  induction h generalizing room with
  | @block _ level _ _ parts hle _ _ _ ih =>
    -- The block stands on a level of the grammar, so that there is room for its scope.
    obtain ⟨inner, rfl⟩ : ∃ inner, room = inner + 1 := ⟨room - 1, by omega⟩
    apply Statement.ScopesWithin.block
    intro s hs
    obtain ⟨part, hpart, rfl⟩ := List.mem_map.mp hs
    exact ih part hpart (by omega) (by omega)
  | declare | declareWith => exact .declare _ _ _ _
  | branch _ _ _ _ _ _ ih => exact .branch _ _ (ih (by omega) (by omega)) nofun
  | branchElse _ _ _ _ _ _ _ _ _ ihyes ihno =>
    apply Statement.ScopesWithin.branch _ _ (ihyes (by omega) (by omega))
    intro s hs
    cases hs
    exact ihno (by omega) (by omega)
  | loop _ _ _ _ _ _ ih => exact .loop _ _ (ih (by omega) (by omega))
  | select _ _ _ _ _ _ _ _ _ _ _ ih =>
    apply Statement.ScopesWithin.select
    · intro entry hentry
      obtain ⟨c, hc, hbody⟩ := exists_case_of_mem_typedCases hentry
      exact hbody ▸ ih c hc (by omega) (by omega)
    · intro s hs
      obtain ⟨c, hc, hbody⟩ := exists_case_of_mem_defaultBodies (List.mem_of_mem_head? hs)
      exact hbody ▸ ih c hc (by omega) (by omega)
  | function _ _ _ _ _ _ _ _ _ _ _ _ _ ih =>
    -- The function itself takes a level, so that its body has one less than there are.
    apply Statement.ScopesWithin.function
    intro s hs
    obtain ⟨part, hpart, rfl⟩ := List.mem_map.mp hs
    exact ih part hpart (by omega) (by omega)
  | ret | retWith => exact .ret _ _ _
  | expression => exact .expression _ _ _

end Grammar

/-- The statements of a program that is parsed open at most as many scopes as the grammar has
    levels. -/
private theorem scopesWithin_of_parse {source : String} {program : Program}
    (hparse : parse source = .ok program) {s : Statement} (hs : s ∈ program) :
    s.ScopesWithin maxNesting := by
  obtain ⟨tokens, rest, -, hread⟩ := parse_ok_iff.mp hparse
  obtain ⟨parts, hparts, -, rfl⟩ := Grammar.program_sound hread
  obtain ⟨part, hpart, rfl⟩ := List.mem_map.mp hs
  exact (hparts part hpart).scopesWithin Nat.one_pos (by omega)

/-! ## Declared functions -/

/-- A statement that is a part of another one, at any depth, or is that statement. -/
inductive Statement.Contains : Statement → Statement → Prop where
  | self (s : Statement) : Contains s s
  | block {statements : List Statement} {t s : Statement} (line : Nat) :
      t ∈ statements → Contains t s → Contains (.block statements line) s
  | yes (condition : Expr) {yes s : Statement} (no : Option Statement) (line : Nat) :
      Contains yes s → Contains (.branch condition yes no line) s
  | no (condition : Expr) (yes : Statement) {no s : Statement} (line : Nat) :
      Contains no s → Contains (.branch condition yes (some no) line) s
  | loop (condition : Expr) {body s : Statement} (line : Nat) :
      Contains body s → Contains (.loop condition body line) s
  | case (subject : Expr) {cases : List (Kind × Statement)} {c : Kind × Statement}
      (default : Option Statement) {s : Statement} (line : Nat) :
      c ∈ cases → Contains c.2 s → Contains (.select subject cases default line) s
  | default (subject : Expr) (cases : List (Kind × Statement)) {default s : Statement}
      (line : Nat) : Contains default s → Contains (.select subject cases (some default) line) s
  | function (name : String) (params : List Parameter) (returnKind : Kind) {body : List Statement}
      {t s : Statement} (line : Nat) :
      t ∈ body → Contains t s → Contains (.function name params returnKind body line) s

/-- A statement inside another one has scopes within some room too. -/
private theorem Statement.ScopesWithin.of_contains {room : Nat} {s t : Statement}
    (h : s.ScopesWithin room) (hc : s.Contains t) : ∃ room', t.ScopesWithin room' := by
  -- How much room the inner statement has depends on the way to it, and any amount will do.
  induction hc generalizing room with
  | self s => exact ⟨room, h⟩
  | block line hmem _ ih => cases h with
    | block _ hs => exact ih (hs _ hmem)
  | yes _ _ _ _ ih => cases h with
    | branch _ _ hyes _ => exact ih hyes
  | no _ _ _ _ ih => cases h with
    | branch _ _ _ hno => exact ih (hno _ rfl)
  | loop _ _ _ ih => cases h with
    | loop _ _ hbody => exact ih hbody
  | case _ _ _ hmem _ ih => cases h with
    | select _ _ hcases _ => exact ih (hcases _ hmem)
  | default _ _ _ _ ih => cases h with
    | select _ _ _ hdefault => exact ih (hdefault _ rfl)
  | function _ _ _ _ hmem _ ih => cases h with
    | function _ _ _ _ _ hbody => exact ih (hbody _ hmem)

/-- A function that some program declares which can be parsed from a source text. -/
def UserFunction.Declared (u : UserFunction) : Prop :=
  ∃ source program s name params returnKind body line, parse source = .ok program ∧
    s ∈ program ∧ s.Contains (.function name params returnKind body line) ∧
      u = .ofDeclaration name params returnKind body

/-- A value that is no function, or one of the host's, or one that a source text declares. -/
def Value.Declared (value : Value) : Prop :=
  ∀ function user, value = .function function → function.callable = .user user → user.Declared

/-- The body of a function that a program declares has scopes within the levels of the parser. -/
theorem UserFunction.Declared.scopesWithin {u : UserFunction} (h : u.Declared) :
    ∀ s ∈ u.body, s.ScopesWithin (maxNesting - 1) := by
  obtain ⟨source, program, s, name, params, returnKind, body, line, hparse, hs, hc, rfl⟩ := h
  -- The declaration stands somewhere in the program, and its body starts one level deeper.
  obtain ⟨room, hfunction⟩ := (scopesWithin_of_parse hparse hs).of_contains hc
  cases hfunction with
  | function _ _ _ _ _ hbody => exact hbody

/-! ## Runs with room for their scopes -/

/-- A run beside itself: with some calls under way, no more scopes are open than those calls allow,
    and where a statement is run there is room for the scopes that it opens. -/
def Correspondence.withRoom (limits : Limits) (base : Nat) : Correspondence where
  lines := Eq
  exprs calls depth e e' :=
    e = e' ∧ calls ≤ limits.maxCalls ∧ depth ≤ base + maxNesting * (1 + calls)
  statements calls depth s s' :=
    s = s' ∧ calls ≤ limits.maxCalls ∧
      ∃ room, s.ScopesWithin room ∧ depth + room ≤ base + maxNesting * (1 + calls)
  functions u u' := u = u' ∧ ∀ s ∈ u.body, s.ScopesWithin (maxNesting - 1)
  natives _ := True

namespace Correspondence

variable {limits : Limits} {base calls depth : Nat}

/-- The parts of a statement that has room for its scopes have room for theirs. Only a block takes
    some of it for itself. -/
private theorem withRoom_statements {s s' : Statement}
    (h : (withRoom limits base).statements calls depth s s') :
    s.SameForm Eq ((withRoom limits base).exprs calls depth)
      ((withRoom limits base).statements calls depth)
      ((withRoom limits base).statements calls (depth + 1)) (withRoom limits base).functions
      s' := by
  obtain ⟨rfl, hcalls, room, hs, hroom⟩ := h
  have hexpr (e : Expr) : (withRoom limits base).exprs calls depth e e := ⟨rfl, hcalls, by omega⟩
  have hpart (t : Statement) (ht : t.ScopesWithin room) :
      (withRoom limits base).statements calls depth t t := ⟨rfl, hcalls, room, ht, hroom⟩
  -- A block opens one scope, so that the depth grows as the room shrinks; all other parts keep
  -- both.
  cases hs with
  | declare _ name init line => exact .declare name (rel_refl fun e _ => hexpr e) rfl
  | block line hs =>
    refine .block (List.forall₂_same.mpr fun t ht => ?_)
    exact ⟨rfl, hcalls, _, hs t ht, by omega⟩
  | branch condition line hyes hno =>
    exact .branch (hexpr condition) (hpart _ hyes) (rel_refl fun t ht => hpart t (hno t ht))
  | loop condition line hbody => exact .loop (hexpr condition) (hpart _ hbody)
  | select subject line hcases hdefault =>
    exact .select (hexpr subject)
      (List.forall₂_same.mpr fun c hc => ⟨rfl, hpart c.2 (hcases c hc)⟩)
      (rel_refl fun t ht => hpart t (hdefault t ht))
  | function _ name params returnKind line hbody =>
    exact .function name params returnKind ⟨rfl, hbody⟩ rfl
  | ret _ value line => exact .ret (rel_refl fun e _ => hexpr e)
  | expression _ value line => exact .expression (hexpr value)

/-- Machines that correspond with room are equal, and bind only functions with room for their
    scopes. -/
private theorem withRoom_diagonal (limits : Limits) (base : Nat) :
    (withRoom limits base).Diagonal fun u => ∀ s ∈ u.body, s.ScopesWithin (maxNesting - 1) where
  lines := Iff.rfl
  functions := Iff.rfl
  natives _ := trivial

/-- A value corresponds to itself unless it is a function whose body opens too many scopes. -/
private theorem withRoom_values_self {v : Value}
    (h : ∀ function user, v = .function function → function.callable = .user user →
      ∀ s ∈ user.body, s.ScopesWithin (maxNesting - 1)) : (withRoom limits base).Values v v :=
  (withRoom_diagonal limits base).values_iff.mpr ⟨rfl, h⟩

end Correspondence

/-- Every statement is run where there is room for its scopes. -/
theorem simulation_withRoom (ctx : Context) (hhost : ctx.host.PassesFunctions) (base : Nat) :
    Simulation (.withRoom ctx.limits base) ctx ctx where
  limits := rfl
  exprs := by
    intro calls depth e e' h
    obtain ⟨rfl, hbound⟩ := h
    exact .of_parts rfl fun _ _ => ⟨rfl, hbound⟩
  statements := Correspondence.withRoom_statements
  bodies := by
    intro calls depth e e' u u' he hlt hu
    obtain ⟨-, -, hdepth⟩ := he
    obtain ⟨rfl, hbody⟩ := hu
    refine List.forall₂_same.mpr fun s hs => ⟨rfl, hlt, _, hbody s hs, ?_⟩
    -- A call adds the scope of its body to the levels of the grammar that are left inside it.
    have hlevels : 0 < maxNesting := by decide
    rw [Nat.mul_add] at hdepth ⊢
    rw [Nat.mul_add]
    omega
  host := fun _ => (Correspondence.withRoom_diagonal ctx.limits base).host hhost _

/-! ## The bound -/

/-- Whatever is run, no more scopes are open than the levels of the grammar for the program and for
    every call that the limits allow. -/
private theorem passes_withRoom (limits : Limits) (base : Nat) :
    Simulation.Passes (.withRoom limits base) fun _ m =>
      m.env.depth ≤ base + maxNesting * (1 + limits.maxCalls) := by
  -- No more calls are under way than the limits allow.
  have hbound {calls depth : Nat} (hcalls : calls ≤ limits.maxCalls)
      (hdepth : depth ≤ base + maxNesting * (1 + calls)) :
      depth ≤ base + maxNesting * (1 + limits.maxCalls) := by
    have hmul := Nat.mul_le_mul_left maxNesting (Nat.add_le_add_left hcalls 1)
    omega
  refine ⟨fun {_ _ _ _ m m'} he hm => ?_, fun {_ _ _ _ m m'} hs hm => ?_⟩
  · obtain ⟨-, hcalls, hdepth⟩ := he
    rw [hm.depth_eq]
    exact decide_eq_true (hbound hcalls hdepth)
  · obtain ⟨-, hcalls, room, -, hroom⟩ := hs
    rw [hm.depth_eq]
    exact decide_eq_true (hbound hcalls (by omega))

/-- At every statement executed and every expression evaluated in a run of a program that is parsed,
    the number of open scopes is at most 64 more than at the start, and another 64 more for each
    call that the limits allow. All functions that are bound at the start have to be declared by
    programs that are parsed, and the host must not make others. -/
theorem scopes_bounded (ctx : Context) (hhost : ctx.host.PassesFunctions) (source : String)
    (program : Program) (hparse : parse source = .ok program) (s : Session)
    (hreachable : s.env.Reachable) (hbound : s.env.AllBound Value.Declared) :
    Always ctx program s fun _ m =>
      m.env.depth ≤ s.env.depth + 64 * (1 + ctx.limits.maxCalls) := by
  -- At the start no call is under way, and there is room for all scopes of the program.
  have hstart : (Machine.start s).Corresponds
      (Correspondence.withRoom ctx.limits s.env.depth).Values 0 s.env.depth (.start s) := by
    apply Machine.Corresponds.start hreachable
    intro index name value hvalue
    apply Correspondence.withRoom_values_self
    intro function user hv huser
    exact (hbound index name value hvalue function user hv huser).scopesWithin
  have hprogram : List.Forall₂
      ((Correspondence.withRoom ctx.limits s.env.depth).statements 0 s.env.depth)
      program program := by
    refine List.forall₂_same.mpr fun statement hstatement => ?_
    exact ⟨rfl, Nat.zero_le _, maxNesting, scopesWithin_of_parse hparse hstatement, by omega⟩
  exact (simulation_withRoom ctx hhost s.env.depth).always (fun _ _ => id) (fun _ _ hu => hu.1)
    (passes_withRoom ctx.limits s.env.depth) hprogram hstart

/-- A function that calls itself in a block, called in a block under a limit of one call: four
    scopes are open when the second call is refused. -/
theorem scopes_bounded_recursive_call :
    let ctx : Context := ⟨⟨1, 1024⟩, fun _ _ line => .error ⟨.assertionFailed, line⟩⟩
    let calling : Program := [.block [.expression (.call "f" [] 1) 1] 1]
    let f : Value := .function ⟨0, .user (.ofDeclaration "f" [] .integer calling)⟩
    let s : Session := ⟨⟨#[⟨[("f", f)], none⟩], 0⟩, "", 1⟩
    parse "\x7b f(); \x7d" = .ok calling ∧
      parse "fun f(): int \x7b \x7b f(); \x7d \x7d" =
        .ok [.function "f" [] .integer calling 1] ∧
      (Always ctx calling s fun _ m => m.env.depth ≤ 1 + 64 * (1 + 1)) ∧
      ¬ Always ctx calling s fun _ m => m.env.depth ≤ 3 := by
  intro ctx calling f s
  have htokens : readTokens "\x7b f(); \x7d" = .ok
      [⟨.symbol .leftBrace, "\x7b", 1, 1⟩, ⟨.identifier "f", "f", 1, 3⟩,
        ⟨.symbol .leftParen, "(", 1, 4⟩, ⟨.symbol .rightParen, ")", 1, 5⟩,
        ⟨.symbol .semicolon, ";", 1, 6⟩, ⟨.symbol .rightBrace, "\x7d", 1, 8⟩] := by decide +kernel
  have htokens' : readTokens "fun f(): int \x7b \x7b f(); \x7d \x7d" = .ok
      [⟨.keyword .kwFun, "fun", 1, 1⟩, ⟨.identifier "f", "f", 1, 5⟩,
        ⟨.symbol .leftParen, "(", 1, 6⟩, ⟨.symbol .rightParen, ")", 1, 7⟩,
        ⟨.symbol .colon, ":", 1, 8⟩, ⟨.literal (.type .integer), "int", 1, 10⟩,
        ⟨.symbol .leftBrace, "\x7b", 1, 14⟩, ⟨.symbol .leftBrace, "\x7b", 1, 16⟩,
        ⟨.identifier "f", "f", 1, 18⟩, ⟨.symbol .leftParen, "(", 1, 19⟩,
        ⟨.symbol .rightParen, ")", 1, 20⟩, ⟨.symbol .semicolon, ";", 1, 21⟩,
        ⟨.symbol .rightBrace, "\x7d", 1, 23⟩, ⟨.symbol .rightBrace, "\x7d", 1, 25⟩] := by
    decide +kernel
  have hparse : parse "\x7b f(); \x7d" = .ok calling := parse_ok_iff.mpr ⟨_, _, htokens, rfl⟩
  have hdeclares : parse "fun f(): int \x7b \x7b f(); \x7d \x7d" =
      .ok [.function "f" [] .integer calling 1] := parse_ok_iff.mpr ⟨_, _, htokens', rfl⟩
  have hf : f.Declared := by
    intro function user hfunction huser
    obtain rfl := Value.function.inj hfunction
    obtain rfl := Callable.user.inj huser
    exact ⟨_, _, _, _, _, _, _, _, hdeclares, List.mem_singleton_self _, .self _, rfl⟩
  refine ⟨hparse, hdeclares, ?_, ?_⟩
  · exact scopes_bounded ctx (fun _ _ _ _ _ h => nomatch h) _ calling hparse s
      (.define .empty rfl) (.define .empty hf rfl)
  · intro halways
    -- With the alarm on line 7, the checked run ends there and the plain one on line 1.
    let line (o : Except RuntimeError Flow × Machine) : Nat :=
      match o.1 with
      | .error e => e.line
      | .ok _ => 0
    have hlines := congrArg (Option.map line) (halways ⟨.assertionFailed, 7⟩ 9)
    exact absurd hlines (by decide +kernel)

end Script
