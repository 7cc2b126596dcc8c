import Mathlib.Data.Finmap
import Script.Proofs.ScopeStack

/-!
# Environments behave as stacks of finite maps

An environment keeps its frames, their parents and the current frame apart, and every operation
reads or changes only some of this. `MapStack` is what an environment stands for: a stack of finite
maps that is never empty. Whatever operations are performed from the start, the environment gives
the answers of the stack, its scopes are the maps of the stack, and a search along the parents comes
to its end without leaving the frames.

## Key results

- `MapStack.get?_eq`, `MapStack.assign?_eq`: the map in which a name is found is read and changed
- `Environment.Stacked.searches`: how a search along the parents ends
- `Environment.Represents.perform`: one operation
- `environment_behaves_as_map_stack`: operations in a row
-/

namespace Script

/-! ## Operations and their answers -/

namespace Environment

/-- An operation on environments. -/
inductive Command where
  | enter
  | exit
  | define (name : String) (value : Value)
  | assign (name : String) (value : Value)
  | get (name : String)
  | contains (name : String) (localOnly : Bool)
  | undefine (name : String)
  | clear

/-- What an operation answers. -/
inductive Answer where
  | done
  | flag (value : Bool)
  | value (found : Option Value)

/-- The answer to a change, and what is left behind: a change that is refused changes nothing. -/
def attempted {State : Type} (s : State) : Option State → Answer × State
  | some changed => (.flag true, changed)
  | none => (.flag false, s)

/-- Performs an operation. -/
def perform (env : Environment) : Command → Answer × Environment
  | .enter => (.done, env.enter)
  | .exit => (.done, env.exit)
  | .define name value => attempted env (env.define? name value)
  | .assign name value => attempted env (env.assign? name value)
  | .get name => (.value (env.get? name), env)
  | .contains name true => (.flag (env.containsLocally name), env)
  | .contains name false => (.flag (env.contains name), env)
  | .undefine name => (.value (env.undefine name).1, (env.undefine name).2)
  | .clear => (.done, env.clear)

/-- Performs operations in order, each by `step`, and gathers their answers. -/
def performAll {State : Type} (step : State → Command → Answer × State) (s : State) :
    List Command → List Answer × State
  | [] => ([], s)
  | command :: rest =>
    let (answer, next) := step s command
    let (answers, last) := performAll step next rest
    (answer :: answers, last)

end Environment

/-! ## Stacks of finite maps -/

/-- A finite map from names to values. -/
abbrev Bindings := Finmap fun _ : String => Value

/-- A stack of finite maps, the top one first. -/
structure MapStack where
  maps : List Bindings
  ne_nil : maps ≠ []

namespace MapStack

/-- One empty map. -/
def empty : MapStack := ⟨[∅], List.cons_ne_nil _ _⟩

/-- The map on top. -/
def top (s : MapStack) : Bindings :=
  s.maps.head s.ne_nil

/-- Puts an empty map on top. -/
def push (s : MapStack) : MapStack :=
  ⟨∅ :: s.maps, List.cons_ne_nil _ _⟩

/-- Takes the top map away, unless it is the only one. -/
def pop (s : MapStack) : MapStack :=
  if h : s.maps.tail = [] then s else ⟨s.maps.tail, h⟩

/-- Changes the map at a place, counted from the top. -/
def modify (s : MapStack) (place : Nat) (change : Bindings → Bindings) : MapStack :=
  ⟨s.maps.modify place change, by simpa using s.ne_nil⟩

/-- The place of the topmost map that has a name. -/
def holder? (s : MapStack) (name : String) : Option Nat :=
  s.maps.findIdx? (name ∈ ·)

/-- The value of a name in the topmost map that has it. -/
def get? (s : MapStack) (name : String) : Option Value :=
  (s.holder? name).bind fun place => s.maps[place]?.bind (·.lookup name)

/-- Adds a name to the top map, unless the map has it. -/
def define? (s : MapStack) (name : String) (value : Value) : Option MapStack :=
  if name ∈ s.top then none else some (s.modify 0 (·.insert name value))

/-- Replaces the value of a name in the topmost map that has it. -/
def assign? (s : MapStack) (name : String) (value : Value) : Option MapStack :=
  (s.holder? name).map fun place => s.modify place (·.insert name value)

/-- Performs an operation. -/
def perform (s : MapStack) : Environment.Command → Environment.Answer × MapStack
  | .enter => (.done, s.push)
  | .exit => (.done, s.pop)
  | .define name value => Environment.attempted s (s.define? name value)
  | .assign name value => Environment.attempted s (s.assign? name value)
  | .get name => (.value (s.get? name), s)
  | .contains name true => (.flag (name ∈ s.top), s)
  | .contains name false => (.flag (s.get? name).isSome, s)
  | .undefine name => (.value (s.top.lookup name), s.modify 0 (·.erase name))
  | .clear => (.done, .empty)

/-! ## The scopes that a stack of maps is -/

/-- What a map binds. -/
def scope (map : Bindings) : Scope :=
  fun name => map.lookup name

/-- The scopes of a stack, the innermost on top. -/
def scopes (s : MapStack) : Scopes :=
  s.maps.map scope

/-- A scope binds the names of its map. -/
private theorem isSome_scope (map : Bindings) (name : String) :
    (scope map name).isSome = decide (name ∈ map) := by
  rw [Bool.eq_iff_iff, decide_eq_true_iff]
  exact Finmap.lookup_isSome

/-- Inserting into a map is updating its scope. -/
private theorem scope_insert (map : Bindings) (name : String) (value : Value) :
    scope (map.insert name value) = Function.update (scope map) name (some value) := by
  funext other
  by_cases h : other = name
  · subst h
    rw [Function.update_self]
    exact Finmap.lookup_insert map
  · rw [Function.update_of_ne h]
    exact Finmap.lookup_insert_of_ne map h

/-- Erasing from a map is updating its scope with nothing. -/
private theorem scope_erase (map : Bindings) (name : String) :
    scope (map.erase name) = Function.update (scope map) name none := by
  funext other
  by_cases h : other = name
  · subst h
    rw [Function.update_self]
    exact Finmap.lookup_erase other map
  · rw [Function.update_of_ne h]
    exact Finmap.lookup_erase_ne h

/-- The map in which a name is found gives the name its value. -/
private theorem get?_map_scope (maps : List Bindings) (name : String) :
    ((maps.findIdx? (name ∈ ·)).bind fun place => maps[place]?.bind (·.lookup name)) =
      Scopes.get? (maps.map scope) name := by
  induction maps with
  | nil => rfl
  | cons map rest ih =>
    rw [List.map_cons, Scopes.get?_cons, List.findIdx?_cons]
    by_cases hmem : name ∈ map
    · obtain ⟨value, hvalue⟩ := Finmap.mem_iff.mp hmem
      simp [hmem, scope, hvalue]
    · -- The map has no value for the name, and the search goes on below it.
      have hnone : scope map name = none := Finmap.lookup_eq_none.mpr hmem
      simp only [hmem, decide_false, Bool.false_eq_true, if_false, hnone, Option.none_or, ← ih]
      cases rest.findIdx? (name ∈ ·) <;> simp

/-- The map in which a name is found is the one that is changed. -/
private theorem assign?_map_scope (maps : List Bindings) (name : String) (value : Value) :
    ((maps.findIdx? (name ∈ ·)).map fun place =>
      (maps.modify place (·.insert name value)).map scope) =
      Scopes.assign? (maps.map scope) name value := by
  induction maps with
  | nil => rfl
  | cons map rest ih =>
    rw [List.map_cons, Scopes.assign?, isSome_scope, List.findIdx?_cons]
    by_cases hmem : name ∈ map
    · simp [hmem, scope_insert]
    · simp only [hmem, decide_false, Bool.false_eq_true, if_false, ← ih]
      cases rest.findIdx? (name ∈ ·) <;> simp

variable (s : MapStack)

/-- A stack is its top map with the others below it. -/
private theorem scopes_eq : s.scopes = scope s.top :: s.scopes.tail := by
  obtain ⟨maps, hne⟩ := s
  cases maps with
  | nil => exact absurd rfl hne
  | cons map rest => rfl

/-- Changing the top map changes the innermost scope only. -/
private theorem scopes_modify_top (change : Bindings → Bindings) :
    (s.modify 0 change).scopes = scope (change s.top) :: s.scopes.tail := by
  obtain ⟨maps, hne⟩ := s
  cases maps with
  | nil => exact absurd rfl hne
  | cons map rest => rfl

/-- Taking the top map away takes the innermost scope away, unless it is the only one. -/
private theorem scopes_pop :
    s.pop.scopes = if s.scopes.length ≤ 1 then s.scopes else s.scopes.tail := by
  obtain ⟨maps, hne⟩ := s
  cases maps with
  | nil => exact absurd rfl hne
  | cons map rest =>
    cases rest with
    | nil => rfl
    | cons next rest => simp [scopes, pop]

/-- A stack gives a name the value that it has in its scopes. -/
theorem get?_eq (name : String) : s.get? name = Scopes.get? s.scopes name :=
  get?_map_scope s.maps name

/-- Defining a name on a stack defines it in its scopes, or both refuse to. -/
theorem define?_eq (name : String) (value : Value) :
    (s.define? name value).map scopes = Scopes.define? s.scopes name value := by
  rw [s.scopes_eq, Scopes.define?, isSome_scope, define?]
  by_cases hmem : name ∈ s.top
  · simp [hmem]
  · simp [hmem, scopes_modify_top, scope_insert]

/-- Assigning a name on a stack assigns it in its scopes, or both refuse to. -/
theorem assign?_eq (name : String) (value : Value) :
    (s.assign? name value).map scopes = Scopes.assign? s.scopes name value := by
  rw [assign?, Option.map_map]
  exact assign?_map_scope s.maps name value

end MapStack

/-! ## Searches -/

namespace Environment

/-- How a name is searched for along the parents, from a frame on, with no bound on the rounds: all
    frames that are looked at exist, and the search ends where a frame binds the name or has no
    parent. -/
inductive Searches (frames : Array Frame) (name : String) : Option Nat → Option Nat → Prop where
  | nowhere : Searches frames name none none
  | found {index : Nat} {frame : Frame} :
      frames[index]? = some frame → frame.contains name →
      Searches frames name (some index) (some index)
  | outward {index : Nat} {frame : Frame} {result : Option Nat} :
      frames[index]? = some frame → ¬ frame.contains name →
      Searches frames name frame.parent result → Searches frames name (some index) result

/-- A search through the first frames comes to its end, if its rounds are as many as the frames. -/
private theorem searches_findFrom {frames : Array Frame} (hl : Linked frames) (name : String)
    {count rounds : Nat} (hcount : count ≤ frames.size) (hrounds : count ≤ rounds) :
    Searches frames name (beneath count) (findFrom frames name rounds (beneath count)) := by
  induction count generalizing rounds with
  | zero =>
    rw [findFrom_beneath_zero]
    exact .nowhere
  | succ count ih =>
    obtain ⟨rounds, rfl⟩ :=
      Nat.exists_eq_add_of_le' (Nat.le_trans (Nat.le_add_left 1 count) hrounds)
    have hframe : frames[count]? = some (frames[count]) := Array.getElem?_eq_getElem hcount
    rw [findFrom_beneath_succ hframe (hl _ _ hframe)]
    split
    · exact .found hframe ‹_›
    · -- The parent is the frame before this one, so that one round less is enough for it.
      refine .outward hframe ‹_› ?_
      rw [hl _ _ hframe]
      exact ih (Nat.le_of_succ_le hcount) (Nat.le_of_succ_le_succ hrounds)

/-- The rounds that a search is given are enough for it. -/
theorem Stacked.searches {env : Environment} (h : env.Stacked) (name : String) :
    Searches env.frames name (some env.current) (env.find? name) := by
  have hstart : beneath env.depth = some env.current := by rw [← h.current]; rfl
  rw [h.find?_eq, ← hstart]
  exact searches_findFrom h.linked name (Nat.le_refl _) (Nat.le_refl _)

/-! ## What the remaining operations do to the scopes -/

/-- Leaving a scope takes the innermost scope away, unless it is the only one. -/
private theorem scopes_exit_eq (env : Environment) :
    env.exit.scopes = if env.scopes.length ≤ 1 then env.scopes else env.scopes.tail := by
  rw [length_scopes]
  by_cases hle : env.depth ≤ 1
  · have hsize : env.frames.size ≤ 1 := hle
    rw [exit, if_pos hsize, if_pos hle]
  · rw [if_neg hle]
    exact scopes_exit (Nat.lt_of_not_le hle)

namespace Reachable

variable {env : Environment}

/-- A name that is found has a value. -/
theorem contains_eq (h : env.Reachable) (name : String) :
    env.contains name = (env.get? name).isSome := by
  have hsearch := h.stacked.searches name
  rw [contains, Environment.get?]
  generalize env.find? name = result, some env.current = start at hsearch
  induction hsearch with
  | nowhere => rfl
  | found hframe hbound => simpa [hframe, Frame.contains] using hbound
  | outward _ _ _ ih => exact ih

/-- Removing a name answers its value in the innermost scope and leaves the other scopes alone. -/
private theorem undefine_eq (h : env.Reachable) (name : String) {scope : Scope} {rest : Scopes}
    (hscopes : env.scopes = scope :: rest) :
    (env.undefine name).1 = scope name ∧
      (env.undefine name).2.scopes = Function.update scope name none :: rest := by
  obtain ⟨frame, hframe, hcurrent⟩ := h.stacked.exists_current
  obtain ⟨rfl, rfl⟩ := List.cons.inj (hscopes.symm.trans hcurrent)
  refine ⟨?_, ?_⟩
  · rw [Environment.undefine, hframe]
    rfl
  · have herase : (env.frames.modify env.current (·.erase name))[env.current]? =
        some (frame.erase name) := by
      simp [Array.getElem?_modify, hframe]
    rw [Environment.undefine, scopes_eq_scopesOf, depth_update, ← h.stacked.current, update,
      scopesOf_succ herase, scopesOf_modify_of_le (Nat.le_refl _), Frame.get?_erase]

/-- Only an empty scope is left. -/
private theorem scopes_clear (h : env.Reachable) : env.clear.scopes = [fun _ => none] := by
  have hdepth : env.clear.depth = 1 := by
    have hpos := h.depth_pos
    simp only [depth] at hpos
    simp only [Environment.clear, depth, Array.size_modify, Array.take_eq_extract,
      Array.size_extract]
    omega
  -- The first frame stays, and loses its bindings.
  obtain ⟨frame, hframe⟩ : ∃ frame, (env.frames.take 1)[0]? = some frame := by
    refine ⟨_, Array.getElem?_eq_getElem ?_⟩
    simpa [Environment.clear, depth] using Nat.lt_of_lt_of_eq Nat.one_pos hdepth.symm
  have hclear : env.clear.frames[0]? = some frame.cleared := by
    rw [Environment.clear, Array.getElem?_modify, hframe]
    rfl
  rw [scopes_eq_scopesOf, hdepth, scopesOf_succ hclear]
  rfl

end Reachable

/-! ## Environments and the stacks that they stand for -/

/-- An environment that a host can build stands for a stack of maps if its scopes are these maps. -/
structure Represents (env : Environment) (s : MapStack) : Prop where
  reachable : env.Reachable
  scopes_eq : env.scopes = s.scopes

namespace Represents

variable {env : Environment} {s : MapStack}

/-- Both start with one empty scope. -/
theorem empty : Represents .empty .empty :=
  ⟨.empty, rfl⟩

/-- A change is refused by both or made to both. -/
private theorem attempted (h : env.Represents s) {changed : Option Environment}
    {changed' : Option MapStack} (hreachable : ∀ env', changed = some env' → env'.Reachable)
    (heq : changed.map Environment.scopes = changed'.map MapStack.scopes) :
    (Environment.attempted env changed).1 = (Environment.attempted s changed').1 ∧
      (Environment.attempted env changed).2.Represents (Environment.attempted s changed').2 := by
  cases changed with
  | none =>
    cases changed' with
    | none => exact ⟨rfl, h⟩
    | some _ => cases heq
  | some env' =>
    cases changed' with
    | none => cases heq
    | some s' => exact ⟨rfl, hreachable env' rfl, Option.some.inj heq⟩

/-- An operation gives the answer of the stack and leads to what the stack becomes. -/
theorem perform (h : env.Represents s) (command : Command) :
    (env.perform command).1 = (s.perform command).1 ∧
      (env.perform command).2.Represents (s.perform command).2 := by
  have hr := h.reachable
  have htop : env.scopes = MapStack.scope s.top :: s.scopes.tail :=
    h.scopes_eq.trans s.scopes_eq
  -- Each command is the command of the stack on the scopes; what it answers depends on them only.
  cases command with
  | enter =>
    refine ⟨rfl, .enter hr, ?_⟩
    show env.enter.scopes = s.push.scopes
    rw [scopes_enter, h.scopes_eq]
    rfl
  | exit =>
    refine ⟨rfl, .exit hr, ?_⟩
    show env.exit.scopes = s.pop.scopes
    rw [scopes_exit_eq, MapStack.scopes_pop, h.scopes_eq]
  | define name value =>
    refine h.attempted (fun env' hdef => .define hr hdef) ?_
    rw [hr.define?_eq, MapStack.define?_eq, h.scopes_eq]
  | assign name value =>
    refine h.attempted (fun env' hasg => .assign hr hasg) ?_
    rw [hr.assign?_eq, MapStack.assign?_eq, h.scopes_eq]
  | get name =>
    refine ⟨?_, h⟩
    show Answer.value (env.get? name) = .value (s.get? name)
    rw [hr.get?_eq, MapStack.get?_eq, h.scopes_eq]
  | contains name localOnly =>
    cases localOnly with
    | true =>
      refine ⟨?_, h⟩
      show Answer.flag (env.containsLocally name) = .flag (name ∈ s.top)
      rw [hr.containsLocally_eq, htop, ← MapStack.isSome_scope]
      rfl
    | false =>
      refine ⟨?_, h⟩
      show Answer.flag (env.contains name) = .flag (s.get? name).isSome
      rw [hr.contains_eq, hr.get?_eq, MapStack.get?_eq, h.scopes_eq]
  | undefine name =>
    obtain ⟨hanswer, hscopes⟩ := hr.undefine_eq name htop
    refine ⟨congrArg Answer.value hanswer, .undefine name hr, ?_⟩
    rw [MapStack.perform, MapStack.scopes_modify_top, MapStack.scope_erase]
    exact hscopes
  | clear => exact ⟨rfl, .clear hr, hr.scopes_clear⟩

/-- Operations in a row give the answers of the stack. -/
private theorem performAll (h : env.Represents s) (commands : List Command) :
    (performAll Environment.perform env commands).1 =
        (performAll MapStack.perform s commands).1 ∧
      (performAll Environment.perform env commands).2.Represents
        (performAll MapStack.perform s commands).2 := by
  induction commands generalizing env s with
  | nil => exact ⟨rfl, h⟩
  | cons command rest ih =>
    obtain ⟨hanswer, hnext⟩ := h.perform command
    obtain ⟨hanswers, hlast⟩ := ih hnext
    refine ⟨?_, hlast⟩
    simp only [Environment.performAll, hanswer, hanswers]

end Represents

end Environment

/-- Every sequence of operations, performed from the start, has the answers that it has on a stack
    of finite maps, and the scopes of the environment are the maps of the stack. The last frame is
    the current one and each frame stands in the one before it, so that every search along the
    parents ends, without looking for a frame that does not exist. -/
theorem environment_behaves_as_map_stack (commands : List Environment.Command) :
    let (answers, env) := Environment.performAll Environment.perform .empty commands
    let (expected, stack) := Environment.performAll MapStack.perform .empty commands
    answers = expected ∧ env.scopes = stack.scopes ∧ env.Stacked ∧
      ∀ name, Environment.Searches env.frames name (some env.current) (env.find? name) := by
  obtain ⟨hanswers, hend⟩ := Environment.Represents.empty.performAll commands
  have hstacked := hend.reachable.stacked
  exact ⟨hanswers, hend.scopes_eq, hstacked, hstacked.searches⟩

end Script
