import Mathlib.Logic.Function.Basic
import Script.Proofs.RunBalance

/-!
# Environments as stacks of scopes

The frames of an environment stand in one array and name their parents by index. In every
environment that a host can build, each frame stands inside the one before it and the last one is
current, so that the environment is a stack of scopes. `Environment.scopes` is this stack, the
innermost scope first, and each operation on environments is an operation on it.

## Key results

- `Environment.Reachable.stacked`: the frames are linked in the order of the array
- `Environment.Reachable.get?_eq`: a name means its binding in the first scope that has one
- `Environment.Reachable.define?_eq`, `Environment.Reachable.assign?_eq`: how bindings change the
  stack
-/

namespace Script

/-- The bindings of one scope. -/
abbrev Scope := String → Option Value

/-- The scopes of an environment, the innermost first. -/
abbrev Scopes := List Scope

namespace Scopes

/-- The value of a name in the first scope that binds it. -/
def get? (scopes : Scopes) (name : String) : Option Value :=
  scopes.findSome? (· name)

/-- Whether the innermost scope binds a name. -/
def containsLocally (scopes : Scopes) (name : String) : Bool :=
  scopes.head?.any (fun scope => (scope name).isSome)

/-- Binds a name in the innermost scope, unless it is bound there. -/
def define? (scopes : Scopes) (name : String) (value : Value) : Option Scopes :=
  match scopes with
  | [] => none
  | scope :: rest =>
    if (scope name).isSome then none else some (Function.update scope name (some value) :: rest)

/-- Gives a name another value in the first scope that binds it. -/
def assign? (scopes : Scopes) (name : String) (value : Value) : Option Scopes :=
  match scopes with
  | [] => none
  | scope :: rest =>
    if (scope name).isSome then
      some (Function.update scope name (some value) :: rest)
    else
      (assign? rest name value).map (scope :: ·)

/-- A name means its binding in the innermost scope, or else what it means in the others. -/
theorem get?_cons (scope : Scope) (rest : Scopes) (name : String) :
    get? (scope :: rest) name = (scope name).or (get? rest name) := by
  simp only [get?, List.findSome?_cons]
  cases scope name <;> rfl

/-- Binding a name in the innermost scope gives it its meaning. -/
private theorem get?_update_cons (scope : Scope) (rest : Scopes) (name : String) (value : Value) :
    get? (Function.update scope name (some value) :: rest) =
      Function.update (get? (scope :: rest)) name (some value) := by
  funext other
  by_cases h : other = name
  · simp [h, get?_cons]
  · simp [h, get?_cons]

/-- A name can be bound in the innermost scope unless it is bound there already. -/
theorem define?_eq_none_iff {scopes : Scopes} (hne : scopes ≠ []) {name : String} {value : Value} :
    define? scopes name value = none ↔ containsLocally scopes name := by
  cases scopes with
  | nil => exact absurd rfl hne
  | cons scope rest => cases hbound : scope name <;> simp [define?, containsLocally, hbound]

/-- What can be seen of the scopes after a name was bound. -/
theorem of_define? {scopes scopes' : Scopes} {name : String} {value : Value}
    (h : define? scopes name value = some scopes') :
    get? scopes' = Function.update (get? scopes) name (some value) ∧
      containsLocally scopes' = Function.update (containsLocally scopes) name true ∧
      scopes' ≠ [] := by
  cases scopes with
  | nil => simp [define?] at h
  | cons scope rest =>
    simp only [define?] at h
    split at h
    · cases h
    · cases h
      refine ⟨get?_update_cons scope rest name value, ?_, List.cons_ne_nil _ _⟩
      funext other
      by_cases ho : other = name
      · simp [ho, containsLocally]
      · simp [ho, containsLocally]

/-- A name can be given another value if some scope binds it. -/
theorem assign?_eq_none_iff {scopes : Scopes} {name : String} {value : Value} :
    assign? scopes name value = none ↔ get? scopes name = none := by
  induction scopes with
  | nil => simp [assign?, get?]
  | cons scope rest ih =>
    rw [assign?, get?_cons]
    cases hbound : scope name with
    | none => simp [ih]
    | some old => simp

/-- What can be seen of the scopes after a name was given another value. -/
theorem of_assign? {scopes scopes' : Scopes} {name : String} {value : Value}
    (h : assign? scopes name value = some scopes') :
    get? scopes' = Function.update (get? scopes) name (some value) ∧
      containsLocally scopes' = containsLocally scopes ∧ scopes' ≠ [] := by
  induction scopes generalizing scopes' with
  | nil => simp [assign?] at h
  | cons scope rest ih =>
    simp only [assign?] at h
    split at h
    · rename_i hbound
      cases h
      refine ⟨get?_update_cons scope rest name value, ?_, List.cons_ne_nil _ _⟩
      funext other
      by_cases ho : other = name
      · simp [ho, containsLocally, hbound]
      · simp [ho, containsLocally]
    · rename_i hfree
      obtain ⟨rest', hrest, rfl⟩ := Option.map_eq_some_iff.mp h
      refine ⟨?_, rfl, List.cons_ne_nil _ _⟩
      have hnone : scope name = none := by simpa using hfree
      -- The scope hides nothing of the name, and of the other names nothing changes.
      funext other
      rw [get?_cons, (ih hrest).1]
      by_cases ho : other = name
      · simp [ho, hnone]
      · simp [ho, get?_cons]

end Scopes

/-! ## Frames as scopes -/

namespace Frame

/-- Looking a name up compares it with the first binding as a proposition. -/
private theorem lookup_cons_eq (name bound : String) (value : Value)
    (rest : List (String × Value)) :
    ((bound, value) :: rest).lookup name =
      if name = bound then some value else rest.lookup name := by
  by_cases h : name = bound
  · simp [h]
  · simp [List.lookup_cons, beq_false_of_ne h, h]

/-- A new frame binds nothing. -/
@[simp] theorem get?_under (parent : Option Nat) : (under parent).get? = fun _ => none := rfl

/-- Adding a binding gives the name its value, whatever it was bound to. -/
@[simp] theorem get?_add (f : Frame) (name : String) (value : Value) :
    (f.add name value).get? = Function.update f.get? name (some value) := by
  funext other
  rw [Function.update_apply]
  exact lookup_cons_eq other name value f.bindings

/-- Replacing gives a bound name its new value and leaves all other names alone. -/
theorem get?_replace (f : Frame) (name other : String) (value : Value) :
    (f.replace name value).get? other =
      if other = name then (f.get? name).map (fun _ => value) else f.get? other := by
  obtain ⟨bindings, parent⟩ := f
  simp only [get?, replace]
  -- Both look for the first binding of the name, which is replaced where it stands.
  induction bindings with
  | nil => simp
  | cons binding rest ih =>
    obtain ⟨bound, old⟩ := binding
    rw [List.map_cons, lookup_cons_eq name, lookup_cons_eq other]
    by_cases hb : bound = name
    · rw [if_pos hb, lookup_cons_eq, ih]
      by_cases ho : other = name
      · simp [hb, ho]
      · simp [hb, ho]
    · rw [if_neg hb, lookup_cons_eq, ih]
      by_cases ho : other = name
      · simp [Ne.symm hb, ho]
      · simp [ho]

/-- Replacing the value of a name that is bound gives the name its new value. -/
private theorem get?_replace_of_contains {f : Frame} {name : String} (hf : f.contains name)
    (value : Value) : (f.replace name value).get? = Function.update f.get? name (some value) := by
  obtain ⟨old, hold⟩ := Option.isSome_iff_exists.mp hf
  funext other
  rw [Function.update_apply, get?_replace, hold]
  rfl

/-- Erasing a name takes its binding away and no other one. -/
theorem get?_erase (f : Frame) (name : String) :
    (f.erase name).get? = Function.update f.get? name none := by
  obtain ⟨bindings, parent⟩ := f
  funext other
  simp only [get?, erase, Function.update_apply]
  induction bindings with
  | nil => simp
  | cons binding rest ih =>
    obtain ⟨bound, value⟩ := binding
    rw [List.filter_cons, lookup_cons_eq other]
    by_cases hb : bound = name
    · -- The binding goes, and it was one of the erased name.
      simp only [hb, ne_eq, not_true_eq_false, decide_false, Bool.false_eq_true, if_false, ih]
      by_cases ho : other = name
      · simp [ho]
      · simp [ho]
    · simp only [hb, ne_eq, not_false_eq_true, decide_true, if_true, lookup_cons_eq other, ih]
      by_cases ho : other = name
      · simp [ho, Ne.symm hb]
      · simp [ho]

end Frame

/-! ## Frames that are linked in the order of the array -/

namespace Environment

/-- The index of the frame under the frame at an index. -/
def beneath : Nat → Option Nat
  | 0 => none
  | index + 1 => some index

/-- Each frame stands inside the one before it, and the last frame is current. -/
structure Stacked (env : Environment) : Prop where
  current : env.current + 1 = env.depth
  parents : env.parents = (List.range env.depth).map beneath

/-- The scopes of an environment, the innermost first. -/
def scopes (env : Environment) : Scopes :=
  (env.frames.toList.map Frame.get?).reverse

/-- Whether frames are stacked depends on the current frame and the parents only. -/
private theorem Stacked.of_same_shape {env env' : Environment} (h : env.Stacked)
    (hcur : env'.current = env.current) (hpar : env'.parents = env.parents) : env'.Stacked := by
  have hdepth : env'.depth = env.depth := by
    simpa [Environment.parents, depth] using congrArg List.length hpar
  exact ⟨by rw [hcur, hdepth]; exact h.current, by rw [hpar, hdepth]; exact h.parents⟩

/-- A new frame stands inside the one that was current. -/
theorem Stacked.enter {env : Environment} (h : env.Stacked) : env.enter.Stacked := by
  have hdepth := env.depth_enter
  refine ⟨by rw [hdepth]; rfl, ?_⟩
  have hpar : env.enter.parents = env.parents ++ [some env.current] := by
    simp [Environment.parents, Environment.enter]
  rw [hpar, hdepth, List.range_succ, List.map_append, h.parents, ← h.current]
  rfl

/-- Behind the last frame, the frame before it is current. -/
theorem Stacked.exit {env : Environment} (h : env.Stacked) : env.exit.Stacked := by
  unfold Environment.exit
  split
  · exact h
  · rename_i hsize
    -- There is more than one frame, so that the last one has a frame before it.
    obtain ⟨n, hn⟩ : ∃ n, env.depth = n + 2 := ⟨env.depth - 2, by simp only [depth]; omega⟩
    have hpar := h.parents
    rw [hn, List.range_succ, List.map_append] at hpar
    -- The parent of the last frame is the frame before it.
    have hlast : env.frames.back?.bind Frame.parent = some n := by
      have hb := congrArg List.getLast? hpar
      simp only [Environment.parents, List.getLast?_map, Array.getLast?_toList] at hb
      cases hf : env.frames.back? with
      | none => simp [hf] at hb
      | some f => simpa [hf, beneath] using hb
    have hsize' : env.frames.size = n + 2 := hn
    refine ⟨?_, ?_⟩
    · simp [hlast, depth, hsize']
    · simpa [Environment.parents, depth, hsize', List.map_dropLast]
        using congrArg List.dropLast hpar

/-- Only the outermost frame is left, without its bindings. -/
theorem Stacked.clear {env : Environment} (h : env.Stacked) : env.clear.Stacked := by
  obtain ⟨n, hn⟩ : ∃ n, env.depth = n + 1 := ⟨env.current, h.current.symm⟩
  have hsize : env.frames.size = n + 1 := hn
  have hpar : env.clear.parents = env.parents.take 1 := by
    refine (parents_update ⟨env.frames.take 1, 0⟩ 0 Frame.parent_cleared).trans ?_
    simp [Environment.parents, List.map_take]
  refine ⟨by simp [Environment.clear, depth, hsize], ?_⟩
  rw [hpar, h.parents, hn, ← List.map_take, List.take_range]
  simp [Environment.clear, depth, hsize]

/-- The frames of every environment that a host can build are stacked, by induction on how it was
    built. -/
theorem Reachable.stacked {env : Environment} (h : env.Reachable) : env.Stacked := by
  induction h with
  | empty => exact ⟨rfl, rfl⟩
  | enter _ ih => exact ih.enter
  | exit _ ih => exact ih.exit
  | define _ h ih =>
    rw [define?_eq_some h]
    exact ih.of_same_shape rfl (parents_update _ _ fun _ => rfl)
  | assign _ h ih =>
    obtain ⟨index, rfl⟩ := assign?_eq_some h
    exact ih.of_same_shape rfl (parents_update _ _ fun _ => rfl)
  | undefine name _ ih => exact ih.of_same_shape rfl (parents_update _ _ fun _ => rfl)
  | clear _ ih => exact ih.clear

/-! ## Operations on the stack -/

/-- There are as many scopes as frames. -/
@[simp] theorem length_scopes (env : Environment) : env.scopes.length = env.depth := by
  simp [scopes, depth]

/-- Entering a scope puts an empty one in front. -/
theorem scopes_enter (env : Environment) : env.enter.scopes = (fun _ => none) :: env.scopes := by
  simp [scopes, Environment.enter]

/-- Leaving a scope takes the innermost one away, unless it is the only one. -/
theorem scopes_exit {env : Environment} (h : 1 < env.depth) :
    env.exit.scopes = env.scopes.tail := by
  have hnot : ¬ env.frames.size ≤ 1 := Nat.not_le_of_lt h
  simp [scopes, Environment.exit, hnot, List.map_dropLast]

/-- The scopes of the first frames. -/
def scopesOf (frames : Array Frame) (count : Nat) : Scopes :=
  ((frames.toList.take count).map Frame.get?).reverse

/-- The scopes of an environment are those of all its frames. -/
theorem scopes_eq_scopesOf (env : Environment) : env.scopes = scopesOf env.frames env.depth := by
  simp [scopes, scopesOf, depth, List.take_of_length_le]

/-- One more frame is one more scope, inside the others. -/
theorem scopesOf_succ {frames : Array Frame} {count : Nat} {frame : Frame}
    (h : frames[count]? = some frame) :
    scopesOf frames (count + 1) = frame.get? :: scopesOf frames count := by
  have hlist : frames.toList[count]? = some frame := by simpa using h
  simp [scopesOf, List.take_add_one, hlist]

/-- Changing a frame changes no scope of the frames before it. -/
theorem scopesOf_modify_of_le {frames : Array Frame} {index count : Nat} (h : count ≤ index)
    (change : Frame → Frame) :
    scopesOf (frames.modify index change) count = scopesOf frames count := by
  have hlen : (frames.toList.take count).length ≤ index :=
    Nat.le_trans (List.length_take_le _ _) h
  rw [scopesOf, Array.toList_modify, List.take_modify, List.modify_eq_self hlen, scopesOf]

/-- Where the search for a name starts under the first frames of an environment, it goes through
    these frames, the last one first. -/
theorem findFrom_beneath_succ {frames : Array Frame} {count : Nat} {frame : Frame}
    (hframe : frames[count]? = some frame) (hparent : frame.parent = beneath count) (name : String)
    (rounds : Nat) :
    findFrom frames name (rounds + 1) (beneath (count + 1)) =
      if frame.contains name then some count else findFrom frames name rounds (beneath count) := by
  simp [beneath, findFrom, hframe, hparent]

/-- Under the first frame there is nothing to be found. -/
theorem findFrom_beneath_zero (frames : Array Frame) (name : String) (rounds : Nat) :
    findFrom frames name rounds (beneath 0) = none := by
  cases rounds <;> rfl

/-- The frames are linked in the order of the array. -/
def Linked (frames : Array Frame) : Prop :=
  ∀ (index : Nat) (frame : Frame), frames[index]? = some frame → frame.parent = beneath index

/-- Frames that are stacked are linked in the order of the array. -/
theorem Stacked.linked {env : Environment} (h : env.Stacked) : Linked env.frames := by
  intro index frame hframe
  have hpar := congrArg (·[index]?) h.parents
  have hlt : index < env.depth := (Array.getElem?_eq_some_iff.mp hframe).1
  simpa [Environment.parents, hframe, List.getElem?_range hlt] using hpar

/-- The frame that a search finds gives the name the value that it has in the scopes of the frames
    searched, where the rounds are enough for all of them. -/
private theorem get?_findFrom {frames : Array Frame} (hl : Linked frames) (name : String)
    {count rounds : Nat} (hcount : count ≤ frames.size) (hrounds : count ≤ rounds) :
    ((findFrom frames name rounds (beneath count)).bind fun index =>
      frames[index]?.bind (·.get? name)) = Scopes.get? (scopesOf frames count) name := by
  induction count generalizing rounds with
  | zero => simp [findFrom_beneath_zero, scopesOf, Scopes.get?]
  | succ count ih =>
    obtain ⟨rounds, rfl⟩ :=
      Nat.exists_eq_add_of_le' (Nat.le_trans (Nat.le_add_left 1 count) hrounds)
    have hframe : frames[count]? = some (frames[count]) := Array.getElem?_eq_getElem hcount
    -- The last of the frames binds the name, or the search goes on in the frame before it.
    rw [findFrom_beneath_succ hframe (hl _ _ hframe), scopesOf_succ hframe, Scopes.get?,
      List.findSome?_cons]
    cases hvalue : frames[count].get? name with
    | some value => simp [Frame.contains, hvalue, hframe]
    | none =>
      simp only [Frame.contains, hvalue, Option.isSome_none, Bool.false_eq_true, if_false]
      exact ih (Nat.le_of_succ_le hcount) (Nat.le_of_succ_le_succ hrounds)

/-- The frame that is found is one of those searched. -/
private theorem findFrom_lt {frames : Array Frame} (hl : Linked frames) {name : String}
    {count rounds index : Nat} (hcount : count ≤ frames.size)
    (hfind : findFrom frames name rounds (beneath count) = some index) : index < count := by
  induction count generalizing rounds with
  | zero => simp [findFrom_beneath_zero] at hfind
  | succ count ih =>
    cases rounds with
    | zero => simp [findFrom] at hfind
    | succ rounds =>
      have hframe : frames[count]? = some (frames[count]) := Array.getElem?_eq_getElem hcount
      rw [findFrom_beneath_succ hframe (hl _ _ hframe)] at hfind
      split at hfind
      · simp at hfind; omega
      · exact Nat.lt_succ_of_lt (ih (Nat.le_of_succ_le hcount) hfind)

/-- Replacing the value of a name in the frame that a search finds assigns the name in the scopes of
    the frames searched. -/
private theorem assign?_findFrom {frames : Array Frame} (hl : Linked frames) (name : String)
    (value : Value) {count rounds : Nat} (hcount : count ≤ frames.size) (hrounds : count ≤ rounds) :
    ((findFrom frames name rounds (beneath count)).map fun index =>
      scopesOf (frames.modify index (·.replace name value)) count) =
        Scopes.assign? (scopesOf frames count) name value := by
  induction count generalizing rounds with
  | zero => simp [findFrom_beneath_zero, scopesOf, Scopes.assign?]
  | succ count ih =>
    obtain ⟨rounds, rfl⟩ :=
      Nat.exists_eq_add_of_le' (Nat.le_trans (Nat.le_add_left 1 count) hrounds)
    have hframe : frames[count]? = some (frames[count]) := Array.getElem?_eq_getElem hcount
    have hcount' := Nat.le_of_succ_le hcount
    rw [findFrom_beneath_succ hframe (hl _ _ hframe), scopesOf_succ hframe, Scopes.assign?,
      ← Frame.contains]
    by_cases hbound : frames[count].contains name
    · -- The last of the frames binds the name: the frames before it are left alone.
      have hmod : (frames.modify count (·.replace name value))[count]? =
          some (frames[count].replace name value) := by
        simp [Array.getElem?_modify, hframe]
      rw [if_pos hbound, if_pos hbound, Option.map_some, scopesOf_succ hmod,
        scopesOf_modify_of_le (Nat.le_refl count), Frame.get?_replace_of_contains hbound]
    · -- The search goes on, and the last of the frames is left alone.
      rw [if_neg hbound, if_neg hbound, ← ih hcount' (Nat.le_of_succ_le_succ hrounds),
        Option.map_map]
      refine Option.map_congr fun index hindex => ?_
      have hlt := findFrom_lt hl hcount' hindex
      have hmod : (frames.modify index (·.replace name value))[count]? = some (frames[count]) := by
        simp [Array.getElem?_modify, hframe, Nat.ne_of_lt hlt]
      exact scopesOf_succ hmod

namespace Stacked

variable {env : Environment}

/-- A search starts at the last frame. -/
theorem find?_eq (h : env.Stacked) (name : String) :
    env.find? name = findFrom env.frames name env.depth (beneath env.depth) := by
  have hstart : beneath env.depth = some env.current := by rw [← h.current]; rfl
  rw [hstart]
  rfl

/-- The current frame is the innermost scope. -/
theorem exists_current (h : env.Stacked) :
    ∃ frame, env.frames[env.current]? = some frame ∧
      env.scopes = frame.get? :: scopesOf env.frames env.current := by
  have hlt : env.current < env.frames.size := Nat.lt_of_succ_le (Nat.le_of_eq h.current)
  have hframe : env.frames[env.current]? = some (env.frames[env.current]) :=
    Array.getElem?_eq_getElem hlt
  refine ⟨_, hframe, ?_⟩
  rw [scopes_eq_scopesOf, ← h.current, scopesOf_succ hframe]

end Stacked

namespace Reachable

variable {env : Environment}

/-- A name means its binding in the first scope that has one. -/
theorem get?_eq (h : env.Reachable) (name : String) :
    env.get? name = Scopes.get? env.scopes name := by
  rw [get?, h.stacked.find?_eq, scopes_eq_scopesOf]
  exact get?_findFrom h.stacked.linked name (Nat.le_refl _) (Nat.le_refl _)

/-- Whether the current frame binds a name is whether the innermost scope does. -/
theorem containsLocally_eq (h : env.Reachable) (name : String) :
    env.containsLocally name = Scopes.containsLocally env.scopes name := by
  obtain ⟨frame, hframe, hscopes⟩ := h.stacked.exists_current
  simp [containsLocally, Scopes.containsLocally, hframe, hscopes, Frame.contains]

/-- A name is bound in the innermost scope. -/
theorem define?_eq (h : env.Reachable) (name : String) (value : Value) :
    (env.define? name value).map scopes = Scopes.define? env.scopes name value := by
  obtain ⟨frame, hframe, hscopes⟩ := h.stacked.exists_current
  have hlocal : env.containsLocally name = (frame.get? name).isSome := by
    simp [containsLocally, hframe, Frame.contains]
  -- The binding goes to the last frame, and the scopes of the frames before it stay the same.
  rw [define?, hlocal, hscopes, Scopes.define?]
  split
  · rfl
  · have hadd : (env.frames.modify env.current (·.add name value))[env.current]? =
        some (frame.add name value) := by
      simp [Array.getElem?_modify, hframe]
    rw [Option.map_some, scopes_eq_scopesOf, depth_update, ← h.stacked.current, update,
      scopesOf_succ hadd, scopesOf_modify_of_le (Nat.le_refl _), Frame.get?_add]

/-- A name gets another value in the first scope that binds it. -/
theorem assign?_eq (h : env.Reachable) (name : String) (value : Value) :
    (env.assign? name value).map scopes = Scopes.assign? env.scopes name value := by
  have hsize : env.depth ≤ env.frames.size := Nat.le_refl _
  rw [assign?, Option.map_map, h.stacked.find?_eq, scopes_eq_scopesOf,
    ← assign?_findFrom h.stacked.linked name value hsize (Nat.le_refl _)]
  refine Option.map_congr fun index _ => ?_
  rw [Function.comp_apply, scopes_eq_scopesOf, depth_update]
  rfl

end Reachable

end Environment

end Script
