import Script.Proofs.ScopeStack

/-!
# What all frames and all bound values have in common

A run binds the values that it computes, and reads the values that are bound. A property of values
that holds of everything bound in an environment, in whichever frame, therefore survives the
operations on the environment as long as it holds of each value that is put there.

Functions are the values that matter in this way, since their bodies are run. Literals are none and
operators make none, and the host may be taken to hand out no declared function that it was not
given: `Host.PassesFunctions`.
-/

namespace Script

namespace Environment

/-! ## Frames -/

/-- A property of every frame. -/
def AllFrames (P : Frame → Prop) (env : Environment) : Prop :=
  ∀ (index : Nat) (frame : Frame), env.frames[index]? = some frame → P frame

namespace AllFrames

variable {P : Frame → Prop} {env env' : Environment}

/-- An empty frame with the property is all that the first environment needs. -/
theorem empty (hempty : P (.under none)) : Environment.empty.AllFrames P := by
  intro index frame hframe
  simp only [Environment.empty, List.getElem?_toArray, List.getElem?_singleton] at hframe
  split at hframe <;> cases hframe
  exact hempty

/-- Entering a scope adds an empty frame. -/
theorem enter (h : env.AllFrames P) (hempty : ∀ parent, P (.under parent)) :
    env.enter.AllFrames P := by
  intro index frame hframe
  simp only [Environment.enter, Array.getElem?_push] at hframe
  split at hframe
  · cases hframe
    exact hempty _
  · exact h index frame hframe

/-- Leaving a scope only takes a frame away. -/
theorem exit (h : env.AllFrames P) : env.exit.AllFrames P := by
  unfold Environment.exit
  split
  · exact h
  · intro index frame hframe
    simp only [Array.getElem?_pop] at hframe
    split at hframe
    · exact h index frame hframe
    · cases hframe

/-- A change of one frame that keeps the property. -/
theorem update (h : env.AllFrames P) {change : Frame → Frame}
    (hc : ∀ frame, P frame → P (change frame)) (index : Nat) :
    (env.update index change).AllFrames P := by
  intro at_ frame hframe
  simp only [Environment.update, Array.getElem?_modify] at hframe
  split at hframe
  · obtain ⟨old, hold, rfl⟩ := Option.map_eq_some_iff.mp hframe
    exact hc old (h at_ old hold)
  · exact h at_ frame hframe

end AllFrames

/-! ## Bound values -/

/-- The binding of a name in the frame at an index. -/
def binding (env : Environment) (index : Nat) (name : String) : Option Value :=
  env.frames[index]?.bind (·.get? name)

/-- Where there is no frame, nothing is bound. -/
theorem binding_eq_none {env : Environment} {index : Nat} (h : env.depth ≤ index)
    (name : String) : env.binding index name = none := by
  have hnone : env.frames[index]? = none := Array.getElem?_eq_none h
  simp [binding, hnone]

/-- A new scope binds nothing, and no other scope changes. -/
@[simp] theorem binding_enter (env : Environment) (index : Nat) (name : String) :
    env.enter.binding index name = env.binding index name := by
  by_cases h : index = env.frames.size
  · rw [binding_eq_none (Nat.le_of_eq h.symm)]
    simp [binding, enter, h]
  · simp [binding, enter, Array.getElem?_push, h]

/-- The scope that is closed is gone, and no other scope changes. -/
theorem binding_exit {env inner : Environment} (hpos : 0 < env.depth)
    (hdepth : inner.depth = env.depth + 1) (index : Nat) (name : String) :
    inner.exit.binding index name =
      if index < env.depth then inner.binding index name else none := by
  have hsize : inner.frames.size = env.depth + 1 := hdepth
  have hframe : inner.exit.frames[index]? =
      if index < env.depth then inner.frames[index]? else none := by
    have hnot : ¬ inner.frames.size ≤ 1 := by omega
    rw [exit, if_neg hnot]
    simp only [Array.getElem?_pop, hsize, Nat.add_sub_cancel]
  rw [binding, hframe]
  split
  · rfl
  · rfl

/-- Changing a frame changes the bindings of this frame only. -/
private theorem binding_update (env : Environment) (at_ : Nat) (change : Frame → Frame)
    (index : Nat) (name : String) :
    (env.update at_ change).binding index name =
      if at_ = index then env.frames[index]?.bind (fun frame => (change frame).get? name)
      else env.binding index name := by
  simp only [binding, update, Array.getElem?_modify]
  split
  · rw [Option.bind_map]
    rfl
  · rfl

/-- Another value for a name, where one frame binds it. -/
theorem binding_replace (env : Environment) (at_ : Nat) (name : String) (value : Value)
    (index : Nat) (other : String) :
    (env.update at_ (·.replace name value)).binding index other =
      if at_ = index ∧ other = name then (env.binding index name).map (fun _ => value)
      else env.binding index other := by
  rw [binding_update]
  -- Only the frame that is changed can differ, and there only the name replaced.
  by_cases hindex : at_ = index
  · simp only [hindex, Frame.get?_replace, true_and, if_true]
    by_cases hname : other = name
    · simp only [hname, if_true, binding, Option.map_bind]
      rfl
    · simp only [hname, if_false, binding]
  · simp only [hindex, false_and, if_false]

section Search

variable {env env' : Environment} {name : String}

/-- A search depends only on the parents of the frames and on which frames bind the name. -/
private theorem findFrom_congr (hparents : env.parents = env'.parents)
    (hbound : ∀ index, (env.binding index name).isSome = (env'.binding index name).isSome)
    (rounds : Nat) (start : Option Nat) :
    findFrom env.frames name rounds start = findFrom env'.frames name rounds start := by
  induction rounds generalizing start with
  | zero => rfl
  | succ rounds ih =>
    cases start with
    | none => rfl
    | some index =>
      have hparent : env.parents[index]? = env'.parents[index]? := by rw [hparents]
      have hbound := hbound index
      simp only [parents, List.getElem?_map, Array.getElem?_toList] at hparent
      simp only [binding] at hbound
      simp only [findFrom]
      cases hframe : env.frames[index]? with
      | none =>
        rw [hframe, Option.map_none, eq_comm, Option.map_eq_none_iff] at hparent
        simp only [hparent]
      | some frame =>
        rw [hframe, Option.map_some, eq_comm, Option.map_eq_some_iff] at hparent
        obtain ⟨frame', hframe', hparent⟩ := hparent
        simp only [hframe, hframe', Option.bind_some] at hbound
        -- Both frames bind the name, or the search goes on in the same parent.
        simp only [hframe', Frame.contains, hbound, hparent, ih]

/-- In which frame a name is looked up depends on the parents of the frames, and on which of them
    bind it. -/
theorem find?_congr (hparents : env.parents = env'.parents) (hcurrent : env.current = env'.current)
    (hbound : ∀ index, (env.binding index name).isSome = (env'.binding index name).isSome) :
    env.find? name = env'.find? name := by
  have hsize : env.frames.size = env'.frames.size := by
    simpa [parents] using congrArg List.length hparents
  rw [find?, find?, hsize, hcurrent, findFrom_congr hparents hbound]

end Search

section Changes

variable {env env' : Environment} {name other : String} {value : Value} {index : Nat}

/-- A declaration leaves every frame but the current one alone. -/
theorem binding_define_of_ne (h : env.define? name value = some env')
    (hindex : index ≠ env.current) : env'.binding index other = env.binding index other := by
  rw [define?_eq_some h, binding_update, if_neg hindex.symm]

/-- A declaration keeps all bindings, since the name was not bound where it is declared. -/
theorem binding_define_of_some (h : env.define? name value = some env') {found : Value}
    (hbound : env.binding index other = some found) : env'.binding index other = some found := by
  by_cases hindex : index = env.current
  · subst hindex
    obtain ⟨frame, hframe, hget⟩ := Option.bind_eq_some_iff.mp hbound
    -- The name declared was not bound in the current frame, so that the binding is of another one.
    have hne : other ≠ name := by
      rintro rfl
      have hlocal : env.containsLocally other = true := by
        simp [containsLocally, hframe, Frame.contains, hget]
      rw [define?, if_pos hlocal] at h
      cases h
    rw [define?_eq_some h, binding_update, if_pos rfl, hframe]
    show (frame.add name value).get? other = some found
    rw [Frame.get?_add, Function.update_of_ne hne, hget]
  · rw [binding_define_of_ne h hindex, hbound]

/-- An assignment leaves all other names alone. -/
theorem binding_assign_of_ne (h : env.assign? name value = some env') (hne : other ≠ name) :
    env'.binding index other = env.binding index other := by
  obtain ⟨found, rfl⟩ := assign?_eq_some h
  rw [binding_replace, if_neg (fun hand => hne hand.2)]

/-- Another value for a name binds no name and unbinds none. -/
theorem isSome_binding_assign (h : env.assign? name value = some env') :
    (env'.binding index other).isSome = (env.binding index other).isSome := by
  obtain ⟨found, rfl⟩ := assign?_eq_some h
  rw [binding_replace]
  split
  · rename_i hand
    rw [Option.isSome_map, hand.2]
  · rfl

end Changes

/-- A property of every value that is bound in some frame. -/
def AllBound (P : Value → Prop) (env : Environment) : Prop :=
  ∀ index name value, env.binding index name = some value → P value

/-- A property of all values that are bound is a property of the frames. -/
theorem allBound_iff {P : Value → Prop} {env : Environment} :
    env.AllBound P ↔
      env.AllFrames fun frame => ∀ name value, frame.get? name = some value → P value := by
  constructor
  · intro h index frame hframe name value hget
    exact h index name value (by simp [binding, hframe, hget])
  · intro h index name value hbinding
    obtain ⟨frame, hframe, hget⟩ := Option.bind_eq_some_iff.mp hbinding
    exact h index frame hframe name value hget

namespace AllBound

variable {P : Value → Prop} {env env' : Environment}

/-- The first environment binds nothing. -/
theorem empty : Environment.empty.AllBound P := by
  refine allBound_iff.mpr (.empty fun name value hget => ?_)
  simp at hget

/-- What a name means is bound in some frame. -/
theorem get? (h : env.AllBound P) {name : String} {value : Value}
    (hget : env.get? name = some value) : P value := by
  obtain ⟨index, -, hbinding⟩ := Option.bind_eq_some_iff.mp hget
  exact h index name value hbinding

/-- A new scope binds nothing. -/
theorem enter (h : env.AllBound P) : env.enter.AllBound P := by
  refine allBound_iff.mpr ((allBound_iff.mp h).enter fun parent name value hget => ?_)
  simp at hget

/-- Leaving a scope binds no new value. -/
theorem exit (h : env.AllBound P) : env.exit.AllBound P :=
  allBound_iff.mpr (allBound_iff.mp h).exit

/-- A change of one frame after which the frame binds only values with the property. -/
theorem update (h : env.AllBound P) {change : Frame → Frame}
    (hc : ∀ frame, (∀ name value, frame.get? name = some value → P value) →
      ∀ name value, (change frame).get? name = some value → P value) (index : Nat) :
    (env.update index change).AllBound P :=
  allBound_iff.mpr ((allBound_iff.mp h).update hc index)

/-- A declaration binds its value and no other one. -/
theorem define (h : env.AllBound P) {name : String} {value : Value} (hv : P value)
    (hdef : env.define? name value = some env') : env'.AllBound P := by
  rw [define?_eq_some hdef]
  refine h.update (fun frame hframe other found hget => ?_) _
  rw [Frame.get?_add, Function.update_apply] at hget
  split at hget
  · cases hget
    exact hv
  · exact hframe other found hget

/-- An assignment binds its value and no other one. -/
theorem assign (h : env.AllBound P) {name : String} {value : Value} (hv : P value)
    (hasg : env.assign? name value = some env') : env'.AllBound P := by
  obtain ⟨index, rfl⟩ := assign?_eq_some hasg
  refine h.update (fun frame hframe other found hget => ?_) index
  rw [Frame.get?_replace] at hget
  split at hget
  · obtain ⟨-, -, rfl⟩ := Option.map_eq_some_iff.mp hget
    exact hv
  · exact hframe other found hget

end AllBound

end Environment

/-! ## Names are bound once -/

/-- A frame in which no name is bound twice. -/
def Frame.NamesDistinct (f : Frame) : Prop :=
  (f.bindings.map Prod.fst).Nodup

namespace Frame.NamesDistinct

variable {f : Frame}

/-- Where names are distinct, every binding of the list is the one that is found. -/
theorem get?_of_mem (h : f.NamesDistinct) {name : String} {value : Value}
    (hmem : (name, value) ∈ f.bindings) : f.get? name = some value := by
  unfold NamesDistinct at h
  unfold Frame.get?
  generalize f.bindings = bindings at h hmem
  induction bindings with
  | nil => cases hmem
  | cons first rest ih =>
    obtain ⟨bound, found⟩ := first
    rw [List.map_cons, List.nodup_cons] at h
    rcases List.mem_cons.mp hmem with heq | hrest
    · cases heq
      rw [List.lookup_cons_self]
    · -- The name is bound further on, so that it is not the name of the first binding.
      have hne : name ≠ bound := by
        intro heq
        subst heq
        exact h.1 (List.mem_map.mpr ⟨_, hrest, rfl⟩)
      rw [List.lookup_cons, beq_false_of_ne hne]
      exact ih h.2 hrest

/-- A new frame has no names. -/
theorem under (parent : Option Nat) : (Frame.under parent).NamesDistinct :=
  List.nodup_nil

/-- A name that is free can be added. -/
theorem add (h : f.NamesDistinct) {name : String} (hfree : f.contains name = false)
    (value : Value) : (f.add name value).NamesDistinct := by
  refine List.nodup_cons.mpr ⟨fun hmem => ?_, h⟩
  obtain ⟨binding, hbinding, rfl⟩ := List.mem_map.mp hmem
  rw [contains, h.get?_of_mem hbinding] at hfree
  cases hfree

/-- Replacing a value leaves the names as they are. -/
theorem replace (h : f.NamesDistinct) (name : String) (value : Value) :
    (f.replace name value).NamesDistinct := by
  have hnames : (f.replace name value).bindings.map Prod.fst = f.bindings.map Prod.fst := by
    rw [Frame.replace, List.map_map]
    apply List.map_congr_left
    intro binding _
    by_cases heq : binding.1 = name
    · simp [heq]
    · simp [heq]
  rw [NamesDistinct, hnames]
  exact h

/-- Erasing a name takes names away only. -/
theorem erase (h : f.NamesDistinct) (name : String) : (f.erase name).NamesDistinct :=
  h.sublist (List.filter_sublist.map Prod.fst)

end Frame.NamesDistinct

/-- No frame that a host can build binds a name twice. -/
theorem Environment.Reachable.namesDistinct {env : Environment} (h : env.Reachable) :
    env.AllFrames Frame.NamesDistinct := by
  induction h with
  | empty => exact .empty (.under none)
  | enter _ ih => exact ih.enter .under
  | exit _ ih => exact ih.exit
  | @define env env' name value _ hdef ih =>
    intro index frame hframe
    -- A declaration is refused if the current frame binds its name.
    have hfree : env.containsLocally name = false := by
      by_contra hbound
      rw [Bool.not_eq_false] at hbound
      rw [define?, if_pos hbound] at hdef
      cases hdef
    rw [define?_eq_some hdef, update, Array.getElem?_modify] at hframe
    split at hframe
    · rename_i heq
      obtain ⟨old, hold, rfl⟩ := Option.map_eq_some_iff.mp hframe
      refine (ih index old hold).add ?_ value
      rw [containsLocally, heq, hold] at hfree
      exact hfree
    · exact ih index frame hframe
  | assign _ hasg ih =>
    obtain ⟨index, rfl⟩ := assign?_eq_some hasg
    exact ih.update (fun _ hframe => hframe.replace _ _) index
  | undefine name _ ih => exact ih.update (fun _ hframe => hframe.erase name) _
  | clear _ ih =>
    intro index frame hframe
    simp only [Environment.clear, Array.getElem?_modify] at hframe
    split at hframe
    · obtain ⟨old, _, rfl⟩ := Option.map_eq_some_iff.mp hframe
      exact List.nodup_nil
    · obtain ⟨hlt, -⟩ := Array.getElem?_eq_some_iff.mp hframe
      rw [Array.take_eq_extract, Array.size_extract] at hlt
      omega

/-! ## Where functions come from -/

/-- No literal is a function. -/
theorem Value.ofLiteral_ne_function (literal : Literal) (function : Function) :
    ofLiteral literal ≠ .function function := by
  cases literal <;> simp [ofLiteral]

namespace Operation

/-- No unary operator gives a function. -/
theorem unary_ne_function {op : UnaryOp} {operand : Value} {function : Function} :
    unary op operand ≠ .ok (.function function) := by
  unfold unary
  split <;> nofun

/-- No operator on two integers gives a function. -/
private theorem integers_ne_function (op : BinaryOp) (a b : Int32) (function : Function) :
    integers op a b ≠ .ok (some (.function function)) := by
  unfold integers
  split
  case h_4 | h_5 => split <;> simp
  all_goals simp

/-- No operator gives a function, whatever it is applied to. -/
private theorem combine_ne_function (op : BinaryOp) (left right : Value) (function : Function) :
    combine op left right ≠ .ok (some (.function function)) := by
  unfold combine
  split
  case h_1 | h_5 | h_6 => exact integers_ne_function _ _ _ _
  case h_11 => simp
  all_goals
    simp only [floats, bools, chars, strings, types]
    split <;> simp

/-- Operators make no functions. -/
theorem binary_ne_function {op : BinaryOp} {left right : Value} {function : Function} :
    binary op left right ≠ .ok (.function function) := by
  unfold binary typeTest
  split
  · split <;> simp
  · split
    · simp
    · rename_i value hcombine
      rintro ⟨⟩
      exact combine_ne_function op left right function hcombine
    · simp

end Operation

/-- An assertion that holds gives nothing. -/
theorem Native.eq_null_of_assertion {arguments : List Value} {line : Nat} {value : Value}
    (h : assertion arguments line = .ok value) : value = .null := by
  simp only [assertion, requireCount, bind, Except.bind] at h
  split at h
  · cases h
  · split at h <;> cases h
    rfl

/-- A host whose functions return no declared function other than one of their arguments. -/
def Host.PassesFunctions (host : Host) : Prop :=
  ∀ handle arguments line function user,
    host handle arguments line = .ok (.function function) → function.callable = .user user →
      Value.function function ∈ arguments

end Script
