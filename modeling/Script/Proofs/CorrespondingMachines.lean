import Mathlib.Data.List.Forall2
import Script.Proofs.BoundValues

/-!
# Machines that correspond

Two machines correspond if they are built in the same way, scope by scope and binding by binding,
and differ at most in the bodies of the functions that they hold. How the bodies may differ is left
open: it is a relation `functions` between declared functions, and `natives` says which functions of
the host may occur. Operators, names and texts cannot tell corresponding values apart.

## Key results

- `Value.Corresponds.binary_eq`, `Value.Corresponds.unary_eq`: operators give equal results
- `Environment.Corresponds.get?`, `Environment.Corresponds.define?`,
  `Environment.Corresponds.assign?`: names mean corresponding values, and bindings change alike
- `Machine.Corresponds.enter`, `Machine.Corresponds.exit`: scopes are opened and closed alike
-/

namespace Script

/-! ## Values -/

/-- Two declared functions that are shown, and whose arguments are bound, in the same way. -/
structure UserFunction.SameHeader (u u' : UserFunction) : Prop where
  signature : u.signature = u'.signature
  parameterNames : u.parameterNames = u'.parameterNames
  returnKind : u.returnKind = u'.returnKind

/-- Functions that are declared alike but for their bodies have the same header. -/
theorem UserFunction.SameHeader.ofDeclaration (name : String) (params : List Parameter)
    (returnKind : Kind) (body body' : List Statement) :
    SameHeader (.ofDeclaration name params returnKind body)
      (.ofDeclaration name params returnKind body') :=
  ⟨rfl, rfl, rfl⟩

/-- Values that are the same but for the bodies of declared functions, which `functions` relates. Of
    the host's functions, only those in `natives` occur. -/
inductive Value.Corresponds (functions : UserFunction → UserFunction → Prop)
    (natives : Native → Prop) : Value → Value → Prop where
  | plain {value : Value} :
      (∀ function, value ≠ .function function) → Corresponds functions natives value value
  | native (identity : Nat) (signature : Signature) {native : Native} :
      natives native → Corresponds functions natives
        (.function ⟨identity, .native signature native⟩)
        (.function ⟨identity, .native signature native⟩)
  | user (identity : Nat) {u u' : UserFunction} :
      u.SameHeader u' → functions u u' → Corresponds functions natives
        (.function ⟨identity, .user u⟩) (.function ⟨identity, .user u'⟩)

namespace Value.Corresponds

variable {functions : UserFunction → UserFunction → Prop} {natives : Native → Prop}
  {v v' w w' : Value}

/-- A literal gives corresponding values, since it is no function. -/
theorem ofLiteral (literal : Literal) :
    Corresponds functions natives (.ofLiteral literal) (.ofLiteral literal) :=
  .plain (ofLiteral_ne_function literal)

/-- Nothing corresponds to itself. -/
theorem null : Corresponds functions natives .null .null :=
  .plain (by simp)

/-- Values that correspond are of the same kind. -/
theorem kind_eq (h : Corresponds functions natives v v') : v.kind = v'.kind := by
  cases h <;> rfl

/-- Values that correspond hold in the same way as conditions. -/
theorem holds_eq (h : Corresponds functions natives v v') : v.holds = v'.holds := by
  cases h <;> rfl

/-- The text of a function does not show its body. -/
theorem text_eq (h : Corresponds functions natives v v') : v.text = v'.text := by
  cases h with
  | plain _ => rfl
  | native _ _ _ => rfl
  | user identity hheader _ =>
    simp only [text, Callable.text, hheader.signature, hheader.returnKind]

/-- Values that correspond look alike in error messages. -/
private theorem ofValue_eq (h : Corresponds functions natives v v') :
    Operand.ofValue v = Operand.ofValue v' := by
  have htext := h.text_eq
  have hkind := h.kind_eq
  cases h with
  | plain _ => rfl
  | native _ _ _ => rfl
  | user _ _ _ => simp only [Operand.ofValue, echo, htext, hkind]

/-- Unary operators do not tell values that correspond apart. -/
theorem unary_eq (h : Corresponds functions natives v v') (op : UnaryOp) :
    Operation.unary op v = Operation.unary op v' := by
  have hoperand := h.ofValue_eq
  cases h with
  | plain _ => rfl
  | native _ _ _ => rfl
  | user _ _ _ =>
    -- Applied to a function, they look at its kind only or refuse it.
    cases op with
    | typeof => rfl
    | negate | not => simp only [Operation.unary, hoperand]

/-- Apart from `is`, no operator is defined for functions. -/
private theorem combine_eq (hv : Corresponds functions natives v v')
    (hw : Corresponds functions natives w w') (op : BinaryOp) :
    Operation.combine op v w = Operation.combine op v' w' := by
  -- Nothing is defined on functions, on either side.
  have hleft (f : Function) (a : Value) : Operation.combine op (.function f) a = .ok none := by
    cases a <;> rfl
  have hright (a : Value) (f : Function) : Operation.combine op a (.function f) = .ok none := by
    cases a <;> rfl
  cases hv with
  | plain _ =>
    cases hw with
    | plain _ => rfl
    | native _ _ _ => rfl
    | user _ _ _ => rw [hright, hright]
  | native _ _ _ => rw [hleft, hleft]
  | user _ _ _ => rw [hleft, hleft]

/-- Binary operators do not tell values that correspond apart. -/
theorem binary_eq (hv : Corresponds functions natives v v')
    (hw : Corresponds functions natives w w') (op : BinaryOp) :
    Operation.binary op v w = Operation.binary op v' w' := by
  have htest : Operation.typeTest v w = Operation.typeTest v' w' := by
    have hoperand := hw.ofValue_eq
    cases hw with
    | plain _ => simp only [Operation.typeTest, hv.kind_eq]
    | native _ _ _ => rfl
    | user _ _ _ => simp only [Operation.typeTest, hoperand]
  simp only [Operation.binary, Operation.mismatch, htest, combine_eq hv hw op, hv.ofValue_eq,
    hw.ofValue_eq]

/-- A call shows the kinds of its arguments only. -/
theorem ofCall_eq {arguments arguments' : List Value}
    (h : List.Forall₂ (Corresponds functions natives) arguments arguments') (name : String) :
    Signature.ofCall name arguments = Signature.ofCall name arguments' := by
  have hkinds : arguments.map kind = arguments'.map kind := by
    induction h with
    | nil => rfl
    | cons hv _ ih => rw [List.map_cons, List.map_cons, hv.kind_eq, ih]
  rw [Signature.ofCall, Signature.ofCall, hkinds]

/-- Values that correspond are printed alike. -/
theorem printed_eq {arguments arguments' : List Value}
    (h : List.Forall₂ (Corresponds functions natives) arguments arguments') :
    Native.printed arguments = Native.printed arguments' := by
  have htexts : arguments.map text = arguments'.map text := by
    induction h with
    | nil => rfl
    | cons hv _ ih => rw [List.map_cons, List.map_cons, hv.text_eq, ih]
  rw [Native.printed, Native.printed, joined, joined, htexts]

/-- Values correspond to nothing but themselves if declared functions do. -/
theorem eq (hf : ∀ u u', functions u u' → u = u') (h : Corresponds functions natives v v') :
    v = v' := by
  cases h with
  | plain _ => rfl
  | native _ _ _ => rfl
  | user _ _ hu => rw [hf _ _ hu]

end Value.Corresponds

/-! ## Frames -/

/-- Frames that bind the same names, in the same order, to values that are related. -/
structure Frame.Corresponds (values : Value → Value → Prop) (f f' : Frame) : Prop where
  parent : f.parent = f'.parent
  bindings : List.Forall₂ (fun b b' => b.1 = b'.1 ∧ values b.2 b'.2) f.bindings f'.bindings

namespace Frame.Corresponds

variable {values : Value → Value → Prop} {f f' : Frame} {v v' : Value}

/-- New frames with the same parent correspond. -/
theorem under (values : Value → Value → Prop) (parent : Option Nat) :
    Corresponds values (.under parent) (.under parent) :=
  ⟨rfl, .nil⟩

/-- Frames that correspond give a name corresponding values. -/
theorem get? (h : Corresponds values f f') (name : String) :
    Option.Rel values (f.get? name) (f'.get? name) := by
  have hbindings := h.bindings
  unfold Frame.get?
  generalize f.bindings = bindings, f'.bindings = bindings' at hbindings
  -- The names stand in the same order in both frames.
  induction hbindings with
  | nil => exact .none
  | @cons b b' _ _ hhead _ ih =>
    obtain ⟨bound, value⟩ := b
    obtain ⟨bound', value'⟩ := b'
    obtain ⟨rfl, hvalue⟩ := hhead
    simp only [List.lookup_cons]
    split
    · exact .some hvalue
    · exact ih

/-- Frames that correspond bind the same names. -/
theorem contains_eq (h : Corresponds values f f') (name : String) :
    f.contains name = f'.contains name := by
  have hget := h.get? name
  unfold Frame.contains
  generalize f.get? name = o, f'.get? name = o' at hget
  cases hget <;> rfl

/-- Frames still correspond with corresponding bindings added. -/
theorem add (h : Corresponds values f f') (name : String) (hv : values v v') :
    Corresponds values (f.add name v) (f'.add name v') :=
  ⟨h.parent, .cons ⟨rfl, hv⟩ h.bindings⟩

/-- Frames still correspond with corresponding values replaced. -/
theorem replace (h : Corresponds values f f') (name : String) (hv : values v v') :
    Corresponds values (f.replace name v) (f'.replace name v') := by
  refine ⟨h.parent, ?_⟩
  simp only [Frame.replace, List.forall₂_map_left_iff, List.forall₂_map_right_iff]
  apply h.bindings.imp
  intro b b' hb
  obtain ⟨hname, hvalue⟩ := hb
  rw [hname]
  split
  · exact ⟨rfl, hv⟩
  · exact ⟨hname, hvalue⟩

/-- Frames whose values correspond only where they are equal are equal. -/
theorem eq (hv : ∀ v v', values v v' → v = v') (h : Corresponds values f f') : f = f' := by
  have hbindings : f.bindings = f'.bindings := by
    rw [← List.forall₂_eq_eq_eq]
    apply h.bindings.imp
    intro b b' hb
    exact Prod.ext hb.1 (hv _ _ hb.2)
  obtain ⟨bindings, parent⟩ := f
  obtain ⟨bindings', parent'⟩ := f'
  obtain rfl : bindings = bindings' := hbindings
  obtain rfl : parent = parent' := h.parent
  rfl

end Frame.Corresponds

/-! ## Environments -/

/-- Environments whose frames correspond, with the same one current. -/
structure Environment.Corresponds (values : Value → Value → Prop) (env env' : Environment) :
    Prop where
  size : env.frames.size = env'.frames.size
  frame (index : Nat) :
    Option.Rel (Frame.Corresponds values) env.frames[index]? env'.frames[index]?
  current : env.current = env'.current

namespace Environment.Corresponds

variable {values : Value → Value → Prop} {env env' : Environment} {v v' : Value}

/-- A name is found in the same frame of corresponding environments. -/
theorem find?_eq (h : Corresponds values env env') (name : String) :
    env.find? name = env'.find? name := by
  apply find?_congr ?_ h.current
  · -- Each frame binds the same names on both sides,
    intro index
    have hframe := h.frame index
    simp only [binding]
    generalize env.frames[index]? = o, env'.frames[index]? = o' at hframe
    cases hframe with
    | none => rfl
    | some hframe => exact hframe.contains_eq name
  · -- and has the same parent.
    apply List.ext_getElem?
    intro index
    have hframe := h.frame index
    simp only [parents, List.getElem?_map, Array.getElem?_toList]
    generalize env.frames[index]? = o, env'.frames[index]? = o' at hframe
    cases hframe with
    | none => rfl
    | some hframe => rw [Option.map_some, Option.map_some, hframe.parent]

/-- A name means related values. -/
theorem get? (h : Corresponds values env env') (name : String) :
    Option.Rel values (env.get? name) (env'.get? name) := by
  rw [Environment.get?, Environment.get?, h.find?_eq]
  cases env'.find? name with
  | none => exact .none
  | some index =>
    simp only [Option.bind_some]
    -- Both searches end at the same frame, which binds the name in both or in neither.
    have hframe := h.frame index
    generalize env.frames[index]? = o, env'.frames[index]? = o' at hframe
    cases hframe with
    | none => exact .none
    | some hframe => exact hframe.get? name

/-- The current frames of corresponding environments bind the same names. -/
theorem containsLocally_eq (h : Corresponds values env env') (name : String) :
    env.containsLocally name = env'.containsLocally name := by
  rw [containsLocally, containsLocally, h.current]
  have hframe := h.frame env'.current
  generalize env.frames[env'.current]? = o, env'.frames[env'.current]? = o' at hframe
  cases hframe with
  | none => rfl
  | some hframe => exact hframe.contains_eq name

/-- Changing corresponding frames in corresponding ways leaves the environments corresponding. -/
theorem update (h : Corresponds values env env') {change change' : Frame → Frame}
    (hc : ∀ f f', f.Corresponds values f' → (change f).Corresponds values (change' f'))
    (index : Nat) :
    Corresponds values (env.update index change) (env'.update index change') where
  size := by simp only [Environment.update, Array.size_modify, h.size]
  frame at_ := by
    simp only [Environment.update, Array.getElem?_modify]
    have hframe := h.frame at_
    generalize env.frames[at_]? = o, env'.frames[at_]? = o' at hframe
    split
    · cases hframe with
      | none => exact .none
      | some hframe => exact .some (hc _ _ hframe)
    · exact hframe
  current := h.current

/-- The same names can be bound. -/
theorem define? (h : Corresponds values env env') (name : String) (hv : values v v') :
    Option.Rel (Corresponds values) (env.define? name v) (env'.define? name v') := by
  rw [Environment.define?, Environment.define?, h.containsLocally_eq, h.current]
  split
  · exact .none
  · exact .some (h.update (fun _ _ hf => hf.add name hv) _)

/-- The same names can be given another value, in the same frames. -/
theorem assign? (h : Corresponds values env env') (name : String) (hv : values v v') :
    Option.Rel (Corresponds values) (env.assign? name v) (env'.assign? name v') := by
  rw [Environment.assign?, Environment.assign?, h.find?_eq]
  cases env'.find? name with
  | none => exact .none
  | some index => exact .some (h.update (fun _ _ hf => hf.replace name hv) index)

/-- Environments still correspond inside a new scope of each. -/
theorem enter (h : Corresponds values env env') : Corresponds values env.enter env'.enter where
  size := by simp only [Environment.enter, Array.size_push, h.size]
  frame index := by
    simp only [Environment.enter, Array.getElem?_push, h.size, h.current]
    split
    · exact .some (.under values _)
    · exact h.frame index
  current := h.size

/-- Environments still correspond behind the innermost scope of each. -/
theorem exit (h : Corresponds values env env') : Corresponds values env.exit env'.exit := by
  rw [Environment.exit, Environment.exit, h.size]
  split
  · exact h
  · refine ⟨?_, fun index => ?_, ?_⟩
    · simp only [Array.size_pop, h.size]
    · simp only [Array.getElem?_pop, h.size]
      split
      · exact h.frame index
      · exact .none
    · -- The innermost frames have the same parent.
      simp only [Array.back?_eq_getElem?, h.size]
      have hframe := h.frame (env'.frames.size - 1)
      generalize env.frames[env'.frames.size - 1]? = o,
        env'.frames[env'.frames.size - 1]? = o' at hframe
      cases hframe with
      | none => rfl
      | some hframe => simp only [Option.bind_some, hframe.parent]

/-- An environment corresponds to itself if all that is bound in it does. -/
theorem refl (hreachable : env.Reachable) (hbound : env.AllBound fun v => values v v) :
    Corresponds values env env where
  size := rfl
  frame index := by
    have hdistinct := hreachable.namesDistinct index
    have hvalues := Environment.allBound_iff.mp hbound index
    generalize env.frames[index]? = o at hdistinct hvalues
    cases o with
    | none => exact .none
    | some frame =>
      -- Each binding in the list is the one its name is found by, for no name is bound twice.
      refine .some ⟨rfl, List.forall₂_same.mpr fun binding hmem => ⟨rfl, ?_⟩⟩
      exact hvalues frame rfl binding.1 binding.2 ((hdistinct frame rfl).get?_of_mem hmem)
  current := rfl

/-- Environments whose values correspond only where they are equal are equal. -/
theorem eq (hv : ∀ v v', values v v' → v = v') (h : Corresponds values env env') :
    env = env' := by
  have hframes : env.frames = env'.frames := by
    apply Array.ext_getElem?
    intro index
    have hframe := h.frame index
    generalize env.frames[index]? = o, env'.frames[index]? = o' at hframe
    cases hframe with
    | none => rfl
    | some hframe => rw [hframe.eq hv]
  obtain ⟨frames, current⟩ := env
  obtain ⟨frames', current'⟩ := env'
  obtain rfl : frames = frames' := hframes
  obtain rfl : current = current' := h.current
  rfl

end Environment.Corresponds

/-! ## Machines -/

/-- Machines whose environments correspond and that agree in all else. Both have the given numbers
    of calls under way and of open scopes. -/
structure Machine.Corresponds (values : Value → Value → Prop) (calls depth : Nat)
    (m m' : Machine) : Prop where
  env : m.env.Corresponds values m'.env
  output : m.output = m'.output
  fresh : m.fresh = m'.fresh
  nesting : m.nesting = m'.nesting
  calls_eq : m.calls = calls
  calls_eq' : m'.calls = calls
  depth_eq : m.env.depth = depth
  depth_pos : 0 < depth

namespace Machine.Corresponds

variable {values : Value → Value → Prop} {calls depth : Nat} {m m' : Machine}

/-- Machines still correspond inside a new scope of each. -/
theorem enter (h : m.Corresponds values calls depth m') :
    Corresponds values calls (depth + 1) { m with env := m.env.enter }
      { m' with env := m'.env.enter } :=
  { h with
    env := h.env.enter
    depth_eq := by
      have hdepth := h.depth_eq
      simp only [Environment.depth] at hdepth
      simp only [Environment.depth, Environment.enter, Array.size_push, hdepth]
    depth_pos := Nat.succ_pos depth }

/-- A scope that is not the outermost one is closed. -/
theorem exit (h : m.Corresponds values calls (depth + 1) m') (hpos : 0 < depth) :
    Corresponds values calls depth { m with env := m.env.exit } { m' with env := m'.env.exit } :=
  { h with
    env := h.env.exit
    depth_eq := by
      have hdepth := h.depth_eq
      simp only [Environment.depth] at hdepth
      have hnot : ¬ m.env.frames.size ≤ 1 := by omega
      show m.env.exit.frames.size = depth
      rw [Environment.exit, if_neg hnot, Array.size_pop, hdepth, Nat.add_sub_cancel]
    depth_pos := hpos }

/-- A change of the environments that keeps the number of scopes. -/
theorem withEnv (h : m.Corresponds values calls depth m') {env env' : Environment}
    (henv : env.Corresponds values env') (hdepth : env.depth = m.env.depth) :
    Corresponds values calls depth { m with env := env } { m' with env := env' } :=
  { h with env := henv, depth_eq := hdepth.trans h.depth_eq }

/-- A machine that is about to run corresponds to itself if all that is bound does. -/
theorem start {s : Session} (hreachable : s.env.Reachable)
    (hbound : s.env.AllBound fun v => values v v) :
    (Machine.start s).Corresponds values 0 s.env.depth (.start s) where
  env := .refl hreachable hbound
  output := rfl
  fresh := rfl
  nesting := rfl
  calls_eq := rfl
  calls_eq' := rfl
  depth_eq := rfl
  depth_pos := hreachable.depth_pos

/-- A session with only the standard functions corresponds to itself. -/
theorem standard {functions : UserFunction → UserFunction → Prop} {natives : Native → Prop}
    (hprint : natives .print) (hassert : natives .assert) :
    (Machine.start .standard).Corresponds (Value.Corresponds functions natives) 0 1
      (.start .standard) := by
  have henv : Session.standard.env.Corresponds (Value.Corresponds functions natives)
      Session.standard.env := by
    -- There is one frame, with the bindings of the two functions.
    refine ⟨rfl, fun index => ?_, rfl⟩
    cases index with
    | zero =>
      exact .some ⟨rfl, .cons ⟨rfl, .native _ _ hassert⟩ (.cons ⟨rfl, .native _ _ hprint⟩ .nil)⟩
    | succ index => exact .none
  exact ⟨henv, rfl, rfl, rfl, rfl, rfl, rfl, Nat.one_pos⟩

/-- Machines whose values correspond only where they are equal are equal. -/
theorem eq (hv : ∀ v v', values v v' → v = v') (h : m.Corresponds values calls depth m') :
    m = m' := by
  have henv := h.env.eq hv
  have hcalls : m.calls = m'.calls := h.calls_eq.trans h.calls_eq'.symm
  obtain ⟨⟨env, output, fresh⟩, calls, nesting⟩ := m
  obtain ⟨⟨env', output', fresh'⟩, calls', nesting'⟩ := m'
  obtain rfl : output = output' := h.output
  obtain rfl : fresh = fresh' := h.fresh
  obtain rfl : nesting = nesting' := h.nesting
  obtain rfl : calls = calls' := hcalls
  obtain rfl : env = env' := henv
  rfl

end Machine.Corresponds

end Script
