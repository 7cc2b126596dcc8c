import Script.Value.Basic

/-! # Environments

An environment holds frames, each of which binds names to values.  The frames stand in one array
and name their parents by index; one of them is the current frame.  A name means its binding in the
first frame that has one on the way from the current frame along the parents; a declaration only
touches the current frame. -/

namespace Script

/-- The bindings of one scope. -/
structure Frame where
  bindings : List (String × Value)
  /-- The index of the enclosing frame; the outermost frame has none. -/
  parent : Option Nat

namespace Frame

/-- No bindings. -/
def under (parent : Option Nat) : Frame := ⟨[], parent⟩

/-- The value of a name. -/
def get? (f : Frame) (name : String) : Option Value :=
  f.bindings.lookup name

/-- Whether a name is bound. -/
def contains (f : Frame) (name : String) : Bool :=
  (f.get? name).isSome

/-- Binds a name that is not bound yet. -/
def add (f : Frame) (name : String) (value : Value) : Frame :=
  { f with bindings := (name, value) :: f.bindings }

/-- Gives a bound name another value. -/
def replace (f : Frame) (name : String) (value : Value) : Frame :=
  { f with
    bindings := f.bindings.map
      (fun binding => if binding.1 = name then (name, value) else binding) }

/-- Removes the binding of a name. -/
def erase (f : Frame) (name : String) : Frame :=
  { f with bindings := f.bindings.filter (fun binding => binding.1 ≠ name) }

/-- Removes all bindings. -/
def cleared (f : Frame) : Frame :=
  { f with bindings := [] }

@[simp] theorem parent_under (parent : Option Nat) : (under parent).parent = parent := rfl

@[simp] theorem parent_add (f : Frame) (name : String) (value : Value) :
    (f.add name value).parent = f.parent := rfl

@[simp] theorem parent_replace (f : Frame) (name : String) (value : Value) :
    (f.replace name value).parent = f.parent := rfl

@[simp] theorem parent_erase (f : Frame) (name : String) : (f.erase name).parent = f.parent := rfl

@[simp] theorem parent_cleared (f : Frame) : f.cleared.parent = f.parent := rfl

end Frame

/-- The frames of the open scopes. -/
structure Environment where
  /-- The frames, the outermost first. -/
  frames : Array Frame
  /-- The index of the frame of the current scope. -/
  current : Nat

namespace Environment

/-- One frame without bindings. -/
def empty : Environment := ⟨#[.under none], 0⟩

/-- The number of frames. -/
def depth (env : Environment) : Nat :=
  env.frames.size

/-- The parents of all frames, in the order of the frames. -/
def parents (env : Environment) : List (Option Nat) :=
  env.frames.toList.map Frame.parent

/-- Opens a scope inside the current one. -/
def enter (env : Environment) : Environment :=
  ⟨env.frames.push (.under (some env.current)), env.frames.size⟩

/-- Closes the scope that was opened last and goes back to its parent.  The outermost scope stays
open. -/
def exit (env : Environment) : Environment :=
  if env.frames.size ≤ 1 then
    env
  else
    ⟨env.frames.pop, (env.frames.back?.bind Frame.parent).getD 0⟩

/-- Follows the parents from a frame up to the first one that binds a name.  Every round goes on to
another frame, so the number of frames bounds the rounds. -/
def findFrom (frames : Array Frame) (name : String) : Nat → Option Nat → Option Nat
  | 0, _ => none
  | _ + 1, none => none
  | rounds + 1, some index =>
    match frames[index]? with
    | none => none
    | some frame =>
      if frame.contains name then some index else findFrom frames name rounds frame.parent

/-- The index of the frame in which a name is looked up. -/
def find? (env : Environment) (name : String) : Option Nat :=
  findFrom env.frames name env.frames.size (some env.current)

/-- The value that a name means. -/
def get? (env : Environment) (name : String) : Option Value :=
  (env.find? name).bind fun index => env.frames[index]?.bind (·.get? name)

/-- Whether a name is bound in the current frame. -/
def containsLocally (env : Environment) (name : String) : Bool :=
  env.frames[env.current]?.any (·.contains name)

/-- Whether a name has a meaning. -/
def contains (env : Environment) (name : String) : Bool :=
  (env.find? name).isSome

/-- Changes the frame at an index. -/
def update (env : Environment) (index : Nat) (change : Frame → Frame) : Environment :=
  { env with frames := env.frames.modify index change }

/-- Binds a name in the current frame; fails if the frame binds it already. -/
def define? (env : Environment) (name : String) (value : Value) : Option Environment :=
  if env.containsLocally name then none else some (env.update env.current (·.add name value))

/-- Gives a name another value where it is bound; fails if it is not bound. -/
def assign? (env : Environment) (name : String) (value : Value) : Option Environment :=
  (env.find? name).map fun index => env.update index (·.replace name value)

/-- Removes the binding of a name from the current frame, and returns the value that it had. -/
def undefine (env : Environment) (name : String) : Option Value × Environment :=
  (env.frames[env.current]?.bind (·.get? name), env.update env.current (·.erase name))

/-- Closes all scopes but the outermost one and removes the bindings of that one. -/
def clear (env : Environment) : Environment :=
  ⟨(env.frames.take 1).modify 0 .cleared, 0⟩

end Environment

end Script
