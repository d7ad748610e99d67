/-!
# Variables

A variable is a named local seen some number of scopes out, or a temporary known by its index.
Temporaries of different scopes never denote the same storage; a local is addressed relative to the
scope that mentions it, where depth one is the scope itself.
-/

namespace FlowIR

/-- A local variable by name and by the number of scopes, counted from one, up to the scope that
owns it. -/
structure Local where
  name : String
  depth : Nat
deriving DecidableEq

namespace Local

/-- The local `name` at the given depth; no local lies nearer than the scope itself, so depth zero
counts as depth one. -/
def atDepth (name : String) (depth : Nat) : Local :=
  ⟨name, max depth 1⟩

@[simp] theorem atDepth_name (name : String) (depth : Nat) :
    (Local.atDepth name depth).name = name :=
  rfl

@[simp] theorem atDepth_depth (name : String) (depth : Nat) :
    (Local.atDepth name depth).depth = max depth 1 :=
  rfl

end Local

/-- A variable of the intermediate representation. -/
inductive Variable where
  | named (place : Local)
  | temporary (index : Nat)
deriving DecidableEq

namespace Variable

/-- The local behind a variable, if it is one. -/
def local? : Variable → Option Local
  | named place => some place
  | temporary _ => none

/-- A variable that is a local. -/
def isLocal (v : Variable) : Bool :=
  v.local?.isSome

/-- A local is shown as `name(depth)`, a temporary as `%v_index`. -/
def render : Variable → String
  | named place => place.name ++ "(" ++ toString place.depth ++ ")"
  | temporary index => "%v_" ++ toString index

@[simp] theorem isLocal_named (place : Local) : (named place).isLocal = true :=
  rfl

@[simp] theorem isLocal_temporary (index : Nat) : (temporary index).isLocal = false :=
  rfl

end Variable

end FlowIR
