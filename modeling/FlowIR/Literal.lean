import FlowIR.Text.Quoted

/-!
# Literals

A literal is a constant together with an identity.  Two literals with the same constant are
different unless they carry the same identity, so that a copy of a literal can be told from a new
literal that happens to look alike.  All new literals get their identities from one counter.
-/

namespace FlowIR

/-- The value that a literal denotes. -/
inductive Constant where
  | fixnum (value : Int)
  | bignum (digits : String)
  | str (text : String)
  | symbol (name : String)
  | nil
  | boolean (value : Bool)
deriving DecidableEq

namespace Constant

/-- A fixnum is marked `:fixnum`, a bignum `:bignum`, a string is quoted, a symbol starts with a
colon. -/
def render : Constant → String
  | fixnum value => toString value ++ ":fixnum"
  | bignum digits => digits ++ ":bignum"
  | str text => Text.Quoted.encode text
  | symbol name => ":" ++ name
  | nil => "nil"
  | boolean true => "true"
  | boolean false => "false"

end Constant

/-- A constant with an identity. -/
structure Literal where
  id : Nat
  constant : Constant
deriving DecidableEq

namespace Literal

/-- A new literal takes the next identity, and the one after it is the next then. -/
def fresh (constant : Constant) (next : Nat) : Literal × Nat :=
  (⟨next, constant⟩, next + 1)

/-- A literal is shown as its constant. -/
def render (literal : Literal) : String :=
  literal.constant.render

end Literal

end FlowIR
