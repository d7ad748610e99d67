import FlowIR.Focus
import FlowIR.Graph.Restructure
import FlowIR.Graph.Reachability

/-!
# Scopes

A scope is a method or closure body: its graph, the locals it has asked for, and the counters from
which its temporaries and labels come.  A fresh temporary has an index never handed out before; a
fresh label is `_LABEL_n` for a number `n` never handed out before and not carried by any block.
-/

namespace FlowIR

/-- What a scope is the body of. -/
inductive ScopeKind where
  | method
  | closure
deriving DecidableEq

/-- A method or closure body. -/
structure Scope where
  name : String
  kind : ScopeKind
  graph : Graph
  /-- The locals asked for, each once. -/
  locals : List Local := []
  /-- The index of the next temporary. -/
  nextTemp : Nat := 0
  /-- The first number to try for the next label. -/
  nextLabel : Nat := 0
deriving DecidableEq

/-- The label with a given number. -/
def Label.numbered (n : Nat) : Label :=
  ⟨"_LABEL_" ++ toString n⟩

/-- Different numbers make different labels. -/
theorem Label.numbered_inj {m n : Nat} : Label.numbered m = Label.numbered n ↔ m = n := by
  refine ⟨fun same => ?_, fun same => by rw [same]⟩
  have names : "_LABEL_" ++ toString m = "_LABEL_" ++ toString n := congrArg Label.name same
  have digits : Nat.toDigits 10 m = Nat.toDigits 10 n := by
    simpa using congrArg String.toList names
  simpa using congrArg (Nat.ofDigitChars 10 · 0) digits

namespace Scope

/-- An empty scope over an empty graph of the given number. -/
def empty (name : String) (kind : ScopeKind) (graph : GraphId) : Scope :=
  { name := name, kind := kind, graph := { id := graph } }

/-- The local `name` as seen at `depth`, remembered by the scope. -/
def addressLocal (scope : Scope) (name : String) (depth : Nat) : Variable × Scope :=
  let place := Local.atDepth name depth
  (.named place,
    if place ∈ scope.locals then scope else { scope with locals := scope.locals ++ [place] })

/-- A temporary that the scope has never handed out. -/
def freshTemp (scope : Scope) : Variable × Scope :=
  (.temporary scope.nextTemp, { scope with nextTemp := scope.nextTemp + 1 })

/-- The first number from `n` on whose label is free in the graph, after passing over at most
`tries` numbers. -/
def firstFree (g : Graph) : (tries n : Nat) → Nat
  | 0, n => n
  | tries + 1, n => if g.binds (.numbered n) then firstFree g tries (n + 1) else n

/-- A label that the scope has never handed out and that no block of its graph carries.
Different numbers make different labels, so passing over as many numbers as there are
bound labels is enough. -/
def freshLabel (scope : Scope) : Label × Scope :=
  let n := firstFree scope.graph scope.graph.labels.length scope.nextLabel
  (.numbered n, { scope with nextLabel := n + 1 })

/-- The graph of a scope. -/
def graphFocus : Focus Scope Graph where
  get := Scope.graph
  set g scope := { scope with graph := g }

end Scope

end FlowIR
