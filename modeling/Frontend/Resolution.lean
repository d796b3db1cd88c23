import Std.Data.TreeMap
import Frontend.Scope.Describe

/-!
# What analysis finds out

Types, links and scopes of nodes, each under the id of its node. Every slot is written once: a
second write is refused and leaves a mark in `refused`.
-/

namespace Frontend

/-- What a name is linked to. -/
inductive Link where
  | var (handle : VarHandle)
  | func (id : FuncId)
deriving DecidableEq, Repr

/-- The symbols of a program and what is known of its nodes. -/
structure Resolution where
  store : Store
  /-- The types of expressions. -/
  types : Std.TreeMap Nat Ty
  /-- What references, declarations, calls and member accesses stand for. -/
  links : Std.TreeMap Nat Link
  /-- The scopes of functions, blocks and `let` statements. -/
  scopes : Std.TreeMap Nat ScopeId
  /-- The copies of a template, one for each list of argument types it was called with. -/
  copies : Std.TreeMap Nat (Array FuncDef)
  /-- The nodes of which a link or a scope was to be written a second time. -/
  refused : List Nat

namespace Resolution

/-- Nothing is known. -/
def empty : Resolution := ⟨.empty, ∅, ∅, ∅, ∅, []⟩

/-- Links a node, unless it is linked. -/
def link (r : Resolution) (node : Nat) (target : Link) : Resolution :=
  if r.links.contains node then { r with refused := node :: r.refused }
  else { r with links := r.links.insert node target }

/-- Gives a node its scope, unless it has one. -/
def setScope (r : Resolution) (node : Nat) (scope : ScopeId) : Resolution :=
  if r.scopes.contains node then { r with refused := node :: r.refused }
  else { r with scopes := r.scopes.insert node scope }

/-- Gives an expression its type; it must not have one. -/
def setType (r : Resolution) (node : Nat) (type : Ty) : Except Fault Resolution :=
  if r.types.contains node then .error (.typeRewritten node)
  else .ok { r with types := r.types.insert node type }

/-- Adds a copy of a template. -/
def addCopy (r : Resolution) (template : Nat) (copy : FuncDef) : Resolution :=
  { r with copies := r.copies.insert template ((r.copies.getD template #[]).push copy) }

/-- What a link leads to, as text. -/
def describeLink (r : Resolution) : Link → String
  | .var handle => r.store.describeHandle handle
  | .func id => ((r.store.func? id).map FuncSymbol.describe).getD ""

end Resolution

end Frontend
