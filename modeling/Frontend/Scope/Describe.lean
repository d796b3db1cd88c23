import Frontend.Scope.Store

/-!
# Scopes as text

`Store.tree` is the tree of block scopes inside a scope; `Store.dump` prints every symbol of a
store, with the trees indented.
-/

namespace Frontend

/-- The variables of a block scope and the block scopes in it. -/
inductive ScopeTree where
  | node (vars : List VarSymbol) (blocks : List ScopeTree)
deriving Repr

namespace ScopeTree

/-- An indentation of two spaces for each level. -/
def indent (depth : Nat) : String := String.ofList (List.replicate (2 * depth) ' ')

mutual

/-- One line per variable between the lines of the braces. -/
def lines (depth : Nat) : ScopeTree → List String
  | .node vars blocks =>
    (indent depth ++ "\x7b") :: vars.map (fun v => indent depth ++ "  " ++ v.describe) ++
      linesAll (depth + 1) blocks ++ [indent depth ++ "\x7d"]

/-- The lines of several trees. -/
def linesAll (depth : Nat) : List ScopeTree → List String
  | [] => []
  | tree :: rest => lines depth tree ++ linesAll depth rest

end

end ScopeTree

namespace Store

/-- The tree of a block scope, cut off at a depth. Each scope has a greater id than the one it
is opened in, so the number of scopes is deep enough. -/
def treeAt (s : Store) : (depth : Nat) → ScopeId → ScopeTree
  | 0, _ => .node [] []
  | depth + 1, id =>
    match s.scopes[id]? with
    | some ⟨body, _, blocks⟩ =>
      let vars := match body with
        | .block vars => vars.toList
        | _ => []
      .node vars (blocks.toList.map (s.treeAt depth))
    | none => .node [] []

/-- The tree of a block scope. -/
def tree (s : Store) (id : ScopeId) : ScopeTree := s.treeAt s.scopes.size id

/-- The block scopes opened directly in a scope. -/
def blocksOf (s : Store) (id : ScopeId) : List ScopeId :=
  match s.scopes[id]? with
  | some scope => scope.blocks.toList
  | none => []

/-- A function scope: its function and the parameters, then the trees of its blocks. -/
def dumpFunction (s : Store) (id : ScopeId) : List String :=
  let header := match s.scopeFunc? id with
    | some f => f.describe :: f.params.map fun p => "  param " ++ p.describe
    | none => ["<unlinked function>"]
  header ++ ScopeTree.linesAll 1 ((s.blocksOf id).map s.tree)

/-- A text with a word in front of its first line. -/
def labelled (label : String) : List String → List String
  | [] => []
  | first :: rest => (label ++ first) :: rest

/-- All constants, functions, instances and lambdas with their scopes, one symbol per line. -/
def dump (s : Store) : List String :=
  s.constants.toList.map (fun v => "const " ++ v.describe) ++
    s.functionScopes.toList.flatMap s.dumpFunction ++
    s.instanceScopes.toList.flatMap (fun id => labelled "instance " (s.dumpFunction id)) ++
    s.lambdaScopes.toList.flatMap s.dumpFunction

/-- The name of the scope at the head of a chain: a function scope is called after its function,
a block scope after its place in the scope around it. -/
def chainName (s : Store) : List ScopeId → String
  | [] => "global"
  | id :: outer =>
    match s.scopes[id]? with
    | some ⟨.function _, _, _⟩ => ((s.scopeFunc? id).map (·.name)).getD "<unlinked>"
    | some ⟨.block _, _, _⟩ =>
      let index := (outer.head?.map s.blocksOf).getD [] |>.idxOf id
      chainName s outer ++ "/" ++ index.repr
    | _ => "global"

/-- The name of a scope. -/
def scopeName (s : Store) (id : ScopeId) : String := s.chainName (s.chain id)

/-- A variable and the scope that owns it. -/
def describeVar (s : Store) (v : VarSymbol) (owner : ScopeId) : String :=
  v.describe ++ " in " ++ s.scopeName owner

/-- The variable kept under a handle and the scope that owns it. -/
def describeHandle (s : Store) (h : VarHandle) : String :=
  match s.var? h with
  | some v => s.describeVar v (owner h)
  | none => ""

end Store

end Frontend
