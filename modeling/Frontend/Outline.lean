import Frontend.Resolution

/-!
# Outlines of programs

An outline has one line per definition and per statement, statements of inner blocks indented
below the statement they belong to.
-/

namespace Frontend.Outline

/-- The line of a statement. -/
def line (r : Resolution) (depth : Nat) (s : Stmt) : String :=
  ScopeTree.indent depth ++ s.describe r.types[s.info.id]?

mutual

/-- A statement and those inside it. -/
def stmt (r : Resolution) (depth : Nat) (s : Stmt) : List String :=
  line r depth s ::
    match s with
    | .ifElse _ _ _ thenBlock elseifs elseBlock =>
      block r (depth + 1) thenBlock ++ arms r (depth + 1) elseifs ++
        optionalBlock r (depth + 1) elseBlock
    | .case _ whens elseBlock =>
      arms r (depth + 1) whens ++ optionalBlock r (depth + 1) elseBlock
    | .switch _ _ whens elseBlock =>
      valueArms r (depth + 1) whens ++ optionalBlock r (depth + 1) elseBlock
    | .forIn _ _ _ body => block r (depth + 1) body
    | .whileDo _ _ body => block r (depth + 1) body
    | .guarded _ body _ _ => stmt r (depth + 1) body
    | .letIn _ _ child => stmt r (depth + 1) child
    | .init _ | .assign .. | .ret .. | .expr _ => []

/-- The statements of a block. -/
def block (r : Resolution) (depth : Nat) : Block → List String
  | ⟨_, body⟩ => stmts r depth body

/-- The statements of a block, if there is one. -/
def optionalBlock (r : Resolution) (depth : Nat) : Option Block → List String
  | none => []
  | some b => block r depth b

/-- Statements in order. -/
def stmts (r : Resolution) (depth : Nat) : List Stmt → List String
  | [] => []
  | s :: rest => stmt r depth s ++ stmts r depth rest

/-- The blocks guarded by conditions. -/
def arms (r : Resolution) (depth : Nat) : List (Expr × Block) → List String
  | [] => []
  | (_, body) :: rest => block r depth body ++ arms r depth rest

/-- The blocks run for values. -/
def valueArms (r : Resolution) (depth : Nat) : List (List Expr × Block) → List String
  | [] => []
  | (_, body) :: rest => block r depth body ++ valueArms r depth rest

end

/-- A definition and the statements in it. -/
def definition (r : Resolution) : Definition → List String
  | .constant d => [d.describe]
  | .function d =>
    d.describe :: block r 1 d.body ++
      match d.ensureBody with
      | some b => "  ensure" :: block r 1 b
      | none => []

/-- All definitions of a program. -/
def program (r : Resolution) (p : Program) : List String := p.definitions.flatMap (definition r)

end Frontend.Outline
