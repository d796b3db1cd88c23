import Frontend.Resolution

/-!
# Listings of syntax trees

A listing has one line per node, children indented below their parent: a label that says what
the node is to its parent, the description of the node, its span, and what analysis found out
about it.
-/

namespace Frontend.Listing

/-- A line and column. -/
def place (p : Position) : String := p.line.repr ++ ":" ++ p.col.repr

/-- One line of a listing. -/
def line (depth : Nat) (label text : String) (span : Span) (extra : String) : String :=
  ScopeTree.indent depth ++ label ++ text ++ " [" ++ place span.start ++ "-" ++ place span.stop ++
    "]" ++ extra

/-- What a node is linked to, if it is. -/
def link (r : Resolution) (node : Nat) : String :=
  match r.links[node]? with
  | some target => " => " ++ r.describeLink target
  | none => ""

/-- The scope that a block or `let` opens, if it is known. -/
def scope (r : Resolution) (node : Nat) : String :=
  match r.scopes[node]? with
  | some id => " scope " ++ r.store.scopeName id
  | none => ""

/-- The symbol of a function and the scope around it, once they are known. -/
def symbol (r : Resolution) (node : Nat) : String :=
  match r.scopes[node]? with
  | some id =>
    let name := ((r.store.scopeFunc? id).map FuncSymbol.describe).getD "<unlinked>"
    let around := r.store.chainName ((r.store.chain id).drop 1)
    " => " ++ name ++ " enclosed by " ++ around
  | none => ""

/-- A flag with a space in front of it, if it is set. -/
def flag (set : Bool) (word : String) : String := if set then " " ++ word else ""

mutual

/-- A type annotation. -/
def typeExpr (depth : Nat) (label : String) : TypeExpr → List String
  | .primary info name args =>
    typeLine depth label (.primary info name args) :: typeExprs (depth + 1) "arg: " args
  | .array info elem =>
    typeLine depth label (.array info elem) :: typeExpr (depth + 1) "elem: " elem
  | .dict info key value =>
    typeLine depth label (.dict info key value) ::
      (typeExpr (depth + 1) "key: " key ++ typeExpr (depth + 1) "value: " value)
  | .tuple info elems =>
    typeLine depth label (.tuple info elems) :: typeExprs (depth + 1) "elem: " elems
  | .func info kind params none =>
    typeLine depth label (.func info kind params none) :: typeExprs (depth + 1) "param: " params
  | .func info kind params (some ret) =>
    typeLine depth label (.func info kind params (some ret)) ::
      (typeExprs (depth + 1) "param: " params ++ typeExpr (depth + 1) "ret: " ret)
  | .qualified info qualifier inner =>
    typeLine depth label (.qualified info qualifier inner) ::
      typeExpr (depth + 1) "inner: " inner
where
  /-- The line of the annotation itself. -/
  typeLine (depth : Nat) (label : String) (t : TypeExpr) : String :=
    line depth label ("TypeNode(" ++ t.toText ++ ")") t.info.span ""

/-- Type annotations under one label. -/
def typeExprs (depth : Nat) (label : String) : List TypeExpr → List String
  | [] => []
  | t :: rest => typeExpr depth label t ++ typeExprs depth label rest

end

/-- The type annotation of a declaration, if it has one. -/
def annotation (depth : Nat) : Option TypeExpr → List String
  | none => []
  | some t => typeExpr depth "type: " t

/-- A parameter. -/
def param (r : Resolution) (depth : Nat) (label : String) (p : Param) : List String :=
  line depth label p.describe p.info.span (flag p.isVar "var" ++ link r p.info.id) ::
    annotation (depth + 1) p.type

/-- A declaration of a variable. -/
def varDecl (r : Resolution) (depth : Nat) (d : VarDecl) : List String :=
  line depth "decl: " d.describe d.info.span (link r d.info.id) :: annotation (depth + 1) d.type

/-- A declaration of a constant. -/
def constDecl (r : Resolution) (depth : Nat) (d : ConstDecl) : List String :=
  line depth "decl: " d.describe d.info.span (link r d.info.id) :: annotation (depth + 1) d.type

/-- What stands behind the span of an expression. -/
def exprExtra (r : Resolution) : Expr → String
  | .varRef info name assigned =>
    flag assigned "lhs" ++ flag (name == "_" && !r.links.contains info.id) "ignored" ++
      link r info.id
  | .member info _ _ => link r info.id
  | .call info _ _ => link r info.id
  | _ => ""

/-- The line of an expression itself. -/
def exprLine (r : Resolution) (depth : Nat) (label : String) (e : Expr) : String :=
  line depth label (e.describe r.types[e.id]?) e.info.span (exprExtra r e)

/-- What stands behind the span of a statement that is no expression. -/
def stmtExtra (r : Resolution) : Stmt → String
  | .assign _ _ (some op) _ => " op " ++ op.spelling
  | .ifElse _ kind _ _ _ _ | .guarded _ _ kind _ => " " ++ kind.name
  | .letIn info _ _ => scope r info.id
  | _ => ""

/-- The line of a statement itself. -/
def stmtLine (r : Resolution) (depth : Nat) (label : String) (s : Stmt) : String :=
  line depth label (s.describe none) s.info.span (stmtExtra r s)

mutual

/-- An expression. -/
def expr (r : Resolution) (depth : Nat) (label : String) (e : Expr) : List String :=
  exprLine r depth label e ::
    match e with
    | .literal .. | .varRef .. => []
    | .array _ elems | .tuple _ elems => exprs r (depth + 1) "elem: " elems
    | .dict _ entries => dictEntries r (depth + 1) entries
    | .member _ receiver _ => expr r (depth + 1) "receiver: " receiver
    | .index _ receiver index =>
      expr r (depth + 1) "receiver: " receiver ++ expr r (depth + 1) "index: " index
    | .call _ callee args =>
      expr r (depth + 1) "callee: " callee ++ exprs r (depth + 1) "arg: " args
    | .unary _ _ operand => expr r (depth + 1) "operand: " operand
    | .binary _ _ lhs rhs => expr r (depth + 1) "lhs: " lhs ++ expr r (depth + 1) "rhs: " rhs
    | .cast _ value type | .typed _ value type =>
      expr r (depth + 1) "expr: " value ++ typeExpr (depth + 1) "type: " type
    | .ifElse _ _ condition thenValue elseValue =>
      expr r (depth + 1) "cond: " condition ++ expr r (depth + 1) "then: " thenValue ++
        expr r (depth + 1) "else: " elseValue
    | .range _ first last _ =>
      expr r (depth + 1) "from: " first ++ expr r (depth + 1) "to: " last
    | .lambda _ definition => funcDef r (depth + 1) "lambda: " definition

/-- Expressions under one label. -/
def exprs (r : Resolution) (depth : Nat) (label : String) : List Expr → List String
  | [] => []
  | e :: rest => expr r depth label e ++ exprs r depth label rest

/-- The entries of a dictionary. -/
def dictEntries (r : Resolution) (depth : Nat) : List (Expr × Expr) → List String
  | [] => []
  | (key, value) :: rest =>
    expr r depth "key: " key ++ expr r depth "value: " value ++ dictEntries r depth rest

/-- A function without its copies. -/
def funcDef (r : Resolution) (depth : Nat) (label : String) : FuncDef → List String
  | ⟨info, kind, name, params, returnType, body, ensureBody⟩ =>
    let header : FuncDef := ⟨info, kind, name, params, returnType, body, ensureBody⟩
    line depth label header.describe info.span
        (flag header.isTemplate "template" ++ symbol r info.id) ::
      (params.flatMap (param r (depth + 1) "param: ") ++ annotation (depth + 1) returnType ++
        block r (depth + 1) "body: " body ++
        match ensureBody with
        | some b => block r (depth + 1) "ensure: " b
        | none => [])

/-- A block. -/
def block (r : Resolution) (depth : Nat) (label : String) : Block → List String
  | ⟨info, body⟩ =>
    line depth label (Block.describe ⟨info, body⟩) info.span (scope r info.id) ::
      stmts r (depth + 1) body

/-- The block of an `else`, if there is one. -/
def elseBlock (r : Resolution) (depth : Nat) : Option Block → List String
  | some b => block r depth "else: " b
  | none => []

/-- An initialize statement. -/
def initStmt (r : Resolution) (depth : Nat) (label : String) : Init → List String
  | ⟨info, decls, values⟩ =>
    stmtLine r depth label (.init ⟨info, decls, values⟩) ::
      (decls.flatMap (varDecl r (depth + 1)) ++ exprs r (depth + 1) "value: " values)

/-- A statement. -/
def stmt (r : Resolution) (depth : Nat) (label : String) (s : Stmt) : List String :=
  match s with
  | .init init => initStmt r depth label init
  | .expr value => expr r depth label value
  | .assign _ targets _ values =>
    stmtLine r depth label s ::
      (exprs r (depth + 1) "target: " targets ++ exprs r (depth + 1) "value: " values)
  | .ifElse _ _ condition thenBlock elseifs otherwise =>
    stmtLine r depth label s ::
      (expr r (depth + 1) "cond: " condition ++ block r (depth + 1) "then: " thenBlock ++
        arms r (depth + 1) "elseif: " elseifs ++ elseBlock r (depth + 1) otherwise)
  | .ret _ values => stmtLine r depth label s :: exprs r (depth + 1) "value: " values
  | .case _ whens otherwise =>
    stmtLine r depth label s ::
      (arms r (depth + 1) "when: " whens ++ elseBlock r (depth + 1) otherwise)
  | .switch _ target whens otherwise =>
    stmtLine r depth label s ::
      (expr r (depth + 1) "target: " target ++ valueArms r (depth + 1) whens ++
        elseBlock r (depth + 1) otherwise)
  | .forIn _ vars range body =>
    stmtLine r depth label s ::
      (vars.flatMap (param r (depth + 1) "param: ") ++ expr r (depth + 1) "range: " range ++
        block r (depth + 1) "body: " body)
  | .whileDo _ condition body =>
    stmtLine r depth label s ::
      (expr r (depth + 1) "cond: " condition ++ block r (depth + 1) "body: " body)
  | .guarded _ body _ condition =>
    stmtLine r depth label s ::
      (stmt r (depth + 1) "body: " body ++ expr r (depth + 1) "cond: " condition)
  | .letIn _ inits child =>
    stmtLine r depth label s ::
      (initStmts r (depth + 1) inits ++ stmt r (depth + 1) "child: " child)

/-- The statements of a block. -/
def stmts (r : Resolution) (depth : Nat) : List Stmt → List String
  | [] => []
  | s :: rest => stmt r depth "" s ++ stmts r depth rest

/-- The bindings of a `let`. -/
def initStmts (r : Resolution) (depth : Nat) : List Init → List String
  | [] => []
  | init :: rest => initStmt r depth "init: " init ++ initStmts r depth rest

/-- Conditions and the blocks they guard. -/
def arms (r : Resolution) (depth : Nat) (label : String) : List (Expr × Block) → List String
  | [] => []
  | (condition, body) :: rest =>
    expr r depth label condition ++ block r depth "then: " body ++ arms r depth label rest

/-- Values and the blocks that are run for them. -/
def valueArms (r : Resolution) (depth : Nat) : List (List Expr × Block) → List String
  | [] => []
  | (values, body) :: rest =>
    exprs r depth "when: " values ++ block r depth "then: " body ++ valueArms r depth rest

end

/-- A function with its copies. -/
def function (r : Resolution) (depth : Nat) (d : FuncDef) : List String :=
  funcDef r depth "" d ++
    (r.copies.getD d.info.id #[]).toList.flatMap (funcDef r (depth + 1) "instance: ")

/-- A definition at the top level. -/
def definition (r : Resolution) (depth : Nat) : Definition → List String
  | .function d => function r depth d
  | .constant d =>
    line depth "" d.describe d.info.span "" ::
      (d.decls.flatMap (constDecl r (depth + 1)) ++ exprs r (depth + 1) "value: " d.values)

/-- A whole program. -/
def program (r : Resolution) (p : Program) : List String :=
  line 0 "" p.describe p.info.span "" :: p.definitions.flatMap (definition r 1)

end Frontend.Listing
