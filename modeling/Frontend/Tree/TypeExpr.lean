import Frontend.Error
import Frontend.Ty

/-!
# Type annotations

Types as they are written in a source text, and the types they denote.
-/

namespace Frontend

/-- Identity and location of a node. -/
structure NodeInfo where
  id : Nat
  span : Span
deriving DecidableEq, Repr, Inhabited

/-- The kinds of functions. -/
inductive FuncKind where
  | func
  | proc
  /-- The body of a `->` expression, which returns a value like `func`. -/
  | lambda
deriving DecidableEq, Repr, Inhabited

namespace FuncKind

/-- The word a kind is shown as. -/
def name : FuncKind → String
  | .func => "func"
  | .proc => "proc"
  | .lambda => "lambda"

/-- Whether a call gives the value that the body returns. -/
def returnsValue : FuncKind → Bool
  | .proc => false
  | .func | .lambda => true

end FuncKind

/-- A type as written. -/
inductive TypeExpr where
  | primary (info : NodeInfo) (name : String) (args : List TypeExpr)
  | array (info : NodeInfo) (elem : TypeExpr)
  | dict (info : NodeInfo) (key value : TypeExpr)
  | tuple (info : NodeInfo) (elems : List TypeExpr)
  | func (info : NodeInfo) (kind : FuncKind) (params : List TypeExpr) (ret : Option TypeExpr)
  | qualified (info : NodeInfo) (qualifier : Qualifier) (inner : TypeExpr)
deriving Repr, Inhabited

namespace TypeExpr

/-- Identity and location. -/
def info : TypeExpr → NodeInfo
  | .primary info .. | .array info _ | .dict info .. | .tuple info _ | .func info ..
  | .qualified info .. => info

/-- Where the annotation begins. -/
def position (t : TypeExpr) : Position := t.info.span.start

mutual

/-- A type annotation as text, in its canonical spacing. -/
def toText : TypeExpr → String
  | .primary _ name [] => name
  | .primary _ name (arg :: args) => name ++ "(" ++ joinText (arg :: args) ++ ")"
  | .array _ elem => "[" ++ elem.toText ++ "]"
  | .dict _ key value => "\x7b" ++ key.toText ++ " => " ++ value.toText ++ "\x7d"
  | .tuple _ elems => "(" ++ joinText elems ++ ")"
  | .func _ kind params (some ret) =>
    kind.name ++ "(" ++ joinText params ++ ") : " ++ ret.toText
  | .func _ kind params none => kind.name ++ "(" ++ joinText params ++ ")"
  | .qualified _ .ref inner => "&" ++ inner.toText
  | .qualified _ .maybe inner => inner.toText ++ "?"

/-- Type annotations as text, with commas between them. -/
def joinText : List TypeExpr → String
  | [] => ""
  | [ty] => ty.toText
  | ty :: rest => ty.toText ++ ", " ++ joinText rest

end

mutual

/-- The type that an annotation denotes. The known names are those of the builtin types, without
arguments, and `range` with one argument; any other is reported where it stands. -/
def resolve : TypeExpr → Except Error Ty
  | .primary info name args =>
    match BuiltinType.ofName? name, args with
    | some builtin, [] => pure (.builtin builtin)
    | none, [arg] =>
      if name = "range" then do return .range (← arg.resolve)
      else throw ⟨.unknownType (toText (.primary info name [arg])), info.span.start⟩
    | _, args => throw ⟨.unknownType (toText (.primary info name args)), info.span.start⟩
  | .array _ elem => do return .array (← elem.resolve)
  | .dict _ key value => do return .dict (← key.resolve) (← value.resolve)
  | .tuple _ elems => do return .tuple (← resolveAll elems)
  | .func _ .proc params _ => do return .func (← resolveAll params) none
  | .func _ _ params none => do return .func (← resolveAll params) (some .unit)
  | .func _ _ params (some ret) => do
    let params ← resolveAll params
    return .func params (some (← ret.resolve))
  | .qualified _ qualifier inner => do return .qualified (some qualifier) (← inner.resolve)

/-- The types that annotations denote, from left to right. -/
def resolveAll : List TypeExpr → Except Error (List Ty)
  | [] => pure []
  | ty :: rest => do
    let first ← ty.resolve
    return first :: (← resolveAll rest)

end

end TypeExpr

end Frontend
