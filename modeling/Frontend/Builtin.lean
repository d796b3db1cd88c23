import Frontend.Symbol

/-!
# Builtin functions

The functions that every program can call. Their placeholders have ids below those of any node
of a source text.
-/

namespace Frontend.Builtin

/-- Node ids start here; lower ones belong to the placeholders of builtin functions. -/
def firstNodeId : Nat := 1024

/-- A builtin function with one parameter or none. -/
def symbol (name : String) (kind : FuncKind) (param ret : Option Ty) : FuncSymbol :=
  { name, params := param.toList.map fun type => ⟨"value", some type, false⟩, ret, kind
    isBuiltin := true, decl := none }

/-- The builtin functions, in the order in which they are declared. -/
def all : List FuncSymbol :=
  [symbol "print" .proc (some (.template 1)) none,
    symbol "println" .proc (some (.template 2)) none,
    symbol "to_string" .func (some (.template 3)) (some .string),
    symbol "abs" .func (some .int) (some .int),
    symbol "abs" .func (some .float) (some .float),
    symbol "sqrt" .func (some .float) (some .float),
    symbol "read_line" .func none (some .string)]

end Frontend.Builtin
