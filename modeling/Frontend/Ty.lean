/-!
# Types

The types that analysis assigns. Equality is structural: a placeholder equals only itself, and
matching it against another type is the business of overload selection.
-/

namespace Frontend

/-- The types that have a name of their own. -/
inductive BuiltinType where
  | int | uint | float | char | bool | string | symbol
deriving DecidableEq, Repr, Inhabited

namespace BuiltinType

/-- The name a builtin type is written with. -/
def name : BuiltinType → String
  | .int => "int"
  | .uint => "uint"
  | .float => "float"
  | .char => "char"
  | .bool => "bool"
  | .string => "string"
  | .symbol => "symbol"

/-- The builtin type with a name. -/
def ofName? (name : String) : Option BuiltinType :=
  [int, uint, float, char, bool, string, symbol].find? (·.name == name)

theorem ofName?_eq_some_iff {s : String} {b : BuiltinType} : ofName? s = some b ↔ s = b.name := by
  constructor
  · intro h
    have hb : b.name = s := by simpa using List.find?_some h
    exact hb.symm
  · rintro rfl
    cases b <;> decide

end BuiltinType

/-- What may be put before or behind a type. -/
inductive Qualifier where
  | ref
  | maybe
deriving DecidableEq, Repr, Inhabited

/-- The types of values. -/
inductive Ty where
  | builtin (type : BuiltinType)
  /-- A placeholder, with the id of the parameter that introduced it. -/
  | template (id : Nat)
  | array (elem : Ty)
  /-- The empty tuple is the unit type. -/
  | tuple (elems : List Ty)
  | dict (key value : Ty)
  /-- A function, or a procedure if it has no result type. -/
  | func (params : List Ty) (ret : Option Ty)
  | named (name : String) (args : List Ty)
  | qualified (qualifier : Option Qualifier) (inner : Ty)
deriving Repr, Inhabited

namespace Ty

mutual

/-- Structural equality as a test. -/
def same : Ty → Ty → Bool
  | .builtin a, .builtin b => a == b
  | .template a, .template b => a == b
  | .array a, .array b => same a b
  | .tuple as, .tuple bs => sameAll as bs
  | .dict k v, .dict k' v' => same k k' && same v v'
  | .func ps none, .func qs none => sameAll ps qs
  | .func ps (some r), .func qs (some r') => sameAll ps qs && same r r'
  | .named n as, .named n' bs => n == n' && sameAll as bs
  | .qualified q a, .qualified q' b => q == q' && same a b
  | _, _ => false

/-- Structural equality of lists of types. -/
def sameAll : List Ty → List Ty → Bool
  | [], [] => true
  | a :: as, b :: bs => same a b && sameAll as bs
  | _, _ => false

end

mutual

theorem same_iff : ∀ a b : Ty, same a b = true ↔ a = b
  | .builtin a, b => by cases b <;> simp [same]
  | .template a, b => by cases b <;> simp [same]
  | .array a, b => by cases b <;> simp [same, same_iff a]
  | .tuple as, b => by cases b <;> simp [same, sameAll_iff as]
  | .dict k v, b => by cases b <;> simp [same, same_iff k, same_iff v]
  | .func ps none, b => by
    cases b with
    | func qs r => cases r <;> simp [same, sameAll_iff ps]
    | _ => simp [same]
  | .func ps (some r), b => by
    cases b with
    | func qs r' => cases r' <;> simp [same, sameAll_iff ps, same_iff r]
    | _ => simp [same]
  | .named n as, b => by cases b <;> simp [same, sameAll_iff as]
  | .qualified q a, b => by cases b <;> simp [same, same_iff a]

theorem sameAll_iff : ∀ as bs : List Ty, sameAll as bs = true ↔ as = bs
  | [], bs => by cases bs <;> simp [sameAll]
  | a :: as, bs => by cases bs <;> simp [sameAll, same_iff a, sameAll_iff as]

end

instance : DecidableEq Ty := fun a b => decidable_of_iff (same a b = true) (same_iff a b)

/-- The integers. -/
abbrev int : Ty := .builtin .int
/-- The unsigned integers. -/
abbrev uint : Ty := .builtin .uint
/-- The floating-point numbers. -/
abbrev float : Ty := .builtin .float
/-- The characters. -/
abbrev char : Ty := .builtin .char
/-- The truth values. -/
abbrev bool : Ty := .builtin .bool
/-- The strings. -/
abbrev string : Ty := .builtin .string
/-- The symbols. -/
abbrev symbol : Ty := .builtin .symbol
/-- The type of nothing in particular. -/
abbrev unit : Ty := .tuple []
/-- The ranges between two numbers of a type. -/
abbrev range (elem : Ty) : Ty := .named "range" [elem]

/-- Whether a type is a placeholder; types that contain one are not. -/
def isTemplate : Ty → Bool
  | .template _ => true
  | _ => false

/-- Whether a type is the unit type. -/
def isUnit : Ty → Bool
  | .tuple [] => true
  | _ => false

/-- Whether a type is one of the numbers. -/
def isNumeric : Ty → Bool
  | .builtin .int | .builtin .uint | .builtin .float => true
  | _ => false

/-- Whether a type is one of the whole numbers. -/
def isIntegral : Ty → Bool
  | .builtin .int | .builtin .uint => true
  | _ => false

mutual

/-- A type as text. -/
def toText : Ty → String
  | .builtin type => type.name
  | .template id => "template#" ++ id.repr
  | .array elem => "[" ++ elem.toText ++ "]"
  | .tuple elems => "(" ++ joinText elems ++ ")"
  | .dict key value => "\x7b" ++ key.toText ++ " => " ++ value.toText ++ "\x7d"
  | .func params (some ret) => "func(" ++ joinText params ++ ") : " ++ ret.toText
  | .func params none => "proc(" ++ joinText params ++ ")"
  | .named name [] => name
  | .named name (arg :: args) => name ++ "(" ++ joinText (arg :: args) ++ ")"
  | .qualified (some .ref) inner => "&" ++ inner.toText
  | .qualified (some .maybe) inner => inner.toText ++ "?"
  | .qualified none inner => inner.toText

/-- Types as text, with commas between them. -/
def joinText : List Ty → String
  | [] => ""
  | [ty] => ty.toText
  | ty :: rest => ty.toText ++ ", " ++ joinText rest

end

end Ty

end Frontend
