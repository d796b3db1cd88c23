import Frontend.Proofs.Calls.Overload
import Frontend.Proofs.Scoping.Site

/-!
# Typing rules and resolved sites

`Typing s e type` is the typing rule of the outermost construct of `e`, read off the slots that
the state `s` has for its parts. `Site.Resolved` says that a site has been dealt with: its
expression is typed by a rule, its name stands for what the layers around it say. A site that is
resolved stays resolved as long as its own link stays as it is.
-/

namespace Frontend

/-- The operands that a binary operator admits, and what it gives then. -/
inductive BinaryOp.Types : BinaryOp → Ty → Ty → Prop
  | comparison {op : BinaryOp} (operand : Ty) (h : op.isComparison = true) :
    Types op operand .bool
  | logical {op : BinaryOp} (h : op.isLogical = true) : Types op .bool .bool
  | arithmetic {op : BinaryOp} {operand : Ty} (h : op.isArithmetic = true)
    (hn : operand.isNumeric = true) : Types op operand operand
  | concat : Types .add .string .string
  | bitwise {op : BinaryOp} {operand : Ty} (hc : op.isComparison = false)
    (hl : op.isLogical = false) (ha : op.isArithmetic = false)
    (hi : operand.isIntegral = true) : Types op operand operand

/-- The operands that a unary operator admits, and what it gives then. -/
inductive UnaryOp.Types : UnaryOp → Ty → Ty → Prop
  | not : Types .not .bool .bool
  | neg {operand : Ty} (h : operand.isNumeric = true) : Types .neg operand operand
  | plus {operand : Ty} (h : operand.isNumeric = true) : Types .plus operand operand

/-- The receivers and indices that go together, and what they give; the index of a tuple is an
integer literal. -/
inductive Expr.Indexes (index : Expr) : Ty → Ty → Ty → Prop
  | array {elem type : Ty} (h : type.isIntegral = true) : Indexes index (.array elem) type elem
  | string {type : Ty} (h : type.isIntegral = true) : Indexes index .string type .char
  | dict (key value : Ty) : Indexes index (.dict key value) key value
  | tuple {elems : List Ty} (type : Ty) {position : Nat} {elem : Ty}
    (hp : index.tuplePosition? = some position) (he : elems[position]? = some elem) :
    Indexes index (.tuple elems) type elem

/-- What a call of a function gives, if that is known. -/
def FuncSymbol.result? (f : FuncSymbol) : Option Ty := if f.kind = .proc then some .unit else f.ret

namespace AnalysisState

/-- A call of a function gives a type. -/
def Gives (s : AnalysisState) (id : FuncId) (type : Ty) : Prop :=
  ∃ f, s.store.func? id = some f ∧ f.result? = some type

/-- A function has a type as a value. -/
def IsOfType (s : AnalysisState) (id : FuncId) (type : Ty) : Prop :=
  ∃ f, s.store.func? id = some f ∧ f.type? = some type

/-- The slots of expressions hold types. -/
def HaveTypes (s : AnalysisState) (es : List Expr) (types : List Ty) : Prop :=
  List.Forall₂ (fun e type => s.types[e.id]? = some type) es types

/-- What a call of a name with arguments of some types stands for: the selected function or, of a
template that is not builtin, the instance for these types. -/
inductive Chosen (s : AnalysisState) (name : String) (args : List Ty) : FuncId → Prop
  | plain {id : FuncId} {f : FuncSymbol} {score : Nat}
    (h : Overload.select s.store.globalFuncs name args = some ((id, f), score))
    (hf : (f.isTemplate && !f.isBuiltin) = false) : Chosen s name args id
  | made {id : FuncId} {f : FuncSymbol} {score : Nat} {d : FuncDef} {func : FuncId}
    (h : Overload.select s.store.globalFuncs name args = some ((id, f), score))
    (hf : (f.isTemplate && !f.isBuiltin) = true) (hd : f.decl = some d)
    (hk : ⟨d.info.id, args, func⟩ ∈ s.known) : Chosen s name args func

/-- A global function of a name, or an instance of one, which has the same name. -/
inductive NamesFunction (s : AnalysisState) (name : String) : FuncId → Prop
  | global {id : FuncId} {f : FuncSymbol} (h : (id, f) ∈ s.store.globalFuncs)
    (hn : f.name = name) : NamesFunction s name id
  | instantiated {id : FuncId} {f g : FuncSymbol} {d : FuncDef} {i : Instance}
    (h : (id, f) ∈ s.store.globalFuncs) (hn : f.name = name) (hd : f.decl = some d)
    (hi : i ∈ s.known) (hk : i.template = d.info.id) (hg : s.store.func? i.func = some g)
    (hgn : g.name = name) : NamesFunction s name i.func

/-- What a name stands for: the innermost declaration in the layers around it, without one a
function, and nothing if it is an underscore. -/
inductive Reference (s : AnalysisState) (env : Env) (info : NodeInfo) (name : String) : Prop
  | ofVariable {owner : Option Nat} {node : Nat} {handle : VarHandle}
    (h : env.find? name = some (owner, node)) (hd : Denotes s name owner node handle)
    (hl : s.links[info.id]? = some (.var handle))
  | ofFunction {id : FuncId} (h : env.find? name = none)
    (hl : s.links[info.id]? = some (.func id)) (hn : s.NamesFunction name id)
  | ignored (h : env.find? name = none) (hn : name = "_") (hl : s.links[info.id]? = none)

end AnalysisState

/-- The typing rule of an expression, relative to the slots of its parts. -/
inductive Typing (s : AnalysisState) : Expr → Ty → Prop
  | literal (info : NodeInfo) (value : Literal) : Typing s (.literal info value) value.type
  | array (info : NodeInfo) {elems : List Expr} {elem : Ty}
    (h : ∀ e ∈ elems, s.types[e.id]? = some elem) : Typing s (.array info elems) (.array elem)
  | tuple (info : NodeInfo) {elems : List Expr} {types : List Ty}
    (h : s.HaveTypes elems types) : Typing s (.tuple info elems) (.tuple types)
  | dict (info : NodeInfo) {entries : List (Expr × Expr)} {key value : Ty}
    (h : ∀ e ∈ entries, s.types[e.1.id]? = some key ∧ s.types[e.2.id]? = some value) :
    Typing s (.dict info entries) (.dict key value)
  | ofVariable {info : NodeInfo} {name : String} {assigned : Bool} {handle : VarHandle}
    {v : VarSymbol} {type : Ty} (hl : s.links[info.id]? = some (.var handle))
    (hv : s.store.var? handle = some v) (ht : v.type = some type) :
    Typing s (.varRef info name assigned) type
  | ofFunction {info : NodeInfo} {name : String} {assigned : Bool} {id : FuncId} {type : Ty}
    (hl : s.links[info.id]? = some (.func id)) (ht : s.IsOfType id type) :
    Typing s (.varRef info name assigned) type
  | ignored {info : NodeInfo} {assigned : Bool} {type : Ty}
    (hl : s.links[info.id]? = none) (ht : assigned = false → type = .unit) :
    Typing s (.varRef info "_" assigned) type
  | builtinMember {info : NodeInfo} {receiver : Expr} {name : String} {on type : Ty}
    (hl : s.links[info.id]? = none) (hr : s.types[receiver.id]? = some on)
    (hm : on.member? name = some type) : Typing s (.member info receiver name) type
  | memberCall {info : NodeInfo} {receiver : Expr} {name : String} {on type : Ty} {id : FuncId}
    (hl : s.links[info.id]? = some (.func id)) (hr : s.types[receiver.id]? = some on)
    (hm : on.member? name = none) (hc : s.Chosen name [on] id) (ht : s.Gives id type) :
    Typing s (.member info receiver name) type
  | index (info : NodeInfo) {receiver index : Expr} {on key type : Ty}
    (hr : s.types[receiver.id]? = some on) (hi : s.types[index.id]? = some key)
    (h : index.Indexes on key type) : Typing s (.index info receiver index) type
  | callByName {info callee : NodeInfo} {name : String} {assigned : Bool} {args : List Expr}
    {types : List Ty} {id : FuncId} {type : Ty} (hl : s.links[info.id]? = some (.func id))
    (hcl : s.links[callee.id]? = some (.func id)) (ha : s.HaveTypes args types)
    (hc : s.Chosen name types id) (ht : s.Gives id type) :
    Typing s (.call info (.varRef callee name assigned) args) type
  | callOnReceiver {info callee : NodeInfo} {receiver : Expr} {name : String} {args : List Expr}
    {on : Ty} {types : List Ty} {id : FuncId} {type : Ty}
    (hl : s.links[info.id]? = some (.func id)) (hcl : s.links[callee.id]? = some (.func id))
    (hr : s.types[receiver.id]? = some on) (ha : s.HaveTypes args types)
    (hm : args = [] → on.member? name = none) (hc : s.Chosen name (on :: types) id)
    (ht : s.Gives id type) :
    Typing s (.call info (.member callee receiver name) args) type
  | callOfMember {info callee : NodeInfo} {receiver : Expr} {name : String} {on type : Ty}
    (hl : s.links[info.id]? = none) (hr : s.types[receiver.id]? = some on)
    (hm : on.member? name = some type) (ht : s.types[callee.id]? = some type) :
    Typing s (.call info (.member callee receiver name) []) type
  | callOfValue {info : NodeInfo} {callee : Expr} {args : List Expr} {params types : List Ty}
    {ret : Option Ty} (hl : s.links[info.id]? = none)
    (hc : s.types[callee.id]? = some (.func params ret)) (ha : s.HaveTypes args types)
    (hp : List.Forall₂ Ty.Accepts params types) :
    Typing s (.call info callee args) (ret.getD .unit)
  | unary (info : NodeInfo) {op : UnaryOp} {operand : Expr} {on type : Ty}
    (ho : s.types[operand.id]? = some on) (h : op.Types on type) :
    Typing s (.unary info op operand) type
  | binary (info : NodeInfo) {op : BinaryOp} {lhs rhs : Expr} {on type : Ty}
    (hl : s.types[lhs.id]? = some on) (hr : s.types[rhs.id]? = some on) (h : op.Types on type) :
    Typing s (.binary info op lhs rhs) type
  | cast (info : NodeInfo) {value : Expr} {written : TypeExpr} {actual type : Ty}
    (hv : s.types[value.id]? = some actual) (h : written.resolve = .ok type) :
    Typing s (.cast info value written) type
  | typed (info : NodeInfo) {value : Expr} {written : TypeExpr} {type : Ty}
    (hv : s.types[value.id]? = some type) (h : written.resolve = .ok type) :
    Typing s (.typed info value written) type
  | ifElse (info : NodeInfo) (kind : IfKind) {condition thenValue elseValue : Expr} {type : Ty}
    (hc : s.types[condition.id]? = some .bool) (ht : s.types[thenValue.id]? = some type)
    (he : s.types[elseValue.id]? = some type) :
    Typing s (.ifElse info kind condition thenValue elseValue) type
  | range (info : NodeInfo) {first last : Expr} (inclusive : Bool) {type : Ty}
    (hf : s.types[first.id]? = some type) (hl : s.types[last.id]? = some type)
    (hn : type.isNumeric = true) : Typing s (.range info first last inclusive) (.range type)
  | lambda (info : NodeInfo) {d : FuncDef} {scope : ScopeId} {id : FuncId} {f : FuncSymbol}
    {ret : Ty} {shown : Option Ty} (hs : s.scopes[d.info.id]? = some scope)
    (hi : s.store.scopeFuncId? scope = some id) (hf : s.store.func? id = some f)
    (hr : f.ret = some ret) (hp : shown = some ret ∨ shown = none ∧ ret = .unit) :
    Typing s (.lambda info d) (.func f.paramTypes shown)

/-- The typing rule of a member access in the place of the function in a call. -/
inductive CalleeTyping (s : AnalysisState) : Expr → Ty → Prop
  | builtin {info : NodeInfo} {receiver : Expr} {name : String} {on type : Ty}
    (hl : s.links[info.id]? = none) (hr : s.types[receiver.id]? = some on)
    (hm : on.member? name = some type) : CalleeTyping s (.member info receiver name) type
  | function {info : NodeInfo} {receiver : Expr} {name : String} {id : FuncId} {type : Ty}
    (hl : s.links[info.id]? = some (.func id)) (ht : s.IsOfType id type) :
    CalleeTyping s (.member info receiver name) type

/-- What there is to find out at a site has been found out. -/
def Site.Resolved (s : AnalysisState) : Site → Prop
  | .expr e => ∃ type, s.types[e.id]? = some type ∧ Typing s e type
  | .callee e => ∃ type, s.types[e.id]? = some type ∧ CalleeTyping s e type
  | .reference env info name => s.Reference env info name
  | .declaration info name => name ≠ "_" → ∃ handle v, s.links[info.id]? = some (.var handle) ∧
      s.store.var? handle = some v ∧ v.name = name
  | .scope info => (s.scopes[info.id]?).isSome
  | .lambda d => s.progress[d.info.id]? = some .done

/-! ### The rules of operators -/

theorem BinaryOp.result?_eq_some_iff {op : BinaryOp} {operand type : Ty} :
    op.result? operand = some type ↔ op.Types operand type := by
  constructor
  · intro h
    unfold result? at h
    split at h
    · next hc =>
      cases h
      exact .comparison operand hc
    · next hc =>
      split at h
      · next hl =>
        split at h
        · next hb =>
          cases h
          rw [hb]
          exact .logical hl
        · cases h
      · next hl =>
        split at h
        · next ha =>
          split at h
          · next hn =>
            cases h
            rcases hn with hn | ⟨rfl, rfl⟩
            · exact .arithmetic ha hn
            · exact .concat
          · cases h
        · next ha =>
          split at h
          · next hi =>
            cases h
            exact .bitwise (by simpa using hc) (by simpa using hl) (by simpa using ha) hi
          · cases h
  · intro h
    cases h with
    | comparison _ hc => simp [result?, hc]
    | @logical op hl =>
      have hc : op.isComparison = false := by cases op <;> first | rfl | cases hl
      simp [result?, hc, hl]
    | @arithmetic op _ ha hn =>
      have hc : op.isComparison = false := by cases op <;> first | rfl | cases ha
      have hl : op.isLogical = false := by cases op <;> first | rfl | cases ha
      simp [result?, hc, hl, ha, hn]
    | concat => decide
    | bitwise hc hl ha hi => simp [result?, hc, hl, ha, hi]

theorem UnaryOp.result_eq_ok_iff {op : UnaryOp} {operand type : Ty} :
    op.result operand = .ok type ↔ op.Types operand type := by
  constructor
  · intro h
    cases op <;> simp only [result] at h <;> split at h <;> cases h
    · exact .neg ‹_›
    · exact .plus ‹_›
    · next hb =>
      rw [hb]
      exact .not
  · intro h
    cases h with
    | not => rfl
    | neg hn => simp [result, hn]
    | plus hn => simp [result, hn]

/-! ### What is resolved stays resolved -/

theorem FuncSymbol.Grows.result? {f g : FuncSymbol} (h : f.Grows g) {type : Ty}
    (hf : f.result? = some type) : g.result? = some type := by
  unfold FuncSymbol.result? at hf ⊢
  rw [h.kind]
  split at hf
  · next hk => rw [if_pos hk]; exact hf
  · next hk => rw [if_neg hk]; exact h.ret hf

/-- The result of a function is known once it has a result type, if it gives a result. -/
theorem FuncSymbol.result?_of_ret {f : FuncSymbol} (h : f.kind.returnsValue = true → f.ret.isSome) :
    (f.result?).isSome := by
  unfold result?
  split
  · rfl
  · next hkind =>
    refine h ?_
    cases hk : f.kind <;> first | rfl | exact absurd hk hkind

theorem FuncSymbol.Grows.type? {f g : FuncSymbol} (h : f.Grows g) {type : Ty}
    (hf : f.type? = some type) : g.type? = some type := by
  unfold FuncSymbol.type? at hf ⊢
  rw [h.kind, h.paramTypes]
  split at hf
  · next hk =>
    rw [if_pos hk]
    obtain ⟨ret, hr, rfl⟩ := Option.map_eq_some_iff.mp hf
    rw [h.ret hr, Option.map_some]
  · next hk => rw [if_neg hk]; exact hf

theorem AnalysisState.IsOfType.grows {s t : AnalysisState} {id : FuncId} {type : Ty}
    (h : s.IsOfType id type) (hg : s.store.Grows t.store) : t.IsOfType id type := by
  obtain ⟨f, hf, hr⟩ := h
  obtain ⟨g, hg, hfg⟩ := hg.func hf
  exact ⟨g, hg, hfg.type? hr⟩

/-- At a later moment everything known is still known, and the global functions are the same. -/
structure AnalysisState.Later (s t : AnalysisState) : Prop where
  grows : s.Grows t
  candidates : List.Forall₂ Overload.Later s.store.globalFuncs t.store.globalFuncs

namespace AnalysisState.Later

variable {s t : AnalysisState}

theorem gives (h : s.Later t) {id : FuncId} {type : Ty} (hg : s.Gives id type) :
    t.Gives id type := by
  obtain ⟨f, hf, hr⟩ := hg
  obtain ⟨g, hg, hfg⟩ := h.grows.store.func hf
  exact ⟨g, hg, hfg.result? hr⟩

theorem isOfType (h : s.Later t) {id : FuncId} {type : Ty} (hg : s.IsOfType id type) :
    t.IsOfType id type := hg.grows h.grows.store

theorem haveTypes (h : s.Later t) {es : List Expr} {types : List Ty} (he : s.HaveTypes es types) :
    t.HaveTypes es types := he.imp fun _ _ ht => h.grows.type ht

theorem chosen (h : s.Later t) {name : String} {args : List Ty} {id : FuncId}
    (hc : s.Chosen name args id) : t.Chosen name args id := by
  cases hc with
  | plain hs hf =>
    obtain ⟨g, hfg, hs'⟩ := Overload.select_later h.candidates hs
    exact .plain hs' (by rw [hfg.isTemplate, hfg.isBuiltin]; exact hf)
  | made hs hf hd hk =>
    obtain ⟨g, hfg, hs'⟩ := Overload.select_later h.candidates hs
    exact .made hs' (by rw [hfg.isTemplate, hfg.isBuiltin]; exact hf) (hfg.decl.trans hd)
      (h.grows.known hk)

theorem globalFuncs (h : s.Later t) {id : FuncId} {f : FuncSymbol}
    (hm : (id, f) ∈ s.store.globalFuncs) : ∃ g, (id, g) ∈ t.store.globalFuncs ∧ f.Grows g := by
  have hc := h.candidates
  generalize s.store.globalFuncs = cs at hc hm
  generalize t.store.globalFuncs = ds at hc
  induction hc with
  | nil => cases hm
  | @cons c d cs ds hcd _ ih =>
    rcases List.mem_cons.mp hm with rfl | hm
    · obtain ⟨id', g⟩ := d
      obtain ⟨hid, hfg⟩ := hcd
      cases hid
      exact ⟨g, List.mem_cons_self, hfg⟩
    · obtain ⟨g, hg, hfg⟩ := ih hm
      exact ⟨g, List.mem_cons_of_mem _ hg, hfg⟩

theorem namesFunction (h : s.Later t) {name : String} {id : FuncId}
    (hn : s.NamesFunction name id) : t.NamesFunction name id := by
  cases hn with
  | @global id f hm hname =>
    obtain ⟨g, hm', hfg⟩ := h.globalFuncs hm
    exact .global hm' (hfg.name.trans hname)
  | instantiated hm hname hd hi hk hg hgname =>
    obtain ⟨f', hm', hff⟩ := h.globalFuncs hm
    obtain ⟨g', hg', hgg⟩ := h.grows.store.func hg
    exact .instantiated hm' (hff.name.trans hname) (hff.decl.trans hd) (h.grows.known hi) hk hg'
      (hgg.name.trans hgname)

theorem reference (h : s.Later t) {env : Env} {info : NodeInfo} {name : String}
    (hl : t.links[info.id]? = s.links[info.id]?) (hr : s.Reference env info name) :
    t.Reference env info name := by
  cases hr with
  | ofVariable hfind hd hlink => exact .ofVariable hfind (hd.grows h.grows) (hl.trans hlink)
  | ofFunction hfind hlink hn => exact .ofFunction hfind (hl.trans hlink) (h.namesFunction hn)
  | ignored hfind hn hlink => exact .ignored hfind hn (hl.trans hlink)

theorem typing (h : s.Later t) {e : Expr} {type : Ty}
    (hl : t.links[e.id]? = s.links[e.id]?) (ht : Typing s e type) : Typing t e type := by
  have hg := h.grows
  cases ht with
  | literal info value => exact .literal info value
  | array info ht => exact .array info fun e he => hg.type (ht e he)
  | tuple info ht => exact .tuple info (h.haveTypes ht)
  | dict info ht => exact .dict info fun e he => ⟨hg.type (ht e he).1, hg.type (ht e he).2⟩
  | ofVariable hlink hv ht =>
    obtain ⟨w, hw, hvw⟩ := hg.store.var? hv
    exact .ofVariable (hg.link hlink) hw (hvw.type ht)
  | ofFunction hlink ht => exact .ofFunction (hg.link hlink) (h.isOfType ht)
  | ignored hlink ht => exact .ignored (hl.trans hlink) ht
  | builtinMember hlink hr hm => exact .builtinMember (hl.trans hlink) (hg.type hr) hm
  | memberCall hlink hr hm hc ht =>
    exact .memberCall (hg.link hlink) (hg.type hr) hm (h.chosen hc) (h.gives ht)
  | index info hr hi hx => exact .index info (hg.type hr) (hg.type hi) hx
  | callByName hlink hcl ha hc ht =>
    exact .callByName (hg.link hlink) (hg.link hcl) (h.haveTypes ha) (h.chosen hc) (h.gives ht)
  | callOnReceiver hlink hcl hr ha hm hc ht =>
    exact .callOnReceiver (hg.link hlink) (hg.link hcl) (hg.type hr) (h.haveTypes ha) hm
      (h.chosen hc) (h.gives ht)
  | callOfMember hlink hr hm ht =>
    exact .callOfMember (hl.trans hlink) (hg.type hr) hm (hg.type ht)
  | callOfValue hlink hc ha hp =>
    exact .callOfValue (hl.trans hlink) (hg.type hc) (h.haveTypes ha) hp
  | unary info ho hop => exact .unary info (hg.type ho) hop
  | binary info hleft hright hop => exact .binary info (hg.type hleft) (hg.type hright) hop
  | cast info hv ha => exact .cast info (hg.type hv) ha
  | typed info hv ha => exact .typed info (hg.type hv) ha
  | ifElse info kind hc hthen helse =>
    exact .ifElse info kind (hg.type hc) (hg.type hthen) (hg.type helse)
  | range info inclusive hf hlast hn => exact .range info inclusive (hg.type hf) (hg.type hlast) hn
  | lambda info hs hi hf hr hp =>
    obtain ⟨g, hgf, hfg⟩ := hg.store.func hf
    rw [← hfg.paramTypes]
    exact .lambda info (hg.scope hs) (hg.store.scopeFuncId? hi) hgf (hfg.ret hr) hp

theorem calleeTyping (h : s.Later t) {e : Expr} {type : Ty}
    (hl : t.links[e.id]? = s.links[e.id]?) (ht : CalleeTyping s e type) :
    CalleeTyping t e type := by
  cases ht with
  | builtin hlink hr hm => exact .builtin (hl.trans hlink) (h.grows.type hr) hm
  | function hlink ht => exact .function (h.grows.link hlink) (h.isOfType ht)

/-- A site whose own link has stayed the same is still resolved. -/
theorem resolved (h : s.Later t) {site : Site} (hlinks : t.links[site.id]? = s.links[site.id]?)
    (hr : site.Resolved s) : site.Resolved t := by
  cases site with
  | expr e =>
    obtain ⟨type, ht, hrule⟩ := hr
    exact ⟨type, h.grows.type ht, h.typing hlinks hrule⟩
  | callee e =>
    obtain ⟨type, ht, hrule⟩ := hr
    exact ⟨type, h.grows.type ht, h.calleeTyping hlinks hrule⟩
  | reference env info name => exact h.reference hlinks hr
  | declaration info name =>
    intro hn
    obtain ⟨handle, v, hl, hv, hname⟩ := hr hn
    obtain ⟨w, hw, hvw⟩ := h.grows.store.var? hv
    exact ⟨handle, w, h.grows.link hl, hw, hvw.name.trans hname⟩
  | scope info =>
    obtain ⟨id, hid⟩ := Option.isSome_iff_exists.mp hr
    exact Option.isSome_iff_exists.mpr ⟨id, h.grows.scope hid⟩
  | lambda d => exact h.grows.done hr

end AnalysisState.Later

end Frontend
