import Mathlib.Data.List.Nodup
import Frontend.Analysis.Declare
import Frontend.Proofs.Tree.Written

/-!
# Offences in headers

What can be wrong with the headers of a program. `Program.offences` lists all of it, in source order
and within a definition in the order in which a reader meets it; each item is judged by those in
front of it. A program without offences is one that declares nothing twice and names known types
only (`Program.offences_eq_nil_iff`).
-/

namespace Frontend

/-! ### What headers declare -/

/-- The symbol of a parameter: without an annotation it is a placeholder named after its id. -/
def Param.symbol (p : Param) : VarSymbol where
  name := p.name
  type := match p.type with
    | none => some (.template p.info.id)
    | some annot => annot.resolve.toOption
  isVar := p.isVar

/-- The symbol of a constant, which may be without a type so far. -/
def ConstDecl.symbol (d : ConstDecl) : VarSymbol where
  name := d.name
  type := d.type.bind fun annot => annot.resolve.toOption
  isVar := false

/-- The annotation of the result, which only a function that returns a value has. -/
def FuncDef.resultType (d : FuncDef) : Option TypeExpr :=
  if d.kind.returnsValue then d.returnType else none

/-- The symbol that the header of a function declares. -/
def FuncDef.heading (d : FuncDef) : FuncSymbol where
  name := d.name
  params := d.params.map Param.symbol
  ret := d.resultType.bind fun annot => annot.resolve.toOption
  kind := d.kind
  isBuiltin := false
  decl := some d

/-- The functions among definitions, in order. -/
def functionsOf (ds : List Definition) : List FuncDef :=
  ds.filterMap fun
    | .function d => some d
    | .constant _ => none

/-- The constants that definitions declare, in order. -/
def constantsOf (ds : List Definition) : List ConstDecl :=
  ds.flatMap fun
    | .function _ => []
    | .constant d => d.decls

/-- The builtin functions, if wanted. -/
def builtinFunctions (builtins : Bool) : List FuncSymbol := if builtins then Builtin.all else []

/-- The symbols of functions behind the builtin functions, if these are wanted. -/
def headings (builtins : Bool) (fs : List FuncDef) : List FuncSymbol :=
  builtinFunctions builtins ++ fs.map FuncDef.heading

theorem mem_functionsOf {ds : List Definition} {d : FuncDef} (h : d ∈ functionsOf ds) :
    .function d ∈ ds := by
  obtain ⟨e, he, hfunction⟩ := List.mem_filterMap.mp h
  cases e <;> cases hfunction
  exact he

@[simp] theorem functionsOf_function (ds : List Definition) (d : FuncDef) :
    functionsOf (ds ++ [.function d]) = functionsOf ds ++ [d] := by simp [functionsOf]

@[simp] theorem functionsOf_constant (ds : List Definition) (d : ConstDef) :
    functionsOf (ds ++ [.constant d]) = functionsOf ds := by simp [functionsOf]

@[simp] theorem constantsOf_function (ds : List Definition) (d : FuncDef) :
    constantsOf (ds ++ [.function d]) = constantsOf ds := by simp [constantsOf]

@[simp] theorem constantsOf_constant (ds : List Definition) (d : ConstDef) :
    constantsOf (ds ++ [.constant d]) = constantsOf ds ++ d.decls := by simp [constantsOf]

theorem headings_concat (builtins : Bool) (fs : List FuncDef) (d : FuncDef) :
    headings builtins (fs ++ [d]) = headings builtins fs ++ [d.heading] := by simp [headings]

/-! ### Offences -/

/-- What is wrong with items, one after another, where each is judged by those in front of it. -/
def offencesIn {α : Type} (judge : List α → α → List Error) (before : List α) :
    List α → List Error
  | [] => []
  | a :: rest => judge before a ++ offencesIn judge (before ++ [a]) rest

/-- An annotation offends if it denotes no known type. -/
def annotationOffences : Option TypeExpr → List Error
  | none => []
  | some annot => match annot.resolve with
    | .ok _ => []
    | .error e => [e]

/-- A parameter offends if its name is used before, then if its type is unknown. -/
def Param.offences (before : List Param) (p : Param) : List Error :=
  (if p.name ∈ before.map (·.name) then
    [⟨.variableAlreadyDeclared p.name, p.info.span.start⟩] else []) ++ annotationOffences p.type

/-- A function offends by its parameters, then by its result type, then if one of the functions
declared before it cannot be told from it. -/
def FuncDef.offences (earlier : List FuncSymbol) (d : FuncDef) : List Error :=
  offencesIn Param.offences [] d.params ++ annotationOffences d.resultType ++
    match earlier.find? (·.sameDeclaration d.heading) with
    | some f => [⟨.functionAlreadyDeclared f.describe, d.info.span.start⟩]
    | none => []

/-- A constant offends if its type is unknown, then if its name is used before. -/
def ConstDecl.offences (before : List ConstDecl) (d : ConstDecl) : List Error :=
  annotationOffences d.type ++ if d.name ∈ before.map (·.name) then
    [⟨.variableAlreadyDeclared d.name, d.info.span.start⟩] else []

/-- What is wrong with the header of a definition behind others. -/
def Definition.offences (builtins : Bool) (before : List Definition) : Definition → List Error
  | .function d => d.offences (headings builtins (functionsOf before))
  | .constant d => offencesIn ConstDecl.offences (constantsOf before) d.decls

/-- What is wrong with the headers of a program. -/
def Program.offences (builtins : Bool) (p : Program) : List Error :=
  offencesIn (Definition.offences builtins) [] p.definitions

/-! ### Programs without offences -/

/-- The annotation denotes a type. -/
def TypeExpr.IsKnown (annot : TypeExpr) : Prop := ∃ type, annot.resolve = .ok type

/-- The annotations in the header of a definition. -/
def Definition.headerTypes : Definition → List TypeExpr
  | .function d => d.params.filterMap (·.type) ++ d.resultType.toList
  | .constant d => d.decls.filterMap (·.type)

/-- The headers of definitions name known types only, and they declare nothing twice. -/
structure WellDeclared (builtins : Bool) (ds : List Definition) : Prop where
  known : ∀ d ∈ ds, ∀ annot ∈ d.headerTypes, annot.IsKnown
  params : ∀ d ∈ functionsOf ds, (d.params.map (·.name)).Nodup
  functions : (headings builtins (functionsOf ds)).Pairwise fun f g => f.sameDeclaration g = false
  constants : ((constantsOf ds).map (·.name)).Nodup

/-- There are no offences among items that are `good` together, if an item without offences is one
that may stand behind `good` ones. -/
theorem offencesIn_eq_nil {α : Type} {judge : List α → α → List Error}
    {good : List α → Prop} (hfront : ∀ {as bs}, good (as ++ bs) → good as)
    (hstep : ∀ {before a}, good before → (judge before a = [] ↔ good (before ++ [a])))
    {before as : List α} (hbefore : good before) :
    offencesIn judge before as = [] ↔ good (before ++ as) := by
  induction as generalizing before with
  | nil => simpa [offencesIn] using hbefore
  | cons a rest ih =>
    rw [offencesIn, List.append_eq_nil_iff, hstep hbefore, List.append_cons before a rest]
    constructor
    · rintro ⟨ha, hrest⟩
      exact (ih ha).mp hrest
    · intro hall
      have ha := hfront hall
      exact ⟨ha, (ih ha).mpr hall⟩

theorem annotationOffences_eq_nil (t : Option TypeExpr) :
    annotationOffences t = [] ↔ ∀ annot ∈ t, annot.IsKnown := by
  cases t with
  | none => exact iff_of_true rfl nofun
  | some annot =>
    simp only [annotationOffences, Option.mem_def, Option.some.injEq, forall_eq',
      TypeExpr.IsKnown]
    cases annot.resolve <;> simp

/-- Items with known types and different names. -/
def Distinct {α : Type} (name : α → String) (type : α → Option TypeExpr) (as : List α) : Prop :=
  (∀ annot ∈ as.filterMap type, annot.IsKnown) ∧ (as.map name).Nodup

section Distinct

variable {α : Type} {name : α → String} {type : α → Option TypeExpr} {as bs : List α} {a : α}

theorem Distinct.of_append (h : Distinct name type (as ++ bs)) : Distinct name type as := by
  unfold Distinct at h
  rw [List.filterMap_append, List.map_append] at h
  exact ⟨(List.forall_mem_append.mp h.1).1, List.Nodup.of_append_left h.2⟩

theorem Distinct.concat_iff (h : Distinct name type as) : Distinct name type (as ++ [a]) ↔
    (∀ annot ∈ type a, annot.IsKnown) ∧ name a ∉ as.map name := by
  have htypes : (as ++ [a]).filterMap type = as.filterMap type ++ (type a).toList := by
    cases ha : type a <;> simp [ha]
  have hnames : ((as ++ [a]).map name).Nodup ↔ name a ∉ as.map name := by
    rw [List.map_append, List.map_singleton, ← List.concat_eq_append, List.nodup_concat]
    exact and_iff_left h.2
  rw [Distinct, htypes, hnames, List.forall_mem_append, and_iff_right h.1]
  simp only [Option.mem_toList, Option.mem_def]

end Distinct

theorem paramOffences_eq_nil (params : List Param) : offencesIn Param.offences [] params = [] ↔
    Distinct (·.name) (·.type) params := by
  refine offencesIn_eq_nil Distinct.of_append (fun {before p} h => ?_) ⟨nofun, .nil⟩
  rw [h.concat_iff, Param.offences, List.append_eq_nil_iff, annotationOffences_eq_nil, and_comm]
  simp

theorem constOffences_eq_nil {before : List ConstDecl} (h : Distinct (·.name) (·.type) before)
    (decls : List ConstDecl) : offencesIn ConstDecl.offences before decls = [] ↔
    Distinct (·.name) (·.type) (before ++ decls) := by
  refine offencesIn_eq_nil Distinct.of_append (fun {before d} h => ?_) h
  rw [h.concat_iff, ConstDecl.offences, List.append_eq_nil_iff, annotationOffences_eq_nil]
  simp

theorem FuncDef.offences_eq_nil (earlier : List FuncSymbol) (d : FuncDef) :
    d.offences earlier = [] ↔ Distinct (·.name) (·.type) d.params ∧
      (∀ annot ∈ d.resultType, annot.IsKnown) ∧
      ∀ f ∈ earlier, f.sameDeclaration d.heading = false := by
  have hsame : (match earlier.find? (·.sameDeclaration d.heading) with
      | some f => [(⟨.functionAlreadyDeclared f.describe, d.info.span.start⟩ : Error)]
      | none => []) = [] ↔ ∀ f ∈ earlier, f.sameDeclaration d.heading = false := by
    cases hfind : earlier.find? (·.sameDeclaration d.heading) with
    | none => simpa using List.find?_eq_none.mp hfind
    | some f =>
      refine iff_of_false (List.cons_ne_nil _ _) fun h => ?_
      have hf := List.find?_some hfind
      rw [h f (List.mem_of_find?_eq_some hfind)] at hf
      cases hf
  rw [offences, List.append_eq_nil_iff, List.append_eq_nil_iff, paramOffences_eq_nil,
    annotationOffences_eq_nil, hsame, and_assoc]

namespace WellDeclared

variable {builtins : Bool} {ds es : List Definition}

theorem of_append (h : WellDeclared builtins (ds ++ es)) : WellDeclared builtins ds where
  known d hd := h.known d (List.mem_append_left es hd)
  params d hd := h.params d (by
    rw [functionsOf, List.filterMap_append]
    exact List.mem_append_left _ hd)
  functions := by
    have hpairs := h.functions
    rw [headings, functionsOf, List.filterMap_append, List.map_append,
      ← List.append_assoc] at hpairs
    exact (List.pairwise_append.mp hpairs).1
  constants := by
    have hnames := h.constants
    rw [constantsOf, List.flatMap_append, List.map_append] at hnames
    exact List.Nodup.of_append_left hnames

theorem apart (h : WellDeclared builtins ds) : Distinct (·.name) (·.type) (constantsOf ds) := by
  refine ⟨fun annot hm => ?_, h.constants⟩
  obtain ⟨c, hc, htype⟩ := List.mem_filterMap.mp hm
  obtain ⟨d, hd, hcd⟩ := List.mem_flatMap.mp hc
  cases d with
  | function d => cases hcd
  | constant d => exact h.known _ hd annot (List.mem_filterMap.mpr ⟨c, hcd, htype⟩)

/-- One more function. -/
theorem function_iff (h : WellDeclared builtins ds) (d : FuncDef) :
    WellDeclared builtins (ds ++ [.function d]) ↔ Distinct (·.name) (·.type) d.params ∧
      (∀ annot ∈ d.resultType, annot.IsKnown) ∧
      ∀ f ∈ headings builtins (functionsOf ds), f.sameDeclaration d.heading = false := by
  constructor
  · intro h'
    have hknown := h'.known (.function d) (List.mem_append_right _ List.mem_cons_self)
    have hpairs := h'.functions
    rw [functionsOf_function, headings_concat, List.pairwise_append] at hpairs
    rw [Definition.headerTypes, List.forall_mem_append] at hknown
    refine ⟨⟨hknown.1, h'.params d (by simp)⟩, fun a ha => hknown.2 a (Option.mem_toList.mpr ha),
      fun f hf => hpairs.2.2 f hf d.heading List.mem_cons_self⟩
  · rintro ⟨hparams, hret, hpairs⟩
    refine ⟨?_, ?_, ?_, ?_⟩
    · refine List.forall_mem_append.mpr ⟨h.known, List.forall_mem_singleton.mpr ?_⟩
      rw [Definition.headerTypes, List.forall_mem_append]
      exact ⟨hparams.1, fun a ha => hret a (Option.mem_toList.mp ha)⟩
    · rw [functionsOf_function]
      exact List.forall_mem_append.mpr ⟨h.params, List.forall_mem_singleton.mpr hparams.2⟩
    · rw [functionsOf_function, headings_concat, List.pairwise_append]
      exact ⟨h.functions, List.pairwise_singleton _ _,
        fun f hf => List.forall_mem_singleton.mpr (hpairs f hf)⟩
    · rw [constantsOf_function]
      exact h.constants

/-- One more definition of constants. -/
theorem constant_iff (h : WellDeclared builtins ds) (d : ConstDef) :
    WellDeclared builtins (ds ++ [.constant d]) ↔
      Distinct (·.name) (·.type) (constantsOf ds ++ d.decls) := by
  constructor
  · intro h'
    have hapart := h'.apart
    rwa [constantsOf_constant] at hapart
  · rintro ⟨hknown, hnames⟩
    rw [List.filterMap_append, List.forall_mem_append] at hknown
    refine ⟨?_, ?_, ?_, ?_⟩
    · exact List.forall_mem_append.mpr ⟨h.known, List.forall_mem_singleton.mpr hknown.2⟩
    · rw [functionsOf_constant]
      exact h.params
    · rw [functionsOf_constant]
      exact h.functions
    · rw [constantsOf_constant]
      exact hnames

/-- A definition may stand behind others if it does not offend there. -/
theorem concat_iff (h : WellDeclared builtins ds) {d : Definition} :
    d.offences builtins ds = [] ↔ WellDeclared builtins (ds ++ [d]) := by
  cases d with
  | function d => rw [h.function_iff, Definition.offences, d.offences_eq_nil]
  | constant d => rw [h.constant_iff, Definition.offences, constOffences_eq_nil h.apart]

end WellDeclared

/-- The builtin functions are different from each other. -/
theorem wellDeclared_nil (builtins : Bool) : WellDeclared builtins [] where
  known := nofun
  params := nofun
  functions := by cases builtins <;> decide +kernel
  constants := .nil

/-- No header offends just if all types are known and nothing is declared twice. -/
theorem Program.offences_eq_nil_iff (builtins : Bool) (p : Program) :
    p.offences builtins = [] ↔ WellDeclared builtins p.definitions :=
  offencesIn_eq_nil WellDeclared.of_append (fun h => h.concat_iff) (wellDeclared_nil builtins)

/-- A procedure is written without a result type. -/
theorem FuncDef.IsNamed.resultType_eq {d : FuncDef} (h : d.IsNamed) :
    d.resultType = d.returnType := by
  unfold FuncDef.resultType
  cases hkind : d.kind with
  | proc => exact (h.returnType hkind).symm
  | func => rfl
  | lambda => exact absurd hkind h.kind

end Frontend
