import Frontend.Proofs.Scoping.Site

/-!
# Declarations in front of names

Sites stand in the order of the text, the values of an initialize statement in front of what it
declares. Whatever a name can stand for, except for a constant of the program, is declared at a
site in front of the name. So no value sees what its own statement declares, and no name of a
definition stands for something that another definition declares.
-/

namespace Frontend

/-- Among the sites is the declaration of a name at a node. -/
def DeclaredAt (sites : List Site) (declared : String × Nat) : Prop :=
  ∃ info : NodeInfo, info.id = declared.2 ∧ .declaration info declared.1 ∈ sites

/-- Among the sites is the function, block or `let` statement at a node. -/
def OpenedAt (sites : List Site) (owner : Nat) : Prop :=
  ∃ info : NodeInfo, info.id = owner ∧ .scope info ∈ sites

/-- Around the constants of a program are constructs that are among the sites, and so are the
declarations of their names. -/
inductive Env.DeclaredIn (constants : List (String × Nat)) (sites : List Site) : Env → Prop
  | root : DeclaredIn constants sites [⟨none, constants⟩]
  | inside {owner : Nat} {names : List (String × Nat)} {env : Env} (ho : OpenedAt sites owner)
    (hn : ∀ declared ∈ names, DeclaredAt sites declared) (h : DeclaredIn constants sites env) :
    DeclaredIn constants sites (⟨some owner, names⟩ :: env)

/-- Behind the sites `seen`, each name comes behind the declarations that it can stand for. -/
structure InOrder (constants : List (String × Nat)) (seen sites : List Site) : Prop where
  declared : ∀ {before after : List Site} {env : Env} {info : NodeInfo} {name : String},
    sites = before ++ .reference env info name :: after → env.DeclaredIn constants (seen ++ before)

variable {constants names : List (String × Nat)} {seen sites sites' : List Site} {env : Env}

theorem DeclaredAt.mono {declared : String × Nat} (h : DeclaredAt sites declared)
    (hs : sites ⊆ sites') : DeclaredAt sites' declared := by
  obtain ⟨info, hid, hm⟩ := h
  exact ⟨info, hid, hs hm⟩

theorem OpenedAt.mono {owner : Nat} (h : OpenedAt sites owner) (hs : sites ⊆ sites') :
    OpenedAt sites' owner := by
  obtain ⟨info, hid, hm⟩ := h
  exact ⟨info, hid, hs hm⟩

theorem declaredAt_paramSites {params : List Param} {p : Param} (h : p ∈ params) :
    DeclaredAt (paramSites params) (p.name, p.info.id) :=
  ⟨p.info, rfl, List.mem_map.mpr ⟨p, h, rfl⟩⟩

namespace Env.DeclaredIn

/-- What is declared stays declared further behind. -/
theorem behind (h : env.DeclaredIn constants seen) (sites : List Site) :
    env.DeclaredIn constants (seen ++ sites) := by
  induction h with
  | root => exact .root
  | inside ho hn _ ih =>
    exact .inside (ho.mono (List.subset_append_left _ _))
      (fun declared hm => (hn declared hm).mono (List.subset_append_left _ _)) ih

/-- One more layer, for a construct that is among the sites. -/
theorem cons (h : env.DeclaredIn constants seen) {info : NodeInfo} (hinfo : .scope info ∈ seen)
    (hn : ∀ declared ∈ names, DeclaredAt seen declared) :
    Env.DeclaredIn constants seen (⟨some info.id, names⟩ :: env) := .inside ⟨info, rfl, hinfo⟩ hn h

/-- More names in the innermost layer. -/
theorem declare {owner : Nat} {names' : List (String × Nat)}
    (h : Env.DeclaredIn constants seen (⟨some owner, names⟩ :: env))
    (hn : ∀ declared ∈ names', DeclaredAt seen declared) :
    Env.DeclaredIn constants seen (⟨some owner, names ++ names'⟩ :: env) := by
  cases h with
  | inside ho hnames henv =>
    exact .inside ho (fun declared hm => (List.mem_append.mp hm).elim (hnames declared)
      (hn declared)) henv

/-- A name that is found is one of the constants or declared among the sites. -/
theorem find? (h : env.DeclaredIn constants seen) {name : String} {owner : Option Nat} {node : Nat}
    (hf : env.find? name = some (owner, node)) :
    (owner = none ∧ (name, node) ∈ constants) ∨
      ∃ o, owner = some o ∧ OpenedAt seen o ∧ DeclaredAt seen (name, node) := by
  have hfound : ∀ {l : Layer} {node : Nat}, l.find? name = some node → (name, node) ∈ l.names := by
    intro l node hl
    obtain ⟨⟨name', node'⟩, hdeclared, rfl⟩ := Option.map_eq_some_iff.mp hl
    have hname : name' = name := by simpa using List.find?_some hdeclared
    subst hname
    exact List.mem_of_find?_eq_some hdeclared
  unfold Env.find? at hf
  induction h with
  | root =>
    rw [List.findSome?_singleton] at hf
    obtain ⟨_, hl, heq⟩ := Option.map_eq_some_iff.mp hf
    cases heq
    exact .inl ⟨rfl, hfound hl⟩
  | @inside o names env ho hn _ ih =>
    rw [List.findSome?_cons] at hf
    cases hl : Layer.find? ⟨some o, names⟩ name with
    | none =>
      rw [hl] at hf
      exact ih hf
    | some node' =>
      rw [hl] at hf
      cases hf
      exact .inr ⟨o, rfl, ho, hn _ (hfound hl)⟩

end Env.DeclaredIn

namespace InOrder

theorem nil : InOrder constants seen [] := ⟨fun {before} _ _ _ _ h => by cases before <;> cases h⟩

/-- A name on its own. -/
theorem reference (info : NodeInfo) (name : String) (h : env.DeclaredIn constants seen) :
    InOrder constants seen [.reference env info name] := by
  refine ⟨fun {before} _ _ _ _ hsplit => ?_⟩
  cases before with
  | nil =>
    cases hsplit
    rw [List.append_nil]
    exact h
  | cons first before => cases before <;> cases hsplit

theorem append (h : InOrder constants seen sites) (h' : InOrder constants (seen ++ sites) sites') :
    InOrder constants seen (sites ++ sites') := by
  refine ⟨fun {before after env info name} hsplit => ?_⟩
  rcases List.append_eq_append_iff.mp hsplit with ⟨middle, rfl, hrest⟩ | ⟨middle, hfirst, hrest⟩
  · rw [← List.append_assoc]
    exact h'.declared hrest
  · cases middle with
    | nil =>
      rw [List.append_nil] at hfirst
      subst hfirst
      have hsplit' : sites' = [] ++ .reference env info name :: after := hrest.symm
      have hd := h'.declared hsplit'
      rwa [List.append_nil] at hd
    | cons site middle =>
      cases hrest
      exact h.declared hfirst

/-- A site that is no name. -/
theorem cons {site : Site} (hsite : ∀ env info name, site ≠ .reference env info name)
    (h : InOrder constants (seen ++ [site]) sites) : InOrder constants seen (site :: sites) :=
  append ⟨fun {before} _ _ _ _ hsplit => by
    cases before with
    | nil =>
      cases hsplit
      exact absurd rfl (hsite _ _ _)
    | cons first before => cases before <;> cases hsplit⟩ h

theorem of_forall (h : ∀ site ∈ sites, ∀ env info name, site ≠ .reference env info name) :
    InOrder constants seen sites := by
  refine ⟨fun {before after env info name} hsplit => ?_⟩
  refine absurd rfl (h (.reference env info name) ?_ env info name)
  rw [hsplit]
  exact List.mem_append_right _ List.mem_cons_self

theorem paramSites (params : List Param) : InOrder constants seen (paramSites params) :=
  of_forall fun site hm => by
    obtain ⟨p, -, rfl⟩ := List.mem_map.mp hm
    nofun

end InOrder

/-! ### What statements declare -/

theorem Init.declares_declaredAt (i : Init) (env : Env) {declared : String × Nat}
    (h : declared ∈ i.declares) : DeclaredAt (i.sites env) declared := by
  obtain ⟨info, decls, values⟩ := i
  obtain ⟨d, hd, rfl⟩ := List.mem_map.mp (List.mem_of_mem_filter h)
  refine ⟨d.info, rfl, ?_⟩
  rw [sites]
  exact List.mem_append_right _ (List.mem_map.mpr ⟨d, hd, rfl⟩)

theorem Stmt.declares_declaredAt : ∀ (st : Stmt) (env : Env) {declared : String × Nat},
    declared ∈ st.declares → DeclaredAt (st.sites env) declared
  | .init i, env, declared, h => by
    rw [sites]
    rw [declares] at h
    exact i.declares_declaredAt env h
  | .guarded _ body _ _, env, declared, h => by
    rw [sites]
    rw [declares] at h
    exact (body.declares_declaredAt env h).mono (List.subset_append_left _ _)
  | .assign .., _, _, h | .ifElse .., _, _, h | .ret .., _, _, h | .case .., _, _, h
  | .switch .., _, _, h | .forIn .., _, _, h | .whileDo .., _, _, h | .letIn .., _, _, h
  | .expr .., _, _, h => nomatch h

theorem initsSites_declaredAt (inits : List Init) (env : Env) {declared : String × Nat}
    (h : declared ∈ inits.flatMap Init.declares) : DeclaredAt (initsSites env inits) declared := by
  induction inits generalizing env with
  | nil => cases h
  | cons i rest ih =>
    rw [List.flatMap_cons] at h
    rw [initsSites]
    rcases List.mem_append.mp h with h | h
    · exact (i.declares_declaredAt env h).mono (List.subset_append_left _ _)
    · exact (ih _ h).mono (List.subset_append_right _ _)

/-! ### The order of sites -/

mutual

theorem Expr.parts_inOrder : ∀ (e : Expr) {env : Env} {seen : List Site},
    env.DeclaredIn constants seen → InOrder constants seen (e.parts env)
  | .literal .., _, _, _ => by
    rw [Expr.parts]
    exact .nil
  | .varRef info name _, env, seen, h => by
    rw [Expr.parts]
    exact .reference info name h
  | .array _ elems, _, _, h => by
    rw [Expr.parts]
    exact exprsSites_inOrder elems h
  | .tuple _ elems, _, _, h => by
    rw [Expr.parts]
    exact exprsSites_inOrder elems h
  | .dict _ entries, _, _, h => by
    rw [Expr.parts]
    exact entriesSites_inOrder entries h
  | .member _ receiver _, _, _, h => by
    rw [Expr.parts]
    exact .cons nofun (receiver.parts_inOrder (h.behind _))
  | .index _ receiver index, _, _, h => by
    rw [Expr.parts]
    refine .append (.cons nofun (receiver.parts_inOrder (h.behind _))) ?_
    exact .cons nofun (index.parts_inOrder ((h.behind _).behind _))
  | .call _ callee args, _, _, h => by
    rw [Expr.parts]
    refine .append (.cons ?_ (callee.parts_inOrder (h.behind _)))
      (exprsSites_inOrder args (h.behind _))
    cases callee <;> nofun
  | .unary _ _ operand, _, _, h => by
    rw [Expr.parts]
    exact .cons nofun (operand.parts_inOrder (h.behind _))
  | .binary _ _ lhs rhs, _, _, h => by
    rw [Expr.parts]
    refine .append (.cons nofun (lhs.parts_inOrder (h.behind _))) ?_
    exact .cons nofun (rhs.parts_inOrder ((h.behind _).behind _))
  | .cast _ value _, _, _, h => by
    rw [Expr.parts]
    exact .cons nofun (value.parts_inOrder (h.behind _))
  | .typed _ value _, _, _, h => by
    rw [Expr.parts]
    exact .cons nofun (value.parts_inOrder (h.behind _))
  | .ifElse _ _ condition thenValue elseValue, _, _, h => by
    rw [Expr.parts]
    refine .append (.append (.cons nofun (condition.parts_inOrder (h.behind _))) ?_) ?_
    · exact .cons nofun (thenValue.parts_inOrder ((h.behind _).behind _))
    · exact .cons nofun (elseValue.parts_inOrder ((h.behind _).behind _))
  | .range _ first last _, _, _, h => by
    rw [Expr.parts]
    refine .append (.cons nofun (first.parts_inOrder (h.behind _))) ?_
    exact .cons nofun (last.parts_inOrder ((h.behind _).behind _))
  | .lambda _ d, _, _, h => by
    rw [Expr.parts]
    exact .cons nofun (d.sites_inOrder (h.behind _))

theorem exprsSites_inOrder : ∀ (es : List Expr) {env : Env} {seen : List Site},
    env.DeclaredIn constants seen → InOrder constants seen (exprsSites env es)
  | [], _, _, _ => by
    rw [exprsSites]
    exact .nil
  | e :: rest, _, _, h => by
    rw [exprsSites]
    exact .append (.cons nofun (e.parts_inOrder (h.behind _)))
      (exprsSites_inOrder rest (h.behind _))

theorem entriesSites_inOrder : ∀ (es : List (Expr × Expr)) {env : Env} {seen : List Site},
    env.DeclaredIn constants seen → InOrder constants seen (entriesSites env es)
  | [], _, _, _ => by
    rw [entriesSites]
    exact .nil
  | (key, value) :: rest, _, _, h => by
    rw [entriesSites]
    refine .append (.append (.cons nofun (key.parts_inOrder (h.behind _))) ?_)
      (entriesSites_inOrder rest (h.behind _))
    exact .cons nofun (value.parts_inOrder ((h.behind _).behind _))

/-- The parameters of a function stand in front of its bodies. -/
theorem FuncDef.sites_inOrder : ∀ (d : FuncDef) {env : Env} {seen : List Site},
    env.DeclaredIn constants seen → InOrder constants seen (d.sites env)
  | ⟨info, _, _, params, _, body, ensureBody⟩, env, seen, h => by
    rw [FuncDef.sites]
    have hlayer : Env.DeclaredIn constants (seen ++ (.scope info :: paramSites params))
        (⟨some info.id, params.map fun p => (p.name, p.info.id)⟩ :: env) := by
      refine (h.behind _).cons (List.mem_append_right _ List.mem_cons_self) fun declared hm => ?_
      obtain ⟨p, hp, rfl⟩ := List.mem_map.mp hm
      exact (declaredAt_paramSites hp).mono (List.subset_append_of_subset_right _
        (List.subset_cons_self _ _))
    refine .append (.append (.cons nofun (.paramSites params)) (body.sites_inOrder hlayer)) ?_
    rw [← List.append_assoc]
    exact optionalSites_inOrder ensureBody (hlayer.behind _)

theorem Block.sites_inOrder : ∀ (b : Block) {env : Env} {seen : List Site},
    env.DeclaredIn constants seen → InOrder constants seen (b.sites env)
  | ⟨info, stmts⟩, _, _, h => by
    rw [Block.sites]
    exact .cons nofun (stmtsSites_inOrder stmts ((h.behind _).cons
      (List.mem_append_right _ (List.mem_singleton_self _)) nofun))

theorem optionalSites_inOrder : ∀ (b : Option Block) {env : Env} {seen : List Site},
    env.DeclaredIn constants seen → InOrder constants seen (optionalSites env b)
  | none, _, _, _ => by
    rw [optionalSites]
    exact .nil
  | some b, _, _, h => by
    rw [optionalSites]
    exact b.sites_inOrder h

theorem Init.sites_inOrder : ∀ (i : Init) {env : Env} {seen : List Site},
    env.DeclaredIn constants seen → InOrder constants seen (i.sites env)
  | ⟨_, decls, values⟩, _, _, h => by
    rw [Init.sites]
    refine .append (exprsSites_inOrder values h) (.of_forall fun site hm => ?_)
    obtain ⟨d, -, rfl⟩ := List.mem_map.mp hm
    nofun

theorem Stmt.sites_inOrder : ∀ (st : Stmt) {owner : Nat} {names : List (String × Nat)} {env : Env}
    {seen : List Site}, Env.DeclaredIn constants seen (⟨some owner, names⟩ :: env) →
      InOrder constants seen (st.sites (⟨some owner, names⟩ :: env))
  | .init i, _, _, _, _, h => by
    rw [Stmt.sites]
    exact i.sites_inOrder h
  | .assign _ targets _ values, _, _, _, _, h => by
    rw [Stmt.sites]
    exact .append (exprsSites_inOrder targets h) (exprsSites_inOrder values (h.behind _))
  | .ifElse _ _ condition thenBlock elseifs elseBlock, _, _, _, _, h => by
    rw [Stmt.sites]
    refine .append (.append (.append (.cons nofun (condition.parts_inOrder (h.behind _))) ?_) ?_) ?_
    · exact thenBlock.sites_inOrder (h.behind _)
    · exact armsSites_inOrder elseifs (h.behind _)
    · exact optionalSites_inOrder elseBlock (h.behind _)
  | .ret _ values, _, _, _, _, h => by
    rw [Stmt.sites]
    exact exprsSites_inOrder values h
  | .case _ whens elseBlock, _, _, _, _, h => by
    rw [Stmt.sites]
    exact .append (armsSites_inOrder whens h) (optionalSites_inOrder elseBlock (h.behind _))
  | .switch _ target whens elseBlock, _, _, _, _, h => by
    rw [Stmt.sites]
    refine .append (.append (.cons nofun (target.parts_inOrder (h.behind _))) ?_) ?_
    · exact valueArmsSites_inOrder whens (h.behind _)
    · exact optionalSites_inOrder elseBlock (h.behind _)
  | .forIn _ vars range ⟨info, stmts⟩, owner, names, env, seen, h => by
    rw [Stmt.sites]
    have hlayer : ∀ front : List Site, Env.DeclaredIn constants
        (seen ++ (front ++ (.scope info :: paramSites vars)))
        (⟨some info.id, loopNames vars⟩ :: ⟨some owner, names⟩ :: env) := by
      refine fun front => (h.behind _).cons (List.mem_append_right _
        (List.mem_append_right _ List.mem_cons_self)) fun declared hm => ?_
      obtain ⟨p, hp, rfl⟩ := List.mem_map.mp (List.mem_of_mem_filter hm)
      exact (declaredAt_paramSites hp).mono (List.subset_append_of_subset_right _
        (List.subset_append_of_subset_right _ (List.subset_cons_self _ _)))
    refine .append (.append (.cons nofun (range.parts_inOrder (h.behind _))) ?_)
      (stmtsSites_inOrder stmts (hlayer _))
    exact .cons nofun (.paramSites vars)
  | .whileDo _ condition body, _, _, _, _, h => by
    rw [Stmt.sites]
    exact .append (.cons nofun (condition.parts_inOrder (h.behind _)))
      (body.sites_inOrder (h.behind _))
  | .guarded _ body _ condition, owner, names, env, _, h => by
    rw [Stmt.sites]
    refine .append (body.sites_inOrder h) (.cons nofun (condition.parts_inOrder ?_))
    refine ((h.behind _).behind _).declare fun declared hm => ?_
    refine (body.declares_declaredAt (⟨some owner, names⟩ :: env) hm).mono ?_
    exact List.subset_append_of_subset_left _ (List.subset_append_right _ _)
  | .letIn info inits child, owner, names, env, seen, h => by
    rw [Stmt.sites]
    refine .append (.cons nofun (initsSites_inOrder inits ((h.behind _).cons
      (List.mem_append_right _ (List.mem_singleton_self _)) nofun))) (child.sites_inOrder
        ((h.behind _).cons (List.mem_append_right _ List.mem_cons_self) fun declared hm => ?_))
    refine (initsSites_declaredAt inits (⟨some info.id, []⟩ :: ⟨some owner, names⟩ :: env)
      hm).mono ?_
    exact List.subset_append_of_subset_right _ (List.subset_cons_self _ _)
  | .expr value, _, _, _, _, h => by
    rw [Stmt.sites]
    exact .cons nofun (value.parts_inOrder (h.behind _))

theorem stmtsSites_inOrder : ∀ (ss : List Stmt) {owner : Nat} {names : List (String × Nat)}
    {env : Env} {seen : List Site}, Env.DeclaredIn constants seen (⟨some owner, names⟩ :: env) →
      InOrder constants seen (stmtsSites (⟨some owner, names⟩ :: env) ss)
  | [], _, _, _, _, _ => by
    rw [stmtsSites]
    exact .nil
  | st :: rest, owner, names, env, _, h => by
    rw [stmtsSites]
    refine .append (st.sites_inOrder h) (stmtsSites_inOrder rest ?_)
    refine (h.behind _).declare fun declared hm => ?_
    exact (st.declares_declaredAt (⟨some owner, names⟩ :: env) hm).mono
      (List.subset_append_right _ _)

theorem initsSites_inOrder : ∀ (inits : List Init) {owner : Nat} {names : List (String × Nat)}
    {env : Env} {seen : List Site}, Env.DeclaredIn constants seen (⟨some owner, names⟩ :: env) →
      InOrder constants seen (initsSites (⟨some owner, names⟩ :: env) inits)
  | [], _, _, _, _, _ => by
    rw [initsSites]
    exact .nil
  | i :: rest, owner, names, env, _, h => by
    rw [initsSites]
    refine .append (i.sites_inOrder h) (initsSites_inOrder rest ?_)
    refine (h.behind _).declare fun declared hm => ?_
    exact (i.declares_declaredAt (⟨some owner, names⟩ :: env) hm).mono
      (List.subset_append_right _ _)

theorem armsSites_inOrder : ∀ (whens : List (Expr × Block)) {env : Env} {seen : List Site},
    env.DeclaredIn constants seen → InOrder constants seen (armsSites env whens)
  | [], _, _, _ => by
    rw [armsSites]
    exact .nil
  | (condition, block) :: rest, _, _, h => by
    rw [armsSites]
    refine .append (.append (.cons nofun (condition.parts_inOrder (h.behind _))) ?_)
      (armsSites_inOrder rest (h.behind _))
    exact block.sites_inOrder (h.behind _)

theorem valueArmsSites_inOrder : ∀ (whens : List (List Expr × Block)) {env : Env}
    {seen : List Site}, env.DeclaredIn constants seen →
      InOrder constants seen (valueArmsSites env whens)
  | [], _, _, _ => by
    rw [valueArmsSites]
    exact .nil
  | (values, block) :: rest, _, _, h => by
    rw [valueArmsSites]
    refine .append (.append (exprsSites_inOrder values h) (block.sites_inOrder (h.behind _)))
      (valueArmsSites_inOrder rest (h.behind _))

end

theorem Definition.sites_inOrder (p : Program) (d : Definition) :
    InOrder p.layer.names [] (d.sites p) := by
  cases d with
  | function d => exact d.sites_inOrder .root
  | constant d =>
    refine .append (.of_forall fun site hm => ?_) (exprsSites_inOrder d.values .root)
    obtain ⟨c, -, rfl⟩ := List.mem_map.mp hm
    nofun

end Frontend
