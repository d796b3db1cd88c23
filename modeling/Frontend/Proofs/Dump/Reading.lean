import Frontend.CommandLine
import Frontend.Proofs.Dump.Legible

/-!
# Reading a dump

What is printed without marks around it can still be read off: a text consists of lines, a line of
words, and a list of lines of entries, where each part ends in front of the first thing that cannot
belong to it (`append_inj_of_marked`). So a line tells the variable or function that it was printed
for, up to the texts of types, and the lines of a tree of scopes tell the tree, whatever follows
behind them.
-/

namespace Frontend

/-- Where nothing in front is a mark and what follows starts with one, the two can be told apart. -/
theorem append_inj_of_marked {α : Type} {mark : α → Prop} {l m r q : List α}
    (hl : ∀ a ∈ l, ¬ mark a) (hm : ∀ a ∈ m, ¬ mark a) (hr : ∀ a ∈ r.head?, mark a)
    (hq : ∀ a ∈ q.head?, mark a) (h : l ++ r = m ++ q) : l = m ∧ r = q := by
  induction l generalizing m with
  | nil =>
    cases m with
    | nil => exact ⟨rfl, h⟩
    | cons b m =>
      rw [List.nil_append, List.cons_append] at h
      exact absurd (hr b (by rw [h]; rfl)) (hm b List.mem_cons_self)
  | cons a l ih =>
    rw [List.forall_mem_cons] at hl
    cases m with
    | nil =>
      rw [List.nil_append, List.cons_append] at h
      exact absurd (hq a (by rw [← h]; rfl)) hl.1
    | cons b m =>
      rw [List.cons_append, List.cons_append, List.cons.injEq] at h
      obtain ⟨rfl, hrest⟩ := ih hl.2 (List.forall_mem_cons.mp hm).2 h.2
      exact ⟨congrArg (· :: l) h.1, hrest⟩

/-- Members of two lists that correspond may be known to be members. -/
theorem forall₂_imp_of_mem {α β : Type} {R S : α → β → Prop} {as : List α} {bs : List β}
    (h : List.Forall₂ R as bs) (hs : ∀ a ∈ as, ∀ b ∈ bs, R a b → S a b) :
    List.Forall₂ S as bs := by
  rw [List.forall₂_iff_zip] at h ⊢
  exact ⟨h.1, fun hm => hs _ (List.of_mem_zip hm).1 _ (List.of_mem_zip hm).2 (h.2 hm)⟩

/-- Lists that are printed alike correspond, if their members do whenever they are printed alike. -/
theorem forall₂_of_map_eq {α α' β : Type} {f : α → β} {g : α' → β} {R : α → α' → Prop}
    {as : List α} {bs : List α'} (h : ∀ a ∈ as, ∀ b ∈ bs, f a = g b → R a b)
    (heq : as.map f = bs.map g) : List.Forall₂ R as bs := by
  rw [← List.forall₂_eq_eq_eq, List.forall₂_map_left_iff, List.forall₂_map_right_iff] at heq
  exact forall₂_imp_of_mem heq h

/-- A text of lines can be cut into these. -/
theorem CommandLine.joinLines_inj {ls ms : List String} (hl : ∀ l ∈ ls, WithinLine l)
    (hm : ∀ m ∈ ms, WithinLine m) (h : joinLines ls = joinLines ms) : ls = ms := by
  have htext : ∀ l ls, (joinLines (l :: ls)).toList =
      l.toList ++ '\n' :: (joinLines ls).toList := by simp [joinLines]
  induction ls generalizing ms with
  | nil =>
    cases ms with
    | nil => rfl
    | cons m ms =>
      have hnil := congrArg String.toList h
      rw [htext] at hnil
      simp [joinLines] at hnil
  | cons l ls ih =>
    rw [List.forall_mem_cons] at hl
    cases ms with
    | nil =>
      have hnil := congrArg String.toList h
      rw [htext] at hnil
      simp [joinLines] at hnil
    | cons m ms =>
      rw [List.forall_mem_cons] at hm
      have hchars := congrArg String.toList h
      rw [htext, htext] at hchars
      have hwithin : ∀ {text : String}, WithinLine text → ∀ c ∈ text.toList, ¬ c = '\n' :=
        fun ht c hc heq => ht (heq ▸ hc)
      obtain ⟨hfirst, hrest⟩ := append_inj_of_marked (hwithin hl.1) (hwithin hm.1)
        (by simp) (by simp) hchars
      rw [String.toList_inj.mp hfirst,
        ih hl.2 hm.2 (String.toList_inj.mp (List.cons.inj hrest).2)]

/-! ### Variables and functions -/

/-- A variable has the name, the mutability and the printed type of another one. -/
structure VarSymbol.Alike (v w : VarSymbol) : Prop where
  name : v.name = w.name
  isVar : v.isVar = w.isVar
  type : v.type.map Ty.toText = w.type.map Ty.toText

/-- A type behind a mark, or nothing. -/
def behind (mark : String) (type : Option Ty) : String :=
  (type.map fun t => mark ++ t.toText).getD ""

theorem behind_inj {mark : String} (hmark : mark ≠ "") {t u : Option Ty}
    (h : behind mark t = behind mark u) : t.map Ty.toText = u.map Ty.toText := by
  have hne : ∀ text, mark ++ text ≠ "" := by
    intro text hnil
    exact hmark (String.append_eq_empty_iff.mp hnil).1
  cases t with
  | none =>
    cases u with
    | none => rfl
    | some u => exact absurd h.symm (hne _)
  | some t =>
    cases u with
    | none => exact absurd h (hne _)
    | some u => exact congrArg some ((String.append_right_inj mark).mp h)

theorem VarSymbol.describe_eq (v : VarSymbol) :
    v.describe = declarator v.isVar ++ " " ++ v.name ++ behind " : " v.type := by
  unfold describe behind
  cases v.type with
  | none => simp
  | some type => simp [String.append_assoc]

theorem FuncSymbol.describe_eq {f : FuncSymbol} (h : f.isBuiltin = false) :
    f.describe = f.kind.name ++ " " ++ f.name ++ "(" ++
      commas (f.params.map fun p => (p.type.map Ty.toText).getD "?") ++ ")" ++
        behind ": " f.ret := by
  unfold describe behind
  rw [h]
  cases f.ret with
  | none => simp
  | some ret => simp only [Bool.false_eq_true, if_false, Option.map_some, Option.getD_some,
      String.append_assoc]

theorem withinLine_behind {mark : String} (hmark : WithinLine mark) {type : Option Ty}
    (h : HintInline type) : WithinLine (behind mark type) := by
  cases type with
  | none => simp [behind, WithinLine]
  | some type => exact (withinLine_append _ _).mpr ⟨hmark, h type rfl⟩

theorem IsPlain.withinLine {name : String} (h : IsPlain name) : WithinLine name :=
  fun hm => (h _ hm).2.1 rfl

theorem withinLine_commas {texts : List String} (h : ∀ text ∈ texts, WithinLine text) :
    WithinLine (commas texts) := by
  unfold commas
  induction texts with
  | nil => simp [WithinLine]
  | cons text rest ih =>
    rw [List.forall_mem_cons] at h
    cases rest with
    | nil => simpa using h.1
    | cons next rest =>
      rw [String.intercalate_cons_cons, withinLine_append, withinLine_append]
      exact ⟨⟨h.1, by simp [WithinLine]⟩, ih h.2⟩

theorem VarSymbol.Legible.withinLine {v : VarSymbol} (h : v.Legible) : WithinLine v.describe := by
  rw [v.describe_eq]
  simp only [withinLine_append]
  refine ⟨⟨⟨?_, by simp [WithinLine]⟩, h.name.withinLine⟩,
    withinLine_behind (by simp [WithinLine]) h.type⟩
  cases v.isVar <;> simp [declarator, WithinLine]

theorem FuncSymbol.Legible.withinLine {f : FuncSymbol} (h : f.Legible)
    (hbuiltin : f.isBuiltin = false) : WithinLine f.describe := by
  rw [describe_eq hbuiltin]
  simp only [withinLine_append]
  refine ⟨⟨⟨⟨⟨⟨?_, by simp [WithinLine]⟩, h.name.withinLine⟩, by simp [WithinLine]⟩,
    withinLine_commas ?_⟩, by simp [WithinLine]⟩, withinLine_behind (by simp [WithinLine]) h.ret⟩
  · cases f.kind <;> simp [FuncKind.name, WithinLine]
  · intro text htext
    obtain ⟨v, hv, rfl⟩ := List.mem_map.mp htext
    cases htype : v.type with
    | none => simp [WithinLine]
    | some type => exact (h.params v hv).type type htype

/-- A line tells the variable it was printed for. -/
theorem VarSymbol.Legible.alike {v w : VarSymbol} (hv : v.Legible) (hw : w.Legible)
    (h : v.describe = w.describe) : v.Alike w := by
  have hchars := congrArg String.toList h
  simp only [describe_eq, String.toList_append, List.append_assoc] at hchars
  have hlength : (declarator v.isVar).toList.length = (declarator w.isVar).toList.length := by
    cases v.isVar <;> cases w.isVar <;> simp [declarator]
  obtain ⟨hdeclarator, hrest⟩ := List.append_inj hchars hlength
  have hhead : ∀ type, ∀ c ∈ (behind " : " type).toList.head?, c = ' ' := by
    intro type
    cases type <;> simp [behind]
  obtain ⟨hname, htype⟩ := append_inj_of_marked (fun c hc => (hv.name c hc).1)
    (fun c hc => (hw.name c hc).1) (hhead _) (hhead _) (List.append_cancel_left hrest)
  refine ⟨String.toList_inj.mp hname, ?_, behind_inj (by simp) (String.toList_inj.mp htype)⟩
  cases hvar : v.isVar <;> cases hwvar : w.isVar <;>
    simp [hvar, hwvar, declarator] at hdeclarator ⊢

/-- A header tells the function it was printed for, once the parameters are known. -/
theorem FuncSymbol.Legible.header_inj {f g : FuncSymbol} (hf : f.Legible) (hg : g.Legible)
    (hfbuiltin : f.isBuiltin = false) (hgbuiltin : g.isBuiltin = false)
    (hparams : List.Forall₂ VarSymbol.Alike f.params g.params) (h : f.describe = g.describe) :
    f.kind = g.kind ∧ f.name = g.name ∧ f.ret.map Ty.toText = g.ret.map Ty.toText := by
  have htypes : f.params.map (fun p => (p.type.map Ty.toText).getD "?") =
      g.params.map fun p => (p.type.map Ty.toText).getD "?" := by
    rw [← List.forall₂_eq_eq_eq, List.forall₂_map_left_iff, List.forall₂_map_right_iff]
    exact hparams.imp fun v w hvw => congrArg (·.getD "?") hvw.type
  have hchars := congrArg String.toList h
  simp only [describe_eq hfbuiltin, describe_eq hgbuiltin, htypes, String.toList_append,
    List.append_assoc] at hchars
  have hkinds : ∀ kind : FuncKind, ∀ c ∈ kind.name.toList, ¬ c = ' ' := by
    intro kind
    cases kind <;> simp [FuncKind.name]
  obtain ⟨hkind, hrest⟩ := append_inj_of_marked (hkinds _) (hkinds _) (by simp) (by simp) hchars
  obtain ⟨hname, hrest⟩ := append_inj_of_marked (fun c hc => (hf.name c hc).2.2)
    (fun c hc => (hg.name c hc).2.2) (by simp) (by simp) (List.append_cancel_left hrest)
  have hret := List.append_cancel_left (List.append_cancel_left (List.append_cancel_left hrest))
  refine ⟨?_, String.toList_inj.mp hname, behind_inj (by simp) (String.toList_inj.mp hret)⟩
  have hkind' : f.kind.name = g.kind.name := String.toList_inj.mp hkind
  revert hkind'
  cases f.kind <;> cases g.kind <;> simp [FuncKind.name]

/-! ### Trees of scopes -/

namespace ScopeTree

/-- Trees that agree in how they are nested and in the variables of each scope, up to the types,
which are only printed alike. -/
inductive Alike : ScopeTree → ScopeTree → Prop
  | node {vars vars' : List VarSymbol} {blocks blocks' : List ScopeTree}
    (hvars : List.Forall₂ VarSymbol.Alike vars vars')
    (hblocks : List.Forall₂ Alike blocks blocks') : Alike (.node vars blocks) (.node vars' blocks')

mutual

/-- All variables of a tree are legible. -/
def Legible : ScopeTree → Prop
  | .node vars blocks => (∀ v ∈ vars, v.Legible) ∧ allLegible blocks

/-- All variables of some trees are legible. -/
def allLegible : List ScopeTree → Prop
  | [] => True
  | tree :: rest => tree.Legible ∧ allLegible rest

end

theorem allLegible_iff (trees : List ScopeTree) :
    allLegible trees ↔ ∀ tree ∈ trees, tree.Legible := by
  induction trees with
  | nil => simp [allLegible]
  | cons tree rest ih => simp [allLegible, ih]

theorem indent_succ (depth : Nat) : indent (depth + 1) = indent depth ++ "  " := by
  apply String.toList_inj.mp
  simp [indent, Nat.mul_add, List.replicate_add]

/-- The line that opens a block. -/
def opening (depth : Nat) : String := indent depth ++ "\x7b"

/-- The line that closes a block. -/
def closing (depth : Nat) : String := indent depth ++ "\x7d"

theorem head_lines (depth : Nat) (tree : ScopeTree) (r : List String) :
    (lines depth tree ++ r).head? = some (opening depth) := by
  cases tree
  rw [lines]
  rfl

theorem closing_ne_opening (depth : Nat) : closing depth ≠ opening (depth + 1) := by
  rw [closing, opening, indent_succ, String.append_assoc, Ne, String.append_right_inj]
  exact fun h => by simpa using congrArg String.toList h

/-- The line of a variable is none of a brace. -/
theorem variable_not_brace (depth : Nat) (v : VarSymbol) :
    ¬ (indent depth ++ "  " ++ v.describe = opening (depth + 1) ∨
      indent depth ++ "  " ++ v.describe = closing depth) := by
  have hdescribe : ∃ rest, v.describe.toList = 'v' :: rest := by
    rw [v.describe_eq]
    cases v.isVar <;> simp [declarator]
  obtain ⟨rest, hrest⟩ := hdescribe
  rw [opening, closing, indent_succ, String.append_right_inj, String.append_assoc,
    String.append_right_inj]
  rintro (h | h)
  · have hchars := congrArg String.toList h
    rw [hrest] at hchars
    simp at hchars
  · exact absurd (congrArg String.toList h) (by simp)

/-- The lines of the variables of a block end in front of the first brace. -/
theorem variables_inj {depth : Nat} {vars vars' : List VarSymbol} {r q : List String}
    (hv : ∀ v ∈ vars, v.Legible) (hv' : ∀ v ∈ vars', v.Legible)
    (hr : ∀ l ∈ r.head?, l = opening (depth + 1) ∨ l = closing depth)
    (hq : ∀ l ∈ q.head?, l = opening (depth + 1) ∨ l = closing depth)
    (h : vars.map (fun v => indent depth ++ "  " ++ v.describe) ++ r =
      vars'.map (fun v => indent depth ++ "  " ++ v.describe) ++ q) :
    List.Forall₂ VarSymbol.Alike vars vars' ∧ r = q := by
  obtain ⟨hvars, hrest⟩ := append_inj_of_marked
    (List.forall_mem_map.mpr fun v _ => variable_not_brace depth v)
    (List.forall_mem_map.mpr fun v _ => variable_not_brace depth v) hr hq h
  refine ⟨forall₂_of_map_eq (fun v hm w hm' heq => ?_) hvars, hrest⟩
  exact (hv v hm).alike (hv' w hm') ((String.append_right_inj _).mp heq)

/-- What follows the variables of a block is a brace. -/
theorem head_blocks (depth : Nat) (blocks : List ScopeTree) (r : List String) :
    ∀ l ∈ (linesAll (depth + 1) blocks ++ closing depth :: r).head?,
      l = opening (depth + 1) ∨ l = closing depth := by
  cases blocks with
  | nil =>
    rw [linesAll]
    rintro _ ⟨⟩
    exact .inr rfl
  | cons tree rest =>
    rw [linesAll, List.append_assoc, head_lines]
    rintro _ ⟨⟩
    exact .inl rfl

mutual

/-- The lines of a tree tell the tree, whatever follows. -/
theorem lines_inj : (t u : ScopeTree) → (depth : Nat) → (r q : List String) → t.Legible →
    u.Legible → lines depth t ++ r = lines depth u ++ q → t.Alike u ∧ r = q
  | .node vars blocks, .node vars' blocks', depth, r, q, ht, hu, h => by
    rw [Legible] at ht hu
    have hlines : ∀ (vars : List VarSymbol) (blocks : List ScopeTree) (r : List String),
        lines depth (.node vars blocks) ++ r = opening depth ::
          (vars.map (fun v => indent depth ++ "  " ++ v.describe) ++
            (linesAll (depth + 1) blocks ++ closing depth :: r)) := by
      intro vars blocks r
      simp [lines, opening, closing]
    rw [hlines, hlines, List.cons.injEq] at h
    obtain ⟨hvars, h⟩ := variables_inj ht.1 hu.1 (head_blocks _ _ _) (head_blocks _ _ _) h.2
    have hclosing : ∀ r : List String,
        ∀ l ∈ (closing depth :: r).head?, l ≠ opening (depth + 1) := by
      rintro r _ ⟨⟩
      exact closing_ne_opening depth
    obtain ⟨hblocks, h⟩ := linesAll_inj blocks blocks' (depth + 1) _ _ ht.2 hu.2 (hclosing r)
      (hclosing q) h
    exact ⟨.node hvars hblocks, (List.cons.inj h).2⟩

/-- The lines of several trees tell the trees, if what follows is no tree. -/
theorem linesAll_inj : (ts us : List ScopeTree) → (depth : Nat) → (r q : List String) →
    allLegible ts → allLegible us → (∀ l ∈ r.head?, l ≠ opening depth) →
      (∀ l ∈ q.head?, l ≠ opening depth) → linesAll depth ts ++ r = linesAll depth us ++ q →
        List.Forall₂ Alike ts us ∧ r = q
  | [], [], _, _, _, _, _, _, _, h => by
    rw [linesAll] at h
    exact ⟨.nil, h⟩
  | [], u :: us, depth, r, q, _, _, hr, _, h => by
    rw [linesAll, linesAll, List.append_assoc, List.nil_append] at h
    rw [h, head_lines] at hr
    exact absurd rfl (hr _ rfl)
  | t :: ts, [], depth, r, q, _, _, _, hq, h => by
    rw [linesAll, linesAll, List.append_assoc, List.nil_append] at h
    rw [← h, head_lines] at hq
    exact absurd rfl (hq _ rfl)
  | t :: ts, u :: us, depth, r, q, ht, hu, hr, hq, h => by
    rw [allLegible] at ht hu
    rw [linesAll, linesAll, List.append_assoc, List.append_assoc] at h
    obtain ⟨hfirst, h⟩ := lines_inj t u depth _ _ ht.1 hu.1 h
    obtain ⟨hrest, h⟩ := linesAll_inj ts us depth r q ht.2 hu.2 hr hq h
    exact ⟨.cons hfirst hrest, h⟩

end

mutual

/-- Each line of a tree is indented and has no line feed in it. -/
theorem lines_indented : (t : ScopeTree) → (depth : Nat) → t.Legible →
    ∀ l ∈ lines depth t, ∃ text, WithinLine text ∧ l = indent depth ++ text
  | .node vars blocks, depth, ht => by
    rw [Legible] at ht
    have hvariables : ∀ v ∈ vars, ∃ text, WithinLine text ∧
        indent depth ++ "  " ++ v.describe = indent depth ++ text := by
      intro v hv
      rw [String.append_assoc]
      exact ⟨_, (withinLine_append _ _).mpr ⟨by simp [WithinLine], (ht.1 v hv).withinLine⟩, rfl⟩
    have hblocks : ∀ l ∈ linesAll (depth + 1) blocks,
        ∃ text, WithinLine text ∧ l = indent depth ++ text := by
      intro l hl
      obtain ⟨text, htext, rfl⟩ := linesAll_indented blocks (depth + 1) ht.2 l hl
      rw [indent_succ, String.append_assoc]
      exact ⟨_, (withinLine_append _ _).mpr ⟨by simp [WithinLine], htext⟩, rfl⟩
    rw [lines]
    simp only [List.forall_mem_append, List.forall_mem_cons, List.forall_mem_map]
    exact ⟨⟨⟨⟨_, by simp [WithinLine], rfl⟩, hvariables⟩, hblocks⟩, ⟨_, by simp [WithinLine], rfl⟩,
      List.forall_mem_nil _⟩

theorem linesAll_indented : (ts : List ScopeTree) → (depth : Nat) → allLegible ts →
    ∀ l ∈ linesAll depth ts, ∃ text, WithinLine text ∧ l = indent depth ++ text
  | [], _, _ => by
    rw [linesAll]
    exact List.forall_mem_nil _
  | t :: ts, depth, ht => by
    rw [allLegible] at ht
    rw [linesAll, List.forall_mem_append]
    exact ⟨lines_indented t depth ht.1, linesAll_indented ts depth ht.2⟩

end

end ScopeTree

end Frontend
