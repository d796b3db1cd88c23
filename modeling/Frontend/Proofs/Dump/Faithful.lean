import Frontend.Proofs.Dump.Body
import Frontend.Proofs.Dump.Reading
import Frontend.Proofs.Layout.Program

/-!
# The dump of the scopes is faithful

The lines of a dump are those of its entries, one for each constant, function, instance and lambda:
the first line of an entry is not indented, all others are, and its first letter tells which of the
four lists it belongs to. So two accepted source texts with equal dumps have the same constants, and
in order the same functions, instances and lambdas, each with the same tree of scopes
(`analyzeSource_dump_faithful`).
-/

namespace Frontend

namespace Store

/-! ### What a dump shows -/

/-- Blocks with corresponding variables, in which corresponding blocks are opened. -/
inductive SameBlock (s t : Store) : ScopeId → ScopeId → Prop
  | mk {i j : ScopeId} {vars vars' : Array VarSymbol} {outer outer' : List ScopeId}
    {blocks blocks' : Array ScopeId} (hi : s.scopes[i]? = some ⟨.block vars, outer, blocks⟩)
    (hj : t.scopes[j]? = some ⟨.block vars', outer', blocks'⟩)
    (hvars : List.Forall₂ VarSymbol.Alike vars.toList vars'.toList)
    (hblocks : List.Forall₂ (SameBlock s t) blocks.toList blocks'.toList) : SameBlock s t i j

/-- Scopes of functions of the same kind, name, parameters and printed result type, with the same
blocks. -/
def SameFunction (s t : Store) (i j : ScopeId) : Prop :=
  ∃ f g, s.scopeFunc? i = some f ∧ t.scopeFunc? j = some g ∧ f.kind = g.kind ∧ f.name = g.name ∧
    List.Forall₂ VarSymbol.Alike f.params g.params ∧ f.ret.map Ty.toText = g.ret.map Ty.toText ∧
      List.Forall₂ (SameBlock s t) (s.blocksOf i) (t.blocksOf j)

/-- The same constants, functions, instances and lambdas, in order. -/
structure SameSymbols (s t : Store) : Prop where
  constants : List.Forall₂ VarSymbol.Alike s.constants.toList t.constants.toList
  functions : List.Forall₂ (SameFunction s t) s.functionScopes.toList t.functionScopes.toList
  instances : List.Forall₂ (SameFunction s t) s.instanceScopes.toList t.instanceScopes.toList
  lambdas : List.Forall₂ (SameFunction s t) s.lambdaScopes.toList t.lambdaScopes.toList

variable {s t : Store}

/-! ### Trees and scopes -/

theorem Legible.treeAt (h : s.Legible) (depth : Nat) (id : ScopeId) :
    (s.treeAt depth id).Legible := by
  have hnil : (ScopeTree.node [] []).Legible := by
    rw [ScopeTree.Legible, ScopeTree.allLegible]
    exact ⟨List.forall_mem_nil _, trivial⟩
  induction depth generalizing id with
  | zero => exact hnil
  | succ depth ih =>
    rw [Store.treeAt]
    split
    · next body outer blocks hid =>
      rw [ScopeTree.Legible, ScopeTree.allLegible_iff]
      refine ⟨fun v hv => ?_, List.forall_mem_map.mpr fun c _ => ih c⟩
      cases body with
      | block vars => exact h.block ⟨id, vars, outer, blocks, hid, Array.mem_toList_iff.mp hv⟩
      | _ => exact absurd hv List.not_mem_nil
    · exact hnil

/-- A block that is listed is one, and it has a greater id. -/
theorem Tidy.listed (h : s.Tidy) {id c : Nat} {a : Scope} (hid : s.scopes[id]? = some a)
    (hc : c ∈ a.blocks.toList) : s.isBlock c = true ∧ id < c := by
  obtain ⟨hblock, b, b', -, hb', houter⟩ := (h.filed hid).mp hc
  exact ⟨hblock, h.outer hb' (houter ▸ List.mem_cons_self)⟩

/-- The trees of blocks are deep enough to show all blocks in them. -/
theorem Tidy.sameBlock (hs : s.Tidy) (ht : t.Tidy) {d e i j : Nat} (hi : s.isBlock i = true)
    (hj : t.isBlock j = true) (hd : s.scopes.size ≤ i + d) (he : t.scopes.size ≤ j + e)
    (h : (s.treeAt d i).Alike (t.treeAt e j)) : SameBlock s t i j := by
  induction d generalizing e i j with
  | zero => exact absurd (lt_size_of_isBlock hi) (Nat.not_lt.mpr hd)
  | succ d ih =>
    cases e with
    | zero => exact absurd (lt_size_of_isBlock hj) (Nat.not_lt.mpr he)
    | succ e =>
      obtain ⟨vars, outer, blocks, ha⟩ := exists_of_isBlock hi
      obtain ⟨vars', outer', blocks', hb⟩ := exists_of_isBlock hj
      simp only [Store.treeAt, ha, hb] at h
      cases h with
      | node hvars hblocks =>
        rw [List.forall₂_map_left_iff, List.forall₂_map_right_iff] at hblocks
        refine .mk ha hb hvars (forall₂_imp_of_mem hblocks fun c hc c' hc' halike => ?_)
        obtain ⟨hblock, hlt⟩ := hs.listed ha hc
        obtain ⟨hblock', hlt'⟩ := ht.listed hb hc'
        exact ih hblock hblock' (by omega) (by omega) halike

theorem Tidy.blocksOf (h : s.Tidy) {id c : ScopeId} (hc : c ∈ s.blocksOf id) :
    s.isBlock c = true := by
  unfold Store.blocksOf at hc
  split at hc
  · next a ha => exact (h.listed ha hc).1
  · exact absurd hc List.not_mem_nil

/-! ### Entries -/

theorem dumpFunction_eq {id : ScopeId} {f : FuncSymbol} (hf : s.scopeFunc? id = some f) :
    s.dumpFunction id = f.describe :: (f.params.map (fun p => "  param " ++ p.describe) ++
      ScopeTree.linesAll 1 ((s.blocksOf id).map s.tree)) := by
  simp [dumpFunction, hf]

/-- The lines of a function tell all that is shown of it. -/
theorem Legible.sameFunction (hs : s.Legible) (ht : t.Legible) (hs' : s.Tidy) (ht' : t.Tidy)
    {kinds kinds' : FuncKind → Prop} {i j : ScopeId} (hi : s.IsScopeOf kinds i)
    (hj : t.IsScopeOf kinds' j) (h : s.dumpFunction i = t.dumpFunction j) :
    SameFunction s t i j := by
  obtain ⟨f, hf, hfbuiltin, -⟩ := hi
  obtain ⟨g, hg, hgbuiltin, -⟩ := hj
  obtain ⟨id, -, hfunc⟩ := Option.bind_eq_some_iff.mp hf
  obtain ⟨id', -, hfunc'⟩ := Option.bind_eq_some_iff.mp hg
  have hflegible := hs.func hfunc
  have hglegible := ht.func hfunc'
  rw [dumpFunction_eq hf, dumpFunction_eq hg, List.cons.injEq] at h
  have hmark : ∀ params : List VarSymbol, ∀ l ∈ params.map (fun p => "  param " ++ p.describe),
      ¬ l = ScopeTree.opening 1 := by
    intro params l hl hopening
    obtain ⟨v, -, rfl⟩ := List.mem_map.mp hl
    have hchars := congrArg String.toList hopening
    simp [ScopeTree.opening, ScopeTree.indent] at hchars
  have hhead : ∀ trees : List ScopeTree, ∀ l ∈ (ScopeTree.linesAll 1 trees).head?,
      l = ScopeTree.opening 1 := by
    intro trees l hl
    cases trees with
    | nil => cases hl
    | cons tree rest =>
      rw [ScopeTree.linesAll, ScopeTree.head_lines] at hl
      cases hl
      rfl
  obtain ⟨hparams, hblocks⟩ := append_inj_of_marked (hmark _) (hmark _) (hhead _) (hhead _) h.2
  have halike : List.Forall₂ VarSymbol.Alike f.params g.params :=
    forall₂_of_map_eq (fun v hv w hw heq => (hflegible.params v hv).alike (hglegible.params w hw)
      ((String.append_right_inj _).mp heq)) hparams
  obtain ⟨hkind, hname, hret⟩ := hflegible.header_inj hglegible hfbuiltin hgbuiltin halike h.1
  have hlegible : ∀ {s : Store}, s.Legible → ∀ ids : List ScopeId,
      ScopeTree.allLegible (ids.map s.tree) := fun h ids =>
    (ScopeTree.allLegible_iff _).mpr (List.forall_mem_map.mpr fun id _ => h.treeAt _ id)
  have hend : ∀ l ∈ ([] : List String).head?, l ≠ ScopeTree.opening 1 := by simp
  have htrees := (ScopeTree.linesAll_inj _ _ 1 [] [] (hlegible hs _) (hlegible ht _) hend hend
    (by rw [hblocks])).1
  rw [List.forall₂_map_left_iff, List.forall₂_map_right_iff] at htrees
  refine ⟨f, g, hf, hg, hkind, hname, halike, hret,
    forall₂_imp_of_mem htrees fun c hc c' hc' htree => ?_⟩
  exact hs'.sameBlock ht' (hs'.blocksOf hc) (ht'.blocksOf hc') (Nat.le_add_left ..)
    (Nat.le_add_left ..) htree

/-- The first letter of the first line. -/
def initial (lines : List String) : Option Char := lines.head?.bind (·.toList.head?)

/-- Lines of which the first one begins with a letter and all others are indented. -/
structure IsEntry (c : Char) (lines : List String) : Prop where
  initial : initial lines = some c
  indented : ∀ l ∈ lines.tail, l.toList.head? = some ' '
  withinLine : ∀ l ∈ lines, WithinLine l

/-- Entries that begin with certain letters. -/
def AreEntries (letter : Char → Prop) (es : List (List String)) : Prop :=
  ∀ lines ∈ es, ∃ c, letter c ∧ IsEntry c lines

theorem IsEntry.exists_cons {c : Char} {lines : List String} (h : IsEntry c lines) :
    ∃ first rest, lines = first :: rest ∧ first.toList.head? = some c ∧
      ∀ l ∈ rest, l.toList.head? = some ' ' := by
  obtain ⟨hinitial, hindented, -⟩ := h
  cases lines with
  | nil => cases hinitial
  | cons first rest => exact ⟨first, rest, rfl, hinitial, hindented⟩

namespace AreEntries

variable {letter letter' : Char → Prop} {es fs gs hs : List (List String)}

theorem append (h : AreEntries letter es) (h' : AreEntries letter' fs) :
    AreEntries (fun c => letter c ∨ letter' c) (es ++ fs) :=
  List.forall_mem_append.mpr
    ⟨fun lines hm => (h lines hm).imp fun _ hc => ⟨.inl hc.1, hc.2⟩,
      fun lines hm => (h' lines hm).imp fun _ hc => ⟨.inr hc.1, hc.2⟩⟩

/-- Entries with different letters can be told apart. -/
theorem append_inj (hletter : ∀ c, letter c → ¬ letter' c) (he : AreEntries letter es)
    (hf : AreEntries letter fs) (hg : AreEntries letter' gs) (hh : AreEntries letter' hs)
    (h : es ++ gs = fs ++ hs) : es = fs ∧ gs = hs := by
  have hother : ∀ {es}, AreEntries letter es → ∀ lines ∈ es,
      ¬ ∃ c, letter' c ∧ IsEntry c lines := by
    rintro es he lines hm ⟨c', hc', hentry'⟩
    obtain ⟨c, hc, hentry⟩ := he lines hm
    have heq : c = c' := Option.some.inj (hentry.initial.symm.trans hentry'.initial)
    exact hletter c hc (heq ▸ hc')
  exact append_inj_of_marked (hother he) (hother hf) (fun lines hm => hg lines
    (List.mem_of_mem_head? hm)) (fun lines hm => hh lines (List.mem_of_mem_head? hm)) h

/-- The lines of entries tell the entries. -/
theorem flatten_inj (hletter : ¬ letter ' ') (he : AreEntries letter es)
    (hf : AreEntries letter fs) (h : es.flatten = fs.flatten) : es = fs := by
  have hhead : ∀ {es}, AreEntries letter es → ∀ l ∈ es.flatten.head?,
      ¬ l.toList.head? = some ' ' := by
    intro es he l hl
    cases es with
    | nil => cases hl
    | cons lines es =>
      obtain ⟨c, hc, hentry⟩ := he lines List.mem_cons_self
      obtain ⟨first, rest, rfl, hfirst, -⟩ := hentry.exists_cons
      cases hl
      rw [hfirst, Option.some.injEq]
      rintro rfl
      exact hletter hc
  induction es generalizing fs with
  | nil =>
    cases fs with
    | nil => rfl
    | cons lines fs =>
      obtain ⟨c, -, hentry⟩ := hf lines List.mem_cons_self
      obtain ⟨first, rest, rfl, -⟩ := hentry.exists_cons
      cases h
  | cons lines es ih =>
    obtain ⟨c, -, hentry⟩ := he lines List.mem_cons_self
    obtain ⟨first, rest, rfl, -, hrest⟩ := hentry.exists_cons
    cases fs with
    | nil => cases h
    | cons lines' fs =>
      obtain ⟨c', -, hentry'⟩ := hf lines' List.mem_cons_self
      obtain ⟨first', rest', rfl, -, hrest'⟩ := hentry'.exists_cons
      rw [List.flatten_cons, List.flatten_cons, List.cons_append, List.cons_append,
        List.cons.injEq] at h
      have he' := (List.forall_mem_cons.mp he).2
      have hf' := (List.forall_mem_cons.mp hf).2
      obtain ⟨rfl, htail⟩ := append_inj_of_marked (fun l hl => not_not_intro (hrest l hl))
        (fun l hl => not_not_intro (hrest' l hl)) (hhead he') (hhead hf') h.2
      rw [h.1, ih he' hf' htail]

end AreEntries

/-- The entries of a dump. -/
def entries (s : Store) : List (List String) :=
  s.constants.toList.map (fun v => ["const " ++ v.describe]) ++
    (s.functionScopes.toList.map s.dumpFunction ++
      (s.instanceScopes.toList.map (fun id => labelled "instance " (s.dumpFunction id)) ++
        s.lambdaScopes.toList.map s.dumpFunction))

theorem dump_eq (s : Store) : s.dump = s.entries.flatten := by
  simp only [dump, entries, List.flatten_append, List.append_assoc, List.flatMap_def,
    List.map_eq_flatMap (f := fun v : VarSymbol => "const " ++ v.describe)]

namespace Legible

/-- A function has an entry that begins with the word for its kind. -/
theorem isEntry (h : s.Legible) {kinds : FuncKind → Prop} {id : ScopeId}
    (hid : s.IsScopeOf kinds id) :
    ∃ kind c, kinds kind ∧ kind.name.toList.head? = some c ∧ IsEntry c (s.dumpFunction id) := by
  obtain ⟨f, hf, hbuiltin, hkind⟩ := hid
  obtain ⟨func, -, hfunc⟩ := Option.bind_eq_some_iff.mp hf
  have hlegible := h.func hfunc
  have hparams : ∀ v ∈ f.params, ("  param " ++ v.describe).toList.head? = some ' ' ∧
      WithinLine ("  param " ++ v.describe) := fun v hv =>
    ⟨by simp, (withinLine_append _ _).mpr ⟨by simp [WithinLine], (hlegible.params v hv).withinLine⟩⟩
  have hblocks : ∀ l ∈ ScopeTree.linesAll 1 ((s.blocksOf id).map s.tree),
      l.toList.head? = some ' ' ∧ WithinLine l := by
    intro l hl
    obtain ⟨text, htext, rfl⟩ := ScopeTree.linesAll_indented _ 1
      ((ScopeTree.allLegible_iff _).mpr (List.forall_mem_map.mpr fun id _ => h.treeAt _ id)) l hl
    exact ⟨by simp [ScopeTree.indent],
      (withinLine_append _ _).mpr ⟨by simp [ScopeTree.indent, WithinLine], htext⟩⟩
  have hrest := List.forall_mem_append.mpr ⟨List.forall_mem_map.mpr hparams, hblocks⟩
  obtain ⟨c, hc⟩ : ∃ c, f.kind.name.toList.head? = some c := by
    cases f.kind <;> exact ⟨_, rfl⟩
  refine ⟨f.kind, c, hkind, hc, ?_, ?_, ?_⟩
  · rw [dumpFunction_eq hf, Store.initial, List.head?_cons, Option.bind_some,
      FuncSymbol.describe_eq hbuiltin]
    simp [String.toList_append, List.head?_append, hc]
  · rw [dumpFunction_eq hf]
    exact fun l hl => (hrest l hl).1
  · rw [dumpFunction_eq hf]
    exact List.forall_mem_cons.mpr
      ⟨hlegible.withinLine hbuiltin, fun l hl => (hrest l hl).2⟩

theorem constants_areEntries (h : s.Legible) :
    AreEntries (· = 'c') (s.constants.toList.map fun v => ["const " ++ v.describe]) := by
  refine List.forall_mem_map.mpr fun v hv => ⟨'c', rfl, by simp [Store.initial], nofun, ?_⟩
  obtain ⟨i, hi⟩ := Array.getElem?_of_mem (Array.mem_toList_iff.mp hv)
  refine List.forall_mem_singleton.mpr ((withinLine_append _ _).mpr ⟨by simp [WithinLine], ?_⟩)
  exact (h.constant hi).withinLine

theorem functions_areEntries (h : s.Legible) :
    AreEntries (fun c => c = 'f' ∨ c = 'p') (s.functionScopes.toList.map s.dumpFunction) := by
  refine List.forall_mem_map.mpr fun id hid => ?_
  obtain ⟨kind, c, hkind, hc, hentry⟩ := h.isEntry (h.functions id (Array.mem_toList_iff.mp hid))
  refine ⟨c, ?_, hentry⟩
  cases kind with
  | func => exact .inl (Option.some.inj hc).symm
  | proc => exact .inr (Option.some.inj hc).symm
  | lambda => exact absurd rfl hkind

theorem instances_areEntries (h : s.Legible) : AreEntries (· = 'i')
    (s.instanceScopes.toList.map fun id => labelled "instance " (s.dumpFunction id)) := by
  refine List.forall_mem_map.mpr fun id hid => ⟨'i', rfl, ?_⟩
  obtain ⟨_, _, -, -, hentry⟩ := h.isEntry (h.instances id (Array.mem_toList_iff.mp hid))
  obtain ⟨first, rest, heq, -, hrest⟩ := hentry.exists_cons
  have hwithin := hentry.withinLine
  rw [heq, List.forall_mem_cons] at hwithin
  rw [heq, labelled]
  refine ⟨by simp [Store.initial], hrest, List.forall_mem_cons.mpr ⟨?_, hwithin.2⟩⟩
  exact (withinLine_append _ _).mpr ⟨by simp [WithinLine], hwithin.1⟩

theorem lambdas_areEntries (h : s.Legible) :
    AreEntries (· = 'l') (s.lambdaScopes.toList.map s.dumpFunction) := by
  refine List.forall_mem_map.mpr fun id hid => ?_
  obtain ⟨kind, c, rfl, hc, hentry⟩ := h.isEntry (h.lambdas id (Array.mem_toList_iff.mp hid))
  exact ⟨c, (Option.some.inj hc).symm, hentry⟩

theorem entries_areEntries (h : s.Legible) :
    AreEntries (fun c => c = 'c' ∨ (c = 'f' ∨ c = 'p') ∨ c = 'i' ∨ c = 'l') s.entries :=
  h.constants_areEntries.append (h.functions_areEntries.append
    (h.instances_areEntries.append h.lambdas_areEntries))

/-- A label in front of the first line can be taken away. -/
theorem labelled_inj {label : String} {lines lines' : List String}
    (h : labelled label lines = labelled label lines') : lines = lines' := by
  cases lines with
  | nil =>
    cases lines' with
    | nil => rfl
    | cons first rest => cases h
  | cons first rest =>
    cases lines' with
    | nil => cases h
    | cons first' rest' =>
      rw [labelled, labelled, List.cons.injEq, String.append_right_inj] at h
      rw [h.1, h.2]

/-- Legible stores with equal dumps show the same symbols. -/
theorem sameSymbols (hs : s.Legible) (ht : t.Legible) (hs' : s.Tidy) (ht' : t.Tidy)
    (h : CommandLine.joinLines s.dump = CommandLine.joinLines t.dump) : SameSymbols s t := by
  have hwithin : ∀ {s : Store}, s.Legible → ∀ l ∈ s.dump, WithinLine l := by
    intro s hs l hl
    rw [dump_eq, List.mem_flatten] at hl
    obtain ⟨lines, hlines, hl⟩ := hl
    obtain ⟨c, -, hentry⟩ := hs.entries_areEntries lines hlines
    exact hentry.withinLine l hl
  have hlines := CommandLine.joinLines_inj (hwithin hs) (hwithin ht) h
  rw [dump_eq, dump_eq] at hlines
  have hentries := AreEntries.flatten_inj (by decide) hs.entries_areEntries ht.entries_areEntries
    hlines
  -- The letters of the four lists are different, so these end where the next one begins.
  obtain ⟨hconstants, hentries⟩ := AreEntries.append_inj (by rintro _ rfl; decide)
    hs.constants_areEntries ht.constants_areEntries
    (hs.functions_areEntries.append (hs.instances_areEntries.append hs.lambdas_areEntries))
    (ht.functions_areEntries.append (ht.instances_areEntries.append ht.lambdas_areEntries))
    hentries
  obtain ⟨hfunctions, hentries⟩ := AreEntries.append_inj (by rintro _ (rfl | rfl) <;> decide)
    hs.functions_areEntries ht.functions_areEntries
    (hs.instances_areEntries.append hs.lambdas_areEntries)
    (ht.instances_areEntries.append ht.lambdas_areEntries) hentries
  obtain ⟨hinstances, hlambdas⟩ := AreEntries.append_inj (by rintro _ rfl; decide)
    hs.instances_areEntries ht.instances_areEntries hs.lambdas_areEntries ht.lambdas_areEntries
    hentries
  have hlegible : ∀ {s : Store}, s.Legible → ∀ v ∈ s.constants.toList, v.Legible := by
    intro s hs v hv
    obtain ⟨i, hi⟩ := Array.getElem?_of_mem (Array.mem_toList_iff.mp hv)
    exact hs.constant hi
  constructor
  · refine forall₂_of_map_eq (fun v hv w hw heq => ?_) hconstants
    exact (hlegible hs v hv).alike (hlegible ht w hw)
      ((String.append_right_inj _).mp (List.cons.inj heq).1)
  · exact forall₂_of_map_eq (fun i hi j hj heq => hs.sameFunction ht hs' ht'
      (hs.functions i (Array.mem_toList_iff.mp hi)) (ht.functions j (Array.mem_toList_iff.mp hj))
      heq) hfunctions
  · exact forall₂_of_map_eq (fun i hi j hj heq => hs.sameFunction ht hs' ht'
      (hs.instances i (Array.mem_toList_iff.mp hi)) (ht.instances j (Array.mem_toList_iff.mp hj))
      (labelled_inj heq)) hinstances
  · exact forall₂_of_map_eq (fun i hi j hj heq => hs.sameFunction ht hs' ht'
      (hs.lambdas i (Array.mem_toList_iff.mp hi)) (ht.lambdas j (Array.mem_toList_iff.mp hj))
      heq) hlambdas

end Legible

end Store

/-- The scopes of an accepted source text are tidy. -/
theorem analyzeSource_tidy {source file : String} {builtins : Bool} {firstId : Nat} {a : Analysis}
    (h : analyzeSource source file builtins firstId = .ok a) : a.state.store.Tidy := by
  obtain ⟨tokens, nextId, hparse, hrun⟩ := analyzeSource_eq_ok h
  have hcompleted := analyzeSource_completed h
  obtain ⟨es, hes⟩ := (Check.program_ensures_carriedOut builtins (fun _ _ => .pure ())
    (Program.parse_wellFormed hparse)).of_ok hrun hcompleted.inv.refused
  exact hes.arranged.tidy

/-- Two accepted source texts with equal dumps have the same constants and, in order, functions,
instances and lambdas of the same kinds, names, parameters and trees of local scopes. -/
theorem analyzeSource_dump_faithful {source source' file file' : String}
    {builtins builtins' : Bool} {firstId firstId' : Nat} {a b : Analysis}
    (ha : analyzeSource source file builtins firstId = .ok a)
    (hb : analyzeSource source' file' builtins' firstId' = .ok b)
    (hdump : CommandLine.joinLines a.state.store.dump = CommandLine.joinLines b.state.store.dump) :
    a.state.store.SameSymbols b.state.store :=
  (analyzeSource_legible ha).sameSymbols (analyzeSource_legible hb) (analyzeSource_tidy ha)
    (analyzeSource_tidy hb) hdump

/-- A template with a lambda, called with a number and with a sum of numbers. -/
theorem analyzeSource_dump_faithful_lambda :
    ∃ a b, analyzeSource
        "func f(x) { val g = -> (y: int) in y; return x; } const c = f(1);" "main" false 0 =
          .ok a ∧
      analyzeSource
        "func f(x) { val g = -> (y: int) in y; return x; } const c = f(2 + 3);" "other" false 0 =
          .ok b ∧
      CommandLine.joinLines a.state.store.dump = CommandLine.joinLines b.state.store.dump ∧
      (a.state.store.constants.size, a.state.store.functionScopes.size,
        a.state.store.instanceScopes.size, a.state.store.lambdaScopes.size) = (1, 1, 1, 1) ∧
      a.state.store.SameSymbols b.state.store := by
  have hrun : (match analyzeSource
        "func f(x) { val g = -> (y: int) in y; return x; } const c = f(1);" "main" false 0,
      analyzeSource
        "func f(x) { val g = -> (y: int) in y; return x; } const c = f(2 + 3);" "other" false 0 with
    | .ok a, .ok b => decide
      (CommandLine.joinLines a.state.store.dump = CommandLine.joinLines b.state.store.dump ∧
        (a.state.store.constants.size, a.state.store.functionScopes.size,
          a.state.store.instanceScopes.size, a.state.store.lambdaScopes.size) = (1, 1, 1, 1))
    | _, _ => false) = true := by decide +kernel
  split at hrun
  · next a b ha hb =>
    obtain ⟨hdump, hsizes⟩ := of_decide_eq_true hrun
    exact ⟨a, b, ha, hb, hdump, hsizes, analyzeSource_dump_faithful ha hb hdump⟩
  · cases hrun

end Frontend
