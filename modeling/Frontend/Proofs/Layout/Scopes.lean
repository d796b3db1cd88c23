import Mathlib.Data.List.Sort
import Frontend.Proofs.Analysis.Declaration
import Frontend.Proofs.Layout.Plan

/-!
# Scopes inside scopes

`Store.Encloses` says that a scope lies directly in another one. In a tidy store the blocks of a
scope are just the block scopes that lie directly in it, the oldest first, and no block declares a
name twice. Opening a scope and declaring a variable keep a store tidy, so what is known of the
surroundings of each single scope decides what every scope holds.
-/

namespace Frontend

/-! ### Places in a row -/

/-- Items stand in order at increasing places, none of them below the first one. -/
def Placed {α : Type} (stands : α → Nat → Prop) (first : Nat) (items : List α) : Prop :=
  ∃ places, List.Forall₂ stands items places ∧ places.Pairwise (· < ·) ∧ ∀ i ∈ places, first ≤ i

namespace Placed

variable {α : Type} {stands stands' : α → Nat → Prop} {first first' : Nat} {items items' : List α}

theorem nil : Placed stands first [] := ⟨[], .nil, .nil, List.forall_mem_nil _⟩

theorem singleton {item : α} {i : Nat} (h : stands item i) (hi : first ≤ i) :
    Placed stands first [item] :=
  ⟨[i], .cons h .nil, List.pairwise_singleton _ _, List.forall_mem_singleton.mpr hi⟩

theorem mono (h : Placed stands first items) (hs : ∀ x i, stands x i → stands' x i)
    (hfirst : first' ≤ first) : Placed stands' first' items := by
  obtain ⟨places, hall, hsorted, hlow⟩ := h
  exact ⟨places, hall.imp fun {x i} => hs x i, hsorted, fun i hi => hfirst.trans (hlow i hi)⟩

/-- Further items stand behind the places that are in use. -/
theorem append (h : Placed stands first items) (hs : ∀ x i, stands x i → stands' x i)
    (h' : Placed stands' first' items') (hused : ∀ x i, stands x i → i < first')
    (hfirst : first ≤ first') : Placed stands' first (items ++ items') := by
  obtain ⟨places, hall, hsorted, hlow⟩ := h
  obtain ⟨places', hall', hsorted', hlow'⟩ := h'
  have hbelow : ∀ i ∈ places, i < first' := by
    clear hsorted hlow
    induction hall with
    | nil => exact List.forall_mem_nil _
    | cons hx _ ih => exact List.forall_mem_cons.mpr ⟨hused _ _ hx, ih⟩
  refine ⟨places ++ places', List.rel_append (hall.imp fun {x i} => hs x i) hall', ?_, ?_⟩
  · exact List.pairwise_append.mpr ⟨hsorted, hsorted',
      fun i hi j hj => Nat.lt_of_lt_of_le (hbelow i hi) (hlow' j hj)⟩
  · exact List.forall_mem_append.mpr ⟨hlow, fun i hi => hfirst.trans (hlow' i hi)⟩

/-- If each item has one place, increasing places that are just those of the items are theirs in
order. -/
theorem exact (h : Placed stands first items) {places : List Nat}
    (hsorted : places.Pairwise (· < ·)) (hplaces : ∀ x ∈ items, ∀ i, stands x i → i ∈ places)
    (hitems : ∀ i ∈ places, ∃ x ∈ items, stands x i)
    (hsingle : ∀ x i j, stands x i → stands x j → i = j) : List.Forall₂ stands items places := by
  obtain ⟨others, hall, hsorted', -⟩ := h
  have hmem : ∀ i, i ∈ others ↔ ∃ x ∈ items, stands x i := by
    intro i
    clear hsorted' hplaces hitems
    induction hall with
    | nil => simp
    | @cons x j items others hx _ ih =>
      rw [List.mem_cons, ih, List.exists_mem_cons_iff]
      exact or_congr_left ⟨fun heq => heq ▸ hx, fun hi => hsingle x i j hi hx⟩
  have hsame : others.Perm places :=
    (List.perm_ext_iff_of_nodup hsorted'.nodup hsorted.nodup).mpr fun i =>
      ⟨fun hi => by
        obtain ⟨x, hx, hs⟩ := (hmem i).mp hi
        exact hplaces x hx i hs,
      fun hi => (hmem i).mpr (hitems i hi)⟩
  rw [← hsame.eq_of_pairwise' hsorted' hsorted]
  exact hall

end Placed

/-! ### Scopes directly in a scope -/

/-- Whether a body is that of a block. -/
def ScopeBody.isBlock : ScopeBody → Bool
  | .block _ => true
  | _ => false

namespace Store

/-- The number of variables that a block declares. -/
def varCount (s : Store) (id : ScopeId) : Nat :=
  match s.scopes[id]? with
  | some ⟨.block vars, _, _⟩ => vars.size
  | _ => 0

/-- A scope lies directly in another one. -/
def Encloses (s : Store) (outer inner : ScopeId) : Prop :=
  ∃ a b, s.scopes[outer]? = some a ∧ s.scopes[inner]? = some b ∧ b.outer = outer :: a.outer

theorem isBlock_eq {s : Store} {id : ScopeId} {a : Scope} (h : s.scopes[id]? = some a) :
    s.isBlock id = a.body.isBlock := by
  obtain ⟨body, outer, blocks⟩ := a
  unfold isBlock
  rw [h]
  cases body <;> rfl

theorem exists_of_isBlock {s : Store} {id : ScopeId} (h : s.isBlock id = true) :
    ∃ vars outer blocks, s.scopes[id]? = some ⟨.block vars, outer, blocks⟩ := by
  unfold isBlock at h
  split at h
  · exact ⟨_, _, _, ‹_›⟩
  · cases h

theorem lt_size_of_isBlock {s : Store} {id : ScopeId} (h : s.isBlock id = true) :
    id < s.scopes.size := by
  obtain ⟨vars, outer, blocks, ha⟩ := exists_of_isBlock h
  exact (Array.getElem?_eq_some_iff.mp ha).1

namespace Encloses

variable {s t : Store} {outer outer' inner : ScopeId}

theorem grows (h : s.Encloses outer inner) (hg : s.Grows t) : t.Encloses outer inner := by
  obtain ⟨a, b, ha, hb, hab⟩ := h
  obtain ⟨a', ha', haa⟩ := hg.scope ha
  obtain ⟨b', hb', hbb⟩ := hg.scope hb
  exact ⟨a', b', ha', hb', by rw [hbb.outer, haa.outer, hab]⟩

/-- A scope lies directly in one other scope only. -/
theorem unique (h : s.Encloses outer inner) (h' : s.Encloses outer' inner) : outer = outer' := by
  obtain ⟨a, b, -, hb, hab⟩ := h
  obtain ⟨a', b', -, hb', hab'⟩ := h'
  rw [hb] at hb'
  cases hb'
  exact (List.cons.inj (hab.symm.trans hab')).1

theorem chain (h : s.Encloses outer inner) {b : Scope} (hb : s.scopes[inner]? = some b) :
    b.outer = s.chain outer := by
  obtain ⟨a, b', ha, hb', hab⟩ := h
  rw [hb] at hb'
  cases hb'
  simp only [Store.chain, ha, hab]

end Encloses

/-- A block has no more variables than are counted. -/
theorem lt_varCount_of_var? {s : Store} {id : ScopeId} {i : Nat} {v : VarSymbol}
    (h : s.var? (.inner id i) = some v) : i < s.varCount id := by
  simp only [var?] at h
  unfold varCount
  split at h
  · next ha => simpa only [ha] using (Array.getElem?_eq_some_iff.mp h).1
  · cases h

theorem Grows.size_le {s t : Store} (h : s.Grows t) : s.scopes.size ≤ t.scopes.size := by
  by_contra hlt
  obtain ⟨b, hb, -⟩ := h.scope (Array.getElem?_eq_getElem (Nat.not_le.mp hlt))
  exact Nat.lt_irrefl _ (Array.getElem?_eq_some_iff.mp hb).1

theorem Grows.varCount {s t : Store} (h : s.Grows t) (id : ScopeId) :
    s.varCount id ≤ t.varCount id := by
  unfold Store.varCount
  split
  · next vars outer blocks ha =>
    obtain ⟨⟨body, outer', blocks'⟩, hb, hab⟩ := h.scope ha
    rw [hb]
    have hbody := hab.body
    cases hbody with
    | refl => exact Nat.le_refl _
    | block hpre => simpa using hpre.length_le
  · exact Nat.zero_le _

/-- A store in which the blocks of each scope are the block scopes directly in it, the oldest
first. -/
structure Tidy (s : Store) : Prop where
  root : ∃ a, s.scopes[globalScope]? = some a
  outer : ∀ {id o : ScopeId} {a : Scope}, s.scopes[id]? = some a → o ∈ a.outer → o < id
  sorted : ∀ {id : ScopeId} {a : Scope}, s.scopes[id]? = some a →
    a.blocks.toList.Pairwise (· < ·)
  filed : ∀ {id c : ScopeId} {a : Scope}, s.scopes[id]? = some a →
    (c ∈ a.blocks.toList ↔ s.isBlock c = true ∧ s.Encloses id c)
  distinct : ∀ {id : ScopeId} {vars : Array VarSymbol} {outer : List ScopeId}
    {blocks : Array ScopeId}, s.scopes[id]? = some ⟨.block vars, outer, blocks⟩ →
      (vars.toList.map (·.name)).Nodup

/-- A scope is added directly in another one, which lists it if it is that of a block. -/
structure OpensIn (s t : Store) (parent : ScopeId) (body : ScopeBody) : Prop
    extends s.Opens t s.scopes.size ⟨body, s.chain parent, #[]⟩ where
  present : ∃ a, s.scopes[parent]? = some a
  blocks : ∀ {i : ScopeId} {b c : Scope}, s.scopes[i]? = some b → t.scopes[i]? = some c →
    c.blocks.toList =
      b.blocks.toList ++ if i = parent ∧ body.isBlock then [s.scopes.size] else []

variable {s t : Store} {parent id : ScopeId} {body : ScopeBody}

/-- Functions, constants and lists of ids are no concern of the scopes. -/
theorem Tidy.of_scopes (h : s.Tidy) (heq : t.scopes = s.scopes) : t.Tidy := by
  have hblock : ∀ c, t.isBlock c = s.isBlock c := fun c => by simp only [isBlock, heq]
  have hencloses : ∀ {o c}, t.Encloses o c ↔ s.Encloses o c := by simp only [Encloses, heq,
    implies_true]
  constructor
  · rw [heq]
    exact h.root
  · rw [heq]
    exact h.outer
  · rw [heq]
    exact h.sorted
  · intro id c a ha
    rw [heq] at ha
    rw [hblock, hencloses]
    exact h.filed ha
  · rw [heq]
    exact h.distinct

namespace OpensIn

/-- Only the scopes count. -/
theorem of_scopes {u : Store} (h : s.OpensIn t parent body) (heq : u.scopes = t.scopes) :
    s.OpensIn u parent body := by
  refine ⟨⟨h.id_eq, ?_, ?_, ?_⟩, h.present, ?_⟩
  all_goals rw [heq]
  · exact h.opened
  · exact h.old
  · exact h.back
  · exact h.blocks

/-- A block scope is the new scope or an old one. -/
theorem isBlock (h : s.OpensIn t parent body) (c : ScopeId) :
    t.isBlock c = true ↔ s.isBlock c = true ∨ (c = s.scopes.size ∧ body.isBlock = true) := by
  constructor
  · intro hc
    obtain ⟨vars, outer, blocks, ha⟩ := exists_of_isBlock hc
    rcases h.back ha with rfl | ⟨b, hb⟩
    · right
      rw [h.opened] at ha
      cases ha
      exact ⟨rfl, rfl⟩
    · left
      obtain ⟨c', hc', hbody, -⟩ := h.old hb
      rw [ha] at hc'
      cases hc'
      rw [isBlock_eq hb, ← hbody]
      rfl
  · rintro (hc | ⟨rfl, hbody⟩)
    · obtain ⟨vars, outer, blocks, ha⟩ := exists_of_isBlock hc
      obtain ⟨c', hc', hbody, -⟩ := h.old ha
      rw [isBlock_eq hc', hbody]
      rfl
    · rw [isBlock_eq h.opened, hbody]

/-- The new scope lies directly in the one it was opened in. -/
theorem encloses (h : s.OpensIn t parent body) : t.Encloses parent s.scopes.size := by
  obtain ⟨a, ha⟩ := h.present
  obtain ⟨a', ha', -, houter⟩ := h.old ha
  refine ⟨a', _, ha', h.opened, ?_⟩
  rw [houter]
  simp only [Store.chain, ha]

/-- What an old scope lies in stays the same. -/
theorem encloses_old (h : s.OpensIn t parent body) {o c : ScopeId} {b : Scope}
    (hs : s.Tidy) (hb : s.scopes[c]? = some b) : t.Encloses o c ↔ s.Encloses o c := by
  obtain ⟨b', hb', -, houter⟩ := h.old hb
  constructor
  · rintro ⟨a, c', ha, hc', hac⟩
    rw [hb'] at hc'
    cases hc'
    rw [houter] at hac
    have hlt : o < c := hs.outer hb (by rw [hac]; exact List.mem_cons_self)
    have hsize : c < s.scopes.size := (Array.getElem?_eq_some_iff.mp hb).1
    obtain ⟨a', ho⟩ : ∃ a', s.scopes[o]? = some a' := ⟨_, Array.getElem?_eq_getElem
      (hlt.trans hsize)⟩
    obtain ⟨a'', ha', -, houter'⟩ := h.old ho
    rw [ha] at ha'
    cases ha'
    exact ⟨a', b, ho, hb, by rw [hac, houter']⟩
  · rintro ⟨a, c', ha, hc', hac⟩
    rw [hb] at hc'
    cases hc'
    obtain ⟨a', ha', -, houter'⟩ := h.old ha
    exact ⟨a', b', ha', hb', by rw [houter, houter', hac]⟩

/-- A store stays tidy when a scope is added that declares nothing yet. -/
theorem tidy (h : s.OpensIn t parent body) (hs : s.Tidy)
    (hvars : ∀ vars, body = .block vars → vars = #[]) : t.Tidy := by
  have hlt : ∀ {c : ScopeId} {b : Scope}, s.scopes[c]? = some b → c < s.scopes.size := fun hb =>
    (Array.getElem?_eq_some_iff.mp hb).1
  have houter : ∀ {id o : ScopeId} {a : Scope}, t.scopes[id]? = some a → o ∈ a.outer → o < id :=
    fun ha ho => h.toOpens.outer rfl hs.outer ha ho
  refine ⟨?_, houter, ?_, ?_, ?_⟩
  · obtain ⟨a, ha⟩ := hs.root
    obtain ⟨b, hb, -⟩ := h.old ha
    exact ⟨b, hb⟩
  · intro id a ha
    rcases h.back ha with rfl | ⟨b, hb⟩
    · rw [h.opened] at ha
      cases ha
      exact List.Pairwise.nil
    · rw [h.blocks hb ha]
      split
      · refine List.pairwise_append.mpr ⟨hs.sorted hb, List.pairwise_singleton _ _, ?_⟩
        intro c hc d hd
        rw [List.mem_singleton.mp hd]
        exact lt_size_of_isBlock ((hs.filed hb).mp hc).1
      · rw [List.append_nil]
        exact hs.sorted hb
  · intro id c a ha
    rcases h.back ha with rfl | ⟨b, hb⟩
    · -- Nothing lies in the new scope, as it would have to be newer still.
      rw [h.opened] at ha
      cases ha
      refine ⟨fun hc => absurd hc List.not_mem_nil, ?_⟩
      rintro ⟨hblock, a, b, -, hb, hab⟩
      have hsize : s.scopes.size < c := houter hb (by rw [hab]; exact List.mem_cons_self)
      rcases (h.isBlock c).mp hblock with hc | ⟨rfl, -⟩
      · exact absurd (lt_size_of_isBlock hc) (Nat.not_lt.mpr hsize.le)
      · exact absurd hsize (Nat.lt_irrefl _)
    · rw [h.blocks hb ha, List.mem_append, hs.filed hb, h.isBlock]
      by_cases hc : c = s.scopes.size
      · subst hc
        have hold : ¬ s.isBlock s.scopes.size = true := fun hc =>
          Nat.lt_irrefl _ (lt_size_of_isBlock hc)
        have hid : t.Encloses id s.scopes.size ↔ id = parent :=
          ⟨fun he => he.unique h.encloses, fun heq => heq ▸ h.encloses⟩
        rw [hid]
        by_cases hparent : id = parent ∧ body.isBlock = true
        · simp [hparent]
        · rw [if_neg hparent]
          constructor
          · rintro (⟨hc, -⟩ | hm)
            · exact absurd hc hold
            · exact absurd hm List.not_mem_nil
          · rintro ⟨hc | ⟨-, hbody⟩, heq⟩
            · exact absurd hc hold
            · exact absurd ⟨heq, hbody⟩ hparent
      · have hnot : c ∉ (if id = parent ∧ body.isBlock = true then [s.scopes.size] else []) := by
          split
          · exact fun hm => hc (List.mem_singleton.mp hm)
          · exact List.not_mem_nil
        simp only [hnot, or_false, hc, false_and]
        refine and_congr_right fun hblock => ?_
        obtain ⟨_, _, _, hc'⟩ := exists_of_isBlock hblock
        exact (h.encloses_old hs hc').symm
  · intro id vars outer blocks ha
    rcases h.back ha with rfl | ⟨⟨body', outer', blocks'⟩, hb⟩
    · rw [h.opened] at ha
      cases ha
      rw [hvars vars rfl]
      exact List.nodup_nil
    · obtain ⟨b', hb', hbody, -⟩ := h.old hb
      rw [ha] at hb'
      cases hb'
      cases hbody
      exact hs.distinct hb

/-- No block has got a further variable. -/
theorem varCount (h : s.OpensIn t parent body) (hvars : ∀ vars, body = .block vars → vars = #[])
    (c : ScopeId) : t.varCount c ≤ s.varCount c := by
  unfold Store.varCount
  split
  · next vars outer blocks ha =>
    rcases h.back ha with rfl | ⟨⟨body', outer', blocks'⟩, hb⟩
    · rw [h.opened] at ha
      cases ha
      rw [hvars vars rfl]
      exact Nat.zero_le _
    · obtain ⟨b', hb', hbody, -⟩ := h.old hb
      rw [ha] at hb'
      cases hb'
      cases hbody
      rw [hb]
  · exact Nat.zero_le _

end OpensIn

/-- A block is opened in a scope, which lists it. -/
theorem openBlock_opensIn (h : s.openBlock parent = .ok (id, t)) :
    id = s.scopes.size ∧ s.OpensIn t parent (.block #[]) := by
  have hopens := (openBlock_eq_ok h).1
  obtain rfl := hopens.id_eq
  refine ⟨rfl, hopens, ?_, ?_⟩
  · unfold openBlock at h
    split at h
    · exact ⟨_, ‹_›⟩
    · exact ⟨_, ‹_›⟩
    · cases h
  · intro i b c hb hc
    have hscopes : t.scopes = (s.scopes.modify parent fun scope =>
        { scope with blocks := scope.blocks.push s.scopes.size }).push
          ⟨.block #[], s.chain parent, #[]⟩ := by
      unfold openBlock at h
      split at h
      · cases h
        rfl
      · cases h
        rfl
      · cases h
    have hi : i < s.scopes.size := (Array.getElem?_eq_some_iff.mp hb).1
    rw [hscopes, Array.getElem?_push, Array.size_modify, if_neg (Nat.ne_of_lt hi),
      Array.getElem?_modify, hb] at hc
    by_cases hparent : parent = i
    · rw [if_pos hparent] at hc
      cases hc
      rw [if_pos ⟨hparent.symm, rfl⟩, Array.toList_push]
    · rw [if_neg hparent] at hc
      cases hc
      rw [if_neg fun hboth => hparent hboth.1.symm, List.append_nil]

/-- A function scope is opened in a scope, which does not list it. -/
theorem openFunction_opensIn (f : FuncSymbol) {enclosing : ScopeId} {a : Scope}
    (h : s.scopes[enclosing]? = some a) :
    s.OpensIn ((s.addFunc f).2.openFunction (some s.funcs.size) enclosing).2 enclosing
      (.function (some s.funcs.size)) := by
  obtain ⟨t, ht, hopens, -⟩ := s.addFunc_openFunction f enclosing
  rw [ht]
  refine ⟨hopens, ⟨a, h⟩, fun {i b c} hb hc => ?_⟩
  have hscopes : t.scopes = s.scopes.push
      ⟨.function (some s.funcs.size), s.chain enclosing, #[]⟩ := by
    cases ht
    rfl
  have hi : i < s.scopes.size := (Array.getElem?_eq_some_iff.mp hb).1
  rw [hscopes, Array.getElem?_push, if_neg (Nat.ne_of_lt hi), hb] at hc
  cases hc
  rw [if_neg fun hboth => Bool.false_ne_true hboth.2, List.append_nil]

/-- A store stays tidy when a block declares a further name. -/
theorem Tidy.defineVar (h : s.Tidy) {v : VarSymbol} {handle : VarHandle}
    (hblock : s.isBlock id = true) (hdef : s.defineVar id v = .ok (handle, t)) : t.Tidy := by
  obtain ⟨vars, outer, blocks, hs, -, ht, hother, -⟩ := defineVar_eq_ok hblock hdef
  have hnew : v.name ∉ vars.toList.map (·.name) := by
    intro hm
    obtain ⟨w, hw, hname⟩ := List.mem_map.mp hm
    have hfind : (vars.findIdx? (·.name == v.name)).isSome := by
      rw [Array.findIdx?_isSome, Array.any_eq_true']
      exact ⟨w, Array.mem_toList_iff.mp hw, by simp [hname]⟩
    unfold Store.defineVar lookupOwn at hdef
    rw [hs] at hdef
    obtain ⟨i, hi⟩ := Option.isSome_iff_exists.mp hfind
    simp only [hi, Option.map_some] at hdef
    cases hdef
  -- Nothing but the names of the block has changed.
  have hscope : ∀ {i : ScopeId} {b : Scope}, t.scopes[i]? = some b → ∃ a, s.scopes[i]? = some a ∧
      b.outer = a.outer ∧ b.blocks = a.blocks ∧ b.body.isBlock = a.body.isBlock := by
    intro i b hb
    by_cases hi : i = id
    · subst hi
      rw [ht] at hb
      cases hb
      exact ⟨_, hs, rfl, rfl, rfl⟩
    · exact ⟨b, (hother i hi).symm.trans hb, rfl, rfl, rfl⟩
  have hback : ∀ {i : ScopeId} {a : Scope}, s.scopes[i]? = some a → ∃ b, t.scopes[i]? = some b := by
    intro i a ha
    by_cases hi : i = id
    · exact ⟨_, hi ▸ ht⟩
    · exact ⟨a, (hother i hi).trans ha⟩
  have hisBlock : ∀ c, t.isBlock c = s.isBlock c := by
    intro c
    cases hb : t.scopes[c]? with
    | some b =>
      obtain ⟨a, ha, -, -, hab⟩ := hscope hb
      rw [isBlock_eq hb, isBlock_eq ha, hab]
    | none =>
      cases ha : s.scopes[c]? with
      | none => simp only [Store.isBlock, ha, hb]
      | some a =>
        obtain ⟨b, hb'⟩ := hback ha
        rw [hb] at hb'
        cases hb'
  have hencloses : ∀ {o c}, t.Encloses o c ↔ s.Encloses o c := by
    intro o c
    constructor
    · rintro ⟨a, b, ha, hb, hab⟩
      obtain ⟨a', ha', haa, -⟩ := hscope ha
      obtain ⟨b', hb', hbb, -⟩ := hscope hb
      exact ⟨a', b', ha', hb', by rw [← haa, ← hbb, hab]⟩
    · rintro ⟨a, b, ha, hb, hab⟩
      obtain ⟨a', ha'⟩ := hback ha
      obtain ⟨b', hb'⟩ := hback hb
      obtain ⟨_, ha'', haa, -⟩ := hscope ha'
      obtain ⟨_, hb'', hbb, -⟩ := hscope hb'
      cases ha.symm.trans ha''
      cases hb.symm.trans hb''
      exact ⟨a', b', ha', hb', by rw [haa, hbb, hab]⟩
  refine ⟨?_, fun hb ho => ?_, fun hb => ?_, fun {i c b} hb => ?_,
    fun {i vars' outer' blocks'} hb => ?_⟩
  · obtain ⟨a, ha⟩ := h.root
    exact hback ha
  · obtain ⟨a, ha, houter, -⟩ := hscope hb
    exact h.outer ha (houter ▸ ho)
  · obtain ⟨a, ha, -, hblocks, -⟩ := hscope hb
    exact hblocks ▸ h.sorted ha
  · obtain ⟨a, ha, -, hblocks, -⟩ := hscope hb
    rw [hblocks, hisBlock, hencloses]
    exact h.filed ha
  · by_cases hi : i = id
    · subst hi
      rw [ht] at hb
      cases hb
      rw [Array.toList_push, List.map_append, List.nodup_append]
      refine ⟨h.distinct hs, List.nodup_singleton _, ?_⟩
      rintro a ha b hb rfl
      rw [List.mem_singleton.mp hb] at ha
      exact hnew ha
    · exact h.distinct ((hother i hi).symm.trans hb)

end Store

end Frontend
