import Frontend.Proofs.Parser.Mints
import Frontend.Token.Lexer
import Mathlib.Data.List.Forall2

/-!
# Annotations and the types they denote

An annotation denotes a type just if every name in it stands for one, at whatever depth. The type
has the shape of the annotation; of several unknown names, the first in the text is reported, where
a name comes in front of its own arguments (`typeExpr_resolve`).
-/

namespace Frontend

namespace TypeExpr

mutual

/-- An annotation and all that are nested in it, each in front of its own parts. -/
@[simp] def parts : TypeExpr → List TypeExpr
  | .primary info name args => .primary info name args :: partsAll args
  | .array info elem => .array info elem :: elem.parts
  | .dict info key value => .dict info key value :: (key.parts ++ value.parts)
  | .tuple info elems => .tuple info elems :: partsAll elems
  | .func info kind params none => .func info kind params none :: partsAll params
  | .func info kind params (some ret) =>
    .func info kind params (some ret) :: (partsAll params ++ ret.parts)
  | .qualified info qualifier inner => .qualified info qualifier inner :: inner.parts

/-- Annotations one after the other, with all that are nested in them. -/
@[simp] def partsAll : List TypeExpr → List TypeExpr
  | [] => []
  | t :: rest => t.parts ++ partsAll rest

end

/-- An annotation is the first of its own parts. -/
theorem mem_parts (t : TypeExpr) : t ∈ t.parts := by
  cases t with
  | func _ _ _ ret => cases ret <;> simp
  | _ => simp

/-- Whether an annotation is a name, with or without arguments. -/
@[simp] def isNamed : TypeExpr → Bool
  | .primary .. => true
  | _ => false

/-- The names in an annotation, with their arguments, in the order of the text. -/
def names (t : TypeExpr) : List TypeExpr := t.parts.filter isNamed

/-- The names in several annotations. -/
def namesAll (ts : List TypeExpr) : List TypeExpr := (partsAll ts).filter isNamed

/-- A name stands for a type if it is that of a builtin type without arguments, or `range` with
one. -/
def NamesType : TypeExpr → Prop
  | .primary _ name [] => ∃ builtin : BuiltinType, name = builtin.name
  | .primary _ name [_] => name = "range"
  | _ => False

/-- A type has the shape of an annotation: it is made of the types of the parts in the same way. -/
inductive Shape : TypeExpr → Ty → Prop where
  | builtin {info : NodeInfo} (type : BuiltinType) :
    Shape (.primary info type.name []) (.builtin type)
  | range {info : NodeInfo} {arg : TypeExpr} {elem : Ty} :
    Shape arg elem → Shape (.primary info "range" [arg]) (.range elem)
  | array {info : NodeInfo} {elem : TypeExpr} {type : Ty} :
    Shape elem type → Shape (.array info elem) (.array type)
  | dict {info : NodeInfo} {key value : TypeExpr} {keyType valueType : Ty} :
    Shape key keyType → Shape value valueType →
      Shape (.dict info key value) (.dict keyType valueType)
  | tuple {info : NodeInfo} {elems : List TypeExpr} {types : List Ty} :
    List.Forall₂ Shape elems types → Shape (.tuple info elems) (.tuple types)
  /-- A procedure has no result. -/
  | proc {info : NodeInfo} {params : List TypeExpr} {types : List Ty} :
    List.Forall₂ Shape params types → Shape (.func info .proc params none) (.func types none)
  /-- A function without a result type gives the unit value. -/
  | unitFunc {info : NodeInfo} {params : List TypeExpr} {types : List Ty} :
    List.Forall₂ Shape params types →
      Shape (.func info .func params none) (.func types (some .unit))
  | func {info : NodeInfo} {params : List TypeExpr} {ret : TypeExpr} {types : List Ty} {type : Ty} :
    List.Forall₂ Shape params types → Shape ret type →
      Shape (.func info .func params (some ret)) (.func types (some type))
  | qualified {info : NodeInfo} {qualifier : Qualifier} {inner : TypeExpr} {type : Ty} :
    Shape inner type →
      Shape (.qualified info qualifier inner) (.qualified (some qualifier) type)

/-! ### Looking names up from left to right -/

/-- The first unknown name in a list is reported. -/
def Reports (ns : List TypeExpr) (e : Error) : Prop :=
  ∃ before name after, ns = before ++ name :: after ∧ (∀ n ∈ before, n.NamesType) ∧
    ¬ name.NamesType ∧ e = ⟨.unknownType name.toText, name.position⟩

/-- Names are looked up from left to right: all stand for types and the result is as it should be,
or the first that does not is reported. -/
def LooksUp {α : Type} (ns : List TypeExpr) (post : α → Prop) : Except Error α → Prop
  | .ok a => (∀ n ∈ ns, n.NamesType) ∧ post a
  | .error e => Reports ns e

namespace LooksUp

variable {α β : Type} {ns ms : List TypeExpr} {post : α → Prop} {post' : β → Prop}

/-- A result that needs no names. -/
theorem pure {a : α} (h : post a) : LooksUp [] post (.ok a) := ⟨nofun, h⟩

/-- One lookup after another goes on where the first ended. -/
theorem bind {r : Except Error α} {f : α → Except Error β} (h : LooksUp ns post r)
    (hf : ∀ a, post a → LooksUp ms post' (f a)) : LooksUp (ns ++ ms) post' (r >>= f) := by
  cases r with
  | error e =>
    obtain ⟨before, name, after, rfl, hbefore, hname, he⟩ := h
    exact ⟨before, name, after ++ ms, by simp, hbefore, hname, he⟩
  | ok a =>
    obtain ⟨hns, ha⟩ := h
    have hrest := hf a ha
    change LooksUp (ns ++ ms) post' (f a)
    cases hfa : f a with
    | ok b =>
      rw [hfa] at hrest
      have hall : ∀ n ∈ ns ++ ms, n.NamesType := fun n hn =>
        (List.mem_append.mp hn).elim (hns n) (hrest.1 n)
      exact ⟨hall, hrest.2⟩
    | error e =>
      rw [hfa] at hrest
      obtain ⟨before, name, after, rfl, hbefore, hname, he⟩ := hrest
      have hall : ∀ n ∈ ns ++ before, n.NamesType := fun n hn =>
        (List.mem_append.mp hn).elim (hns n) (hbefore n)
      exact ⟨ns ++ before, name, after, by simp, hall, hname, he⟩

/-- The result of a lookup may be wrapped up. -/
theorem map {r : Except Error α} {f : α → β} (h : LooksUp ns post r)
    (hf : ∀ a, post a → post' (f a)) : LooksUp ns post' (do return f (← r)) := by
  have hbind : LooksUp (ns ++ []) post' (r >>= fun a => .ok (f a)) :=
    h.bind fun a ha => .pure (hf a ha)
  rwa [List.append_nil] at hbind

/-- A name that stands for a type is looked up in front of its arguments. -/
theorem known {name : TypeExpr} {r : Except Error α} (hname : name.NamesType)
    (h : LooksUp ns post r) : LooksUp (name :: ns) post r := by
  have hfirst : LooksUp [name] (fun _ : Unit => True) (.ok ()) :=
    ⟨by simpa using hname, trivial⟩
  exact hfirst.bind fun _ _ => h

/-- An unknown name is reported in front of its arguments. -/
theorem unknown {name : TypeExpr} (hname : ¬ name.NamesType) :
    LooksUp (name :: ns) post (.error ⟨.unknownType name.toText, name.position⟩) :=
  ⟨[], name, ns, rfl, nofun, hname, rfl⟩

end LooksUp

mutual

theorem resolve_looksUp : ∀ t : TypeExpr, t.Written → LooksUp t.names t.Shape t.resolve
  | .primary info name args, h => by
    change LooksUp (.primary info name args :: namesAll args) _ _
    unfold resolve
    split
    · rename_i builtin hb
      have hname : name = builtin.name := BuiltinType.ofName?_eq_some_iff.mp hb
      subst hname
      exact .known ⟨builtin, rfl⟩ (.pure (.builtin builtin))
    · rename_i arg hb
      split
      · rename_i hrange
        subst hrange
        refine .known rfl ?_
        have hnames : namesAll [arg] = arg.names := by simp [names, namesAll]
        rw [hnames]
        exact (resolve_looksUp arg h.1).map fun _ => .range
      · rename_i hrange
        exact .unknown hrange
    · rename_i args _ _ hbuiltin hrange
      have hunknown : ¬ NamesType (.primary info name args) := by
        intro hknown
        match args, hknown with
        | [], ⟨builtin, hname⟩ =>
          exact hbuiltin builtin (BuiltinType.ofName?_eq_some_iff.mpr hname) rfl
        | [arg], hname =>
          have hnone : BuiltinType.ofName? "range" = none := by decide
          exact hrange arg (hname.symm ▸ hnone) rfl
      exact .unknown hunknown
  | .array _ elem, h => (resolve_looksUp elem h).map fun _ => .array
  | .dict info key value, h => by
    have hnames : names (.dict info key value) = key.names ++ value.names := by simp [names]
    rw [hnames]
    exact (resolve_looksUp key h.1).bind fun _ hkey =>
      (resolve_looksUp value h.2).map fun _ hvalue => .dict hkey hvalue
  | .tuple _ elems, h => (resolveAll_looksUp elems h.2).map fun _ => .tuple
  | .func _ kind params none, h => by
    have hparams := resolveAll_looksUp params h.2
    cases kind with
    | proc => exact hparams.map fun _ => .proc
    | func => exact hparams.map fun _ => .unitFunc
    | lambda => exact absurd rfl h.1
  | .func info kind params (some ret), h => by
    have hfunc : kind = .func := h.1
    subst hfunc
    have hnames : names (.func info .func params (some ret)) = namesAll params ++ ret.names := by
      simp [names, namesAll]
    rw [hnames]
    exact (resolveAll_looksUp params h.2.1).bind fun _ hparams =>
      (resolve_looksUp ret h.2.2).map fun _ hret => .func hparams hret
  | .qualified _ qualifier inner, h => (resolve_looksUp inner h).map fun _ => .qualified

theorem resolveAll_looksUp : ∀ ts : List TypeExpr, typesWritten ts →
    LooksUp (namesAll ts) (List.Forall₂ Shape ts) (resolveAll ts)
  | [], _ => .pure .nil
  | t :: rest, h => by
    have hnames : namesAll (t :: rest) = t.names ++ namesAll rest := by simp [names, namesAll]
    rw [hnames]
    exact (resolve_looksUp t h.1).bind fun _ ht =>
      (resolveAll_looksUp rest h.2).map fun _ hrest => .cons ht hrest

end

mutual

/-- The parts of an annotation that can be written down can be written down. -/
theorem Written.of_mem_parts : ∀ {t : TypeExpr}, t.Written → ∀ u ∈ t.parts, u.Written
  | .primary .., h, u, hu => by
    obtain rfl | hu := List.mem_cons.mp hu
    · exact h
    · exact written_of_mem_partsAll h u hu
  | .array _ elem, h, u, hu => by
    obtain rfl | hu := List.mem_cons.mp hu
    · exact h
    · exact Written.of_mem_parts (t := elem) h u hu
  | .dict _ key value, h, u, hu => by
    obtain rfl | hu := List.mem_cons.mp hu
    · exact h
    · exact (List.mem_append.mp hu).elim (Written.of_mem_parts h.1 u) (Written.of_mem_parts h.2 u)
  | .tuple .., h, u, hu => by
    obtain rfl | hu := List.mem_cons.mp hu
    · exact h
    · exact written_of_mem_partsAll h.2 u hu
  | .func _ _ _ none, h, u, hu => by
    obtain rfl | hu := List.mem_cons.mp hu
    · exact h
    · exact written_of_mem_partsAll h.2 u hu
  | .func _ _ _ (some _), h, u, hu => by
    obtain rfl | hu := List.mem_cons.mp hu
    · exact h
    · exact (List.mem_append.mp hu).elim (written_of_mem_partsAll h.2.1 u)
        (Written.of_mem_parts h.2.2 u)
  | .qualified _ _ inner, h, u, hu => by
    obtain rfl | hu := List.mem_cons.mp hu
    · exact h
    · exact Written.of_mem_parts (t := inner) h u hu

theorem written_of_mem_partsAll : ∀ {ts : List TypeExpr}, typesWritten ts →
    ∀ u ∈ partsAll ts, u.Written
  | [], _, _, hu => nomatch hu
  | _ :: _, h, u, hu =>
    (List.mem_append.mp hu).elim (Written.of_mem_parts h.1 u) (written_of_mem_partsAll h.2 u)

end

end TypeExpr

/-- Of every annotation that was read from tokens, and of every annotation in it: it denotes a type
just if all its names stand for types, the type has its shape, and otherwise the first name that
does not is reported where it stands. -/
theorem Parse.typeExpr_resolve {power : Power} {s s' : TokenStream} {whole : TypeExpr}
    (h : Parse.typeExpr power s = .ok whole s') : ∀ t ∈ whole.parts,
    ((∃ type, t.resolve = .ok type) ↔ ∀ name ∈ t.names, name.NamesType) ∧
    (∀ type, t.resolve = .ok type → t.Shape type) ∧
    ∀ e, t.resolve = .error e → ∃ before name after,
      t.names = before ++ name :: after ∧ (∀ n ∈ before, n.NamesType) ∧ ¬ name.NamesType ∧
        e = ⟨.unknownType name.toText, name.position⟩ := by
  intro t ht
  have hwhole : whole.Written := ((Parse.typeExpr_mints power s).of_ok h).2.2
  have hlooks := t.resolve_looksUp (hwhole.of_mem_parts t ht)
  cases hrun : t.resolve with
  | ok type =>
    rw [hrun] at hlooks
    refine ⟨⟨fun _ => hlooks.1, fun _ => ⟨type, rfl⟩⟩, fun u hu => ?_, nofun⟩
    cases hu
    exact hlooks.2
  | error e =>
    rw [hrun] at hlooks
    obtain ⟨before, name, after, hnames, hbefore, hname, he⟩ := hlooks
    have hmem : name ∈ t.names := by simp [hnames]
    refine ⟨⟨fun ⟨_, hok⟩ => (nomatch hok), fun hall => absurd (hall name hmem) hname⟩, nofun,
      fun u hu => ?_⟩
    cases hu
    exact ⟨before, name, after, hnames, hbefore, hname, he⟩

/-- An annotation that running the reader shows is read. -/
theorem Parse.exists_annotation {α : Type} (source : String) (f : TypeExpr → α) {a : α}
    (h : (Token.tokenize source "main").toOption.bind (fun tokens =>
      match Parse.typeExpr .default (.ofTokens tokens "main" 0) with
      | .ok t _ => some (f t)
      | .error .. => none) = some a) :
    ∃ s t rest, Parse.typeExpr .default s = .ok t rest ∧ f t = a := by
  obtain ⟨tokens, -, hread⟩ := Option.bind_eq_some_iff.mp h
  split at hread
  · rename_i t rest hparse
    exact ⟨_, t, rest, hparse, Option.some.inj hread⟩
  · cases hread

/-- Of three unknown names, the one in front of its own argument is reported. -/
theorem Parse.typeExpr_resolve_first : ∃ s t rest, Parse.typeExpr .default s = .ok t rest ∧
    t.resolve = .error ⟨.unknownType "list(point)", ⟨17, 1, 18, "main"⟩⟩ ∧
    ∃ before name after, t.names = before ++ name :: after ∧ (∀ n ∈ before, n.NamesType) ∧
      ¬ name.NamesType ∧ name.toText = "list(point)" := by
  obtain ⟨s, t, rest, hparse, hrun⟩ := exists_annotation
    "func(range(int), list(point)) : \x7bstring => set?\x7d" TypeExpr.resolve
    (a := .error ⟨.unknownType "list(point)", ⟨17, 1, 18, "main"⟩⟩) (by decide +kernel)
  have hself : t ∈ t.parts := t.mem_parts
  obtain ⟨before, name, after, hnames, hbefore, hname, hcause⟩ :=
    (typeExpr_resolve hparse t hself).2.2 _ hrun
  have htext : name.toText = "list(point)" := by
    injection hcause with hcause _
    exact (Cause.unknownType.inj hcause).symm
  exact ⟨s, t, rest, hparse, hrun, before, name, after, hnames, hbefore, hname, htext⟩

end Frontend
