import Frontend.Proofs.Parser.Mints
import Frontend.Proofs.Printing.Reading
import Frontend.Proofs.Printing.Regroup
import Frontend.Token.Lexer

/-!
# Printed types read back

The text of an annotated type denotes the type itself just if the type is readable
(`readType_toText`). Otherwise it denotes the regrouped type, or it holds two ampersands side by
side: their token is no part of any annotation, so the reader never gets past it.
-/

namespace Frontend

/-- Reads the type that a source text denotes as an annotation, with the tokens behind it. -/
def readType (source file : String) (firstId : Nat) : Except Failure (Ty × TokenStream) := do
  let tokens ← (Token.tokenize source file).mapError .error
  match Parse.typeExpr .default (.ofTokens tokens file firstId) with
  | .ok annotation rest => return (← annotation.resolve.mapError .error, rest)
  | .error failure _ => throw failure

/-! ### Annotated types -/

mutual

/-- What an annotation that was read from tokens denotes is an annotated type. -/
theorem TypeExpr.Written.resolve : ∀ {e : TypeExpr} {t : Ty}, e.Written → e.resolve = .ok t →
    t.Annotated
  | .primary info name args, t, h, ht => by
    rw [TypeExpr.Written] at h
    unfold TypeExpr.resolve at ht
    split at ht
    · cases ht
      trivial
    · split at ht
      · obtain ⟨u, hu, hrest⟩ := bind_eq_ok.mp ht
        cases hrest
        exact ⟨rfl, rfl, TypeExpr.Written.resolve h.1 hu, trivial⟩
      · cases ht
    · cases ht
  | .array _ elem, t, h, ht => by
    rw [TypeExpr.Written] at h
    obtain ⟨u, hu, hrest⟩ := bind_eq_ok.mp ht
    cases hrest
    have hinner : u.Annotated := TypeExpr.Written.resolve h hu
    exact hinner
  | .dict _ key value, t, h, ht => by
    rw [TypeExpr.Written] at h
    obtain ⟨k, hk, hrest⟩ := bind_eq_ok.mp ht
    obtain ⟨v, hv, hrest⟩ := bind_eq_ok.mp hrest
    cases hrest
    exact ⟨TypeExpr.Written.resolve h.1 hk, TypeExpr.Written.resolve h.2 hv⟩
  | .tuple _ elems, t, h, ht => by
    rw [TypeExpr.Written] at h
    obtain ⟨us, hus, hrest⟩ := bind_eq_ok.mp ht
    cases hrest
    obtain ⟨hlength, hall⟩ := typesWritten_resolve h.2 hus
    exact ⟨hlength.trans_ne h.1, hall⟩
  | .func _ kind params none, t, h, ht => by
    rw [TypeExpr.Written] at h
    cases kind with
    | lambda => exact absurd rfl h.1
    | proc =>
      obtain ⟨us, hus, hrest⟩ := bind_eq_ok.mp ht
      cases hrest
      exact (typesWritten_resolve h.2 hus).2
    | func =>
      obtain ⟨us, hus, hrest⟩ := bind_eq_ok.mp ht
      cases hrest
      exact ⟨(typesWritten_resolve h.2 hus).2, Nat.zero_ne_one, trivial⟩
  | .func _ kind params (some ret), t, h, ht => by
    rw [TypeExpr.Written] at h
    obtain ⟨rfl, hparams, hret⟩ := h
    obtain ⟨us, hus, hrest⟩ := bind_eq_ok.mp ht
    obtain ⟨u, hu, hrest⟩ := bind_eq_ok.mp hrest
    cases hrest
    exact ⟨(typesWritten_resolve hparams hus).2, TypeExpr.Written.resolve hret hu⟩
  | .qualified _ _ inner, t, h, ht => by
    rw [TypeExpr.Written] at h
    obtain ⟨u, hu, hrest⟩ := bind_eq_ok.mp ht
    cases hrest
    have hinner : u.Annotated := TypeExpr.Written.resolve h hu
    exact hinner

theorem typesWritten_resolve : ∀ {es : List TypeExpr} {ts : List Ty}, typesWritten es →
    TypeExpr.resolveAll es = .ok ts → ts.length = es.length ∧ Ty.allAnnotated ts
  | [], _, _, rfl => ⟨rfl, trivial⟩
  | e :: es, ts, h, ht => by
    rw [typesWritten] at h
    obtain ⟨u, hu, hrest⟩ := bind_eq_ok.mp ht
    obtain ⟨us, hus, hrest⟩ := bind_eq_ok.mp hrest
    cases hrest
    have hall := typesWritten_resolve h.2 hus
    exact ⟨congrArg Nat.succ hall.1, TypeExpr.Written.resolve h.1 hu, hall.2⟩

end

/-! ### A token that no annotation holds -/

namespace Parse

variable {α β : Type} {s : TokenStream}

/-- From the stream `s` a parser consumes no token of two ampersands. -/
def Spares (s : TokenStream) (act : Parse α) : Prop :=
  Ensures (fun _ _ => True) act s fun _ t =>
    TokenKind.and ∈ s.rest.map Token.kind → TokenKind.and ∈ t.rest.map Token.kind

namespace Spares

theorem pure {a : α} : Spares s (pure a) := Ensures.pure id

theorem bind {act : Parse α} {f : α → Parse β} (h : Spares s act)
    (hf : ∀ a t, act s = .ok a t → Spares t (f a)) : Spares s (act >>= f) :=
  Ensures.bind (h.imp fun a t hrun ht => (hf a t hrun).imp fun _ _ _ hu hs => hu (ht hs))

end Spares

theorem advance_spares (hk : s.kind ≠ .and) : Spares s advance := by
  refine Ensures.bind (.get (.bind (.set (.pure fun hs => ?_))))
  unfold TokenStream.kind TokenStream.current at hk
  cases hrest : s.rest with
  | nil =>
    rw [hrest] at hs
    cases hs
  | cons token rest =>
    rw [hrest] at hs hk
    simp only [TokenStream.advance, hrest, List.tail_cons]
    exact (List.mem_cons.mp hs).resolve_left fun heq => hk heq.symm

theorem kind_spares {f : TokenKind → Parse α} (h : Spares s (f s.kind)) :
    Spares s (kind >>= f) :=
  Ensures.bind (.bind (.get (.pure h)))

theorem fail_spares {message : String} : Spares s (fail message : Parse α) :=
  Ensures.bind (.get (.throw trivial))

theorem expect_spares {k : TokenKind} (hk : k ≠ .and) : Spares s (expect k) := by
  refine kind_spares ?_
  split
  · next heq => exact advance_spares (heq ▸ hk)
  · exact fail_spares

theorem eat_spares {k : TokenKind} (hk : k ≠ .and) : Spares s (eat k) := by
  refine kind_spares ?_
  split
  · next heq => exact (advance_spares (heq ▸ hk)).bind fun _ _ _ => .pure
  · exact .pure

theorem infoFrom_spares {start : Position} : Spares s (infoFrom start) :=
  Ensures.bind (.get (.bind (.modifyGet (.pure id))))

theorem outOfFuel_spares : Spares s (outOfFuel : Parse α) := Ensures.throw trivial

theorem bounded_spares {p : Nat → Parse α} (h : ∀ n, Spares s (p n)) : Spares s (bounded p) :=
  Ensures.bind (.get (h _))

theorem listUntil_spares {stops : TokenKind → Bool} {item : Parse α}
    (h : ∀ s, Spares s item) (n : Nat) : Spares s (listUntil stops item n) := by
  induction n generalizing s with
  | zero => exact outOfFuel_spares
  | succ n ih =>
    refine kind_spares ?_
    split
    · exact .pure
    · refine (h s).bind fun _ _ _ => (eat_spares (by decide)).bind fun _ _ _ => ?_
      split
      · exact ih.bind fun _ _ _ => .pure
      · exact .pure

section

variable {nested : Power → Parse TypeExpr} (h : ∀ s power, Spares s (nested power))
include h

theorem typeList_spares {close : TokenKind} : Spares s (typeList nested close) :=
  bounded_spares fun n => listUntil_spares (fun s => h s .default) n

theorem primaryType_spares : Spares s (primaryType nested) := by
  refine (expect_spares (by decide)).bind fun _ _ _ => (eat_spares (by decide)).bind fun _ _ _ => ?_
  dsimp only
  split
  · exact (typeList_spares h).bind fun _ _ _ => (expect_spares (by decide)).bind fun _ _ _ =>
      Spares.pure.bind fun _ _ _ => infoFrom_spares.bind fun _ _ _ => .pure
  · exact Spares.pure.bind fun _ _ _ => infoFrom_spares.bind fun _ _ _ => .pure

theorem arrayType_spares (hk : s.kind ≠ .and) : Spares s (arrayType nested) :=
  (advance_spares hk).bind fun _ t _ => (h t .default).bind fun _ _ _ =>
    (expect_spares (by decide)).bind fun _ _ _ => infoFrom_spares.bind fun _ _ _ => .pure

theorem dictType_spares (hk : s.kind ≠ .and) : Spares s (dictType nested) :=
  (advance_spares hk).bind fun _ t _ => (h t .default).bind fun _ _ _ =>
    (expect_spares (by decide)).bind fun _ u _ => (h u .default).bind fun _ _ _ =>
    (expect_spares (by decide)).bind fun _ _ _ => infoFrom_spares.bind fun _ _ _ => .pure

theorem tupleType_spares (hk : s.kind ≠ .and) : Spares s (tupleType nested) := by
  refine (advance_spares hk).bind fun _ _ _ => (typeList_spares h).bind fun _ _ _ =>
    (expect_spares (by decide)).bind fun _ _ _ => ?_
  split
  · exact .pure
  · exact infoFrom_spares.bind fun _ _ _ => .pure

theorem funcType_spares (hk : s.kind ≠ .and) : Spares s (funcType nested) := by
  refine (advance_spares hk).bind fun _ _ _ => (expect_spares (by decide)).bind fun _ _ _ =>
    (typeList_spares h).bind fun _ _ _ => (expect_spares (by decide)).bind fun _ _ _ => ?_
  have hret : ∀ t, Spares t (optional .colon (nested .default)) := fun t => by
    refine (eat_spares (by decide)).bind fun _ u _ => ?_
    split
    · exact (h u .default).bind fun _ _ _ => .pure
    · exact .pure
  have hproc : ∀ t, Spares t (Pure.pure none : Parse (Option TypeExpr)) := fun _ => .pure
  have hrest : ∀ {act : Parse (Option TypeExpr)} {f : Option TypeExpr → NodeInfo → TypeExpr}
      {start : Position} {t : TokenStream}, Spares t act →
      Spares t (do let ret ← act; return f ret (← infoFrom start)) :=
    fun hact => hact.bind fun _ _ _ => infoFrom_spares.bind fun _ _ _ => .pure
  dsimp only
  split <;> split
  · exact hrest (hret _)
  · exact hrest (hproc _)
  · exact hrest (hret _)
  · exact hrest (hproc _)

theorem refType_spares (hk : s.kind ≠ .and) : Spares s (refType nested) :=
  (advance_spares hk).bind fun _ t _ => (h t .member).bind fun _ _ _ =>
    infoFrom_spares.bind fun _ _ _ => .pure

theorem typeOperand_spares : Spares s (typeOperand nested) := by
  refine kind_spares ?_
  split
  · exact primaryType_spares h
  · next hk => exact arrayType_spares h (by rw [hk]; decide)
  · next hk => exact dictType_spares h (by rw [hk]; decide)
  · next hk => exact tupleType_spares h (by rw [hk]; decide)
  · next hk => exact funcType_spares h (by rw [hk]; decide)
  · next hk => exact funcType_spares h (by rw [hk]; decide)
  · next hk => exact refType_spares h (by rw [hk]; decide)
  · exact fail_spares

end

theorem typeSuffixes_spares (power : Power) (left : TypeExpr) (n : Nat) :
    Spares s (typeSuffixes power left n) := by
  induction n generalizing left s with
  | zero => exact outOfFuel_spares
  | succ n ih =>
    rw [typeSuffixes]
    split
    · exact .pure
    · refine (eat_spares (by decide)).bind fun _ _ _ => ?_
      split
      · exact infoFrom_spares.bind fun _ _ _ => ih _
      · exact .pure

theorem typeExprAt_spares (n : Nat) (power : Power) : Spares s (typeExprAt n power) := by
  induction n generalizing power s with
  | zero => exact outOfFuel_spares
  | succ n ih =>
    exact (typeOperand_spares fun s power => ih power).bind fun left _ _ =>
      bounded_spares fun n => typeSuffixes_spares power left n

theorem typeExpr_spares (power : Power) : Spares s (typeExpr power) :=
  bounded_spares fun n => typeExprAt_spares n power

end Parse

/-! ### Reading the text of a type -/

namespace Ty

variable {source file : String} {firstId : Nat} {t u : Ty} {rest : TokenStream}

theorem readType_eq_ok (h : readType source file firstId = .ok (t, rest)) :
    ∃ tokens annotation, Token.tokenize source file = .ok tokens ∧
      Parse.typeExpr .default (.ofTokens tokens file firstId) = .ok annotation rest ∧
      annotation.resolve = .ok t := by
  obtain ⟨tokens, htokens, h⟩ := bind_eq_ok.mp h
  cases hscan : Token.tokenize source file with
  | error e =>
    rw [hscan] at htokens
    cases htokens
  | ok found =>
    rw [hscan] at htokens
    cases htokens
    cases hparse : Parse.typeExpr .default (.ofTokens tokens file firstId) with
    | error e s =>
      rw [hparse] at h
      cases h
    | ok annotation s =>
      rw [hparse] at h
      obtain ⟨u, hu, hrest⟩ := bind_eq_ok.mp h
      cases hresolve : annotation.resolve with
      | error e =>
        rw [hresolve] at hu
        cases hu
      | ok v =>
        rw [hresolve] at hu
        cases hu
        cases hrest
        exact ⟨tokens, annotation, rfl, hparse, hresolve⟩

/-- What is read as an annotation is an annotated type. -/
theorem readType_annotated (h : readType source file firstId = .ok (t, rest)) : t.Annotated := by
  obtain ⟨tokens, annotation, -, hparse, hresolve⟩ := readType_eq_ok h
  exact ((Parse.typeExpr_mints .default _).of_ok hparse).2.2.resolve hresolve

/-- The text of a type denotes the regrouped type. -/
theorem readType_regroup (ht : t.Annotated) (hu : t.regroup = some u) (file : String)
    (firstId : Nat) : ∃ rest, readType t.toText file firstId = .ok (u, rest) ∧
      rest.ahead = [sign .eof] := by
  have hd := regroup_denotes ht hu
  obtain ⟨tokens, htokens, hseen⟩ := (cuts_of_regroup ht hu).tokenize nofun file
  have hread := Parse.typeExpr_reads hd.annotated hd.readable (k := .eof) ⟨by decide, by decide⟩
    (s := .ofTokens tokens file firstId) hseen
  cases hrun : Parse.typeExpr .default (.ofTokens tokens file firstId) with
  | error e s => exact (hread.of_error hrun).elim
  | ok annotation s =>
    obtain ⟨hahead, hdenotes⟩ := hread.of_ok hrun
    refine ⟨s, ?_, hahead⟩
    have hresolve : annotation.resolve = .ok u := hdenotes
    rw [readType, htokens]
    show (match Parse.typeExpr .default (.ofTokens tokens file firstId) with
      | .ok annotation rest => do return (← annotation.resolve.mapError .error, rest)
      | .error failure _ => throw failure : Except Failure (Ty × TokenStream)) = _
    rw [hrun]
    dsimp only
    rw [hresolve]
    rfl

/-- The reader stops in front of two ampersands side by side. -/
theorem readType_clash (ht : t.Annotated) (hnone : t.regroup = none)
    (h : readType t.toText file firstId = .ok (u, rest)) : rest.ahead ≠ [sign .eof] := by
  obtain ⟨tokens, annotation, htokens, hparse, -⟩ := readType_eq_ok h
  have hand := (clashes_of_regroup ht hnone).tokenize htokens
  have hrest := (Parse.typeExpr_spares .default).of_ok hparse hand
  intro hend
  have hkinds : rest.rest.map Token.kind = rest.ahead.map Prod.fst := by
    rw [TokenStream.ahead, List.map_map]
    rfl
  rw [hkinds, hend] at hrest
  exact absurd hrest (by decide)

/-- The text of an annotated type denotes the type just if the type is readable, so two readable
types have different texts. -/
theorem readType_toText (h : readType source file firstId = .ok (t, rest)) :
    (∀ file' firstId', (∃ rest', readType t.toText file' firstId' = .ok (t, rest') ∧
      rest'.ahead = [sign .eof]) ↔ t.Readable) ∧
    ∀ {source' file' : String} {firstId' : Nat} {u : Ty} {rest' : TokenStream},
      readType source' file' firstId' = .ok (u, rest') → t.Readable → u.Readable →
      t.toText = u.toText → t = u := by
  have ht := readType_annotated h
  refine ⟨fun file' firstId' => ⟨fun ⟨rest', hread, hend⟩ => ?_, fun hr => ?_⟩, ?_⟩
  · cases hu : t.regroup with
    | none => exact absurd hend (readType_clash ht hu hread)
    | some u =>
      obtain ⟨rest'', hregroup, -⟩ := readType_regroup ht hu file' firstId'
      rw [hread] at hregroup
      cases hregroup
      exact (regroup_denotes ht hu).readable
  · exact readType_regroup ht (regroup_of_readable hr) file' firstId'
  · intro source' file' firstId' u rest' hu hrt hru htext
    obtain ⟨_, hreadt, -⟩ := readType_regroup ht (regroup_of_readable hrt) file firstId
    obtain ⟨_, hreadu, -⟩ := readType_regroup (readType_annotated hu) (regroup_of_readable hru)
      file firstId
    rw [htext, hreadu] at hreadt
    cases hreadt
    rfl

/-- A type that running the reader shows is read. -/
theorem exists_readType (source : String) (t : Ty)
    (h : (readType source "main" 0).toOption.map Prod.fst = some t) :
    ∃ rest, readType source "main" 0 = .ok (t, rest) := by
  cases hrun : readType source "main" 0 with
  | error e =>
    rw [hrun] at h
    cases h
  | ok r =>
    rw [hrun] at h
    cases h
    exact ⟨r.2, rfl⟩

/-- In a dictionary, a reference that may be missing is read back. -/
theorem readType_toText_dict : ∃ rest, ∃ t : Ty,
    readType "\x7bstring => (&int)?\x7d" "main" 0 = .ok (t, rest) ∧ t.Readable ∧
      ∀ file firstId, ∃ rest', readType t.toText file firstId = .ok (t, rest') ∧
        rest'.ahead = [sign .eof] := by
  obtain ⟨rest, hread⟩ := exists_readType "\x7bstring => (&int)?\x7d"
    (.dict .string (.qualified (some .maybe) (.qualified (some .ref) .int))) (by decide +kernel)
  have hr : (dict .string (.qualified (some .maybe) (.qualified (some .ref) .int))).Readable := by
    simp [isQualified, endsWithResult]
  exact ⟨rest, _, hread, hr, fun file firstId => ((readType_toText hread).1 file firstId).2 hr⟩

/-- The text of a reference to a reference denotes nothing, and a reference to what may be missing
has the text of a reference that may be missing. -/
theorem readType_ambiguous :
    (∃ t rest, readType "& &int" "main" 0 = .ok (t, rest) ∧
      ∀ r, readType t.toText "main" 0 ≠ .ok r) ∧
    ∃ t u rest rest', readType "&(int?)" "main" 0 = .ok (t, rest) ∧
      readType t.toText "main" 0 = .ok (u, rest') ∧ t ≠ u ∧ t.toText = u.toText := by
  constructor
  · obtain ⟨rest, hread⟩ := exists_readType "& &int"
      (.qualified (some .ref) (.qualified (some .ref) .int)) (by decide +kernel)
    refine ⟨_, rest, hread, fun r hr => ?_⟩
    have hnone : (readType "&&int" "main" 0).toOption.map Prod.fst = none := by decide +kernel
    have hsome := congrArg (fun result => result.toOption.map Prod.fst) hr
    exact nomatch hnone.symm.trans hsome
  · obtain ⟨rest, hread⟩ := exists_readType "&(int?)"
      (.qualified (some .ref) (.qualified (some .maybe) .int)) (by decide +kernel)
    obtain ⟨rest', hread'⟩ := exists_readType "&int?"
      (.qualified (some .maybe) (.qualified (some .ref) .int)) (by decide +kernel)
    exact ⟨_, _, rest, rest', hread, hread', by decide, by decide⟩

end Ty

end Frontend
