import Frontend.Proofs.Parser.Program
import Frontend.Proofs.Rendering.Stmt

/-!
# Reading rendered programs

A program that can be written down is read back from its rendering, up to ids and spans. What is
read from tokens can be written down, so reading inverts rendering on every program.
-/

namespace Frontend

variable {σ : Spelling}

/-- A definition begins with its keyword. -/
theorem Definition.text_begins {d : Definition} (hd : d.Written) (more : List Lexeme) :
    Parse.Begins (fun k => k ≠ .ensure ∧ k ≠ .eof) (d.text σ ++ more) := by
  cases d with
  | function d => exact ⟨d.kind.token, "", _, rfl, by cases d.kind <;> decide⟩
  | constant d => exact ⟨.const, "", _, rfl, by decide⟩

namespace Parse

/-- A procedure has no result type to read. -/
theorem returnType_recovers {kind : FuncKind} {ret : Option TypeExpr}
    (hret : ∀ t ∈ ret, t.Written) (hproc : kind = .proc → ret = none) :
    Recovers (returnType kind) (annotationText ret) (fun k => k ≠ .question ∧ k ≠ .colon)
      fun type => type.map TypeExpr.erase = ret.map TypeExpr.erase := by
  intro s k v more hk hs
  have hread := optionalType_recovers hret hk hs
  cases ret with
  | none =>
    refine .bind (kind_yields hs ?_)
    rw [if_neg fun h => hk.2 h.1]
    exact hread
  | some t =>
    refine .bind (kind_yields (k := .colon) hs ?_)
    rw [if_neg fun h => nomatch hproc h.2]
    exact hread

theorem function_recovers {d : FuncDef} (hnamed : d.IsNamed) (hd : d.Written) :
    Recovers (function d.kind) (d.text σ) (· ≠ .ensure) fun b => b.erase = d.erase := by
  intro s k v more hk hs
  obtain ⟨info, kind, name, params, ret, body, ensureBody⟩ := d
  obtain ⟨hkind, hproc⟩ := hnamed
  dsimp only at hkind hproc
  rw [FuncDef.Written] at hd
  obtain ⟨hparams, hret, hbody, hensure⟩ := hd
  simp only [FuncDef.text, paramsText, parens, List.cons_append, List.append_assoc,
    List.nil_append] at hs
  have htype := returnType_recovers hret hproc
  have hblock := (nested_recovering σ ((body.text σ).length + 1)).block hbody (Nat.lt_succ_self _)
  have hoptional := optionalBlock_recovers (nested_recovering σ _) .ensure hensure (Nat.le_refl _)
  have hafter : Begins (fun _ => True) (blockText σ .ensure ensureBody ++ (k, v) :: more) :=
    blockText_then σ .ensure ensureBody trivial ⟨k, v, more, rfl, trivial⟩
  refine .bind (advance_yields hs fun keyword t _ ht => ?_)
  refine .bind (name_yields ht fun u hu => ?_)
  refine .bind (expect_yields hu fun _ w _ hw => ?_)
  refine .bind ((params_recovers hparams rfl rfl rfl rfl hw).imp fun ps x _ hps => ?_)
  refine .bind (expect_yields hps.1 fun _ y _ hy => ?_)
  refine .bind ((htype.before (body.text_then σ _ (by decide)) hy).imp fun type z _ hz => ?_)
  refine .bind ((hblock.before hafter hz.1).imp fun b a _ hb => ?_)
  refine .bind ((hoptional hk hb.1).imp fun e c _ he => ?_)
  refine .bind (infoFrom_yields fun info i hi => .pure ⟨hi.trans he.1, ?_⟩)
  simp only [FuncDef.erase, eraseName_of_ne hkind, eraseBlock_eq, hps.2, hz.2, hb.2, he.2]

theorem constDecl_recovers {c : ConstDecl} (hc : c.Written) :
    Recovers constDecl c.text (fun k => k ≠ .question ∧ k ≠ .colon)
      fun b => b.erase = c.erase := by
  intro s k v more hk hs
  refine .bind (position_yields (.bind (name_yields hs fun t ht => ?_)))
  refine .bind ((optionalType_recovers hc hk ht).imp fun type u _ hu => ?_)
  refine .bind (infoFrom_yields fun info w hw => .pure ⟨hw.trans hu.1, ?_⟩)
  simp only [ConstDecl.erase, hu.2]

theorem constant_recovers {d : ConstDef} (hd : (Definition.constant d).Written) :
    Recovers constant (d.text σ) (fun _ => True) fun b => b.erase = d.erase := by
  intro s k v more _ hs
  obtain ⟨hne, hvne, hdecls, hvalues⟩ := hd
  simp only [ConstDef.text, List.cons_append, List.append_assoc, List.nil_append] at hs
  have hread : Recovers (bounded (commaList constDecl)) (listed (d.decls.map ConstDecl.text))
      (fun k => (k ≠ .question ∧ k ≠ .colon) ∧ k ≠ .comma)
      fun cs => cs.map ConstDecl.erase = d.decls.map ConstDecl.erase := by
    refine bounded_recovers fun n hn => ?_
    have hcount := length_le_listed d.decls
      fun c => show c.text ≠ [] from List.cons_ne_nil _ _
    exact commaList_recovers _ hne (by omega) (by decide) fun c hc =>
      constDecl_recovers (hdecls c hc)
  have hlist := exprList_recovers (nested_recovering σ _) hvne hvalues (Nat.lt_succ_self _)
  refine .bind (advance_yields hs fun keyword t _ ht => ?_)
  refine .bind ((hread (k := .assignment) (by decide) ht).imp fun cs u _ hcs => ?_)
  refine .bind (expectOr_yields hcs.1 fun _ w _ hw => ?_)
  refine .bind ((hlist (k := .semicolon) ⟨rfl, by decide⟩ hw).imp fun vs x _ hvs => ?_)
  refine .bind (expect_yields hvs.1 fun _ y _ hy => ?_)
  refine .bind (infoFrom_yields fun info z hz => .pure ⟨hz.trans hy, ?_⟩)
  simp only [ConstDef.erase, hcs.2, hvs.2]

theorem definition_recovers {d : Definition} (hd : d.Written) :
    Recovers definition (d.text σ) (· ≠ .ensure) fun b => b.erase = d.erase := by
  intro s k v more hk hs
  cases d with
  | constant d =>
    refine .bind (kind_yields (k := .const) hs ?_)
    refine .bind ((constant_recovers hd trivial hs).imp fun b t _ hb => .pure ⟨hb.1, ?_⟩)
    exact congrArg Definition.constant hb.2
  | function d =>
    obtain ⟨hnamed, hd⟩ := hd
    have hread := function_recovers hnamed hd hk hs
    have htail : Yields (do return Definition.function (← function d.kind) : Parse Definition) s
        fun b t => t.ahead = (k, v) :: more ∧ b.erase = (Definition.function d).erase :=
      .bind (hread.imp fun b t _ hb => .pure ⟨hb.1, congrArg Definition.function hb.2⟩)
    refine .bind (kind_yields (k := d.kind.token) hs ?_)
    have hkind := hnamed.kind
    cases hk : d.kind with
    | proc => rwa [hk] at htail
    | func => rwa [hk] at htail
    | lambda => exact absurd hk hkind

/-- Definitions are read up to the end of the file. -/
theorem definitions_recovers {ds : List Definition} {n : Nat} (hn : ds.length < n)
    (hds : ∀ d ∈ ds, d.Written) :
    Recovers (definitions n) (ds.flatMap (Definition.text σ)) (· = .eof)
      fun bs => bs.map Definition.erase = ds.map Definition.erase := by
  intro s k v more hk hs
  subst hk
  induction ds generalizing n s with
  | nil =>
    obtain ⟨n, rfl⟩ : ∃ p, n = p + 1 := ⟨n - 1, by omega⟩
    rw [definitions]
    refine .bind (.get ?_)
    rw [if_neg (by simp [TokenStream.hasTokens, kind_eq hs])]
    exact .pure ⟨hs, rfl⟩
  | cons d rest ih =>
    obtain ⟨n, rfl⟩ : ∃ p, n = p + 1 := ⟨n - 1, by omega⟩
    rw [List.forall_mem_cons] at hds
    rw [List.flatMap_cons, List.append_assoc] at hs
    obtain ⟨k₁, v₁, tail, hhead, hk₁⟩ := Definition.text_begins hds.1
      (rest.flatMap (Definition.text σ) ++ (.eof, v) :: more)
    have hkind : s.kind = k₁ := kind_eq (hs.trans hhead)
    have hafter : Begins (· ≠ .ensure) (rest.flatMap (Definition.text σ) ++ (.eof, v) :: more) := by
      cases rest with
      | nil => exact ⟨_, _, _, rfl, by decide⟩
      | cons next rest =>
        rw [List.flatMap_cons, List.append_assoc]
        rw [List.forall_mem_cons] at hds
        obtain ⟨k₂, v₂, tail, hhead, hk₂⟩ := Definition.text_begins hds.2.1 _
        exact ⟨k₂, v₂, tail, hhead, hk₂.1⟩
    rw [definitions]
    refine .bind (.get ?_)
    rw [if_pos (by simp [TokenStream.hasTokens, hkind, hk₁.2])]
    refine .bind (((definition_recovers hds.1).before hafter hs).imp fun b t _ hb => ?_)
    exact .bind ((ih (Nat.lt_of_succ_lt_succ hn) hds.2 hb.1).imp
      fun bs u _ hbs => .pure ⟨hbs.1, cons_view hb.2 hbs.2⟩)

theorem program_recovers {p : Program} (hp : p.Written) :
    Recovers program (p.definitions.flatMap (Definition.text σ)) (· = .eof)
      fun q => q.erase = p.erase := by
  intro s k v more hk hs
  have hread : Recovers (bounded definitions) (p.definitions.flatMap (Definition.text σ))
      (· = .eof) fun bs => bs.map Definition.erase = p.definitions.map Definition.erase := by
    refine bounded_recovers fun n hn => definitions_recovers ?_ hp
    have hcount := length_le_length_flatMap (Definition.text σ) p.definitions fun d => by
      cases d <;> exact List.cons_ne_nil _ _
    omega
  refine .bind (position_yields ?_)
  refine .bind ((hread hk hs).imp fun ds t _ hds => ?_)
  refine .bind (infoFrom_yields fun info u hu => .pure ⟨hu.trans hds.1, ?_⟩)
  simp only [Program.erase, hds.2]

end Parse

namespace Program

/-- A program that can be written down is read back from any tokens that show its rendering. -/
theorem Written.parse {p : Program} (hp : p.Written) {tokens : List Token}
    (htokens : tokens.map Token.lexeme = p.text σ) (file : String) (firstId : Nat) :
    ∃ q nextId, Program.parse tokens file firstId = .ok (q, nextId) ∧ q.erase = p.erase := by
  have hread := Parse.program_recovers hp (s := .ofTokens tokens file firstId) rfl htokens
  rw [Program.parse]
  cases hrun : Parse.program.run (.ofTokens tokens file firstId) with
  | ok q t => exact ⟨q, t.nextId, rfl, (hread.of_ok hrun).2⟩
  | error e t => exact (hread.of_error hrun).elim

/-- Reading inverts rendering. A program that was read from tokens has a rendering, with its
literals spelled in any way that stands for them, and from all tokens that show this rendering the
same program is read, up to ids and spans. -/
theorem parse_rendered {tokens : List Token} {file : String} {firstId nextId : Nat} {p : Program}
    (h : Program.parse tokens file firstId = .ok (p, nextId)) (σ : Spelling) :
    (p.rendered σ).map Token.lexeme = p.text σ ∧
      ∀ rendering : List Token, rendering.map Token.lexeme = p.text σ →
        ∀ (file' : String) (firstId' : Nat), ∃ q nextId',
          Program.parse rendering file' firstId' = .ok (q, nextId') ∧ q.erase = p.erase :=
  ⟨p.rendered_lexemes, fun _ hrendering file' firstId' =>
    (parse_written h).2.parse hrendering file' firstId'⟩

/-- A lambda whose body is written without braces gets them in the rendering. -/
theorem parse_rendered_lambda :
    ∃ (tokens : List Token) (p : Program) (nextId : Nat),
      Program.parse tokens "main" 0 = .ok (p, nextId) ∧
      ∀ σ : Spelling, (p.rendered σ).map Token.lexeme = p.text σ ∧
        ∀ rendering : List Token, rendering.map Token.lexeme = p.text σ →
          ∀ (file' : String) (firstId' : Nat), ∃ q nextId',
            Program.parse rendering file' firstId' = .ok (q, nextId') ∧ q.erase = p.erase := by
  let tokens : List Token :=
    [sign .const, (.identifier, "same"), sign .assignment, sign .arrow, sign .openParen,
      (.identifier, "x"), sign .closeParen, sign .in, (.identifier, "x"), sign .semicolon,
      sign .eof].map Lexeme.token
  have hrun : (Program.parse tokens "main" 0).toOption.isSome = true := by decide +kernel
  cases h : Program.parse tokens "main" 0 with
  | ok r => exact ⟨tokens, r.1, r.2, h, parse_rendered h⟩
  | error e =>
    rw [h] at hrun
    cases hrun

end Program

end Frontend
