import Frontend.Proofs.Rendering.Recovery

/-!
# Reading rendered type annotations

An annotation is read back from its text, whatever follows but a question mark, and without its own
parentheses where a parenthesis or a comma follows. By induction on the depth: each production
relies on the texts of its parts, which are shorter.
-/

namespace Frontend

@[simp] theorem typeTexts_eq (ts : List TypeExpr) : typeTexts ts = ts.map TypeExpr.text := by
  induction ts with
  | nil => rw [typeTexts, List.map_nil]
  | cons t rest ih => rw [typeTexts, ih, List.map_cons, TypeExpr.text]

@[simp] theorem length_parens (text : List Lexeme) : (parens text).length = text.length + 2 := by
  simp [parens]

theorem length_text_le_listed {α : Type} (render : α → List Lexeme) {a : α} {as : List α}
    (h : a ∈ as) : (render a).length ≤ (listed (as.map render)).length := by
  induction as with
  | nil => cases h
  | cons b rest ih =>
    cases rest with
    | nil =>
      rcases List.mem_singleton.mp h with rfl
      exact Nat.le_refl _
    | cons next rest =>
      simp only [List.map_cons] at ih
      simp only [List.map_cons, listed, List.length_append, List.length_cons]
      rcases List.mem_cons.mp h with rfl | h
      · omega
      · have hle := ih h
        omega

/-- The texts that a tuple or a list of arguments closes. -/
def Closes (k : TokenKind) : Prop := k = .closeParen ∨ k = .comma

namespace TypeExpr

@[simp] theorem parens_bare (t : TypeExpr) : parens t.bare = t.text := rfl

/-- No annotation begins with a parenthesis that closes. -/
theorem bare_begins (t : TypeExpr) : Parse.Begins (· ≠ .closeParen) t.bare := by
  cases t with
  | primary _ name args =>
    cases args <;> exact ⟨.identifier, name, _, by rw [bare], by decide⟩
  | array => exact ⟨.openBracket, "", _, by rw [bare]; rfl, by decide⟩
  | dict => exact ⟨.openCurly, "", _, by rw [bare]; rfl, by decide⟩
  | tuple => exact ⟨.openParen, "", _, by rw [bare]; rfl, by decide⟩
  | func _ kind _ ret =>
    cases ret <;> exact ⟨kind.token, "", _, by rw [bare]; rfl, by cases kind <;> decide⟩
  | qualified _ q =>
    cases q with
    | ref => exact ⟨.ampersand, "", _, by rw [bare]; rfl, by decide⟩
    | maybe => exact ⟨.openParen, "", _, by rw [bare]; rfl, by decide⟩

end TypeExpr

namespace Parse

/-- Nested annotations are read back, in parentheses and without, from texts shorter than `m`. -/
structure RecoversTypes (nested : Power → Parse TypeExpr) (m : Nat) : Prop where
  text : ∀ {t : TypeExpr}, t.Written → t.text.length < m → ∀ power,
    Recovers (nested power) t.text (· ≠ .question) fun b => b.erase = t.erase
  bare : ∀ {t : TypeExpr}, t.Written → t.bare.length < m →
    Recovers (nested .default) t.bare Closes fun b => b.erase = t.erase

variable {nested : Power → Parse TypeExpr} {m : Nat} (h : RecoversTypes nested m)
include h

theorem typeList_recovers {ts : List TypeExpr} (hts : typesWritten ts)
    (hm : (listed (ts.map TypeExpr.text)).length < m) :
    Recovers (typeList nested .closeParen) (listed (ts.map TypeExpr.text)) (· = .closeParen)
      fun bs => bs.map TypeExpr.erase = ts.map TypeExpr.erase := by
  refine bounded_recovers fun n hn => ?_
  have hcount := length_le_listed ts fun t => show t.text ≠ [] from List.cons_ne_nil _ _
  intro s k v more hk hs
  subst hk
  refine listUntil_recovers (· ≠ .question) (by omega) (by decide)
    (fun t _ => ⟨_, _, _, rfl, by decide⟩) (fun t ht => ?_) ⟨by decide, by decide, by decide⟩ hs
  exact h.text ((typesWritten_iff ts).mp hts t ht)
    (Nat.lt_of_le_of_lt (length_text_le_listed _ ht) hm) .default

/-- Annotations between parentheses, which are told apart from a single one by their number. -/
theorem tupleType_recovers {ts : List TypeExpr} (hts : typesWritten ts) (hne : ts.length ≠ 1)
    (hm : (listed (ts.map TypeExpr.text)).length < m) :
    Recovers (tupleType nested) (parens (listed (ts.map TypeExpr.text))) (fun _ => True)
      fun b => b.erase = .tuple .erased (ts.map TypeExpr.erase) := by
  intro s k v more _ hs
  simp only [parens, List.cons_append, List.append_assoc, List.nil_append] at hs
  refine .bind (advance_yields hs fun _ t _ ht => ?_)
  refine .bind ((typeList_recovers h hts hm rfl ht).imp fun bs u _ hbs => ?_)
  refine .bind (expect_yields hbs.1 fun _ w _ hw => ?_)
  have hlength := congrArg List.length hbs.2
  rw [List.length_map, List.length_map] at hlength
  split
  · exact absurd hlength.symm hne
  · refine .bind (infoFrom_yields fun info x hx => .pure ⟨hx.trans hw, ?_⟩)
    simp only [TypeExpr.erase, eraseTypes_eq, hbs.2]

/-- One annotation between parentheses is that annotation. -/
theorem group_recovers {t : TypeExpr} (ht : t.Written) (hm : t.text.length < m + 1) :
    Recovers (tupleType nested) t.text (fun _ => True) fun b => b.erase = t.erase := by
  intro s k v more _ hs
  rw [TypeExpr.text, length_parens] at hm
  simp only [TypeExpr.text, parens, List.cons_append, List.append_assoc, List.nil_append] at hs
  refine .bind (advance_yields hs fun _ u _ hu => ?_)
  have hlist : Recovers (typeList nested .closeParen) (listed ([t].map TypeExpr.bare))
      (· = .closeParen)
      fun bs => bs.map TypeExpr.erase = [t].map TypeExpr.erase := by
    refine bounded_recovers fun n hn => ?_
    rw [List.map_singleton, listed] at hn
    intro s k v more hk hs
    subst hk
    have hbare := h.bare ht (by omega)
    have hpos : 0 < t.bare.length := by
      obtain ⟨k, v, rest, heq, -⟩ := t.bare_begins
      simp [heq]
    refine listUntil_recovers Closes (by rw [List.length_singleton]; omega) (.inr rfl)
      (fun t' _ => ?_) (fun t' ht' => ?_) ⟨.inl rfl, by decide, by decide⟩ hs
    · obtain ⟨k, v, rest, heq, hk⟩ := t'.bare_begins
      exact ⟨k, v, rest, heq, beq_eq_false_iff_ne.mpr hk⟩
    · rw [List.mem_singleton.mp ht']
      exact hbare
  refine .bind ((hlist rfl hu).imp fun bs w _ hbs => ?_)
  refine .bind (expect_yields hbs.1 fun _ x _ hx => ?_)
  obtain ⟨b, rfl, hb⟩ := List.map_eq_singleton_iff.mp hbs.2
  exact .pure ⟨hx, hb⟩

/-- An annotation in parentheses is an operand, whatever follows. -/
theorem typeOperand_text {t : TypeExpr} (ht : t.Written) (hm : t.text.length < m + 1) :
    Recovers (typeOperand nested) t.text (fun _ => True) fun b => b.erase = t.erase := by
  intro s k v more hk hs
  exact .bind (kind_yields (k := .openParen) hs (group_recovers h ht hm hk hs))

theorem primaryType_recovers {info : NodeInfo} {name : String} {args : List TypeExpr}
    (hargs : typesWritten args) (hm : (TypeExpr.primary info name args).bare.length < m + 1) :
    Recovers (primaryType nested) (TypeExpr.primary info name args).bare Closes
      fun b => b.erase = (TypeExpr.primary info name args).erase := by
  intro s k v more hk hs
  have htail : ∀ {token : Token} {bs : List TypeExpr} {t : TokenStream},
      token.lexeme = (.identifier, name) → t.ahead = (k, v) :: more →
      bs.map TypeExpr.erase = args.map TypeExpr.erase →
      Yields (do
        return TypeExpr.primary (← infoFrom token.span.start) token.value bs : Parse TypeExpr) t
        fun b u => u.ahead = (k, v) :: more ∧
          b.erase = (TypeExpr.primary info name args).erase := by
    intro token bs t htoken ht hbs
    refine .bind (infoFrom_yields fun info u hu => .pure ⟨hu.trans ht, ?_⟩)
    simp only [TypeExpr.erase, eraseTypes_eq, value_eq htoken rfl, hbs]
  cases args with
  | nil =>
    rw [TypeExpr.bare] at hs
    refine .bind (expect_yields hs fun token t htoken ht => ?_)
    have hopen : k ≠ .openParen := by rintro rfl; rcases hk with hk | hk <;> cases hk
    exact .bind (eat_skips ht hopen (.bind (.pure (htail htoken ht rfl))))
  | cons arg args =>
    simp only [TypeExpr.bare, typeTexts_eq, List.length_cons, length_parens] at hm
    simp only [TypeExpr.bare, typeTexts_eq, parens, List.cons_append, List.append_assoc,
      List.nil_append] at hs
    refine .bind (expect_yields hs fun token t htoken ht => ?_)
    refine .bind (eat_yields ht fun u hu => ?_)
    dsimp only
    rw [if_pos rfl]
    refine .bind ((typeList_recovers h hargs (by omega) rfl hu).imp fun bs w _ hbs => ?_)
    exact .bind (expect_yields hbs.1 fun _ x _ hx => .bind (.pure (htail htoken hx hbs.2)))

theorem arrayType_recovers {info : NodeInfo} {elem : TypeExpr} (helem : elem.Written)
    (hm : (TypeExpr.array info elem).bare.length < m + 1) :
    Recovers (arrayType nested) (TypeExpr.array info elem).bare Closes
      fun b => b.erase = (TypeExpr.array info elem).erase := by
  intro s k v more hk hs
  simp only [TypeExpr.bare, TypeExpr.parens_bare, List.length_cons, List.length_append] at hm
  simp only [TypeExpr.bare, TypeExpr.parens_bare, List.cons_append, List.append_assoc,
    List.nil_append] at hs
  refine .bind (advance_yields hs fun _ t _ ht => ?_)
  refine .bind ((h.text helem (by omega) .default (by decide) ht).imp fun b u _ hb => ?_)
  refine .bind (expect_yields hb.1 fun _ w _ hw => ?_)
  refine .bind (infoFrom_yields fun info x hx => .pure ⟨hx.trans hw, ?_⟩)
  simp only [TypeExpr.erase, hb.2]

theorem dictType_recovers {info : NodeInfo} {key value : TypeExpr} (hkey : key.Written)
    (hvalue : value.Written) (hm : (TypeExpr.dict info key value).bare.length < m + 1) :
    Recovers (dictType nested) (TypeExpr.dict info key value).bare Closes
      fun b => b.erase = (TypeExpr.dict info key value).erase := by
  intro s k v more hk hs
  simp only [TypeExpr.bare, TypeExpr.parens_bare, List.length_cons, List.length_append] at hm
  simp only [TypeExpr.bare, TypeExpr.parens_bare, List.cons_append, List.append_assoc,
    List.nil_append] at hs
  refine .bind (advance_yields hs fun _ t _ ht => ?_)
  refine .bind ((h.text hkey (by omega) .default (by decide) ht).imp fun a u _ ha => ?_)
  refine .bind (expect_yields ha.1 fun _ w _ hw => ?_)
  refine .bind ((h.text hvalue (by omega) .default (by decide) hw).imp fun b x _ hb => ?_)
  refine .bind (expect_yields hb.1 fun _ y _ hy => ?_)
  refine .bind (infoFrom_yields fun info z hz => .pure ⟨hz.trans hy, ?_⟩)
  simp only [TypeExpr.erase, ha.2, hb.2]

theorem funcType_recovers {info : NodeInfo} {kind : FuncKind} {params : List TypeExpr}
    {ret : Option TypeExpr} (hgood : (TypeExpr.func info kind params ret).Written)
    (hm : (TypeExpr.func info kind params ret).bare.length < m + 1) :
    Recovers (funcType nested) (TypeExpr.func info kind params ret).bare Closes
      fun b => b.erase = (TypeExpr.func info kind params ret).erase := by
  intro s k v more hk hs
  have hkind : ∀ {token : Token}, token.lexeme = sign kind.token →
      (if token.kind = .proc then FuncKind.proc else .func) = kind ∨ kind = .lambda := by
    intro token htoken
    rw [show token.kind = kind.token from congrArg Prod.fst htoken]
    cases kind <;> simp [FuncKind.token]
  cases ret with
  | none =>
    rw [TypeExpr.Written] at hgood
    simp only [TypeExpr.bare, typeTexts_eq, List.length_cons, length_parens] at hm
    simp only [TypeExpr.bare, typeTexts_eq, parens, List.cons_append, List.append_assoc,
      List.nil_append] at hs
    refine .bind (advance_yields hs fun keyword t hkeyword ht => ?_)
    have hkind' := (hkind hkeyword).resolve_right hgood.1
    refine .bind (expect_yields ht fun _ u _ hu => ?_)
    refine .bind ((typeList_recovers h hgood.2 (by omega) rfl hu).imp fun bs w _ hbs => ?_)
    refine .bind (expect_yields hbs.1 fun _ x _ hx => ?_)
    have hcolon : k ≠ .colon := by rintro rfl; rcases hk with hk | hk <;> cases hk
    have htail : Yields (do
        return TypeExpr.func (← infoFrom keyword.span.start) kind bs none : Parse TypeExpr)
        x fun b y => y.ahead = (k, v) :: more ∧
          b.erase = (TypeExpr.func info kind params none).erase := by
      refine .bind (infoFrom_yields fun info y hy => .pure ⟨hy.trans hx, ?_⟩)
      simp only [TypeExpr.erase, eraseTypes_eq, hbs.2]
    dsimp only
    rw [hkind']
    split
    · exact .bind (.bind (eat_skips hx hcolon (.pure htail)))
    · exact .bind (.pure htail)
  | some ret =>
    rw [TypeExpr.Written] at hgood
    obtain ⟨rfl, hparams, hret⟩ := hgood
    simp only [TypeExpr.bare, TypeExpr.parens_bare, typeTexts_eq, List.length_cons,
      List.length_append, length_parens] at hm
    simp only [TypeExpr.bare, TypeExpr.parens_bare, typeTexts_eq, List.cons_append,
      List.append_assoc] at hs
    simp only [parens, List.cons_append, List.append_assoc, List.nil_append] at hs
    refine .bind (advance_yields hs fun keyword t hkeyword ht => ?_)
    have hkind' := (hkind hkeyword).resolve_right (by decide)
    refine .bind (expect_yields ht fun _ u _ hu => ?_)
    refine .bind ((typeList_recovers h hparams (by omega) rfl hu).imp fun bs w _ hbs => ?_)
    refine .bind (expect_yields hbs.1 fun _ x _ hx => ?_)
    dsimp only
    rw [hkind', if_pos rfl]
    refine .bind (.bind (eat_yields hx fun y hy => ?_))
    rw [if_pos rfl]
    have hquestion : k ≠ .question := by rintro rfl; rcases hk with hk | hk <;> cases hk
    refine .bind ((h.text hret (by omega) .default hquestion hy).imp fun b z _ hb => .pure ?_)
    refine .bind (infoFrom_yields fun info a ha => .pure ⟨ha.trans hb.1, ?_⟩)
    simp only [TypeExpr.erase, eraseTypes_eq, hbs.2, hb.2]

theorem refType_recovers {info : NodeInfo} {inner : TypeExpr} (hinner : inner.Written)
    (hm : (TypeExpr.qualified info .ref inner).bare.length < m + 1) :
    Recovers (refType nested) (TypeExpr.qualified info .ref inner).bare Closes
      fun b => b.erase = (TypeExpr.qualified info .ref inner).erase := by
  intro s k v more hk hs
  simp only [TypeExpr.bare, TypeExpr.parens_bare, List.length_cons] at hm
  simp only [TypeExpr.bare, TypeExpr.parens_bare, List.cons_append] at hs
  refine .bind (advance_yields hs fun _ t _ ht => ?_)
  have hquestion : k ≠ .question := by rintro rfl; rcases hk with hk | hk <;> cases hk
  refine .bind ((h.text hinner (by omega) .member hquestion ht).imp fun b u _ hb => ?_)
  refine .bind (infoFrom_yields fun info w hw => .pure ⟨hw.trans hb.1, ?_⟩)
  simp only [TypeExpr.erase, hb.2]

/-- An annotation with a question mark behind it is an operand without the question mark. -/
theorem typeOperand_recovers {t : TypeExpr} (ht : t.Written) (hm : t.bare.length < m + 1)
    (hmaybe : ∀ info inner, t ≠ .qualified info .maybe inner) :
    Recovers (typeOperand nested) t.bare Closes fun b => b.erase = t.erase := by
  intro s k v more hk hs
  cases t with
  | primary info name args =>
    rw [TypeExpr.Written] at ht
    have hhead : s.ahead = (.identifier, name) :: s.ahead.tail := by
      cases args <;> rw [hs, TypeExpr.bare] <;> rfl
    exact .bind (kind_yields hhead (primaryType_recovers h ht hm hk hs))
  | array info elem =>
    rw [TypeExpr.Written] at ht
    have hhead : s.ahead = sign .openBracket :: s.ahead.tail := by rw [hs, TypeExpr.bare]; rfl
    exact .bind (kind_yields hhead (arrayType_recovers h ht hm hk hs))
  | dict info key value =>
    rw [TypeExpr.Written] at ht
    have hhead : s.ahead = sign .openCurly :: s.ahead.tail := by rw [hs, TypeExpr.bare]; rfl
    exact .bind (kind_yields hhead (dictType_recovers h ht.1 ht.2 hm hk hs))
  | tuple info elems =>
    rw [TypeExpr.Written] at ht
    rw [TypeExpr.bare, typeTexts_eq] at hm hs
    rw [length_parens] at hm
    have hhead : s.ahead = sign .openParen :: s.ahead.tail := by rw [hs]; rfl
    refine .bind (kind_yields hhead ((tupleType_recovers h ht.2 ht.1 (by omega)).imp
      (fun b hb => ?_) trivial hs))
    rw [hb, TypeExpr.erase, eraseTypes_eq]
  | func info kind params ret =>
    have hhead : s.ahead = sign kind.token :: s.ahead.tail := by
      cases ret <;> rw [hs, TypeExpr.bare] <;> rfl
    refine .bind (kind_yields hhead ?_)
    cases kind <;> exact funcType_recovers h ht hm hk hs
  | qualified info q inner =>
    cases q with
    | maybe => exact absurd rfl (hmaybe info inner)
    | ref =>
      rw [TypeExpr.Written] at ht
      have hhead : s.ahead = sign .ampersand :: s.ahead.tail := by rw [hs, TypeExpr.bare]; rfl
      exact .bind (kind_yields hhead (refType_recovers h ht hm hk hs))

omit h in
/-- Where no question mark stands, an annotation is complete. -/
theorem typeSuffixes_stops {power : Power} {left : TypeExpr} {s : TokenStream} {k : TokenKind}
    {v : String} {more : List Lexeme} {n : Nat} (hn : 0 < n) (hk : k ≠ .question)
    (hs : s.ahead = (k, v) :: more) :
    Yields (typeSuffixes power left n) s fun b t => t.ahead = (k, v) :: more ∧ b = left := by
  obtain ⟨n, rfl⟩ : ∃ p, n = p + 1 := ⟨n - 1, by omega⟩
  rw [typeSuffixes]
  split
  · exact .pure ⟨hs, rfl⟩
  · exact .bind (eat_skips hs hk (.pure ⟨hs, rfl⟩))

/-- The operand of an annotation and the question marks behind it. -/
theorem typeSuffixed_recovers {power : Power} {t : TypeExpr} (ht : t.Written)
    (hm : t.text.length < m + 1) :
    Recovers (do bounded (typeSuffixes power (← typeOperand nested))) t.text (· ≠ .question)
      fun b => b.erase = t.erase := by
  intro s k v more hk hs
  refine .bind ((typeOperand_text h ht hm trivial hs).imp fun b u _ hb => ?_)
  refine .bind (.get ((typeSuffixes_stops (Nat.succ_pos _) hk hb.1).imp fun c w _ hc => ?_))
  exact ⟨hc.1, hc.2 ▸ hb.2⟩

theorem typeSuffixed_bare {t : TypeExpr} (ht : t.Written) (hm : t.bare.length < m + 1) :
    Recovers (do bounded (typeSuffixes .default (← typeOperand nested))) t.bare Closes
      fun b => b.erase = t.erase := by
  intro s k v more hk hs
  have hquestion : k ≠ .question := by rintro rfl; rcases hk with hk | hk <;> cases hk
  by_cases hmaybe : ∃ info inner, t = .qualified info .maybe inner
  · obtain ⟨info, inner, rfl⟩ := hmaybe
    rw [TypeExpr.Written] at ht
    rw [TypeExpr.bare, TypeExpr.parens_bare, List.length_append, List.length_singleton] at hm
    rw [TypeExpr.bare, TypeExpr.parens_bare, List.append_assoc] at hs
    refine .bind ((typeOperand_text h ht (by omega) trivial hs).imp fun b u _ hb => ?_)
    refine .bind (.get ?_)
    rw [TokenStream.bound_eq, typeSuffixes, if_neg (by decide)]
    refine .bind (eat_yields hb.1 fun w hw => ?_)
    rw [if_pos rfl]
    have hcount := congrArg List.length hb.1
    simp only [TokenStream.ahead, List.length_map, List.length_cons] at hcount
    refine .bind (infoFrom_yields fun info x hx => ?_)
    refine (typeSuffixes_stops (by omega) hquestion (hx.trans hw)).imp fun c y _ hc => ?_
    refine ⟨hc.1, ?_⟩
    simp only [hc.2, TypeExpr.erase, hb.2]
  · simp only [not_exists] at hmaybe
    refine .bind ((typeOperand_recovers h ht hm hmaybe hk hs).imp fun b u _ hb => ?_)
    refine .bind (.get ((typeSuffixes_stops (Nat.succ_pos _) hquestion hb.1).imp
      fun c w _ hc => ?_))
    exact ⟨hc.1, hc.2 ▸ hb.2⟩

omit h in
/-- Nested to a depth, all texts shorter than the depth are read back. -/
theorem recoversTypes_at : ∀ n, RecoversTypes (typeExprAt n) n
  | 0 => ⟨fun _ hm => absurd hm (Nat.not_lt_zero _), fun _ hm => absurd hm (Nat.not_lt_zero _)⟩
  | n + 1 =>
    { text := fun ht hm _ => typeSuffixed_recovers (recoversTypes_at n) ht hm
      bare := fun ht hm => typeSuffixed_bare (recoversTypes_at n) ht hm }

omit h in
/-- An annotation is read back from its text in parentheses. -/
theorem typeExpr_recovers {t : TypeExpr} (ht : t.Written) (power : Power) :
    Recovers (typeExpr power) t.text (· ≠ .question) fun b => b.erase = t.erase :=
  bounded_recovers fun n hn => (recoversTypes_at n).text ht hn power

omit h in
/-- An annotation is read back behind a colon, and where there is no colon there is none. -/
theorem optionalType_recovers {o : Option TypeExpr} (ho : ∀ t ∈ o, t.Written) :
    Recovers optionalType (annotationText o) (fun k => k ≠ .question ∧ k ≠ .colon)
      fun b => b.map TypeExpr.erase = o.map TypeExpr.erase := by
  have htext : annotationText o = (o.map fun t => sign .colon :: t.text).getD [] := by
    cases o <;> rfl
  rw [htext]
  exact optional_recovers _ fun t ht => typeExpr_recovers (ho t ht) .default

end Parse

end Frontend
