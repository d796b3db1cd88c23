import Frontend.Proofs.Printing.Text
import Frontend.Proofs.Rendering.TypeExpr

/-!
# Reading printed types

The reader of annotations finds a readable type in its text, in front of anything but a question mark
or a parenthesis that opens. An operand is also read in front of a question mark, if no result of a
function stands last. By induction on the depth, as the texts of the parts are shorter.
-/

namespace Frontend

/-- The annotations that denote a type. -/
abbrev Ty.DenotedBy (t : Ty) (e : TypeExpr) : Prop := e.resolve = .ok t

namespace Ty

/-- No text of a type begins with a parenthesis that closes. -/
theorem lexemes_begins : ∀ t : Ty, Parse.Begins (· ≠ .closeParen) t.lexemes
  | .builtin _ | .template _ => ⟨.identifier, _, _, by rw [lexemes], by decide⟩
  | .array _ => ⟨.openBracket, "", _, by rw [lexemes]; rfl, by decide⟩
  | .tuple _ => ⟨.openParen, "", _, by rw [lexemes]; rfl, by decide⟩
  | .dict _ _ => ⟨.openCurly, "", _, by rw [lexemes]; rfl, by decide⟩
  | .func _ none => ⟨.proc, "", _, by rw [lexemes]; rfl, by decide⟩
  | .func _ (some _) => ⟨.func, "", _, by rw [lexemes]; rfl, by decide⟩
  | .named _ [] | .named _ (_ :: _) => ⟨.identifier, _, _, by rw [lexemes], by decide⟩
  | .qualified (some .ref) _ => ⟨.ampersand, "", _, by rw [lexemes]; rfl, by decide⟩
  | .qualified (some .maybe) inner => by
    obtain ⟨k, v, rest, heq, hk⟩ := lexemes_begins inner
    exact ⟨k, v, rest ++ [sign .question], by rw [lexemes, heq]; rfl, hk⟩
  | .qualified none inner => by
    rw [lexemes]
    exact lexemes_begins inner

theorem lexemes_ne_nil (t : Ty) : t.lexemes ≠ [] := by
  obtain ⟨k, v, rest, heq, -⟩ := lexemes_begins t
  rw [heq]
  exact List.cons_ne_nil _ _

/-- A reference ends as the type behind the ampersand does. -/
theorem endsWithResult_ref {t : Ty} (h : t.isQualified = false) :
    (Ty.qualified (some .ref) t).endsWithResult = t.endsWithResult := by
  cases t with
  | func params ret => cases ret <;> rfl
  | qualified => cases h
  | _ => rfl

end Ty

namespace Parse

open Ty

/-- Where a type may end: a question mark or an argument list would belong to it. -/
abbrev EndsType (k : TokenKind) : Prop := k ≠ .openParen ∧ k ≠ .question

/-- Where a type without question marks of its own may end. -/
abbrev EndsOperand (t : Ty) (k : TokenKind) : Prop :=
  k ≠ .openParen ∧ (k = .question → t.endsWithResult = false)

/-- Types are read from texts shorter than `m`. -/
structure ReadsTypes (nested : Power → Parse TypeExpr) (m : Nat) : Prop where
  whole : ∀ {t : Ty}, t.Annotated → t.Readable → t.lexemes.length < m →
    Recovers (nested .default) t.lexemes EndsType t.DenotedBy
  operand : ∀ {t : Ty}, t.Annotated → t.Readable → t.isQualified = false →
    t.lexemes.length < m → Recovers (nested .member) t.lexemes (EndsOperand t) t.DenotedBy

variable {nested : Power → Parse TypeExpr} {m : Nat} (h : ReadsTypes nested m)
include h

/-- Types with commas between them are read up to a parenthesis that closes. -/
theorem typeList_reads {ts : List Ty} (hts : allAnnotated ts) (hr : allReadable ts)
    (hm : (listed (ts.map lexemes)).length < m) :
    Recovers (typeList nested .closeParen) (listed (ts.map lexemes)) (· = .closeParen)
      fun bs => bs.map TypeExpr.resolve = ts.map .ok := by
  rw [allAnnotated_iff] at hts
  rw [allReadable_iff] at hr
  refine bounded_recovers fun n hn => ?_
  have hcount := length_le_listed ts lexemes_ne_nil
  intro s k v more hk hs
  subst hk
  refine listUntil_recovers EndsType (by omega) (by decide) (fun t _ => ?_) (fun t ht => ?_)
    ⟨by decide, by decide, by decide⟩ hs
  · obtain ⟨k, v, rest, heq, hk⟩ := t.lexemes_begins
    exact ⟨k, v, rest, heq, beq_eq_false_iff_ne.mpr hk⟩
  · exact h.whole (hts t ht) (hr t ht) (Nat.lt_of_le_of_lt (length_text_le_listed _ ht) hm)

end Parse

/-- Annotations that denote types one by one denote the list of them. -/
theorem TypeExpr.resolveAll_eq_ok {es : List TypeExpr} {ts : List Ty}
    (h : es.map TypeExpr.resolve = ts.map .ok) : TypeExpr.resolveAll es = .ok ts := by
  induction es generalizing ts with
  | nil =>
    obtain rfl := List.map_eq_nil_iff.mp h.symm
    rfl
  | cons e es ih =>
    obtain ⟨t, rest, rfl, ht, hrest⟩ := List.map_eq_cons_iff.mp h.symm
    rw [TypeExpr.resolveAll, ← ht, ih hrest.symm]
    rfl

namespace Parse

open Ty

variable {nested : Power → Parse TypeExpr} {m : Nat} (h : ReadsTypes nested m)
include h

omit h in
theorem builtin_reads (type : BuiltinType) :
    Recovers (primaryType nested) (Ty.builtin type).lexemes (· ≠ .openParen)
      (Ty.builtin type).DenotedBy := by
  intro s k v more hk hs
  rw [lexemes] at hs
  refine .bind (expect_yields hs fun token t htoken ht => ?_)
  refine .bind (eat_skips ht hk (.bind (.pure ?_)))
  refine .bind (infoFrom_yields fun info u hu => .pure ⟨hu.trans ht, ?_⟩)
  rw [value_eq htoken rfl]
  cases type <;> rfl

theorem range_reads {elem : Ty} (ht : elem.Annotated) (hr : elem.Readable)
    (hm : (Ty.range elem).lexemes.length < m + 1) :
    Recovers (primaryType nested) (Ty.range elem).lexemes (fun _ => True)
      (Ty.range elem).DenotedBy := by
  intro s k v more _ hs
  simp only [lexemes, lexemesAll_eq, List.length_cons, length_parens] at hm
  simp only [lexemes, lexemesAll_eq, parens, List.cons_append, List.append_assoc,
    List.nil_append] at hs
  have hts : allAnnotated [elem] := ⟨ht, trivial⟩
  have hrs : allReadable [elem] := ⟨hr, trivial⟩
  refine .bind (expect_yields hs fun token t htoken hname => ?_)
  refine .bind (eat_yields hname fun u hu => ?_)
  dsimp only
  rw [if_pos rfl]
  refine .bind ((typeList_reads h hts hrs (by omega) rfl hu).imp fun bs w _ hbs => ?_)
  refine .bind (expect_yields hbs.1 fun _ x _ hx => .bind (.pure ?_))
  refine .bind (infoFrom_yields fun info y hy => .pure ⟨hy.trans hx, ?_⟩)
  obtain ⟨b, rfl, hb⟩ := List.map_eq_singleton_iff.mp hbs.2
  rw [value_eq htoken rfl, DenotedBy, TypeExpr.resolve, if_pos rfl, hb]
  · rfl
  · decide

theorem arrayType_reads {elem : Ty} (ht : (Ty.array elem).Annotated)
    (hr : (Ty.array elem).Readable) (hm : (Ty.array elem).lexemes.length < m + 1) :
    Recovers (arrayType nested) (Ty.array elem).lexemes (fun _ => True)
      (Ty.array elem).DenotedBy := by
  intro s k v more _ hs
  rw [Annotated] at ht
  rw [Readable] at hr
  simp only [lexemes, List.length_cons, List.length_append] at hm
  simp only [lexemes, List.cons_append, List.append_assoc, List.nil_append] at hs
  refine .bind (advance_yields hs fun _ t _ hopen => ?_)
  refine .bind ((h.whole ht hr (by omega) (by decide) hopen).imp fun b u _ hb => ?_)
  refine .bind (expect_yields hb.1 fun _ w _ hw => ?_)
  refine .bind (infoFrom_yields fun info x hx => .pure ⟨hx.trans hw, ?_⟩)
  rw [DenotedBy, TypeExpr.resolve, hb.2]
  rfl

theorem dictType_reads {key value : Ty} (ht : (Ty.dict key value).Annotated)
    (hr : (Ty.dict key value).Readable) (hm : (Ty.dict key value).lexemes.length < m + 1) :
    Recovers (dictType nested) (Ty.dict key value).lexemes (fun _ => True)
      (Ty.dict key value).DenotedBy := by
  intro s k v more _ hs
  rw [Annotated] at ht
  rw [Readable] at hr
  simp only [lexemes, List.length_cons, List.length_append] at hm
  simp only [lexemes, List.cons_append, List.append_assoc, List.nil_append] at hs
  refine .bind (advance_yields hs fun _ t _ hopen => ?_)
  refine .bind ((h.whole ht.1 hr.1 (by omega) (by decide) hopen).imp fun a u _ ha => ?_)
  refine .bind (expect_yields ha.1 fun _ w _ hw => ?_)
  refine .bind ((h.whole ht.2 hr.2 (by omega) (by decide) hw).imp fun b x _ hb => ?_)
  refine .bind (expect_yields hb.1 fun _ y _ hy => ?_)
  refine .bind (infoFrom_yields fun info z hz => .pure ⟨hz.trans hy, ?_⟩)
  rw [DenotedBy, TypeExpr.resolve, ha.2, hb.2]
  rfl

theorem tupleType_reads {elems : List Ty} (ht : (Ty.tuple elems).Annotated)
    (hr : (Ty.tuple elems).Readable) (hm : (Ty.tuple elems).lexemes.length < m + 1) :
    Recovers (tupleType nested) (Ty.tuple elems).lexemes (fun _ => True)
      (Ty.tuple elems).DenotedBy := by
  intro s k v more _ hs
  rw [Annotated] at ht
  rw [Readable] at hr
  rw [lexemes, lexemesAll_eq, length_parens] at hm
  simp only [lexemes, lexemesAll_eq, parens, List.cons_append, List.append_assoc,
    List.nil_append] at hs
  refine .bind (advance_yields hs fun _ t _ hopen => ?_)
  refine .bind ((typeList_reads h ht.2 hr (by omega) rfl hopen).imp fun bs u _ hbs => ?_)
  refine .bind (expect_yields hbs.1 fun _ w _ hw => ?_)
  have hlength := congrArg List.length hbs.2
  rw [List.length_map, List.length_map] at hlength
  split
  · exact absurd hlength.symm ht.1
  · refine .bind (infoFrom_yields fun info x hx => .pure ⟨hx.trans hw, ?_⟩)
    rw [DenotedBy, TypeExpr.resolve, TypeExpr.resolveAll_eq_ok hbs.2]
    rfl

theorem procType_reads {params : List Ty} (ht : (Ty.func params none).Annotated)
    (hr : (Ty.func params none).Readable)
    (hm : (Ty.func params none).lexemes.length < m + 1) :
    Recovers (funcType nested) (Ty.func params none).lexemes (fun _ => True)
      (Ty.func params none).DenotedBy := by
  intro s k v more _ hs
  rw [Annotated] at ht
  rw [Readable] at hr
  simp only [lexemes, lexemesAll_eq, List.length_cons, length_parens] at hm
  simp only [lexemes, lexemesAll_eq, parens, List.cons_append, List.append_assoc,
    List.nil_append] at hs
  refine .bind (advance_yields hs fun keyword t hkeyword hword => ?_)
  have hkind : keyword.kind = .proc := congrArg Prod.fst hkeyword
  refine .bind (expect_yields hword fun _ u _ hu => ?_)
  refine .bind ((typeList_reads h ht hr (by omega) rfl hu).imp fun bs w _ hbs => ?_)
  refine .bind (expect_yields hbs.1 fun _ x _ hx => ?_)
  dsimp only
  rw [if_pos hkind, if_neg (by decide)]
  refine .bind (.pure (.bind (infoFrom_yields fun info y hy => .pure ⟨hy.trans hx, ?_⟩)))
  rw [DenotedBy, TypeExpr.resolve, TypeExpr.resolveAll_eq_ok hbs.2]
  rfl

/-- The result of a function is read up to where the function ends. -/
theorem funcType_reads {params : List Ty} {ret : Ty} (ht : (Ty.func params (some ret)).Annotated)
    (hr : (Ty.func params (some ret)).Readable)
    (hm : (Ty.func params (some ret)).lexemes.length < m + 1) :
    Recovers (funcType nested) (Ty.func params (some ret)).lexemes EndsType
      (Ty.func params (some ret)).DenotedBy := by
  intro s k v more hk hs
  rw [Annotated] at ht
  rw [Readable] at hr
  simp only [lexemes, lexemesAll_eq, List.length_cons, List.length_append, length_parens] at hm
  simp only [lexemes, lexemesAll_eq, parens, List.cons_append, List.append_assoc,
    List.nil_append] at hs
  refine .bind (advance_yields hs fun keyword t hkeyword hword => ?_)
  have hkind : keyword.kind ≠ .proc := by
    rw [show keyword.kind = .func from congrArg Prod.fst hkeyword]
    decide
  refine .bind (expect_yields hword fun _ u _ hu => ?_)
  refine .bind ((typeList_reads h ht.1 hr.1 (by omega) rfl hu).imp fun bs w _ hbs => ?_)
  refine .bind (expect_yields hbs.1 fun _ x _ hx => ?_)
  dsimp only
  rw [if_neg hkind, if_pos rfl]
  refine .bind (.bind (eat_yields hx fun y hy => ?_))
  rw [if_pos rfl]
  refine .bind ((h.whole ht.2 hr.2 (by omega) hk hy).imp fun b z _ hb => .pure ?_)
  refine .bind (infoFrom_yields fun info a ha => .pure ⟨ha.trans hb.1, ?_⟩)
  rw [DenotedBy, TypeExpr.resolve, TypeExpr.resolveAll_eq_ok hbs.2, hb.2]
  · rfl
  · intro hproc
    cases hproc

theorem refType_reads {inner : Ty} (ht : (Ty.qualified (some .ref) inner).Annotated)
    (hr : (Ty.qualified (some .ref) inner).Readable)
    (hm : (Ty.qualified (some .ref) inner).lexemes.length < m + 1) :
    Recovers (refType nested) (Ty.qualified (some .ref) inner).lexemes (EndsOperand inner)
      (Ty.qualified (some .ref) inner).DenotedBy := by
  intro s k v more hk hs
  rw [Annotated] at ht
  rw [Readable] at hr
  simp only [lexemes, List.length_cons] at hm
  simp only [lexemes, List.cons_append] at hs
  refine .bind (advance_yields hs fun _ t _ hopen => ?_)
  refine .bind ((h.operand ht hr.2 hr.1 (by omega) hk hopen).imp fun b u _ hb => ?_)
  refine .bind (infoFrom_yields fun info w hw => .pure ⟨hw.trans hb.1, ?_⟩)
  rw [DenotedBy, TypeExpr.resolve, hb.2]
  rfl

/-- A type without question marks behind it is an operand. -/
theorem typeOperand_reads {t : Ty} (ht : t.Annotated) (hr : t.Readable)
    (hm : t.lexemes.length < m + 1) (hmaybe : ∀ inner, t ≠ .qualified (some .maybe) inner) :
    Recovers (typeOperand nested) t.lexemes (EndsOperand t) t.DenotedBy := by
  intro s k v more hk hs
  cases t with
  | builtin type =>
    have hhead : s.ahead = (.identifier, type.name) :: s.ahead.tail := by rw [hs, lexemes]; rfl
    exact .bind (kind_yields hhead (builtin_reads type hk.1 hs))
  | template id => exact ht.elim
  | array elem =>
    have hhead : s.ahead = sign .openBracket :: s.ahead.tail := by rw [hs, lexemes]; rfl
    exact .bind (kind_yields hhead (arrayType_reads h ht hr hm trivial hs))
  | tuple elems =>
    have hhead : s.ahead = sign .openParen :: s.ahead.tail := by rw [hs, lexemes]; rfl
    exact .bind (kind_yields hhead (tupleType_reads h ht hr hm trivial hs))
  | dict key value =>
    have hhead : s.ahead = sign .openCurly :: s.ahead.tail := by rw [hs, lexemes]; rfl
    exact .bind (kind_yields hhead (dictType_reads h ht hr hm trivial hs))
  | func params ret =>
    cases ret with
    | none =>
      have hhead : s.ahead = sign .proc :: s.ahead.tail := by rw [hs, lexemes]; rfl
      exact .bind (kind_yields hhead (procType_reads h ht hr hm trivial hs))
    | some ret =>
      have hhead : s.ahead = sign .func :: s.ahead.tail := by rw [hs, lexemes]; rfl
      have hend : EndsType k := ⟨hk.1, fun hq => nomatch hk.2 hq⟩
      exact .bind (kind_yields hhead (funcType_reads h ht hr hm hend hs))
  | named name args =>
    rw [Annotated] at ht
    rw [Readable] at hr
    obtain ⟨rfl, hlength, hargs⟩ := ht
    obtain ⟨arg, rfl⟩ := List.length_eq_one_iff.mp hlength
    have hhead : s.ahead = (.identifier, "range") :: s.ahead.tail := by rw [hs, lexemes]; rfl
    exact .bind (kind_yields hhead (range_reads h hargs.1 hr.1 hm trivial hs))
  | qualified q inner =>
    rcases q with _ | _ | _
    · exact ht.elim
    · have hhead : s.ahead = sign .ampersand :: s.ahead.tail := by rw [hs, lexemes]; rfl
      have hend : EndsOperand inner k :=
        ⟨hk.1, fun hq => (endsWithResult_ref hr.1).symm.trans (hk.2 hq)⟩
      exact .bind (kind_yields hhead (refType_reads h ht hr hm hend hs))
    · exact absurd rfl (hmaybe inner)

/-- The question marks behind an operand are read one by one: what is ensured of the reader of the
marks that follow a type is ensured of the reader of the type and these marks. -/
theorem typeSuffixed_yields (t : Ty) (ht : t.Annotated) (hr : t.Readable)
    (hm : t.lexemes.length < m + 1) {s : TokenStream} {k : TokenKind} {v : String}
    {more : List Lexeme} (hk : EndsOperand t k) (hs : s.ahead = t.lexemes ++ (k, v) :: more)
    {post : TypeExpr → TokenStream → Prop}
    (hpost : ∀ b u n, t.DenotedBy b → u.ahead = (k, v) :: more → more.length < n →
      Yields (typeSuffixes .default b n) u post) :
    Yields (do bounded (typeSuffixes .default (← typeOperand nested))) s post := by
  by_cases hmaybe : ∃ inner, t = .qualified (some .maybe) inner
  · obtain ⟨inner, rfl⟩ := hmaybe
    rw [Annotated] at ht
    rw [Readable] at hr
    rw [lexemes, List.length_append, List.length_singleton] at hm
    rw [lexemes, List.append_assoc, List.singleton_append] at hs
    refine typeSuffixed_yields inner ht hr.2 (by omega) ⟨by decide, fun _ => hr.1⟩ hs
      fun b u n hb hu hn => ?_
    obtain ⟨n, rfl⟩ : ∃ p, n = p + 1 := ⟨n - 1, by omega⟩
    rw [typeSuffixes, if_neg (by decide)]
    refine .bind (eat_yields hu fun w hw => ?_)
    rw [if_pos rfl]
    refine .bind (infoFrom_yields fun info x hx => ?_)
    refine hpost _ x n ?_ (hx.trans hw) (Nat.lt_of_succ_lt_succ hn)
    rw [DenotedBy, TypeExpr.resolve, hb]
    rfl
  · refine .bind ((typeOperand_reads h ht hr hm (not_exists.mp hmaybe) hk hs).imp
      fun b u _ hb => .bind (.get (hpost b u _ hb.2 hb.1 ?_)))
    have hcount := congrArg List.length hb.1
    simp only [TokenStream.ahead, List.length_map, List.length_cons] at hcount
    rw [TokenStream.bound_eq]
    omega

theorem typeSuffixed_reads {t : Ty} (ht : t.Annotated) (hr : t.Readable)
    (hm : t.lexemes.length < m + 1) :
    Recovers (do bounded (typeSuffixes .default (← typeOperand nested))) t.lexemes EndsType
      t.DenotedBy := by
  intro s k v more hk hs
  refine typeSuffixed_yields h t ht hr hm ⟨hk.1, fun hq => absurd hq hk.2⟩ hs
    fun b u n hb hu hn => ?_
  exact (typeSuffixes_stops (Nat.zero_lt_of_lt hn) hk.2 hu).imp
    fun c w _ hc => ⟨hc.1, hc.2 ▸ hb⟩

/-- Behind an ampersand no question mark is read. -/
theorem typeSuffixed_operand {t : Ty} (ht : t.Annotated) (hr : t.Readable)
    (hplain : t.isQualified = false) (hm : t.lexemes.length < m + 1) :
    Recovers (do bounded (typeSuffixes .member (← typeOperand nested))) t.lexemes (EndsOperand t)
      t.DenotedBy := by
  intro s k v more hk hs
  have hmaybe : ∀ inner, t ≠ .qualified (some .maybe) inner := by
    rintro inner rfl
    cases hplain
  refine .bind ((typeOperand_reads h ht hr hm hmaybe hk hs).imp fun b u _ hb => .bind (.get ?_))
  rw [TokenStream.bound_eq, typeSuffixes, if_pos (by decide)]
  exact .pure hb

omit h in
/-- Nested to a depth, all texts shorter than the depth are read. -/
theorem readsTypes_at : ∀ n, ReadsTypes (typeExprAt n) n
  | 0 => ⟨fun _ _ hm => absurd hm (Nat.not_lt_zero _),
      fun _ _ _ hm => absurd hm (Nat.not_lt_zero _)⟩
  | n + 1 =>
    { whole := fun ht hr hm => typeSuffixed_reads (readsTypes_at n) ht hr hm
      operand := fun ht hr hplain hm => typeSuffixed_operand (readsTypes_at n) ht hr hplain hm }

omit h in
/-- A readable type is read from its text. -/
theorem typeExpr_reads {t : Ty} (ht : t.Annotated) (hr : t.Readable) :
    Recovers (typeExpr .default) t.lexemes EndsType t.DenotedBy :=
  bounded_recovers fun n hn => (readsTypes_at n).whole ht hr hn

end Parse

end Frontend
