import Frontend.Proofs.Printing.Text

/-!
# The type that a printed text denotes

Where the text of a type is not that of a readable type by its own parts, the grammar groups it in
another way: an ampersand binds tighter than the question marks behind it, and a question mark behind
a function belongs to the result (`regroup`). The regrouped type is readable and has the same text.
Only two ampersands side by side have no such reading; they are one token.
-/

namespace Frontend.Ty

/-- The type that an ampersand in front of the text of a readable type makes of it: the question
marks stay outside, and there is none if an ampersand comes next. -/
def referred : Ty → Option Ty
  | .qualified (some .ref) _ => none
  | .qualified (some .maybe) inner => inner.referred.map (.qualified (some .maybe))
  | t => some (.qualified (some .ref) t)

/-- The type that a question mark behind the text of a readable type makes of it: it goes to the
result with which the text ends, if there is one. -/
def questioned : Ty → Ty
  | .func params (some ret) => .func params (some ret.questioned)
  | .qualified (some .ref) (.func params (some ret)) =>
    .qualified (some .ref) (.func params (some ret.questioned))
  | t => .qualified (some .maybe) t

mutual

/-- The type that the text of a type denotes, unless it holds two ampersands side by side. -/
def regroup : Ty → Option Ty
  | .builtin type => some (.builtin type)
  | .template id => some (.template id)
  | .array elem => elem.regroup.map .array
  | .tuple elems => (regroupAll elems).map .tuple
  | .dict key value => key.regroup.bind fun k => value.regroup.map (.dict k)
  | .func params none => (regroupAll params).map (.func · none)
  | .func params (some ret) =>
    (regroupAll params).bind fun ps => ret.regroup.map fun r => .func ps (some r)
  | .named name args => (regroupAll args).map (.named name)
  | .qualified (some .ref) inner => inner.regroup.bind referred
  | .qualified (some .maybe) inner => inner.regroup.map questioned
  | .qualified none inner => inner.regroup

/-- The types that the texts of types denote. -/
def regroupAll : List Ty → Option (List Ty)
  | [] => some []
  | t :: rest => t.regroup.bind fun u => (regroupAll rest).map (u :: ·)

end

variable {t u : Ty} {ts us : List Ty}

/-- What is promised of the type that a text denotes. -/
structure Denotes (text : String) (u : Ty) : Prop where
  annotated : u.Annotated
  readable : u.Readable
  text : u.toText = text

/-- What is promised of the types that texts with commas between them denote. -/
structure AllDenoted (ts us : List Ty) : Prop where
  annotated : allAnnotated us
  readable : allReadable us
  text : joinText us = joinText ts
  length : us.length = ts.length

/-- An ampersand makes no result of a function stand last. -/
theorem endsWithResult_referred (ht : t.endsWithResult = false) (hu : t.referred = some u) :
    u.endsWithResult = false := by
  cases t with
  | qualified q inner =>
    rcases q with _ | _ | _
    · cases hu
      rfl
    · cases hu
    · obtain ⟨v, -, rfl⟩ := Option.map_eq_some_iff.mp hu
      rfl
  | func params ret =>
    cases ret with
    | none =>
      cases hu
      rfl
    | some ret => cases ht
  | _ =>
    cases hu
    rfl

theorem referred_denotes : ∀ {t u : Ty}, t.Annotated → t.Readable → t.referred = some u →
    Denotes ("&" ++ t.toText) u
  | .qualified (some .maybe) inner, u, h, hr, hu => by
    rw [Annotated] at h
    rw [Readable] at hr
    obtain ⟨v, hv, rfl⟩ := Option.map_eq_some_iff.mp hu
    have hd := referred_denotes h hr.2 hv
    refine ⟨hd.annotated, ?_, ?_⟩
    · rw [Readable]
      exact ⟨endsWithResult_referred hr.1 hv, hd.readable⟩
    · rw [toText, hd.text, toText, String.append_assoc]
  | .builtin _, _, h, hr, rfl | .array _, _, h, hr, rfl | .tuple _, _, h, hr, rfl
  | .dict _ _, _, h, hr, rfl | .func _ _, _, h, hr, rfl | .named _ _, _, h, hr, rfl =>
    ⟨h, ⟨rfl, hr⟩, rfl⟩

theorem maybe_denotes (h : t.Annotated) (hr : t.Readable) (ht : t.endsWithResult = false) :
    Denotes (t.toText ++ "?") (.qualified (some .maybe) t) :=
  ⟨h, ⟨ht, hr⟩, rfl⟩

theorem questioned_denotes : ∀ {t : Ty}, t.Annotated → t.Readable →
    Denotes (t.toText ++ "?") t.questioned
  | .func params (some ret), h, hr => by
    rw [Annotated] at h
    rw [Readable] at hr
    have hd := questioned_denotes h.2 hr.2
    refine ⟨⟨h.1, hd.annotated⟩, ⟨hr.1, hd.readable⟩, ?_⟩
    rw [questioned, toText, hd.text, toText]
    simp only [String.append_assoc]
  | .qualified (some .ref) (.func params (some ret)), h, hr => by
    rw [Annotated, Annotated] at h
    rw [Readable, Readable] at hr
    have hd := questioned_denotes h.2 hr.2.2
    refine ⟨⟨h.1, hd.annotated⟩, ⟨rfl, hr.2.1, hd.readable⟩, ?_⟩
    rw [questioned, toText, toText, hd.text, toText, toText]
    simp only [String.append_assoc]
  | .qualified (some .ref) (.func _ none), h, hr | .qualified (some .ref) (.builtin _), h, hr
  | .qualified (some .ref) (.array _), h, hr | .qualified (some .ref) (.tuple _), h, hr
  | .qualified (some .ref) (.dict _ _), h, hr | .qualified (some .ref) (.named _ _), h, hr
  | .qualified (some .ref) (.qualified _ _), h, hr
  | .builtin _, h, hr | .array _, h, hr | .tuple _, h, hr | .dict _ _, h, hr
  | .func _ none, h, hr | .named _ _, h, hr | .qualified (some .maybe) _, h, hr =>
    maybe_denotes h hr rfl

/-- A question mark that no result claims stays where it is. -/
theorem questioned_eq (h : t.endsWithResult = false) :
    t.questioned = .qualified (some .maybe) t := by
  unfold questioned
  split
  · cases h
  · cases h
  · rfl

/-- Where an ampersand makes nothing of a type, the text of the type begins with another one. -/
theorem clashes_of_referred : ∀ {t : Ty}, t.referred = none → Clashes ('&' :: t.toText.toList)
  | .qualified (some .ref) inner, _ => by
    rw [toText, String.toList_append]
    exact Clashes.ampersands inner.toText.toList
  | .qualified (some .maybe) inner, h => by
    have hinner := clashes_of_referred (Option.map_eq_none_iff.mp h)
    rw [toText, String.toList_append]
    exact hinner.append "?".toList

mutual

/-- A regrouped type is readable and has the text of the type it comes from. -/
theorem regroup_denotes : ∀ {t u : Ty}, t.Annotated → t.regroup = some u → Denotes t.toText u
  | .builtin _, _, h, rfl => ⟨h, trivial, rfl⟩
  | .array elem, u, h, hu => by
    rw [Annotated] at h
    obtain ⟨v, hv, rfl⟩ := Option.map_eq_some_iff.mp hu
    have hd := regroup_denotes h hv
    exact ⟨hd.annotated, hd.readable, by rw [toText, hd.text, toText]⟩
  | .tuple elems, u, h, hu => by
    rw [Annotated] at h
    obtain ⟨vs, hvs, rfl⟩ := Option.map_eq_some_iff.mp hu
    have hd := regroupAll_denotes h.2 hvs
    exact ⟨⟨hd.length.trans_ne h.1, hd.annotated⟩, hd.readable, by rw [toText, hd.text, toText]⟩
  | .dict key value, u, h, hu => by
    rw [Annotated] at h
    obtain ⟨k, hk, hu⟩ := Option.bind_eq_some_iff.mp hu
    obtain ⟨v, hv, rfl⟩ := Option.map_eq_some_iff.mp hu
    have hkey := regroup_denotes h.1 hk
    have hvalue := regroup_denotes h.2 hv
    exact ⟨⟨hkey.annotated, hvalue.annotated⟩, ⟨hkey.readable, hvalue.readable⟩,
      by rw [toText, hkey.text, hvalue.text, toText]⟩
  | .func params none, u, h, hu => by
    rw [Annotated] at h
    obtain ⟨vs, hvs, rfl⟩ := Option.map_eq_some_iff.mp hu
    have hd := regroupAll_denotes h hvs
    exact ⟨hd.annotated, hd.readable, by rw [toText, hd.text, toText]⟩
  | .func params (some ret), u, h, hu => by
    rw [Annotated] at h
    obtain ⟨vs, hvs, hu⟩ := Option.bind_eq_some_iff.mp hu
    obtain ⟨v, hv, rfl⟩ := Option.map_eq_some_iff.mp hu
    have hparams := regroupAll_denotes h.1 hvs
    have hret := regroup_denotes h.2 hv
    exact ⟨⟨hparams.annotated, hret.annotated⟩, ⟨hparams.readable, hret.readable⟩,
      by rw [toText, hparams.text, hret.text, toText]⟩
  | .named name args, u, h, hu => by
    rw [Annotated] at h
    obtain ⟨vs, hvs, rfl⟩ := Option.map_eq_some_iff.mp hu
    have hd := regroupAll_denotes h.2.2 hvs
    refine ⟨⟨h.1, hd.length.trans h.2.1, hd.annotated⟩, hd.readable, ?_⟩
    obtain ⟨arg, rfl⟩ := List.length_eq_one_iff.mp h.2.1
    obtain ⟨v, rfl⟩ := List.length_eq_one_iff.mp (hd.length.trans h.2.1)
    rw [toText, hd.text, toText]
  | .qualified (some .ref) inner, u, h, hu => by
    rw [Annotated] at h
    obtain ⟨v, hv, hu⟩ := Option.bind_eq_some_iff.mp hu
    have hd := regroup_denotes h hv
    rw [toText, ← hd.text]
    exact referred_denotes hd.annotated hd.readable hu
  | .qualified (some .maybe) inner, u, h, hu => by
    rw [Annotated] at h
    obtain ⟨v, hv, rfl⟩ := Option.map_eq_some_iff.mp hu
    have hd := regroup_denotes h hv
    rw [toText, ← hd.text]
    exact questioned_denotes hd.annotated hd.readable

theorem regroupAll_denotes : ∀ {ts us : List Ty}, allAnnotated ts → regroupAll ts = some us →
    AllDenoted ts us
  | [], _, _, rfl => ⟨trivial, trivial, rfl, rfl⟩
  | t :: ts, us, h, hus => by
    rw [allAnnotated] at h
    obtain ⟨u, hu, hrest⟩ := Option.bind_eq_some_iff.mp hus
    obtain ⟨vs, hvs, rfl⟩ := Option.map_eq_some_iff.mp hrest
    have hd := regroup_denotes h.1 hu
    have hds := regroupAll_denotes h.2 hvs
    refine ⟨⟨hd.annotated, hds.annotated⟩, ⟨hd.readable, hds.readable⟩, ?_,
      congrArg Nat.succ hds.length⟩
    cases ts with
    | nil =>
      obtain rfl := List.length_eq_zero_iff.mp hds.length
      exact hd.text
    | cons t' ts =>
      obtain ⟨u', vs, rfl⟩ := List.exists_cons_of_length_eq_add_one hds.length
      rw [joinText_cons_cons, joinText_cons_cons, hd.text, hds.text]

end

mutual

/-- A readable type is what its text denotes. -/
theorem regroup_of_readable : ∀ {t : Ty}, t.Readable → t.regroup = some t
  | .builtin _, _ | .template _, _ => rfl
  | .array elem, h => by
    rw [Readable] at h
    rw [regroup, regroup_of_readable h]
    rfl
  | .tuple elems, h => by
    rw [Readable] at h
    rw [regroup, regroupAll_of_readable h]
    rfl
  | .dict key value, h => by
    rw [Readable] at h
    rw [regroup, regroup_of_readable h.1, regroup_of_readable h.2]
    rfl
  | .func params none, h => by
    rw [Readable] at h
    rw [regroup, regroupAll_of_readable h]
    rfl
  | .func params (some ret), h => by
    rw [Readable] at h
    rw [regroup, regroupAll_of_readable h.1, regroup_of_readable h.2]
    rfl
  | .named name args, h => by
    rw [Readable] at h
    rw [regroup, regroupAll_of_readable h]
    rfl
  | .qualified (some .ref) inner, h => by
    rw [Readable] at h
    rw [regroup, regroup_of_readable h.2]
    cases inner with
    | qualified => cases h.1
    | _ => rfl
  | .qualified (some .maybe) inner, h => by
    rw [Readable] at h
    rw [regroup, regroup_of_readable h.2]
    exact congrArg some (questioned_eq h.1)

theorem regroupAll_of_readable : ∀ {ts : List Ty}, allReadable ts → regroupAll ts = some ts
  | [], _ => rfl
  | t :: ts, h => by
    rw [allReadable] at h
    rw [regroupAll, regroup_of_readable h.1, regroupAll_of_readable h.2]
    rfl

end

theorem cuts_of_regroup (h : t.Annotated) (hu : t.regroup = some u) :
    Cuts t.toText.toList u.lexemes EndsWord := by
  have hd := regroup_denotes h hu
  rw [← hd.text]
  exact toText_cuts hd.annotated hd.readable

theorem cuts_of_regroupAll (h : allAnnotated ts) (hus : regroupAll ts = some us) :
    Cuts (joinText ts).toList (listed (lexemesAll us)) EndsWord := by
  have hd := regroupAll_denotes h hus
  rw [← hd.text]
  exact joinText_cuts hd.annotated hd.readable

/-- A clash behind an opening parenthesis. -/
theorem clashes_parens {text : List Char} (h : Clashes text) :
    Clashes ("(".toList ++ text ++ ")".toList) :=
  (h.behind (Cuts.sign .openParen "(" (by decide)) fun _ => trivial).append _

mutual

/-- A text that denotes no type holds two ampersands side by side. -/
theorem clashes_of_regroup : ∀ {t : Ty}, t.Annotated → t.regroup = none →
    Clashes t.toText.toList
  | .array elem, h, hnone => by
    rw [Annotated] at h
    have helem : elem.regroup = none := by simpa [regroup] using hnone
    rw [toText]
    simp only [String.toList_append]
    exact ((clashes_of_regroup h helem).behind (Cuts.sign .openBracket "[" (by decide))
      fun _ => trivial).append _
  | .tuple elems, h, hnone => by
    rw [Annotated] at h
    have helems : regroupAll elems = none := by simpa [regroup] using hnone
    rw [toText]
    simp only [String.toList_append]
    exact clashes_parens (clashes_of_regroupAll h.2 helems)
  | .dict key value, h, hnone => by
    rw [Annotated] at h
    have hopen := Cuts.sign .openCurly "\x7b" (by decide)
    rw [toText]
    simp only [String.toList_append]
    refine Clashes.append ?_ _
    cases hk : key.regroup with
    | none =>
      exact ((clashes_of_regroup h.1 hk).behind hopen fun _ => trivial).append _ |>.append _
    | some k =>
      have hvalue : value.regroup = none := by simpa [regroup, hk] using hnone
      have hkey := hopen.append (cuts_of_regroup h.1 hk) fun _ _ => trivial
      have hfront := hkey.append (Cuts.spaced .fatArrow "=>" (by decide))
        fun _ _ => endsWord_cons (by decide)
      exact (clashes_of_regroup h.2 hvalue).behind hfront fun rest => toText_endsBlank h.2 rest
  | .func params none, h, hnone => by
    rw [Annotated] at h
    have hparams : regroupAll params = none := by simpa [regroup] using hnone
    have hword : Cuts "proc".toList [sign .proc] EndsWord :=
      Cuts.word rfl (by decide) (by decide)
    rw [toText]
    simp only [String.toList_append]
    exact (clashes_parens (clashes_of_regroupAll h hparams)).behind hword
      fun _ => endsWord_cons (by decide)
  | .func params (some ret), h, hnone => by
    rw [Annotated] at h
    have hword : Cuts "func".toList [sign .func] EndsWord :=
      Cuts.word rfl (by decide) (by decide)
    rw [toText_func]
    cases hps : regroupAll params with
    | none =>
      have hparams := (clashes_parens (clashes_of_regroupAll h.1 hps)).behind hword
        fun _ => endsWord_cons (by decide)
      exact (hparams.append _).append _
    | some ps =>
      have hret : ret.regroup = none := by simpa [regroup, hps] using hnone
      have hparams := hword.append (cuts_of_regroupAll h.1 hps).parens
        fun _ _ => endsWord_cons (by decide)
      have hfront := hparams.append (Cuts.spaced .colon ":" (by decide)) fun _ _ => trivial
      exact (clashes_of_regroup h.2 hret).behind hfront fun rest => toText_endsBlank h.2 rest
  | .named name args, h, hnone => by
    rw [Annotated] at h
    obtain ⟨rfl, hlength, hargs⟩ := h
    have hnone' : regroupAll args = none := by simpa [regroup] using hnone
    obtain ⟨arg, rfl⟩ := List.length_eq_one_iff.mp hlength
    have hword : Cuts "range".toList [(.identifier, "range")] EndsWord :=
      Cuts.word rfl (by decide) (by decide)
    rw [toText]
    simp only [String.toList_append, List.append_assoc]
    exact (clashes_parens (clashes_of_regroupAll hargs hnone')).behind hword
      fun _ => endsWord_cons (by decide)
  | .qualified (some .ref) inner, h, hnone => by
    rw [Annotated] at h
    rw [toText, String.toList_append]
    cases hv : inner.regroup with
    | none => exact (clashes_of_regroup h hv).ampersand
    | some v =>
      have href : v.referred = none := by simpa [regroup, hv] using hnone
      rw [← (regroup_denotes h hv).text]
      exact clashes_of_referred href
  | .qualified (some .maybe) inner, h, hnone => by
    rw [Annotated] at h
    have hinner : inner.regroup = none := by simpa [regroup] using hnone
    rw [toText, String.toList_append]
    exact (clashes_of_regroup h hinner).append _

theorem clashes_of_regroupAll : ∀ {ts : List Ty}, allAnnotated ts → regroupAll ts = none →
    Clashes (joinText ts).toList
  | t :: ts, h, hnone => by
    rw [allAnnotated] at h
    cases ht : t.regroup with
    | none =>
      have hclash := clashes_of_regroup h.1 ht
      cases ts with
      | nil => exact hclash
      | cons u ts =>
        rw [joinText_cons_cons]
        simp only [String.toList_append]
        exact (hclash.append _).append _
    | some v =>
      have hts : regroupAll ts = none := by simpa [regroupAll, ht] using hnone
      cases ts with
      | nil => cases hts
      | cons u ts =>
        rw [joinText_cons_cons]
        simp only [String.toList_append]
        have hfront := (cuts_of_regroup h.1 ht).append Cuts.comma
          fun _ _ => endsWord_cons (by decide)
        exact (clashes_of_regroupAll h.2 hts).behind hfront fun rest => joinText_endsBlank h.2 rest

end

end Frontend.Ty
