import Frontend.Proofs.Printing.Cut
import Frontend.Ty

/-!
# The text of a type as tokens

The text of a type holds no parentheses but those of tuples, parameters and arguments. So a question
mark behind a function with a result belongs to the result, and an ampersand reaches no further than
to the operand behind it: the types in whose text nothing is claimed by another part are the readable
ones. Their text is cut into one token for each of its signs and names.
-/

namespace Frontend

namespace Ty

mutual

/-- A type that some annotation denotes. -/
@[simp] def Annotated : Ty → Prop
  | .builtin _ => True
  | .template _ => False
  | .array elem => elem.Annotated
  | .tuple elems => elems.length ≠ 1 ∧ allAnnotated elems
  | .dict key value => key.Annotated ∧ value.Annotated
  | .func params none => allAnnotated params
  | .func params (some ret) => allAnnotated params ∧ ret.Annotated
  | .named name args => name = "range" ∧ args.length = 1 ∧ allAnnotated args
  | .qualified none _ => False
  | .qualified (some _) inner => inner.Annotated

/-- Types that some annotations denote. -/
@[simp] def allAnnotated : List Ty → Prop
  | [] => True
  | t :: rest => t.Annotated ∧ allAnnotated rest

end

/-- Whether a type is a reference or may be missing. -/
def isQualified : Ty → Bool
  | .qualified .. => true
  | _ => false

/-- Whether the text of a type ends with the result of a function, to which a question mark behind
it would belong. -/
def endsWithResult : Ty → Bool
  | .func _ (some _) => true
  | .qualified (some .ref) (.func _ (some _)) => true
  | _ => false

mutual

/-- In the text of a type no ampersand and no question mark is claimed by another part. -/
@[simp] def Readable : Ty → Prop
  | .builtin _ => True
  | .template _ | .qualified none _ => False
  | .array elem => elem.Readable
  | .tuple elems => allReadable elems
  | .dict key value => key.Readable ∧ value.Readable
  | .func params none => allReadable params
  | .func params (some ret) => allReadable params ∧ ret.Readable
  | .named _ args => allReadable args
  | .qualified (some .ref) inner => inner.isQualified = false ∧ inner.Readable
  | .qualified (some .maybe) inner => inner.endsWithResult = false ∧ inner.Readable

/-- Types with such texts. -/
@[simp] def allReadable : List Ty → Prop
  | [] => True
  | t :: rest => t.Readable ∧ allReadable rest

end

mutual

/-- The text of a type as the grammar sees it. -/
def lexemes : Ty → List Lexeme
  | .builtin type => [(.identifier, type.name)]
  | .template id => [(.identifier, "template#" ++ id.repr)]
  | .array elem => sign .openBracket :: elem.lexemes ++ [sign .closeBracket]
  | .tuple elems => parens (listed (lexemesAll elems))
  | .dict key value =>
    sign .openCurly :: key.lexemes ++ sign .fatArrow :: value.lexemes ++ [sign .closeCurly]
  | .func params none => sign .proc :: parens (listed (lexemesAll params))
  | .func params (some ret) =>
    sign .func :: parens (listed (lexemesAll params)) ++ sign .colon :: ret.lexemes
  | .named name [] => [(.identifier, name)]
  | .named name (arg :: args) => (.identifier, name) :: parens (listed (lexemesAll (arg :: args)))
  | .qualified (some .ref) inner => sign .ampersand :: inner.lexemes
  | .qualified (some .maybe) inner => inner.lexemes ++ [sign .question]
  | .qualified none inner => inner.lexemes

/-- The texts of types as the grammar sees them. -/
def lexemesAll : List Ty → List (List Lexeme)
  | [] => []
  | t :: rest => t.lexemes :: lexemesAll rest

end

variable {t u : Ty} {ts : List Ty}

theorem allAnnotated_iff : allAnnotated ts ↔ ∀ t ∈ ts, t.Annotated := by
  induction ts with
  | nil => simp [allAnnotated]
  | cons t rest ih => simp [allAnnotated, ih]

theorem allReadable_iff : allReadable ts ↔ ∀ t ∈ ts, t.Readable := by
  induction ts with
  | nil => simp [allReadable]
  | cons t rest ih => simp [allReadable, ih]

@[simp] theorem lexemesAll_eq (ts : List Ty) : lexemesAll ts = ts.map lexemes := by
  induction ts with
  | nil => rw [lexemesAll, List.map_nil]
  | cons t rest ih => rw [lexemesAll, ih, List.map_cons]

/-- The text of an annotated type begins with no blank, and with an ampersand only if it is a
reference or one that may be missing. -/
theorem toText_head : ∀ {t : Ty}, t.Annotated → ∃ c others, t.toText.toList = c :: others ∧
    Text.isBlank c = false ∧ (t.isQualified = false → c ≠ '&')
  | .builtin type, _ => by
    cases type <;> exact ⟨_, _, rfl, by decide, fun _ => by decide⟩
  | .array _, _ | .tuple _, _ | .dict _ _, _ | .func _ none, _ | .func _ (some _), _ => by
    rw [toText]
    simp only [String.toList_append]
    exact ⟨_, _, rfl, by decide, fun _ => by decide⟩
  | .named name args, h => by
    simp only [Annotated] at h
    obtain ⟨rfl, hargs, -⟩ := h
    obtain ⟨arg, rfl⟩ := List.length_eq_one_iff.mp hargs
    rw [toText]
    simp only [String.toList_append]
    exact ⟨_, _, rfl, by decide, fun _ => by decide⟩
  | .qualified (some .ref) _, _ => by
    rw [toText, String.toList_append]
    exact ⟨_, _, rfl, by decide, nofun⟩
  | .qualified (some .maybe) inner, h => by
    simp only [Annotated] at h
    obtain ⟨c, others, heq, hblank, -⟩ := toText_head h
    rw [toText, String.toList_append, heq]
    exact ⟨c, _, rfl, hblank, nofun⟩

/-! ### Cutting -/

theorem toText_endsBlank (h : t.Annotated) (rest : List Char) :
    EndsBlank (t.toText.toList ++ rest) := by
  obtain ⟨c, others, heq, hblank, -⟩ := toText_head h
  rw [heq]
  rintro _ ⟨⟩
  exact hblank

theorem joinText_cons_cons (t u : Ty) (ts : List Ty) :
    joinText (t :: u :: ts) = t.toText ++ ", " ++ joinText (u :: ts) := by
  rw [joinText]
  exact List.cons_ne_nil u ts

theorem joinText_endsBlank (h : allAnnotated (t :: ts)) (rest : List Char) :
    EndsBlank ((joinText (t :: ts)).toList ++ rest) := by
  rw [allAnnotated] at h
  cases ts with
  | nil =>
    rw [joinText]
    exact toText_endsBlank h.1 rest
  | cons u ts =>
    rw [joinText_cons_cons]
    simp only [String.toList_append, List.append_assoc]
    exact toText_endsBlank h.1 _

/-- The text of a function by its parts. -/
theorem toText_func (params : List Ty) (ret : Ty) : (func params (some ret)).toText.toList =
    "func".toList ++ ("(".toList ++ (joinText params).toList ++ ")".toList) ++
      ([' '] ++ ":".toList ++ [' ']) ++ ret.toText.toList := by
  rw [toText]
  simp only [String.toList_append, List.append_assoc]
  rfl

theorem builtin_cuts (type : BuiltinType) :
    Cuts type.name.toList [(.identifier, type.name)] EndsWord := by
  cases type <;> exact Cuts.word rfl (by decide) (by decide)

mutual

/-- The text of a readable type is cut into its signs and names. -/
theorem toText_cuts : ∀ {t : Ty}, t.Annotated → t.Readable →
    Cuts t.toText.toList t.lexemes EndsWord
  | .builtin type, _, _ => by
    rw [toText, lexemes]
    exact builtin_cuts type
  | .array elem, h, hr => by
    rw [Annotated] at h
    rw [Readable] at hr
    have hopen := Cuts.sign .openBracket "[" (by decide)
    have hcuts := (hopen.append (toText_cuts h hr) fun _ _ => trivial).followed .closeBracket "]"
      (by decide)
    rw [toText, lexemes]
    simp only [String.toList_append]
    exact hcuts.imp fun _ _ => trivial
  | .tuple elems, h, hr => by
    rw [Annotated] at h
    rw [Readable] at hr
    rw [toText, lexemes]
    simp only [String.toList_append]
    exact (joinText_cuts h.2 hr).parens.imp fun _ _ => trivial
  | .dict key value, h, hr => by
    rw [Annotated] at h
    rw [Readable] at hr
    have hopen := Cuts.sign .openCurly "\x7b" (by decide)
    have harrow := Cuts.spaced .fatArrow "=>" (by decide)
    have hkey := hopen.append (toText_cuts h.1 hr.1) fun _ _ => trivial
    have hentry := (hkey.append harrow fun _ _ => endsWord_cons (by decide)).append (toText_cuts h.2 hr.2)
      fun rest _ => toText_endsBlank h.2 rest
    have hcuts := hentry.followed .closeCurly "\x7d" (by decide)
    rw [toText, lexemes]
    simp only [String.toList_append, List.append_assoc, List.cons_append, List.nil_append]
      at hcuts ⊢
    exact hcuts.imp fun _ _ => trivial
  | .func params none, h, hr => by
    rw [Annotated] at h
    rw [Readable] at hr
    have hword : Cuts "proc".toList [sign .proc] EndsWord :=
      Cuts.word rfl (by decide) (by decide)
    have hcuts := hword.append (joinText_cuts h hr).parens fun _ _ => endsWord_cons (by decide)
    rw [toText, lexemes]
    simp only [String.toList_append]
    exact hcuts.imp fun _ _ => trivial
  | .func params (some ret), h, hr => by
    rw [Annotated] at h
    rw [Readable] at hr
    have hword : Cuts "func".toList [sign .func] EndsWord :=
      Cuts.word rfl (by decide) (by decide)
    have hparams := hword.append (joinText_cuts h.1 hr.1).parens fun _ _ => endsWord_cons (by decide)
    have hcuts := (hparams.append (Cuts.spaced .colon ":" (by decide)) fun _ _ => trivial).append
      (toText_cuts h.2 hr.2) fun rest _ => toText_endsBlank h.2 rest
    rw [toText_func, lexemes]
    simp only [parens, List.append_assoc, List.cons_append, List.nil_append] at hcuts ⊢
    exact hcuts
  | .named name args, h, hr => by
    rw [Annotated] at h
    rw [Readable] at hr
    obtain ⟨rfl, hlength, hargs⟩ := h
    obtain ⟨arg, rfl⟩ := List.length_eq_one_iff.mp hlength
    have hword : Cuts "range".toList [(.identifier, "range")] EndsWord :=
      Cuts.word rfl (by decide) (by decide)
    have hcuts := hword.append (joinText_cuts hargs hr).parens fun _ _ => endsWord_cons (by decide)
    rw [toText, lexemes]
    simp only [String.toList_append, List.append_assoc] at hcuts ⊢
    exact hcuts.imp fun _ _ => trivial
  | .qualified (some .ref) inner, h, hr => by
    rw [Annotated] at h
    rw [Readable] at hr
    obtain ⟨c, others, heq, -, hc⟩ := toText_head h
    rw [toText, lexemes, String.toList_append]
    refine Cuts.ampersand.append (toText_cuts h hr.2) fun rest _ => ?_
    rw [heq]
    rintro _ ⟨⟩
    exact hc hr.1
  | .qualified (some .maybe) inner, h, hr => by
    rw [Annotated] at h
    rw [Readable] at hr
    rw [toText, lexemes, String.toList_append]
    exact ((toText_cuts h hr.2).followed .question "?" (by decide)).imp fun _ _ => trivial

theorem joinText_cuts : ∀ {ts : List Ty}, allAnnotated ts → allReadable ts →
    Cuts (joinText ts).toList (listed (lexemesAll ts)) EndsWord
  | [], _, _ => by
    rw [joinText, lexemesAll, listed]
    exact Cuts.nil
  | [t], h, hr => by
    rw [allAnnotated] at h
    rw [allReadable] at hr
    rw [joinText, lexemesAll, lexemesAll, listed]
    exact toText_cuts h.1 hr.1
  | t :: u :: ts, h, hr => by
    rw [allAnnotated] at h
    rw [allReadable] at hr
    have hcuts := ((toText_cuts h.1 hr.1).append Cuts.comma fun _ _ => endsWord_cons (by decide)).append
      (joinText_cuts h.2 hr.2) fun rest _ => joinText_endsBlank h.2 rest
    rw [joinText_cons_cons, lexemesAll, lexemesAll, listed]
    simp only [String.toList_append, List.append_assoc, List.cons_append, List.nil_append,
      lexemesAll] at hcuts ⊢
    exact hcuts

end

end Ty

end Frontend
