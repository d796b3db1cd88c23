import Mathlib.Data.List.Induction
import Frontend.Source.Position

/-!
# True places

A position is a place of a source when its offset falls between two characters, its line and
column are the ones counted from the beginning of the text, and its file is the one of the
source. Moving over characters one at a time only ever leads to places
(`isPlace_pastAll`). A stretch of the text between two offsets is `slice`.
-/

namespace Frontend

namespace Source

/-- The characters that begin at byte `offset` or later. -/
def after (offset : Nat) (text : List Char) : List Char :=
  text.drop (before offset text).length

/-- The characters that begin between two byte offsets. -/
def slice (start stop : Nat) (text : List Char) : List Char := after start (before stop text)

/-- An offset between two characters of a text, or at one of its ends. -/
def IsBoundary (text : List Char) (offset : Nat) : Prop :=
  ∃ front back, text = front ++ back ∧ offset = byteLength front

theorem byteLength_append (s t : List Char) :
    byteLength (s ++ t) = byteLength s + byteLength t := by
  induction s with
  | nil => simp [byteLength]
  | cons c s ih => simp only [List.cons_append, byteLength, ih]; omega

/-- A text that is not empty takes at least one byte. -/
theorem byteLength_pos {text : List Char} (h : text ≠ []) : 0 < byteLength text := by
  cases text with
  | nil => exact absurd rfl h
  | cons c text =>
    have := c.utf8Size_pos
    simp only [byteLength]
    omega

@[simp] theorem before_zero (text : List Char) : before 0 text = [] := by
  cases text <;> rfl

@[simp] theorem before_byteLength_append (front back : List Char) :
    before (byteLength front) (front ++ back) = front := by
  induction front with
  | nil => simp [byteLength]
  | cons c front ih =>
    have hpos : 0 < byteLength (c :: front) := byteLength_pos (List.cons_ne_nil c front)
    have hleft : byteLength (c :: front) - c.utf8Size = byteLength front := by
      simp only [byteLength]
      omega
    rw [List.cons_append, before, if_pos hpos, hleft, ih]

@[simp] theorem after_byteLength_append (front back : List Char) :
    after (byteLength front) (front ++ back) = back := by
  simp [after]

/-- The slice between the two ends of a part of a text is that part. -/
@[simp] theorem slice_byteLength_append (front part back : List Char) :
    slice (byteLength front) (byteLength (front ++ part)) (front ++ part ++ back) = part := by
  rw [slice, before_byteLength_append, after_byteLength_append]

theorem before_before {start stop : Nat} (h : start ≤ stop) (text : List Char) :
    before start (before stop text) = before start text := by
  induction text generalizing start stop with
  | nil => rfl
  | cons c text ih =>
    by_cases hstart : 0 < start
    · rw [before, if_pos (by omega), before, if_pos hstart, before, if_pos hstart,
        ih (Nat.sub_le_sub_right h _)]
    · obtain rfl : start = 0 := by omega
      simp

theorem before_append_after (offset : Nat) (text : List Char) :
    before offset text ++ after offset text = text := by
  have hprefix : before offset text <+: text := by
    induction text generalizing offset with
    | nil => exact List.nil_prefix
    | cons c text ih =>
      rw [before]
      split
      · exact List.cons_prefix_cons.2 ⟨rfl, ih _⟩
      · exact List.nil_prefix
  exact List.prefix_iff_eq_append.1 hprefix

/-- Two stretches of a text that meet are one. -/
theorem slice_append_after {start stop : Nat} (h : start ≤ stop) (text : List Char) :
    slice start stop text ++ after stop text = after start text := by
  have hfront := before_append_after start (before stop text)
  rw [before_before h] at hfront
  refine (List.append_right_inj (before start text)).1 ?_
  rw [← List.append_assoc, slice, hfront, before_append_after, before_append_after]

theorem slice_append_slice {start middle stop : Nat} (h : start ≤ middle) (h' : middle ≤ stop)
    (text : List Char) :
    slice start middle text ++ slice middle stop text = slice start stop text := by
  have hmeet := slice_append_after h (before stop text)
  rwa [slice, before_before h'] at hmeet

@[simp] theorem slice_self (offset : Nat) (text : List Char) : slice offset offset text = [] := by
  simp [slice, after, before_before (Nat.le_refl offset)]

theorem IsBoundary.le {text : List Char} {offset : Nat} (h : IsBoundary text offset) :
    offset ≤ byteLength text := by
  obtain ⟨front, back, rfl, rfl⟩ := h
  rw [byteLength_append]
  omega

/-- A position that stands where its offset says, in the file of the source. -/
structure IsPlace (source file : String) (p : Position) : Prop where
  boundary : IsBoundary source.toList p.offset
  counted : (p.line, p.col) = positionOf source p.offset
  file : p.file = file

end Source

namespace Position

theorem pastAll_offset (p : Position) (text : List Char) :
    (p.pastAll text).offset = p.offset + Source.byteLength text := by
  induction text generalizing p with
  | nil => rfl
  | cons c text ih =>
    rw [pastAll_cons, ih, Source.byteLength, ← Nat.add_assoc, past]
    split <;> rfl

@[simp] theorem pastAll_file (p : Position) (text : List Char) :
    (p.pastAll text).file = p.file := by
  induction text generalizing p with
  | nil => rfl
  | cons c text ih =>
    rw [pastAll_cons, ih, past]
    split <;> rfl

theorem pastAll_line (p : Position) (text : List Char) :
    (p.pastAll text).line = p.line + text.count '\n' := by
  induction text generalizing p with
  | nil => rfl
  | cons c text ih =>
    rw [pastAll_cons, ih, past]
    by_cases hc : c = '\n'
    · subst hc
      simp only [↓reduceIte, List.count_cons_self]
      omega
    · simp [hc]

end Position

namespace Source

/-- A line feed at the end of a text begins an empty line. -/
theorem lastLine_concat (text : List Char) (c : Char) :
    lastLine (text ++ [c]) = if c = '\n' then [] else lastLine text ++ [c] := by
  by_cases hc : c = '\n' <;> simp [lastLine, hc]

/-- The column reached from the beginning of a file is one past the length of the line so far. -/
theorem origin_pastAll_col (file : String) (text : List Char) :
    ((Position.origin file).pastAll text).col = (lastLine text).length + 1 := by
  -- Characters are counted off at the end of the text, where the line at hand grows.
  induction text using List.reverseRecOn with
  | nil => rfl
  | append_singleton text c ih =>
    rw [Position.pastAll_append, Position.pastAll_cons, Position.pastAll_nil, lastLine_concat,
      Position.past]
    split
    · rfl
    · simp [ih]

@[simp] theorem origin_pastAll_offset (file : String) (text : List Char) :
    ((Position.origin file).pastAll text).offset = byteLength text := by
  simp [Position.pastAll_offset, Position.origin]

/-- Whatever is read of a source, its end is a place. -/
theorem isPlace_pastAll {source file : String} {front back : List Char}
    (h : source.toList = front ++ back) :
    IsPlace source file ((Position.origin file).pastAll front) where
  boundary := ⟨front, back, h, origin_pastAll_offset ..⟩
  counted := by
    rw [positionOf, origin_pastAll_offset, h, before_byteLength_append, origin_pastAll_col,
      Position.pastAll_line]
    simp [Position.origin, Nat.add_comm]
  file := Position.pastAll_file ..

end Source

end Frontend
