import Frontend.Parser.Power
import Frontend.Proofs.Tree.Erase

/-!
# Trees of infix operators

Read in order, a tree of infix operators is a sequence of operands with operators between them, and
the sequence alone does not say how it is grouped. In a balanced tree no operator stands above a
looser one, nor above one of its own level on the right. So the operator at the top is the last of
the loosest ones in the sequence, and a sequence has one balanced tree at most.
-/

namespace Frontend

/-- A place of a sequence of operands and operators. Operands go without ids and spans. -/
inductive InfixItem where
  | operand (e : Expr)
  | operator (op : Operator)

/-- The infix operators: those of two operands, and the ranges. -/
def Operator.IsInfix : Operator → Prop
  | .binary _ | .range _ => True
  | _ => False

namespace Expr

/-- The infix operator at the top of an expression, between its operands. -/
def split? : Expr → Option (Expr × Operator × Expr)
  | .binary _ op lhs rhs => some (lhs, .binary op, rhs)
  | .range _ first last inclusive => some (first, .range inclusive, last)
  | _ => none

/-- How tightly the infix operator at the top of an expression binds. -/
def topPower? (e : Expr) : Option Power := e.split?.map (·.2.1.power)

/-- The operands and operators of a tree of infix operators, from left to right. Any other
expression is one operand. -/
def inorder : Expr → List InfixItem
  | .binary _ op lhs rhs => lhs.inorder ++ .operator (.binary op) :: rhs.inorder
  | .range _ first last inclusive =>
    first.inorder ++ .operator (.range inclusive) :: last.inorder
  | e => [.operand e.erase]

/-- An infix operator has on its left only one that binds at least as tightly, and on its right
only one that binds tighter. -/
inductive Balanced : Expr → Prop
  | operand {e : Expr} (h : e.split? = none) : Balanced e
  | node {e left right : Expr} {op : Operator} (h : e.split? = some (left, op, right))
      (hl : ∀ p ∈ left.topPower?, op.power ≤ p) (hr : ∀ p ∈ right.topPower?, op.power < p)
      (left_balanced : Balanced left) (right_balanced : Balanced right) : Balanced e

variable {e e' left right left' right' : Expr} {op : Operator}

theorem inorder_of_operand (h : e.split? = none) : e.inorder = [.operand e.erase] := by
  cases e with
  | binary | range => cases h
  | _ => rw [inorder] <;> nofun

theorem inorder_of_split (h : e.split? = some (left, op, right)) :
    e.inorder = left.inorder ++ .operator op :: right.inorder := by
  cases e with
  | binary | range =>
    cases h
    rw [inorder]
  | _ => cases h

theorem topPower?_of_operand (h : e.split? = none) : e.topPower? = none := by
  rw [topPower?, h, Option.map_none]

theorem topPower?_of_split (h : e.split? = some (left, op, right)) :
    e.topPower? = some op.power := by
  rw [topPower?, h, Option.map_some]

/-- Up to ids and spans an infix operator is made of itself and of its operands. -/
theorem erase_eq_of_split (h : e.split? = some (left, op, right))
    (h' : e'.split? = some (left', op, right')) (hleft : left.erase = left'.erase)
    (hright : right.erase = right'.erase) : e.erase = e'.erase := by
  cases e with
  | binary =>
    cases h
    cases e' with
    | binary =>
      cases h'
      rw [erase, erase, hleft, hright]
    | _ => cases h'
  | range =>
    cases h
    cases e' with
    | range =>
      cases h'
      rw [erase, erase, hleft, hright]
    | _ => cases h'
  | _ => cases h

/-- In a balanced tree the operator at the top binds no tighter than any other. -/
theorem Balanced.topPower_le (h : e.Balanced) (hop : .operator op ∈ e.inorder) :
    ∃ p ∈ e.topPower?, p ≤ op.power := by
  induction h with
  | operand h =>
    rw [inorder_of_operand h, List.mem_singleton] at hop
    cases hop
  | @node e left right top h hl hr _ _ ihl ihr =>
    rw [inorder_of_split h, List.mem_append, List.mem_cons] at hop
    refine ⟨top.power, topPower?_of_split h, ?_⟩
    rcases hop with hop | hop | hop
    · obtain ⟨p, hp, hle⟩ := ihl hop
      exact Nat.le_trans (hl p hp) hle
    · cases hop
      exact Nat.le_refl _
    · obtain ⟨p, hp, hle⟩ := ihr hop
      exact Nat.le_trans (Nat.le_of_lt (hr p hp)) hle

end Expr

/-- The operator is the last of the loosest ones in the sequence that it divides. -/
structure LastLoosest (front : List InfixItem) (op : Operator) (back : List InfixItem) :
    Prop where
  front : ∀ o, .operator o ∈ front → op.power ≤ o.power
  back : ∀ o, .operator o ∈ back → op.power < o.power

namespace LastLoosest

variable {xs ys xs' ys' : List InfixItem} {op op' : Operator}

/-- The last of the loosest operators does not stand in front of another such one. -/
theorem not_before (h : LastLoosest xs op ys) (h' : LastLoosest xs' op' ys')
    (hfront : .operator op ∈ xs') (hback : .operator op' ∈ ys) : False :=
  Nat.not_le_of_lt (h.back op' hback) (h'.front op hfront)

/-- A sequence has one place where its last loosest operator stands. -/
theorem unique (h : LastLoosest xs op ys) (h' : LastLoosest xs' op' ys')
    (heq : xs ++ .operator op :: ys = xs' ++ .operator op' :: ys') :
    xs = xs' ∧ op = op' ∧ ys = ys' := by
  rcases List.append_eq_append_iff.mp heq with ⟨mid, rfl, hmid⟩ | ⟨mid, rfl, hmid⟩
  · cases mid with
    | nil => simpa using hmid
    | cons item mid =>
      obtain ⟨rfl, rfl⟩ := List.cons.inj hmid
      exact (h.not_before h' (by simp) (by simp)).elim
  · cases mid with
    | nil => simpa [eq_comm] using hmid
    | cons item mid =>
      obtain ⟨rfl, rfl⟩ := List.cons.inj hmid
      exact (h'.not_before h (by simp) (by simp)).elim

end LastLoosest

namespace Expr

variable {e e' left right : Expr} {op : Operator}

/-- In a balanced tree the operator at the top is the last of the loosest. -/
theorem lastLoosest_of_node (hl : ∀ p ∈ left.topPower?, op.power ≤ p)
    (hr : ∀ p ∈ right.topPower?, op.power < p) (hleft : left.Balanced)
    (hright : right.Balanced) : LastLoosest left.inorder op right.inorder where
  front o ho := by
    obtain ⟨p, hp, hle⟩ := hleft.topPower_le ho
    exact Nat.le_trans (hl p hp) hle
  back o ho := by
    obtain ⟨p, hp, hle⟩ := hright.topPower_le ho
    exact Nat.lt_of_lt_of_le (hr p hp) hle

theorem inorder_operand_ne_node (h : e.split? = none)
    (h' : e'.split? = some (left, op, right)) : e.inorder ≠ e'.inorder := by
  intro heq
  have hop : .operator op ∈ e'.inorder := by simp [inorder_of_split h']
  rw [← heq, inorder_of_operand h, List.mem_singleton] at hop
  cases hop

/-- Two balanced trees of one sequence are the same up to ids and spans. -/
theorem Balanced.erase_eq (h : e.Balanced) (h' : e'.Balanced) (heq : e.inorder = e'.inorder) :
    e.erase = e'.erase := by
  induction h generalizing e' with
  | operand h =>
    cases h' with
    | operand h' =>
      rw [inorder_of_operand h, inorder_of_operand h'] at heq
      exact InfixItem.operand.inj (List.singleton_inj.mp heq)
    | node h' => exact absurd heq (inorder_operand_ne_node h h')
  | node h hl hr hleft hright ihl ihr =>
    cases h' with
    | operand h' => exact absurd heq.symm (inorder_operand_ne_node h' h)
    | node h' hl' hr' hleft' hright' =>
      rw [inorder_of_split h, inorder_of_split h'] at heq
      obtain ⟨hxs, rfl, hys⟩ := (lastLoosest_of_node hl hr hleft hright).unique
        (lastLoosest_of_node hl' hr' hleft' hright') heq
      exact erase_eq_of_split h h' (ihl hleft' hxs) (ihr hright' hys)

end Expr

end Frontend
