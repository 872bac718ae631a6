import Mathlib.Tactic

/-!
`libs/list.h`: circular doubly linked lists.

A circular list with its head is given by the entries behind the head, in order. A position in
it is an entry, or `none` for the head itself.
-/

namespace UcoreKernel.LinkedList

variable {α : Type} [DecidableEq α] {l₁ l₂ : List α} {a x : α}

/-- `list_next`; `none` is the head of the list. -/
def listNext (l : List α) : Option α → Option α
  | none => l.head?
  | some a =>
    match l with
    | [] => none
    | b :: l => if b = a then l.head? else listNext l (some a)

/-- `list_add_after`; `none` is the head of the list. -/
def listAddAfter (l : List α) (le : Option α) (x : α) : List α :=
  match le with
  | none => x :: l
  | some a =>
    match l with
    | [] => []
    | b :: l => if b = a then b :: x :: l else b :: listAddAfter l (some a) x

/-- The entry behind one whose place is known. -/
lemma listNext_append (ha : a ∉ l₁) : listNext (l₁ ++ a :: l₂) (some a) = l₂.head? := by
  induction l₁ with
  | nil => simp [listNext]
  | cons b l₁ ih => grind [listNext]

lemma listAddAfter_append (ha : a ∉ l₁) : listAddAfter (l₁ ++ a :: l₂) (some a) x = l₁ ++ a :: x :: l₂ := by
  induction l₁ with
  | nil => simp [listAddAfter]
  | cons b l₁ ih => grind [listAddAfter]

/-- The position behind the first part of a list. -/
lemma listNext_getLast (hnd : (l₁ ++ l₂).Nodup) : listNext (l₁ ++ l₂) l₁.getLast? = l₂.head? := by
  obtain rfl | ⟨l, a, rfl⟩ := List.eq_nil_or_concat l₁
  · simp [listNext]
  · grind [listNext_append]

/-- An entry added behind the first part of a list. -/
lemma listAddAfter_getLast (hnd : (l₁ ++ l₂).Nodup) :
    listAddAfter (l₁ ++ l₂) l₁.getLast? x = l₁ ++ x :: l₂ := by
  obtain rfl | ⟨l, a, rfl⟩ := List.eq_nil_or_concat l₁
  · simp [listAddAfter]
  · grind [listAddAfter_append]

end UcoreKernel.LinkedList
