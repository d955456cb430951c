
import Mathlib

/-!
# Cursors over a linked list

The cursor of `alloc::collections::LinkedList`: a position in a circular arrangement of
the elements and one ghost element between the last and the first. `before` holds what
lies in front of the position, nearest first; the current element is the head of `rest`,
and an empty `rest` is the ghost position.
-/

namespace Emerald

structure Cursor (α : Type) where
  before : List α
  rest : List α

namespace Cursor
variable {α : Type}

variable (c : Cursor α)

/-- The list the cursor moves over. -/
def list : List α := c.before.reverse ++ c.rest

def current : Option α := c.rest.head?

/-- `move_prev`; from the first element it goes to the ghost position. -/
def movePrev : Cursor α :=
  match c.before with
  | x :: before => ⟨before, x :: c.rest⟩
  | [] => ⟨c.rest.reverse, []⟩

/-- Assignment through `current()`; the ghost position has nothing to assign to. -/
def setCurrent (x : α) : Cursor α :=
  match c.rest with
  | _ :: rest => ⟨c.before, x :: rest⟩
  | [] => c

/-- `remove_current`: the cursor moves on to the next element. -/
def removeCurrent : Cursor α := ⟨c.before, c.rest.tail⟩

/-- `insert_after`; at the ghost position the element becomes the first one. -/
def insertAfter (x : α) : Cursor α :=
  match c.rest with
  | y :: rest => ⟨c.before, y :: x :: rest⟩
  | [] => ⟨c.before ++ [x], []⟩

theorem list_insertAfter_ghost (before : List α) (x : α) :
    (insertAfter ⟨before, []⟩ x).list = x :: before.reverse := by
  simp [insertAfter, list]

theorem list_insertAfter_cons (before rest : List α) (x y : α) :
    (insertAfter ⟨before, y :: rest⟩ x).list = before.reverse ++ y :: x :: rest := by
  simp [insertAfter, list]

end Cursor

end Emerald
