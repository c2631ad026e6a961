import Mathlib.Logic.Function.Basic

/-!
# `kernel/interrupt.c` and `lib/kernel/list.c`: the flag, and the links of a list

The flag is `true` when interrupts are on. A node of a list is its address, and `prev` and `next`
are the two fields of every node.
-/

namespace OsLearn

/-! ## The interrupt flag -/

def intr_get_status (intr : Bool) : Bool := intr

/-- The status that was, and the flag after `sti`. -/
def intr_enable (intr : Bool) : Bool × Bool :=
  if intr_get_status intr = true then (true, intr) else (false, true)

/-- The status that was, and the flag after `cli`. -/
def intr_disable (intr : Bool) : Bool × Bool :=
  if intr_get_status intr = true then (true, false) else (false, intr)

def intr_set_status (intr : Bool) (status : Bool) : Bool × Bool :=
  if status then intr_enable intr else intr_disable intr

@[simp] theorem intr_disable_status (intr : Bool) : (intr_disable intr).1 = intr := by cases intr <;> rfl

@[simp] theorem intr_disable_off (intr : Bool) : (intr_disable intr).2 = false := by cases intr <;> rfl

@[simp] theorem intr_set_status_flag (intr status : Bool) : (intr_set_status intr status).2 = status := by
  cases intr <;> cases status <;> rfl

/-! ## The links -/

/-- The nodes of the lists in memory, and the flag of the processor. -/
structure ListMem where
  intr : Bool
  prev : Nat → Nat
  next : Nat → Nat

namespace ListMem

def setPrev (c : ListMem) (elem p : Nat) : ListMem := { c with prev := Function.update c.prev elem p }

def setNext (c : ListMem) (elem n : Nat) : ListMem := { c with next := Function.update c.next elem n }

end ListMem

def list_insert_before (c : ListMem) (before elem : Nat) : ListMem :=
  let old_status := intr_disable c.intr
  let c := { c with intr := old_status.2 }
  let c := c.setNext (c.prev before) elem
  let c := c.setPrev elem (c.prev before)
  let c := c.setNext elem before
  let c := c.setPrev before elem
  { c with intr := (intr_set_status c.intr old_status.1).2 }

def list_remove (c : ListMem) (pelem : Nat) : ListMem :=
  let old_status := intr_disable c.intr
  let c := { c with intr := old_status.2 }
  let c := c.setNext (c.prev pelem) (c.next pelem)
  let c := c.setPrev (c.next pelem) (c.prev pelem)
  { c with intr := (intr_set_status c.intr old_status.1).2 }

/-! ## `struct list` -/

def NULL_elem : Nat := 0

/-- `&plist->head` -/
def list_head (plist : Nat) : Nat := plist

/-- `&plist->tail`, behind a `struct list_elem` of 8 bytes. -/
def list_tail (plist : Nat) : Nat := plist + 8

def list_init (c : ListMem) (list : Nat) : ListMem :=
  let c := c.setPrev (list_head list) NULL_elem
  let c := c.setNext (list_head list) (list_tail list)
  let c := c.setPrev (list_tail list) (list_head list)
  c.setNext (list_tail list) NULL_elem

def list_push (c : ListMem) (plist elem : Nat) : ListMem := list_insert_before c (c.next (list_head plist)) elem

def list_append (c : ListMem) (plist elem : Nat) : ListMem := list_insert_before c (list_tail plist) elem

def list_pop (c : ListMem) (plist : Nat) : Nat × ListMem :=
  let elem := c.next (list_head plist)
  (elem, list_remove c elem)

def list_empty (c : ListMem) (plist : Nat) : Bool := c.next (list_head plist) = list_tail plist

/-! The loops have a bound on their rounds. -/

def list_len_loop (c : ListMem) (plist : Nat) : Nat → Nat → UInt32 → Option UInt32
  | 0, _, _ => none
  | fuel + 1, elem, length =>
    if elem ≠ list_tail plist then list_len_loop c plist fuel (c.next elem) (length + 1) else some length

def list_len (fuel : Nat) (c : ListMem) (plist : Nat) : Option UInt32 :=
  list_len_loop c plist fuel (c.next (list_head plist)) 0

def list_traversal_loop (c : ListMem) (plist : Nat) (func : Nat → Int32 → Bool) (arg : Int32) : Nat → Nat → Option Nat
  | 0, _ => none
  | fuel + 1, elem =>
    if elem ≠ list_tail plist then
      if func elem arg then some elem else list_traversal_loop c plist func arg fuel (c.next elem)
    else some NULL_elem

def list_traversal (fuel : Nat) (c : ListMem) (plist : Nat) (func : Nat → Int32 → Bool) (arg : Int32) : Option Nat :=
  let elem := c.next (list_head plist)
  if list_empty c plist then some NULL_elem else list_traversal_loop c plist func arg fuel elem

def elem_find_loop (c : ListMem) (plist obj_elem : Nat) : Nat → Nat → Option Bool
  | 0, _ => none
  | fuel + 1, elem =>
    if elem ≠ list_tail plist then
      if elem = obj_elem then some true else elem_find_loop c plist obj_elem fuel (c.next elem)
    else some false

def elem_find (fuel : Nat) (c : ListMem) (plist obj_elem : Nat) : Option Bool :=
  elem_find_loop c plist obj_elem fuel (c.next (list_head plist))

/-! ## The flag is as it was -/

theorem list_insert_before_intr (c : ListMem) (before elem : Nat) :
    (list_insert_before c before elem).intr = c.intr := by
  unfold list_insert_before
  simp only [intr_set_status_flag, intr_disable_status]

theorem list_remove_intr (c : ListMem) (pelem : Nat) : (list_remove c pelem).intr = c.intr := by
  unfold list_remove
  simp only [intr_set_status_flag, intr_disable_status]

end OsLearn
