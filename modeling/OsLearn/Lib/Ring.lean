import Mathlib.Tactic.Common
import Mathlib.Data.List.Range
import Mathlib.Logic.Function.Basic

/-!
# A ring buffer with one free cell

`head` is the next cell to write, `tail` the next one to read. The ring of `n` cells is empty when
they are equal and full when `head` is one behind `tail`, so it holds at most `n - 1` items.
-/

namespace OsLearn.Ring

variable {α : Type}

def count (n head tail : Nat) : Nat := (head + n - tail) % n

def cell (n tail k : Nat) : Nat := (tail + k) % n

def items (n : Nat) (buf : Nat → α) (head tail : Nat) : List α :=
  (List.range (count n head tail)).map fun k => buf (cell n tail k)

@[simp] theorem length_items (n : Nat) (buf : Nat → α) (head tail : Nat) :
    (items n buf head tail).length = count n head tail := by
  simp [items]

theorem count_cases (n head tail : Nat) (hh : head < n) (ht : tail < n) :
    (tail ≤ head ∧ count n head tail = head - tail) ∨
    (head < tail ∧ count n head tail = head + n - tail) := by
  unfold count
  rcases Nat.lt_or_ge head tail with h | h
  · exact .inr ⟨h, Nat.mod_eq_of_lt (by omega)⟩
  · refine .inl ⟨h, ?_⟩
    rw [show head + n - tail = head - tail + n from by omega, Nat.add_mod_right]
    exact Nat.mod_eq_of_lt (by omega)

theorem succ_cases (n i : Nat) (hi : i < n) :
    (i + 1 < n ∧ (i + 1) % n = i + 1) ∨ (i + 1 = n ∧ (i + 1) % n = 0) := by
  rcases Nat.lt_or_ge (i + 1) n with h | h
  · exact .inl ⟨h, Nat.mod_eq_of_lt h⟩
  · have : i + 1 = n := by omega
    exact .inr ⟨this, by rw [this, Nat.mod_self]⟩

theorem cell_cases (n tail k : Nat) (ht : tail < n) (hk : k < n) :
    (tail + k < n ∧ cell n tail k = tail + k) ∨ (n ≤ tail + k ∧ cell n tail k = tail + k - n) := by
  unfold cell
  rcases Nat.lt_or_ge (tail + k) n with h | h
  · exact .inl ⟨h, Nat.mod_eq_of_lt h⟩
  · refine .inr ⟨h, ?_⟩
    rw [Nat.mod_eq_sub_mod h]
    exact Nat.mod_eq_of_lt (by omega)

theorem count_lt (n head tail : Nat) (hh : head < n) : count n head tail < n :=
  Nat.mod_lt _ (by omega)

theorem count_eq_zero (n head tail : Nat) (hh : head < n) (ht : tail < n) :
    count n head tail = 0 ↔ head = tail := by
  rcases count_cases n head tail hh ht with h | h <;> omega

theorem count_eq_full (n head tail : Nat) (hh : head < n) (ht : tail < n) :
    count n head tail = n - 1 ↔ (head + 1) % n = tail := by
  rcases count_cases n head tail hh ht with h | h <;> rcases succ_cases n head hh with h' | h' <;> omega

theorem count_put (n head tail : Nat) (hh : head < n) (ht : tail < n) (hfull : (head + 1) % n ≠ tail) :
    count n ((head + 1) % n) tail = count n head tail + 1 := by
  have hs : (head + 1) % n < n := Nat.mod_lt _ (by omega)
  rcases count_cases n head tail hh ht with h | h <;> rcases succ_cases n head hh with h' | h' <;>
    rcases count_cases n _ tail hs ht with h'' | h'' <;> omega

theorem count_get (n head tail : Nat) (hh : head < n) (ht : tail < n) (hne : head ≠ tail) :
    count n head tail = count n head ((tail + 1) % n) + 1 := by
  have hs : (tail + 1) % n < n := Nat.mod_lt _ (by omega)
  rcases count_cases n head tail hh ht with h | h <;> rcases succ_cases n tail ht with h' | h' <;>
    rcases count_cases n head _ hh hs with h'' | h'' <;> omega

theorem cell_count (n head tail : Nat) (hh : head < n) (ht : tail < n) :
    cell n tail (count n head tail) = head := by
  have hc := count_lt n head tail hh
  rcases count_cases n head tail hh ht with h | h <;> rcases cell_cases n tail _ ht hc with h' | h' <;> omega

theorem cell_ne_head (n head tail k : Nat) (hh : head < n) (ht : tail < n) (hk : k < count n head tail) :
    cell n tail k ≠ head := by
  have hc := count_lt n head tail hh
  rcases count_cases n head tail hh ht with h | h <;>
    rcases cell_cases n tail k ht (by omega) with h' | h' <;> omega

theorem cell_succ (n tail k : Nat) : cell n ((tail + 1) % n) k = cell n tail (k + 1) := by
  unfold cell
  rw [Nat.mod_add_mod]
  congr 1
  omega

theorem items_put (n : Nat) (buf : Nat → α) (head tail : Nat) (x : α) (hh : head < n) (ht : tail < n)
    (hfull : (head + 1) % n ≠ tail) :
    items n (Function.update buf head x) ((head + 1) % n) tail = items n buf head tail ++ [x] := by
  unfold items
  rw [count_put n head tail hh ht hfull, List.range_succ, List.map_append]
  congr 1
  · apply List.map_congr_left
    intro k hk
    rw [Function.update_of_ne (cell_ne_head n head tail k hh ht (List.mem_range.mp hk))]
  · simp [cell_count n head tail hh ht]

theorem items_get (n : Nat) (buf : Nat → α) (head tail : Nat) (hh : head < n) (ht : tail < n)
    (hne : head ≠ tail) : items n buf head tail = buf tail :: items n buf head ((tail + 1) % n) := by
  unfold items
  rw [count_get n head tail hh ht hne, List.range_succ_eq_map, List.map_cons, List.map_map]
  congr 1
  · congr 1
    exact Nat.mod_eq_of_lt ht
  · apply List.map_congr_left
    intro k _
    simp only [Function.comp_apply, cell_succ]

end OsLearn.Ring
