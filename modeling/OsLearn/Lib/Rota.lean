import Mathlib.Algebra.BigOperators.Group.List.Basic
import Mathlib.Algebra.GroupWithZero.Nat
import Mathlib.Data.List.Count
import Mathlib.Logic.Function.Iterate
import Mathlib.Logic.Function.Basic
import Mathlib.Tactic.Common

/-!
# Tasks that take turns

The head of the queue runs until its slice is used up, and then goes to the end. A slice of length `s`
lasts `s + 1` ticks: the tick that finds nothing left ends the turn. The tasks are of any type, and each
has its own slice.
-/

namespace OsLearn

structure Rota (τ : Type) where
  queue : List τ
  left : τ → Nat
  -- The ticks that a task has run for.
  used : τ → Nat

namespace Rota

variable {τ : Type} [DecidableEq τ] (slice : τ → Nat)

def tick (r : Rota τ) : Rota τ :=
  match r.queue with
  | [] => r
  | t :: rest =>
    let used := Function.update r.used t (r.used t + 1)
    if r.left t = 0 then
      { queue := rest ++ [t], left := Function.update r.left t (slice t), used := used }
    else { r with left := Function.update r.left t (r.left t - 1), used := used }

/-- The task whose turn starts with the next tick, if one does. -/
def turn (r : Rota τ) : List τ :=
  match r.queue with
  | [] => []
  | t :: _ => if r.left t = 0 then ((tick slice r).queue.take 1) else []

def turns (r : Rota τ) : Nat → List τ
  | 0 => []
  | n + 1 => turns r n ++ turn slice ((tick slice)^[n] r)

theorem turns_add (r : Rota τ) (n k : Nat) :
    turns slice r (n + k) = turns slice r n ++ turns slice ((tick slice)^[n] r) k := by
  induction k with
  | zero => simp [turns]
  | succ k ih =>
    rw [← Nat.add_assoc, turns, ih, turns, List.append_assoc, ← Function.iterate_add_apply, Nat.add_comm k n]

/-! ## One slice -/

theorem tick_use (r : Rota τ) (t : τ) (rest : List τ) (hq : r.queue = t :: rest) (h : r.left t ≠ 0) :
    tick slice r = { r with
      left := Function.update r.left t (r.left t - 1), used := Function.update r.used t (r.used t + 1) } ∧
    turn slice r = [] := by
  unfold turn tick
  rw [hq]
  dsimp only
  rw [if_neg h, if_neg h]
  exact ⟨rfl, rfl⟩

theorem tick_end (r : Rota τ) (t : τ) (rest : List τ) (hq : r.queue = t :: rest) (h : r.left t = 0) :
    tick slice r = {
      queue := rest ++ [t]
      left := Function.update r.left t (slice t)
      used := Function.update r.used t (r.used t + 1) } ∧
    turn slice r = (rest ++ [t]).take 1 := by
  unfold turn tick
  rw [hq]
  dsimp only
  rw [if_pos h, if_pos h]
  exact ⟨rfl, rfl⟩

/-- The ticks of a slice up to the last one. -/
theorem use_slice (r : Rota τ) (t : τ) (rest : List τ) (hq : r.queue = t :: rest) (n : Nat)
    (hn : n ≤ r.left t) :
    (tick slice)^[n] r = { r with
      left := Function.update r.left t (r.left t - n), used := Function.update r.used t (r.used t + n) } ∧
    turns slice r n = [] := by
  induction n with
  | zero => simp [turns]
  | succ n ih =>
    obtain ⟨hr, ht⟩ := ih (by omega)
    have hleft : ((tick slice)^[n] r).left t ≠ 0 := by
      rw [hr]
      simp only [Function.update_self]
      omega
    obtain ⟨hr', ht'⟩ := tick_use slice _ t rest (by rw [hr]; exact hq) hleft
    rw [Function.iterate_succ_apply', turns, ht, ht', hr', hr]
    simp [Nat.sub_sub, Nat.add_assoc]

theorem run_slice (r : Rota τ) (t : τ) (rest : List τ) (hq : r.queue = t :: rest) (hl : r.left t = slice t) :
    (tick slice)^[slice t + 1] r = {
      queue := rest ++ [t]
      left := r.left
      used := Function.update r.used t (r.used t + (slice t + 1)) } ∧
    turns slice r (slice t + 1) = (rest ++ [t]).take 1 := by
  obtain ⟨hr, ht⟩ := use_slice slice r t rest hq (slice t) (by omega)
  have hleft : ((tick slice)^[slice t] r).left t = 0 := by
    rw [hr]
    simp only [Function.update_self]
    omega
  obtain ⟨hr', ht'⟩ := tick_end slice _ t rest (by rw [hr]; exact hq) hleft
  rw [Function.iterate_succ_apply', turns, ht, ht', hr', hr]
  simp [← hl, Nat.add_assoc]

/-! ## A round -/

/-- The ticks that the tasks of a list take, each with a whole slice. -/
def slices (l : List τ) : Nat := (l.map fun t => slice t + 1).sum

/-- The tasks at the front run one slice each, and are behind the others then. -/
theorem run_slices (l rest : List τ) (r : Rota τ) (hq : r.queue = l ++ rest) (hl : ∀ t ∈ l, r.left t = slice t) :
    (tick slice)^[slices slice l] r = {
      queue := rest ++ l
      left := r.left
      used := fun t => r.used t + l.count t * (slice t + 1) } ∧
    turns slice r (slices slice l) = ((l ++ rest ++ l).tail).take l.length := by
  induction l generalizing rest r with
  | nil =>
    have hq : rest = r.queue := hq.symm
    subst hq
    simp [slices, turns]
  | cons a l ih =>
    have hsum : slices slice (a :: l) = (slice a + 1) + slices slice l := rfl
    have hiter : (tick slice)^[slices slice (a :: l)] r =
        (tick slice)^[slices slice l] ((tick slice)^[slice a + 1] r) := by
      rw [hsum, Nat.add_comm, Function.iterate_add_apply]
    have hq' : r.queue = a :: (l ++ rest) := hq
    obtain ⟨hr, ht⟩ := run_slice slice r a (l ++ rest) hq' (hl a List.mem_cons_self)
    obtain ⟨hr', ht'⟩ := ih (rest ++ [a]) ((tick slice)^[slice a + 1] r) (by rw [hr, List.append_assoc])
      (fun t h => by rw [hr]; exact hl t (List.mem_cons_of_mem a h))
    rw [hiter, hsum, turns_add, hr', ht', ht, hr]
    constructor
    · simp only [List.append_assoc, List.singleton_append, Rota.mk.injEq, true_and]
      funext t
      by_cases h : t = a
      · subst h
        rw [Function.update_self, List.count_cons_self, Nat.add_mul]
        omega
      · rw [Function.update_of_ne h, List.count_cons_of_ne (Ne.symm h)]
    · cases l <;> simp

/-- **A whole round.** Every task has run its slice once, in the order of the queue. -/
theorem run_round (r : Rota τ) (hl : ∀ t ∈ r.queue, r.left t = slice t) :
    (tick slice)^[slices slice r.queue] r = {
      queue := r.queue
      left := r.left
      used := fun t => r.used t + r.queue.count t * (slice t + 1) } ∧
    turns slice r (slices slice r.queue) = r.queue.tail ++ r.queue.take 1 := by
  obtain ⟨hr, ht⟩ := run_slices slice r.queue [] r (List.append_nil _).symm hl
  refine ⟨hr, ht.trans ?_⟩
  cases r.queue with
  | nil => rfl
  | cons a l => simp [List.take_append]

end Rota

end OsLearn
