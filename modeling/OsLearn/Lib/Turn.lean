import Mathlib.Tactic.Common

/-!
# Waiting for a turn

A queue is served from its front, each client for less than `slice` ticks. New clients come in at the end, where they
cannot be seen from, and others may push in at the front.
-/

namespace OsLearn

/-- What a client in the queue sees. -/
structure Turn where
  ahead : Nat
  -- What is left of the service that is going on.
  left : Nat

namespace Turn

variable (slice : Nat)

/-- One step of the queue: whether a tick went by, the next client was served, one pushed in. -/
inductive Step (t : Turn) : Bool → Bool → Bool → Turn → Prop
  | quiet : Step t false false false t
  | tick : t.left ≠ 0 → Step t true false false { t with left := t.left - 1 }
  -- A tick may end the service, and the client that is served may leave before.
  | serve (tick : Bool) (ahead left : Nat) : t.ahead = ahead + 1 → left < slice →
      Step t tick true false { ahead := ahead, left := left }
  | front : Step t false false true { t with ahead := t.ahead + 1 }

/-- The steps while the client waits, with their ticks, the clients served and those who pushed in. -/
inductive Waits (t : Turn) : Nat → Nat → Nat → Turn → Prop
  | nil : Waits t 0 0 0 t
  | step (ticks served fronts : Nat) (t' : Turn) (tick serve front : Bool) (t'' : Turn) :
      Waits t ticks served fronts t' → Step slice t' tick serve front t'' →
      Waits t (ticks + tick.toNat) (served + serve.toNat) (fronts + front.toNat) t''

theorem step_counts (t t' : Turn) (tick serve front : Bool) (h : Step slice t tick serve front t') :
    t'.ahead + serve.toNat = t.ahead + front.toNat ∧
    tick.toNat + t'.left + slice * t'.ahead ≤ t.left + slice * (t.ahead + front.toNat) := by
  cases h with
  | quiet => simp
  | tick hleft =>
    refine ⟨rfl, ?_⟩
    simp only [Bool.toNat_true, Bool.toNat_false, Nat.add_zero]
    omega
  | serve _ ahead left hahead hlt =>
    have hone : tick.toNat ≤ 1 := Bool.toNat_le tick
    refine ⟨hahead.symm, ?_⟩
    rw [hahead, Bool.toNat_false, Nat.add_zero, Nat.mul_succ]
    dsimp only
    omega
  | front => simp

/-- The place in the queue is exact, and every tick is paid for by a service. -/
theorem waits_counts (t t' : Turn) (ticks served fronts : Nat) (h : Waits slice t ticks served fronts t') :
    t'.ahead + served = t.ahead + fronts ∧
    ticks + t'.left + slice * t'.ahead ≤ t.left + slice * (t.ahead + fronts) := by
  induction h with
  | nil => simp
  | step ticks served fronts t₁ tick serve front t₂ _ hs ih =>
    obtain ⟨hahead, hticks⟩ := step_counts slice t₁ t₂ tick serve front hs
    obtain ⟨ihahead, ihticks⟩ := ih
    refine ⟨by omega, ?_⟩
    rw [Nat.mul_add] at hticks
    rw [← Nat.add_assoc, Nat.mul_add]
    omega

end Turn

end OsLearn
