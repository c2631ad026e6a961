import Mathlib.Tactic.Common

/-!
# What a computation that may fail ends in

`Spec x P E`: if `x` gives a value then `P` holds of it, and if it fails then `E` holds of the error.
-/

namespace OsLearn

variable {ε α β : Type}

def Spec (x : Except ε α) (P : α → Prop) (E : ε → Prop) : Prop :=
  match x with
  | .ok a => P a
  | .error e => E e

@[simp] theorem spec_ok (a : α) (P : α → Prop) (E : ε → Prop) : Spec (.ok a) P E ↔ P a := Iff.rfl

@[simp] theorem spec_error (e : ε) (P : α → Prop) (E : ε → Prop) : Spec (.error e) P E ↔ E e := Iff.rfl

@[simp] theorem spec_pure (a : α) (P : α → Prop) (E : ε → Prop) :
    Spec (pure a : Except ε α) P E ↔ P a := Iff.rfl

@[simp] theorem spec_throw (e : ε) (P : α → Prop) (E : ε → Prop) :
    Spec (throw e : Except ε α) P E ↔ E e := Iff.rfl

@[simp] theorem spec_bind (x : Except ε α) (f : α → Except ε β) (P : β → Prop) (E : ε → Prop) :
    Spec (x >>= f) P E ↔ Spec x (fun a => Spec (f a) P E) E := by
  cases x <;> rfl

theorem spec_mono (x : Except ε α) (P Q : α → Prop) (E F : ε → Prop) (h : Spec x P E)
    (hP : ∀ a, P a → Q a) (hE : ∀ e, E e → F e) : Spec x Q F := by
  cases x with
  | ok a => exact hP a h
  | error e => exact hE e h

theorem spec_and (x : Except ε α) (P Q : α → Prop) (E F : ε → Prop) (h : Spec x P E) (h' : Spec x Q F) :
    Spec x (fun a => P a ∧ Q a) fun e => E e ∧ F e := by
  cases x with
  | ok a => exact ⟨h, h'⟩
  | error e => exact ⟨h, h'⟩

theorem spec_of_ok (x : Except ε α) (P : α → Prop) (E : ε → Prop) (h : Spec x P E) (a : α)
    (hx : x = .ok a) : P a := by
  subst hx
  exact h

theorem spec_of_error (x : Except ε α) (P : α → Prop) (E : ε → Prop) (h : Spec x P E) (e : ε)
    (hx : x = .error e) : E e := by
  subst hx
  exact h

theorem spec_iff_ok (x : Except ε α) (P : α → Prop) :
    (Spec x P fun _ => True) ↔ ∀ a, x = .ok a → P a := by
  cases x with
  | ok a => simp
  | error e => simp

/-! ## Loops with a bound on their rounds -/

/-- A loop that goes through a list needs one round for each element and one to see the end. -/
theorem rounds_over {α : Type} {motive : Nat → List α → Prop} (stop : ∀ fuel, motive (fuel + 1) [])
    (round : ∀ fuel x xs, motive fuel xs → motive (fuel + 1) (x :: xs)) (fuel : Nat) (xs : List α)
    (h : xs.length < fuel) : motive fuel xs := by
  induction xs generalizing fuel with
  | nil =>
    cases fuel with
    | zero => contradiction
    | succ fuel => exact stop fuel
  | cons x xs ih =>
    cases fuel with
    | zero => contradiction
    | succ fuel => exact round fuel x xs (ih fuel (Nat.lt_of_succ_lt_succ h))

end OsLearn
