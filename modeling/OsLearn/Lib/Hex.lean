import Mathlib.Tactic.Common
import Mathlib.Algebra.Group.Nat.Defs

/-!
# Hexadecimal numerals in upper case
-/

namespace OsLearn.Hex

/-! ## Digits -/

def digit (d : Nat) : UInt8 := UInt8.ofNat (if 9 < d then d + 0x37 else d + 0x30)

def val (c : UInt8) : Nat := if c ≤ 0x39 then c.toNat - 0x30 else c.toNat - 0x37

def IsDigit (c : UInt8) : Prop := 0x30 ≤ c ∧ c ≤ 0x39 ∨ 0x41 ≤ c ∧ c ≤ 0x46

instance (c : UInt8) : Decidable (IsDigit c) := inferInstanceAs (Decidable (_ ∨ _))

theorem val_digit : ∀ d < 16, val (digit d) = d := by decide

theorem isDigit_digit : ∀ d < 16, IsDigit (digit d) := by decide

/-! ## Numerals -/

/-- The last `n` digits of `v`. -/
def numeral : Nat → Nat → List UInt8
  | 0, _ => []
  | n + 1, v => numeral n (v / 16) ++ [digit (v % 16)]

def value (cs : List UInt8) : Nat := cs.foldl (fun v c => 16 * v + val c) 0

theorem length_numeral (n v : Nat) : (numeral n v).length = n := by
  induction n generalizing v with
  | zero => rfl
  | succ n ih => rw [numeral, List.length_append, ih, List.length_singleton]

theorem isDigit_numeral (n v : Nat) : ∀ c ∈ numeral n v, IsDigit c := by
  induction n generalizing v with
  | zero => exact fun c hc => absurd hc List.not_mem_nil
  | succ n ih =>
    intro c hc
    rcases List.mem_append.mp hc with hc | hc
    · exact ih _ c hc
    · rw [List.mem_singleton.mp hc]
      exact isDigit_digit _ (Nat.mod_lt _ (by decide))

theorem value_numeral (n v : Nat) : value (numeral n v) = v % 16 ^ n := by
  induction n generalizing v with
  | zero => exact (Nat.mod_one v).symm
  | succ n ih =>
    unfold value at ih ⊢
    rw [numeral, List.foldl_append, ih, List.foldl_cons, List.foldl_nil, val_digit _ (Nat.mod_lt _ (by decide)),
      Nat.pow_succ, Nat.mul_comm (16 ^ n) 16, Nat.mod_mul]
    omega

/-! ## Without leading zeros -/

/-- A single zero stays. -/
def trim (cs : List UInt8) : List UInt8 :=
  match cs.dropWhile (· = 0x30) with
  | [] => [0x30]
  | c :: cs => c :: cs

theorem trim_zero_cons (cs : List UInt8) : trim (0x30 :: cs) = trim cs := rfl

theorem trim_cons (c : UInt8) (cs : List UInt8) (h : c ≠ 0x30) : trim (c :: cs) = c :: cs := by
  unfold trim
  rw [List.dropWhile_cons, if_neg (by simpa using h)]

theorem value_dropWhile (cs : List UInt8) : value (cs.dropWhile (· = 0x30)) = value cs := by
  induction cs with
  | nil => rfl
  | cons c cs ih =>
    by_cases hc : c = 0x30
    · rw [List.dropWhile_cons, if_pos (decide_eq_true hc), ih, hc]
      rfl
    · rw [List.dropWhile_cons, if_neg (by simpa using hc)]

/-- What `trim` gives: a zero alone, or a numeral that starts with another digit. -/
theorem trim_cases (cs : List UInt8) :
    value cs = 0 ∧ trim cs = [0x30] ∨
      ∃ c rest, trim cs = c :: rest ∧ c ≠ 0x30 ∧ cs.dropWhile (· = 0x30) = c :: rest := by
  have hval := value_dropWhile cs
  have hhead := List.head?_dropWhile_not (fun c : UInt8 => decide (c = 0x30)) cs
  unfold trim
  cases hd : cs.dropWhile (· = 0x30) with
  | nil =>
    rw [hd] at hval
    exact .inl ⟨hval.symm, rfl⟩
  | cons c rest =>
    rw [hd] at hhead
    exact .inr ⟨c, rest, rfl, by simpa using hhead, rfl⟩

theorem trim_ne_nil (cs : List UInt8) : trim cs ≠ [] := by
  obtain ⟨-, h⟩ | ⟨c, rest, h, -, -⟩ := trim_cases cs
  · rw [h]
    exact List.cons_ne_nil _ _
  · rw [h]
    exact List.cons_ne_nil _ _

theorem value_trim (cs : List UInt8) : value (trim cs) = value cs := by
  obtain ⟨hzero, h⟩ | ⟨c, rest, h, -, hd⟩ := trim_cases cs
  · rw [h, hzero]
    rfl
  · rw [h, ← hd, value_dropWhile]

theorem isDigit_trim (cs : List UInt8) (h : ∀ c ∈ cs, IsDigit c) : ∀ c ∈ trim cs, IsDigit c := by
  obtain ⟨-, ht⟩ | ⟨c, rest, ht, -, hd⟩ := trim_cases cs
  · rw [ht]
    exact List.forall_mem_singleton.mpr (by decide)
  · rw [ht, ← hd]
    exact fun c hc => h c ((List.dropWhile_sublist _).subset hc)

theorem length_trim (cs : List UInt8) (h : cs ≠ []) : (trim cs).length ≤ cs.length := by
  obtain ⟨-, ht⟩ | ⟨c, rest, ht, -, hd⟩ := trim_cases cs
  · rw [ht]
    exact List.length_pos_iff.mpr h
  · rw [ht, ← hd]
    exact (List.dropWhile_sublist _).length_le

/-- A digit other than 0 in front: the value is not 0. -/
theorem le_foldl (cs : List UInt8) (v : Nat) : v ≤ cs.foldl (fun v c => 16 * v + val c) v := by
  induction cs generalizing v with
  | nil => exact Nat.le_refl _
  | cons c cs ih => exact Nat.le_trans (by omega) (ih (16 * v + val c))

theorem trim_zero (cs : List UInt8) (h : ∀ c ∈ cs, IsDigit c) (hv : value cs = 0) : trim cs = [0x30] := by
  obtain ⟨-, ht⟩ | ⟨c, rest, ht, hne, hd⟩ := trim_cases cs
  · exact ht
  · have hdigit := h c ((List.dropWhile_sublist _).subset (hd ▸ List.mem_cons_self))
    have hval : value cs = rest.foldl (fun v c => 16 * v + val c) (16 * 0 + val c) := by
      rw [← value_dropWhile, hd]
      rfl
    have hle := le_foldl rest (16 * 0 + val c)
    have hpos : val c ≠ 0 := by
      unfold IsDigit at hdigit
      unfold val
      simp only [UInt8.le_iff_toNat_le, ← UInt8.toNat_inj, ne_eq] at hdigit hne ⊢
      simp at hdigit hne ⊢
      split <;> omega
    omega

theorem head_trim (cs : List UInt8) (h : value cs ≠ 0) : (trim cs).head? ≠ some 0x30 := by
  obtain ⟨hzero, -⟩ | ⟨c, rest, ht, hne, -⟩ := trim_cases cs
  · exact absurd hzero h
  · rw [ht]
    intro heq
    exact hne (Option.some.inj heq)

end OsLearn.Hex
