import OsLearn.Lib.Bits
import OsLearn.Kernel.Debug
import Mathlib.Logic.Function.Basic

/-!
# Paging: the walk of the processor and the recursive window of `kernel/memory.c`

Memory is seen in frames of 1024 words. A directory and a table are frames, and an entry is a word.
-/

namespace OsLearn

/-- Physical memory: a word of a frame. -/
abbrev Ram := Nat → Nat → UInt32

def Ram.set (ram : Ram) (f i : Nat) (w : UInt32) : Ram := Function.update ram f (Function.update (ram f) i w)

def Ram.zero (ram : Ram) (f : Nat) : Ram := Function.update ram f fun _ => 0

theorem Ram.set_apply (ram : Ram) (f i : Nat) (w : UInt32) (g j : Nat) :
    ram.set f i w g j = if g = f ∧ j = i then w else ram g j := by
  unfold Ram.set
  by_cases hg : g = f
  · subst hg
    by_cases hj : j = i
    · simp [hj]
    · simp [hj]
  · simp [hg]

theorem Ram.set_of_ne (ram : Ram) (f i : Nat) (w : UInt32) (g : Nat) (h : g ≠ f) : ram.set f i w g = ram g :=
  Function.update_of_ne h _ _

theorem Ram.zero_of_ne (ram : Ram) (f g : Nat) (h : g ≠ f) : ram.zero f g = ram g := Function.update_of_ne h _ _

@[simp] theorem Ram.zero_self (ram : Ram) (f i : Nat) : ram.zero f f i = 0 := by simp [Ram.zero]

/-! ## The processor -/

def present (e : UInt32) : Bool := e.toNat % 2 = 1

def frameOf (e : UInt32) : Nat := e.toNat / 2 ^ 12

/-- The two-level walk: the frame that an address is in, with the directory in frame `dir`. -/
def walk (ram : Ram) (dir : Nat) (v : UInt32) : Option Nat :=
  let pde := ram dir (v.toNat / 2 ^ 22)
  if present pde then
    let pte := ram (frameOf pde) (v.toNat / 2 ^ 12 % 2 ^ 10)
    if present pte then some (frameOf pte) else none
  else none

def wordOf (v : UInt32) : Nat := v.toNat % 2 ^ 12 / 4

/-! ## `kernel/memory.c` -/

def PDE_IDX (addr : UInt32) : UInt32 := (addr &&& 0xffc00000) >>> 22

def PTE_IDX (addr : UInt32) : UInt32 := (addr &&& 0x003ff000) >>> 12

def pte_ptr (vaddr : UInt32) : UInt32 :=
  (0xffc00000 : UInt32) ||| ((vaddr &&& 0xffc00000) >>> 10) ||| PTE_IDX vaddr * 4

def pde_ptr (vaddr : UInt32) : UInt32 := 0xfffff000 ||| PDE_IDX vaddr * 4

def PG_ATTR : UInt32 := 7

/-! ## The pointers are the addresses they are meant to be -/

theorem PDE_IDX_toNat (v : UInt32) : (PDE_IDX v).toNat = v.toNat / 2 ^ 22 := by
  have hv := v.toNat_lt
  rw [PDE_IDX, UInt32.toNat_shiftRight, UInt32.toNat_and]
  show (v.toNat &&& ((2 ^ 10 - 1) <<< 22)) >>> 22 = _
  rw [nat_and_mask, Nat.shiftRight_eq_div_pow, Nat.mul_div_cancel _ (by omega), Nat.mod_eq_of_lt (by omega)]

theorem PTE_IDX_toNat (v : UInt32) : (PTE_IDX v).toNat = v.toNat / 2 ^ 12 % 2 ^ 10 := by
  rw [PTE_IDX, UInt32.toNat_shiftRight, UInt32.toNat_and]
  show (v.toNat &&& ((2 ^ 10 - 1) <<< 12)) >>> 12 = _
  rw [nat_and_mask, Nat.shiftRight_eq_div_pow, Nat.mul_div_cancel _ (by omega)]

theorem pde_ptr_toNat (v : UInt32) : (pde_ptr v).toNat = 0xfffff000 + 4 * (v.toNat / 2 ^ 22) := by
  have hv := v.toNat_lt
  have hi : (PDE_IDX v * 4).toNat = 4 * (v.toNat / 2 ^ 22) := by
    rw [UInt32.toNat_mul, PDE_IDX_toNat]
    show v.toNat / 2 ^ 22 * 4 % 2 ^ 32 = _
    omega
  rw [pde_ptr, UInt32.toNat_or, hi]
  show 2 ^ 12 * 0xfffff ||| _ = _
  rw [nat_or_add _ _ _ (by omega)]
  omega

theorem pte_ptr_toNat (v : UInt32) : (pte_ptr v).toNat = 0xffc00000 + 4 * (v.toNat / 2 ^ 12) := by
  have hv := v.toNat_lt
  have hi : (PTE_IDX v * 4).toNat = 4 * (v.toNat / 2 ^ 12 % 2 ^ 10) := by
    rw [UInt32.toNat_mul, PTE_IDX_toNat]
    show v.toNat / 2 ^ 12 % 2 ^ 10 * 4 % 2 ^ 32 = _
    omega
  have hd : ((v &&& 0xffc00000) >>> 10).toNat = 2 ^ 12 * (v.toNat / 2 ^ 22) := by
    rw [UInt32.toNat_shiftRight, UInt32.toNat_and]
    show (v.toNat &&& ((2 ^ 10 - 1) <<< 22)) >>> 10 = _
    rw [nat_and_mask, Nat.shiftRight_eq_div_pow]
    omega
  rw [pte_ptr, UInt32.toNat_or, UInt32.toNat_or, hi, hd]
  have h1 : (0xffc00000 : UInt32).toNat ||| 2 ^ 12 * (v.toNat / 2 ^ 22) =
      2 ^ 12 * (0xffc00 + v.toNat / 2 ^ 22) := by
    show 2 ^ 22 * 0x3ff ||| _ = _
    rw [nat_or_add _ _ _ (by omega)]
    omega
  rw [h1, nat_or_add _ _ _ (by omega)]
  omega

/-! ## The recursive window -/

/-- The last entry of the directory points to the directory. -/
structure SelfMap (ram : Ram) (dir : Nat) : Prop where
  here : present (ram dir 1023) = true
  frame : frameOf (ram dir 1023) = dir

theorem walk_pde_ptr (ram : Ram) (dir : Nat) (v : UInt32) (h : SelfMap ram dir) :
    walk ram dir (pde_ptr v) = some dir ∧ wordOf (pde_ptr v) = v.toNat / 2 ^ 22 := by
  have hv := v.toNat_lt
  have hp := pde_ptr_toNat v
  have h1 : (pde_ptr v).toNat / 2 ^ 22 = 1023 := by omega
  have h2 : (pde_ptr v).toNat / 2 ^ 12 % 2 ^ 10 = 1023 := by omega
  constructor
  · simp only [walk, h1, h2, h.here, h.frame, if_true]
  · unfold wordOf
    omega

theorem walk_pte_ptr (ram : Ram) (dir : Nat) (v : UInt32) (h : SelfMap ram dir)
    (hp : present (ram dir (v.toNat / 2 ^ 22)) = true) :
    walk ram dir (pte_ptr v) = some (frameOf (ram dir (v.toNat / 2 ^ 22))) ∧
      wordOf (pte_ptr v) = v.toNat / 2 ^ 12 % 2 ^ 10 := by
  have hv := v.toNat_lt
  have hptr := pte_ptr_toNat v
  have h1 : (pte_ptr v).toNat / 2 ^ 22 = 1023 := by omega
  have h2 : (pte_ptr v).toNat / 2 ^ 12 % 2 ^ 10 = v.toNat / 2 ^ 22 := by omega
  constructor
  · simp only [walk, h1, h2, h.here, h.frame, hp, if_true]
  · unfold wordOf
    omega

/-! ## Entries -/

def entry (f : Nat) : UInt32 := UInt32.ofNat (f * 2 ^ 12) ||| PG_ATTR

theorem entry_toNat (f : Nat) (hf : f < 2 ^ 20) : (entry f).toNat = f * 2 ^ 12 + 7 := by
  rw [entry, UInt32.toNat_or, UInt32.toNat_ofNat_of_lt' (by show f * 2 ^ 12 < 2 ^ 32; omega), Nat.mul_comm]
  exact nat_or_add f 7 12 (by omega)

@[simp] theorem present_entry (f : Nat) (hf : f < 2 ^ 20) : present (entry f) = true := by
  rw [present, entry_toNat f hf, decide_eq_true_iff]
  omega

@[simp] theorem frameOf_entry (f : Nat) (hf : f < 2 ^ 20) : frameOf (entry f) = f := by
  rw [frameOf, entry_toNat f hf]
  omega

theorem present_iff (e : UInt32) : present e = true ↔ e &&& 1 ≠ 0 := by
  rw [u32_and_one, present, decide_eq_true_iff]

/-! ## Entries as pointers to frames -/

def target (e : UInt32) : Option Nat := if present e then some (frameOf e) else none

def frameAt (ram : Ram) (dir page : Nat) : Option Nat :=
  (target (ram dir (page / 2 ^ 10))).bind fun t => target (ram t (page % 2 ^ 10))

theorem walk_eq (ram : Ram) (dir : Nat) (v : UInt32) : walk ram dir v = frameAt ram dir (v.toNat / 2 ^ 12) := by
  have hi : v.toNat / 2 ^ 12 / 2 ^ 10 = v.toNat / 2 ^ 22 := by omega
  unfold walk frameAt target
  rw [hi]
  by_cases h : present (ram dir (v.toNat / 2 ^ 22)) = true
  · rw [if_pos h, if_pos h, Option.bind_some]
  · rw [if_neg h, if_neg h, Option.bind_none]

@[simp] theorem target_zero : target 0 = none := by decide

theorem target_entry (f : Nat) (hf : f < 2 ^ 20) : target (entry f) = some f := by
  rw [target, present_entry f hf, frameOf_entry f hf]
  rfl

theorem present_eq (e : UInt32) : present e = (target e).isSome := by
  unfold target
  split <;> simp_all

theorem frameOf_of_target (e : UInt32) (f : Nat) (h : target e = some f) : frameOf e = f := by
  unfold target at h
  split at h
  · exact Option.some.inj h
  · cases h

theorem target_lt (e : UInt32) (f : Nat) (h : target e = some f) : f < 2 ^ 20 := by
  have he := e.toNat_lt
  rw [← frameOf_of_target e f h, frameOf]
  omega

end OsLearn
