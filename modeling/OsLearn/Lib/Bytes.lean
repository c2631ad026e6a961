import Mathlib.Tactic.Common
import Mathlib.Algebra.Group.Nat.Defs
import Mathlib.Tactic.Ring

/-!
# Byte memory with little-endian words
-/

namespace OsLearn

abbrev Mem := Nat → UInt8

def read32 (mem : Mem) (a : Nat) : UInt32 :=
  UInt32.ofNat ((mem a).toNat + 0x100 * (mem (a + 1)).toNat + 0x10000 * (mem (a + 2)).toNat +
    0x1000000 * (mem (a + 3)).toNat)

def write32 (mem : Mem) (a : Nat) (v : UInt32) : Mem := fun x =>
  if x = a then UInt8.ofNat v.toNat
  else if x = a + 1 then UInt8.ofNat (v.toNat / 0x100)
  else if x = a + 2 then UInt8.ofNat (v.toNat / 0x10000)
  else if x = a + 3 then UInt8.ofNat (v.toNat / 0x1000000)
  else mem x

theorem write32_other (mem : Mem) (a : Nat) (v : UInt32) (x : Nat) (h : x < a ∨ a + 4 ≤ x) :
    write32 mem a v x = mem x := by
  unfold write32
  rw [if_neg (by omega), if_neg (by omega), if_neg (by omega), if_neg (by omega)]

@[simp] theorem read32_write32 (mem : Mem) (a : Nat) (v : UInt32) : read32 (write32 mem a v) a = v := by
  have hv := v.toNat_lt
  rw [← UInt32.toNat_inj]
  simp [read32, write32]
  omega

theorem read32_congr (mem mem' : Mem) (a : Nat) (h : ∀ x, a ≤ x → x < a + 4 → mem' x = mem x) :
    read32 mem' a = read32 mem a := by
  unfold read32
  rw [h a (by omega) (by omega), h (a + 1) (by omega) (by omega), h (a + 2) (by omega) (by omega),
    h (a + 3) (by omega) (by omega)]

theorem read32_write32_other (mem : Mem) (a b : Nat) (v : UInt32) (h : b + 4 ≤ a ∨ a + 4 ≤ b) :
    read32 (write32 mem a v) b = read32 mem b := by
  apply read32_congr
  intro x hx hx'
  exact write32_other mem a v x (by omega)

/-! ## The bytes of a word -/

def byteOf (w : UInt32) (k : Nat) : UInt8 := UInt8.ofNat (w.toNat / 2 ^ (8 * k))

def setByte (w : UInt32) (k : Nat) (b : UInt8) : UInt32 :=
  UInt32.ofNat (w.toNat % 2 ^ (8 * k) + b.toNat * 2 ^ (8 * k) + w.toNat / 2 ^ (8 * k + 8) * 2 ^ (8 * k + 8))

theorem byteOf_setByte (w : UInt32) (k j : Nat) (b : UInt8) (hk : k < 4) (hj : j < 4) :
    byteOf (setByte w k b) j = if j = k then b else byteOf w j := by
  have hw := w.toNat_lt
  have hb := b.toNat_lt
  rw [← UInt8.toNat_inj]
  obtain rfl | rfl | rfl | rfl : k = 0 ∨ k = 1 ∨ k = 2 ∨ k = 3 := by omega
  all_goals
    obtain rfl | rfl | rfl | rfl : j = 0 ∨ j = 1 ∨ j = 2 ∨ j = 3 := by omega
    all_goals
      simp [byteOf, setByte]
      omega

@[simp] theorem byteOf_zero (k : Nat) : byteOf 0 k = 0 := by simp [byteOf]

/-! ## Half words and longer numbers -/

def write16 (mem : Mem) (a : Nat) (v : UInt16) : Mem := fun x =>
  if x = a then UInt8.ofNat v.toNat
  else if x = a + 1 then UInt8.ofNat (v.toNat / 0x100)
  else mem x

theorem write16_other (mem : Mem) (a : Nat) (v : UInt16) (x : Nat) (h : x < a ∨ a + 2 ≤ x) :
    write16 mem a v x = mem x := by
  unfold write16
  rw [if_neg (by omega), if_neg (by omega)]

/-- The number in the `n` bytes from `a` on. -/
def readLE (mem : Mem) (a : Nat) : Nat → Nat
  | 0 => 0
  | n + 1 => (mem a).toNat + 0x100 * readLE mem (a + 1) n

theorem readLE_split (mem : Mem) (a m n : Nat) :
    readLE mem a (m + n) = readLE mem a m + 2 ^ (8 * m) * readLE mem (a + m) n := by
  induction m generalizing a with
  | zero => simp [readLE]
  | succ m ih =>
    rw [Nat.add_right_comm m 1 n]
    simp only [readLE]
    rw [ih (a + 1), Nat.add_right_comm a 1 m, Nat.add_assoc a m 1]
    rw [show 8 * (m + 1) = 8 * m + 8 by omega, Nat.pow_add]
    ring

theorem readLE_congr (mem mem' : Mem) (a n : Nat) (h : ∀ x, a ≤ x → x < a + n → mem' x = mem x) :
    readLE mem' a n = readLE mem a n := by
  induction n generalizing a with
  | zero => rfl
  | succ n ih =>
    simp only [readLE]
    rw [h a (by omega) (by omega), ih (a + 1) fun x h1 h2 => h x (by omega) (by omega)]

@[simp] theorem readLE_write16 (mem : Mem) (a : Nat) (v : UInt16) : readLE (write16 mem a v) a 2 = v.toNat := by
  have hv := v.toNat_lt
  simp [readLE, write16]
  omega

@[simp] theorem readLE_one (mem : Mem) (a : Nat) : readLE mem a 1 = (mem a).toNat := rfl

/-! ## Rows of bytes -/

def writeBytes (mem : Mem) (a : Nat) (bs : List UInt8) : Mem := fun x =>
  if a ≤ x ∧ x < a + bs.length then bs.getD (x - a) 0 else mem x

theorem writeBytes_other (mem : Mem) (a : Nat) (bs : List UInt8) (x : Nat) (h : x < a ∨ a + bs.length ≤ x) :
    writeBytes mem a bs x = mem x := if_neg (by omega)

@[simp] theorem writeBytes_nil (mem : Mem) (a : Nat) : writeBytes mem a [] = mem := by
  funext x
  exact writeBytes_other mem a [] x (Nat.lt_or_ge x a)

def readBytes (mem : Mem) (a : Nat) : Nat → List UInt8
  | 0 => []
  | n + 1 => mem a :: readBytes mem (a + 1) n

@[simp] theorem length_readBytes (mem : Mem) (a n : Nat) : (readBytes mem a n).length = n := by
  induction n generalizing a with
  | zero => rfl
  | succ n ih => rw [readBytes, List.length_cons, ih]

theorem readBytes_congr (mem mem' : Mem) (a n : Nat) (h : ∀ x, a ≤ x → x < a + n → mem' x = mem x) :
    readBytes mem' a n = readBytes mem a n := by
  induction n generalizing a with
  | zero => rfl
  | succ n ih =>
    rw [readBytes, readBytes, h a (by omega) (by omega), ih (a + 1) fun x h1 h2 => h x (by omega) (by omega)]

theorem writeBytes_cons (mem : Mem) (a : Nat) (c : UInt8) (bs : List UInt8) :
    writeBytes mem a (c :: bs) = writeBytes (Function.update mem a c) (a + 1) bs := by
  funext x
  unfold writeBytes
  rw [List.length_cons]
  by_cases h : a + 1 ≤ x ∧ x < a + 1 + bs.length
  · rw [if_pos h, if_pos (by omega), show x - a = x - (a + 1) + 1 by omega, List.getD_cons_succ]
  · rw [if_neg h]
    by_cases hx : x = a
    · subst hx
      rw [if_pos (by omega), Nat.sub_self, Function.update_self, List.getD_cons_zero]
    · rw [if_neg (by omega), Function.update_of_ne hx]

theorem writeBytes_append_end (mem : Mem) (a : Nat) (bs : List UInt8) (c : UInt8) :
    writeBytes mem a (bs ++ [c]) (a + bs.length) = c := by
  induction bs generalizing mem a with
  | nil => rw [List.nil_append, writeBytes_cons, writeBytes_nil, List.length_nil, Nat.add_zero, Function.update_self]
  | cons b bs ih =>
    rw [List.cons_append, writeBytes_cons, List.length_cons, Nat.add_comm bs.length, ← Nat.add_assoc]
    exact ih _ _

theorem readBytes_writeBytes (mem : Mem) (a : Nat) (bs : List UInt8) :
    readBytes (writeBytes mem a bs) a bs.length = bs := by
  induction bs generalizing mem a with
  | nil => rfl
  | cons c bs ih =>
    rw [writeBytes_cons, List.length_cons, readBytes, writeBytes_other _ _ _ _ (by omega), Function.update_self, ih]

end OsLearn
