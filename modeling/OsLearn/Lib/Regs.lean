import OsLearn.Lib.Bits

/-!
# Halves of 32-bit registers, products and signed comparisons
-/

namespace OsLearn.Regs

/-! ## The lower half -/

def low16 (r : UInt32) : UInt16 := r.toUInt16

/-- A write to the lower half keeps the upper half. -/
def setLow16 (r : UInt32) (v : UInt16) : UInt32 := (r &&& 0xffff0000) ||| v.toUInt32

def setHigh8 (r : UInt32) (v : UInt8) : UInt32 :=
  (r &&& (0xffff00ff : UInt32)) ||| (v.toUInt32 <<< (8 : UInt32))

theorem low16_toNat (r : UInt32) : (low16 r).toNat = r.toNat % 2 ^ 16 := UInt32.toNat_toUInt16 r

theorem setLow16_toNat (r : UInt32) (v : UInt16) : (setLow16 r v).toNat = r.toNat / 2 ^ 16 * 2 ^ 16 + v.toNat := by
  have hr := r.toNat_lt
  have hmask : (r &&& 0xffff0000).toNat = r.toNat / 2 ^ 16 * 2 ^ 16 := by
    rw [UInt32.toNat_and]
    show r.toNat &&& ((2 ^ 16 - 1) <<< 16) = _
    rw [nat_and_mask, Nat.mod_eq_of_lt (by omega)]
  unfold setLow16
  rw [UInt32.toNat_or, hmask, UInt16.toNat_toUInt32, Nat.mul_comm, nat_or_add _ _ _ v.toNat_lt]

@[simp] theorem low16_setLow16 (r : UInt32) (v : UInt16) : low16 (setLow16 r v) = v := by
  have hv := v.toNat_lt
  rw [← UInt16.toNat_inj, low16_toNat, setLow16_toNat]
  omega

theorem setLow16_zero (v : UInt16) : setLow16 0 v = v.toUInt32 := UInt32.zero_or

def low8 (r : UInt32) : UInt8 := r.toUInt8

def setLow8 (r : UInt32) (v : UInt8) : UInt32 := (r &&& 0xffffff00) ||| v.toUInt32

theorem low8_toNat (r : UInt32) : (low8 r).toNat = r.toNat % 2 ^ 8 := UInt32.toNat_toUInt8 r

@[simp] theorem low8_setLow8 (r : UInt32) (v : UInt8) : low8 (setLow8 r v) = v := by
  have hr := r.toNat_lt
  have hv := v.toNat_lt
  have hmask : (r &&& 0xffffff00).toNat = 2 ^ 8 * (r.toNat / 2 ^ 8) := by
    rw [UInt32.toNat_and]
    show r.toNat &&& ((2 ^ 24 - 1) <<< 8) = _
    rw [nat_and_mask, Nat.mod_eq_of_lt (by omega), Nat.mul_comm]
  rw [← UInt8.toNat_inj, low8_toNat]
  unfold setLow8
  rw [UInt32.toNat_or, hmask, UInt8.toNat_toUInt32, nat_or_add _ _ _ hv]
  omega

theorem setLow8_toNat (r : UInt32) (v : UInt8) : (setLow8 r v).toNat = r.toNat / 2 ^ 8 * 2 ^ 8 + v.toNat := by
  have hr := r.toNat_lt
  have hmask : (r &&& 0xffffff00).toNat = r.toNat / 2 ^ 8 * 2 ^ 8 := by
    rw [UInt32.toNat_and]
    show r.toNat &&& ((2 ^ 24 - 1) <<< 8) = _
    rw [nat_and_mask, Nat.mod_eq_of_lt (by omega)]
  unfold setLow8
  rw [UInt32.toNat_or, hmask, UInt8.toNat_toUInt32, Nat.mul_comm, nat_or_add _ _ _ v.toNat_lt]

/-! ## Products -/

/-- The upper and the lower half of a product of two 16-bit numbers. -/
def mul16 (a b : UInt16) : UInt16 × UInt16 :=
  let p := a.toUInt32 * b.toUInt32
  ((p >>> 16).toUInt16, p.toUInt16)

def mul32 (a b : UInt32) : UInt32 × UInt32 :=
  let p := a.toUInt64 * b.toUInt64
  ((p >>> 32).toUInt32, p.toUInt32)

theorem mul16_toNat (a b : UInt16) :
    (mul16 a b).1.toNat = a.toNat * b.toNat / 2 ^ 16 ∧ (mul16 a b).2.toNat = a.toNat * b.toNat % 2 ^ 16 := by
  have hlt : a.toNat * b.toNat < 2 ^ 16 * 2 ^ 16 := Nat.mul_lt_mul'' a.toNat_lt b.toNat_lt
  have hp : (a.toUInt32 * b.toUInt32).toNat = a.toNat * b.toNat := by
    rw [UInt32.toNat_mul, UInt16.toNat_toUInt32, UInt16.toNat_toUInt32, Nat.mod_eq_of_lt (by omega)]
  unfold mul16
  dsimp only
  rw [UInt32.toNat_toUInt16, UInt32.toNat_toUInt16, hp]
  show ((a.toUInt32 * b.toUInt32) >>> UInt32.ofNat 16).toNat % 2 ^ 16 = _ ∧ _
  rw [u32_shr _ _ (by decide), hp]
  exact ⟨Nat.mod_eq_of_lt (by omega), rfl⟩

/-- The lower half of a product is the product of the words. -/
theorem mul32_low (a b : UInt32) : (mul32 a b).2 = a * b := by
  rw [← UInt32.toNat_inj]
  unfold mul32
  dsimp only
  rw [UInt64.toNat_toUInt32, UInt64.toNat_mul, UInt32.toNat_toUInt64, UInt32.toNat_toUInt64, UInt32.toNat_mul]
  omega

/-! ## Signed comparisons -/

/-- `cmp a, b` and `jge`. -/
def sge32 (a b : UInt32) : Bool := b.toInt32 ≤ a.toInt32

theorem sge32_iff (a b : UInt32) (ha : a.toNat < 2 ^ 31) (hb : b.toNat < 2 ^ 31) :
    sge32 a b ↔ b.toNat ≤ a.toNat := by
  unfold sge32
  rw [decide_eq_true_iff, Int32.le_iff_toInt_le]
  show b.toBitVec.toInt ≤ a.toBitVec.toInt ↔ _
  rw [BitVec.toInt_eq_toNat_of_lt (by show 2 * b.toNat < 2 ^ 32; omega),
    BitVec.toInt_eq_toNat_of_lt (by show 2 * a.toNat < 2 ^ 32; omega)]
  exact Int.ofNat_le

/-- `cmp a, b` and `jg`. -/
def sgt32 (a b : UInt32) : Bool := b.toInt32 < a.toInt32

/-- `cmp a, b` and `jl`. -/
def slt32 (a b : UInt32) : Bool := a.toInt32 < b.toInt32

theorem slt32_iff (a b : UInt32) (ha : a.toNat < 2 ^ 31) (hb : b.toNat < 2 ^ 31) : slt32 a b ↔ a.toNat < b.toNat := by
  unfold slt32
  rw [decide_eq_true_iff, Int32.lt_iff_toInt_lt]
  show a.toBitVec.toInt < b.toBitVec.toInt ↔ _
  rw [BitVec.toInt_eq_toNat_of_lt (by show 2 * a.toNat < 2 ^ 32; omega),
    BitVec.toInt_eq_toNat_of_lt (by show 2 * b.toNat < 2 ^ 32; omega)]
  exact Int.ofNat_lt

theorem sgt32_iff (a b : UInt32) (ha : a.toNat < 2 ^ 31) (hb : b.toNat < 2 ^ 31) : sgt32 a b ↔ b.toNat < a.toNat :=
  slt32_iff b a hb ha

/-- `cmp a, b` and `jl`, of half words. -/
def slt16 (a b : UInt16) : Bool := a.toInt16 < b.toInt16

theorem slt16_iff (a b : UInt16) (ha : a.toNat < 2 ^ 15) (hb : b.toNat < 2 ^ 15) : slt16 a b ↔ a.toNat < b.toNat := by
  unfold slt16
  rw [decide_eq_true_iff, Int16.lt_iff_toInt_lt]
  show a.toBitVec.toInt < b.toBitVec.toInt ↔ _
  rw [BitVec.toInt_eq_toNat_of_lt (by show 2 * a.toNat < 2 ^ 16; omega),
    BitVec.toInt_eq_toNat_of_lt (by show 2 * b.toNat < 2 ^ 16; omega)]
  exact Int.ofNat_lt

end OsLearn.Regs
