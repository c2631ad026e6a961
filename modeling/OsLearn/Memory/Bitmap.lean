import OsLearn.Kernel.Debug
import Mathlib.Algebra.Group.Nat.Defs

/-!
# `lib/kernel/bitmap.c`

The bytes behind the bitmap are part of `bits`, because `bitmap_scan` reads one bit of them.
-/

namespace OsLearn

structure Bitmap where
  btmp_bytes_len : Nat
  bits : Nat → UInt8

def bitmap_init (btmp : Bitmap) : Bitmap :=
  { btmp with bits := fun i => if i < btmp.btmp_bytes_len then 0 else btmp.bits i }

def bitmap_scan_test (btmp : Bitmap) (bit_idx : Nat) : Bool :=
  (btmp.bits (bit_idx / 8) &&& (1 <<< UInt8.ofNat (bit_idx % 8))) ≠ 0

/-- The first loop of `bitmap_scan`, with the number of bytes that are left. -/
def skip_full (btmp : Bitmap) : Nat → Nat → Nat
  | 0, idx_byte => idx_byte
  | left + 1, idx_byte => if btmp.bits idx_byte = 0xff then skip_full btmp left (idx_byte + 1) else idx_byte

/-- The second loop: the first clear bit of a byte, or 8. -/
def clear_bit (byte : UInt8) : Nat → Nat → Nat
  | 0, idx_bit => idx_bit
  | left + 1, idx_bit =>
    if (1 <<< UInt8.ofNat idx_bit) &&& byte ≠ 0 then clear_bit byte left (idx_bit + 1) else idx_bit

/-- The last loop, with `bit_left` bits to test. -/
def scan_run (btmp : Bitmap) (cnt : Nat) : Nat → Nat → Nat → Option Nat
  | 0, _, _ => none
  | bit_left + 1, next_bit, count =>
    let count := if bitmap_scan_test btmp next_bit = false then count + 1 else 0
    -- next_bit - cnt + 1, which does not stop at 0 in a uint32_t
    if cnt = count then some (next_bit + 1 - cnt)
    else scan_run btmp cnt bit_left (next_bit + 1) count

/-- `bitmap_scan`: `none` is -1. -/
def bitmap_scan (ndebug : Bool) (btmp : Bitmap) (cnt : Nat) : Except Stop (Option Nat) := do
  let idx_byte := skip_full btmp btmp.btmp_bytes_len 0
  ASSERT_in ndebug (idx_byte < btmp.btmp_bytes_len) .bitmap_scan_idx_byte
  if idx_byte = btmp.btmp_bytes_len then pure none
  else
    let idx_bit := clear_bit (btmp.bits idx_byte) 8 0
    let bit_idx_start := idx_byte * 8 + idx_bit
    if cnt = 1 then pure (some bit_idx_start)
    else pure (scan_run btmp cnt (btmp.btmp_bytes_len * 8 - bit_idx_start) (bit_idx_start + 1) 1)

def bitmap_set (btmp : Bitmap) (bit_idx : Nat) (value : Bool) : Bitmap :=
  let byte := btmp.bits (bit_idx / 8)
  let mask : UInt8 := 1 <<< UInt8.ofNat (bit_idx % 8)
  { btmp with bits := Function.update btmp.bits (bit_idx / 8) (if value then byte ||| mask else byte &&& ~~~mask) }

/-! ## Bits of a byte -/

theorem byte_test (byte : UInt8) (k : Nat) (hk : k < 8) :
    (byte &&& (1 <<< UInt8.ofNat k) ≠ 0) ↔ byte.toNat.testBit k = true := by
  have : ∀ (b : Fin 256) (j : Fin 8),
      (UInt8.ofNat b.val &&& (1 <<< UInt8.ofNat j.val) ≠ 0) ↔ (UInt8.ofNat b.val).toNat.testBit j.val = true := by
    decide +kernel
  have h := this ⟨byte.toNat, byte.toNat_lt⟩ ⟨k, hk⟩
  simpa using h

theorem mask_toNat (k : Nat) (hk : k < 8) : (1 <<< UInt8.ofNat k : UInt8).toNat = 2 ^ k := by
  have : ∀ j : Fin 8, (1 <<< UInt8.ofNat j.val : UInt8).toNat = 2 ^ j.val := by decide
  exact this ⟨k, hk⟩

theorem bitmap_scan_test_eq (btmp : Bitmap) (i : Nat) :
    bitmap_scan_test btmp i = (btmp.bits (i / 8)).toNat.testBit (i % 8) := by
  have h := byte_test (btmp.bits (i / 8)) (i % 8) (Nat.mod_lt _ (by omega))
  rw [bitmap_scan_test, Bool.eq_iff_iff, decide_eq_true_iff, h]

theorem bitmap_set_test (btmp : Bitmap) (i j : Nat) :
    bitmap_scan_test (bitmap_set btmp i true) j = (bitmap_scan_test btmp j || decide (j = i)) := by
  rw [bitmap_scan_test_eq, bitmap_scan_test_eq]
  by_cases hbyte : j / 8 = i / 8
  · have hm := mask_toNat (i % 8) (Nat.mod_lt _ (by omega))
    simp only [bitmap_set, hbyte, Function.update_self, if_true, UInt8.toNat_or, Nat.testBit_or, hm,
      Nat.testBit_two_pow]
    congr 1
    rw [decide_eq_decide]
    omega
  · have hne : j ≠ i := fun h => hbyte (by rw [h])
    simp [bitmap_set, hbyte, hne]

@[simp] theorem bitmap_set_len (btmp : Bitmap) (i : Nat) (value : Bool) :
    (bitmap_set btmp i value).btmp_bytes_len = btmp.btmp_bytes_len := rfl

/-! ## What a scan finds -/

theorem skip_full_spec (btmp : Bitmap) (left idx : Nat) :
    idx ≤ skip_full btmp left idx ∧ skip_full btmp left idx ≤ idx + left ∧
      (skip_full btmp left idx < idx + left → btmp.bits (skip_full btmp left idx) ≠ 0xff) := by
  induction left generalizing idx with
  | zero => simp [skip_full]
  | succ left ih =>
    obtain ⟨h1, h2, h3⟩ := ih (idx + 1)
    simp only [skip_full]
    split
    · exact ⟨by omega, by omega, fun h => h3 (by omega)⟩
    · rename_i hne
      exact ⟨by omega, by omega, fun _ => hne⟩

theorem clear_bit_spec (byte : UInt8) (h : byte ≠ 0xff) :
    clear_bit byte 8 0 < 8 ∧ byte.toNat.testBit (clear_bit byte 8 0) = false := by
  have : ∀ b : Fin 256, UInt8.ofNat b.val ≠ 0xff →
      clear_bit (UInt8.ofNat b.val) 8 0 < 8 ∧
        (UInt8.ofNat b.val).toNat.testBit (clear_bit (UInt8.ofNat b.val) 8 0) = false := by
    decide +kernel
  have hb := this ⟨byte.toNat, byte.toNat_lt⟩
  simp only [UInt8.ofNat_toNat] at hb
  exact hb h

/-- `cnt` clear bits from `s` on. The last of them may be the one behind the bitmap. -/
structure ClearRun (btmp : Bitmap) (cnt s : Nat) : Prop where
  inside : s + cnt ≤ 8 * btmp.btmp_bytes_len + 1
  one : cnt = 1 → s < 8 * btmp.btmp_bytes_len
  clear : ∀ k < cnt, bitmap_scan_test btmp (s + k) = false

theorem scan_run_spec (btmp : Bitmap) (cnt left next count s : Nat) (hcount : cnt = 0 ∨ count < cnt)
    (hle : count ≤ next) (hclear : ∀ j, next - count ≤ j → j < next → bitmap_scan_test btmp j = false)
    (h : scan_run btmp cnt left next count = some s) :
    s + cnt ≤ next + left ∧ ∀ k < cnt, bitmap_scan_test btmp (s + k) = false := by
  induction left generalizing next count with
  | zero => simp [scan_run] at h
  | succ left ih =>
    simp only [scan_run] at h
    by_cases ht : bitmap_scan_test btmp next = false
    · rw [if_pos ht] at h
      have hclear' : ∀ j, next + 1 - (count + 1) ≤ j → j < next + 1 → bitmap_scan_test btmp j = false := by
        intro j h1 h2
        by_cases hj : j = next
        · rw [hj]
          exact ht
        · exact hclear j (by omega) (by omega)
      by_cases hfound : cnt = count + 1
      · rw [if_pos hfound, Option.some.injEq] at h
        exact ⟨by omega, fun k hk => hclear' _ (by omega) (by omega)⟩
      · rw [if_neg hfound] at h
        obtain ⟨h1, h2⟩ := ih (next + 1) (count + 1) (by omega) (by omega) hclear' h
        exact ⟨by omega, h2⟩
    · rw [if_neg ht] at h
      by_cases hnone : cnt = 0
      · rw [if_pos hnone, Option.some.injEq] at h
        exact ⟨by omega, fun k hk => by omega⟩
      · rw [if_neg hnone] at h
        obtain ⟨h1, h2⟩ := ih (next + 1) 0 (by omega) (by omega) (fun j h1 h2 => by omega) h
        exact ⟨by omega, h2⟩

theorem bitmap_scan_spec (ndebug : Bool) (btmp : Bitmap) (cnt : Nat) :
    Spec (bitmap_scan ndebug btmp cnt)
      (fun r => (∀ s, r = some s → ClearRun btmp cnt s) ∧ (r = none → cnt = 1 → ndebug = true))
      fun e => ndebug = false ∧ e = .panic .bitmap_scan_idx_byte := by
  obtain ⟨-, hle, hbyte⟩ := skip_full_spec btmp btmp.btmp_bytes_len 0
  generalize hidx : skip_full btmp btmp.btmp_bytes_len 0 = idx at hle hbyte
  unfold bitmap_scan
  simp only [hidx, spec_bind, spec_ASSERT_in]
  refine ⟨fun hassert => ?_, fun hd _ => ⟨hd, trivial⟩⟩
  by_cases hfull : idx = btmp.btmp_bytes_len
  · rw [if_pos hfull]
    refine ⟨by simp, fun _ _ => ?_⟩
    rcases hassert with hd | hlt
    · exact hd
    · omega
  · rw [if_neg hfull]
    obtain ⟨hlt, hclear⟩ := clear_bit_spec (btmp.bits idx) (hbyte (by omega))
    generalize clear_bit (btmp.bits idx) 8 0 = k at hlt hclear
    have hstart : bitmap_scan_test btmp (idx * 8 + k) = false := by
      rw [bitmap_scan_test_eq, show (idx * 8 + k) / 8 = idx from by omega,
        show (idx * 8 + k) % 8 = k from by omega]
      exact hclear
    by_cases hone : cnt = 1
    · rw [if_pos hone]
      subst hone
      refine ⟨?_, by simp⟩
      intro s hs
      obtain rfl := Option.some.inj hs
      refine ⟨by omega, fun _ => by omega, fun j hj => ?_⟩
      rw [show j = 0 from by omega]
      exact hstart
    · rw [if_neg hone]
      refine ⟨?_, fun _ h => absurd h hone⟩
      intro s hs
      obtain ⟨h1, h2⟩ := scan_run_spec btmp cnt _ (idx * 8 + k + 1) 1 s (by omega) (by omega)
        (fun j hj1 hj2 => by rw [show j = idx * 8 + k from by omega]; exact hstart) hs
      exact ⟨by omega, fun h => absurd h hone, h2⟩

end OsLearn
