import Mathlib.Tactic.Common
import Mathlib.Algebra.Group.Nat.Defs

/-!
# Descriptors of the 386

What the processor reads out of the eight bytes of a segment descriptor or a gate, and out of the
operand of `lgdt` and `lidt`. The bytes are one little-endian number.
-/

namespace OsLearn.Descriptor

/-- The `len` bits of `q` from bit `lo` on. -/
def field (q lo len : Nat) : Nat := q / 2 ^ lo % 2 ^ len

/-! ## Segments -/

structure Segment where
  base : Nat
  limit : Nat
  -- P, DPL, S and the type.
  access : Nat
  -- G, D/B, L and AVL.
  flags : Nat
  deriving DecidableEq, Repr

def segment (q : Nat) : Segment where
  base := field q 16 24 + 2 ^ 24 * field q 56 8
  limit := field q 0 16 + 2 ^ 16 * field q 48 4
  access := field q 40 8
  flags := field q 52 4

/-- The fields of a segment descriptor from its six parts. -/
theorem segment_pack (l b m a h t : Nat) (hl : l < 2 ^ 16) (hb : b < 2 ^ 16) (hm : m < 2 ^ 8) (ha : a < 2 ^ 8)
    (hh : h < 2 ^ 8) (ht : t < 2 ^ 8) :
    segment (l + 2 ^ 16 * b + 2 ^ 32 * m + 2 ^ 40 * a + 2 ^ 48 * h + 2 ^ 56 * t) =
      { base := b + 2 ^ 16 * m + 2 ^ 24 * t, limit := l + 2 ^ 16 * (h % 16), access := a, flags := h / 16 } := by
  unfold segment field
  congr 1 <;> omega

namespace Segment

/-- The limit counts pages, not bytes. -/
def granular (s : Segment) : Bool := s.flags / 8 % 2 = 1

/-- The segment is a 32-bit one. -/
def big (s : Segment) : Bool := s.flags / 4 % 2 = 1

def dpl (s : Segment) : Nat := s.access / 2 ^ 5 % 4

/-- A data segment that grows down. -/
def expandDown (s : Segment) : Bool := s.access / 2 ^ 2 % 8 = 5

/-- The last offset of a segment that does not grow down. -/
def last (s : Segment) : Nat := if s.granular then s.limit * 4096 + 4095 else s.limit

/-- The limit check for the byte at `offset`. -/
def Within (s : Segment) (offset : Nat) : Prop :=
  if s.expandDown then s.last < offset ∧ offset < (if s.big then 2 ^ 32 else 2 ^ 16) else offset ≤ s.last

/-- The byte at a linear address passes the limit check. -/
def Reaches (s : Segment) (a : Nat) : Prop := s.Within ((a + 2 ^ 32 - s.base) % 2 ^ 32)

instance (s : Segment) (offset : Nat) : Decidable (s.Within offset) := inferInstanceAs (Decidable (ite _ _ _))

instance (s : Segment) (a : Nat) : Decidable (s.Reaches a) := inferInstanceAs (Decidable (s.Within _))

/-- A segment from 0 on, which does not grow down. -/
theorem reaches_flat (s : Segment) (a : Nat) (ha : a < 2 ^ 32) (hbase : s.base = 0) (hup : s.expandDown = false) :
    s.Reaches a ↔ a ≤ s.last := by
  unfold Reaches Within
  rw [hup, hbase, Nat.sub_zero, Nat.add_mod_right, Nat.mod_eq_of_lt ha]
  simp

end Segment

/-! ## Gates -/

structure Gate where
  offset : Nat
  selector : Nat
  access : Nat
  deriving DecidableEq, Repr

def gate (q : Nat) : Gate where
  offset := field q 0 16 + 2 ^ 16 * field q 48 16
  selector := field q 16 16
  access := field q 40 8

theorem gate_pack (l s r a h : Nat) (hl : l < 2 ^ 16) (hs : s < 2 ^ 16) (hr : r < 2 ^ 8) (ha : a < 2 ^ 8)
    (hh : h < 2 ^ 16) :
    gate (l + 2 ^ 16 * s + 2 ^ 32 * r + 2 ^ 40 * a + 2 ^ 48 * h) =
      { offset := l + 2 ^ 16 * h, selector := s, access := a } := by
  unfold gate field
  congr 1 <;> omega

/-! ## The operand of `lgdt` and `lidt` -/

structure Table where
  limit : Nat
  base : Nat
  deriving DecidableEq, Repr

def table (q : Nat) : Table where
  limit := field q 0 16
  base := field q 16 32

theorem table_pack (limit base : Nat) (hl : limit < 2 ^ 16) (hb : base < 2 ^ 32) :
    table (limit + 2 ^ 16 * base) = { limit := limit, base := base } := by
  unfold table field
  congr 1 <;> omega

end OsLearn.Descriptor
