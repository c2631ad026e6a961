import OsLearn.Lib.Descriptor
import OsLearn.Lib.Bits
import OsLearn.Userprog.Entry

/-!
# `userprog/tss.c`: the segments of user mode

`GDT_ATTR_HIGH` of `kernel/global.h` has a `||` where a `|` belongs.
-/

open OsLearn.Descriptor

namespace OsLearn.Tss

/-! ## `kernel/global.h` -/

/-- `a || b` of C. -/
def c_or (a b : UInt8) : UInt8 := if a ≠ 0 ∨ b ≠ 0 then 1 else 0

def LOADER_BASE_ADDR : UInt32 := 0x900

def GDT_BASE : UInt32 := LOADER_BASE_ADDR

def DESC_G_4K : UInt8 := 1

def DESC_D_32 : UInt8 := 1

def DESC_L : UInt8 := 0

def DESC_AVL : UInt8 := 0

def DESC_P : UInt8 := 1

def DESC_DPL_0 : UInt8 := 0

def DESC_DPL_3 : UInt8 := 3

def DESC_S_CODE : UInt8 := 1

def DESC_S_DATA : UInt8 := DESC_S_CODE

def DESC_S_SYS : UInt8 := 0

def DESC_TYPE_CODE : UInt8 := 8

def DESC_TYPE_DATA : UInt8 := 2

def DESC_TYPE_TSS : UInt8 := 9

def TSS_DESC_D : UInt8 := 0

/-- `|` binds closer than `||`. -/
def GDT_ATTR_HIGH : UInt8 := c_or (DESC_G_4K <<< 7 ||| DESC_D_32 <<< 6) (DESC_L <<< 5 ||| DESC_AVL <<< 4)

def GDT_CODE_ATTR_LOW_DPL3 : UInt8 := DESC_P <<< 7 ||| DESC_DPL_3 <<< 5 ||| DESC_S_CODE <<< 4 ||| DESC_TYPE_CODE

def GDT_DATA_ATTR_LOW_DPL3 : UInt8 := DESC_P <<< 7 ||| DESC_DPL_3 <<< 5 ||| DESC_S_DATA <<< 4 ||| DESC_TYPE_DATA

def TSS_ATTR_HIGH : UInt8 := DESC_G_4K <<< 7 ||| TSS_DESC_D <<< 6 ||| DESC_L <<< 5 ||| DESC_AVL <<< 4 ||| 0

def TSS_ATTR_LOW : UInt8 := DESC_P <<< 7 ||| DESC_DPL_0 <<< 5 ||| DESC_S_SYS <<< 4 ||| DESC_TYPE_TSS

def SELECTOR_K_STACK : UInt32 := ((2 : UInt32) <<< 3) ||| ((0 : UInt32) <<< 2) ||| 0

def SELECTOR_TSS : UInt32 := ((4 : UInt32) <<< 3) ||| ((0 : UInt32) <<< 2) ||| 0

/-- `struct gdt_desc` -/
structure GdtDesc where
  limit_low_word : UInt16
  base_low_word : UInt16
  base_mid_byte : UInt8
  attr_low_byte : UInt8
  limit_high_attr_high : UInt8
  base_high_byte : UInt8
  deriving DecidableEq, Repr

/-- The eight bytes as the processor reads them. -/
def GdtDesc.quad (d : GdtDesc) : Nat :=
  d.limit_low_word.toNat + 2 ^ 16 * d.base_low_word.toNat + 2 ^ 32 * d.base_mid_byte.toNat +
    2 ^ 40 * d.attr_low_byte.toNat + 2 ^ 48 * d.limit_high_attr_high.toNat + 2 ^ 56 * d.base_high_byte.toNat

/-! ## `userprog/tss.c` -/

def make_gdt_desc (desc_addr limit : UInt32) (attr_low attr_high : UInt8) : GdtDesc :=
  let desc_base := desc_addr
  { limit_low_word := (limit &&& 0xffff).toUInt16
    base_low_word := (desc_base &&& 0xffff).toUInt16
    base_mid_byte := ((desc_base &&& 0xff0000) >>> 16).toUInt8
    attr_low_byte := attr_low
    limit_high_attr_high := ((limit &&& 0xf0000) >>> 16 ||| attr_high.toUInt32).toUInt8
    base_high_byte := (desc_base >>> 24).toUInt8 }

/-- The fields of `struct tss` that are set. The others stay zero. -/
structure TssFields where
  esp0 : UInt32
  ss0 : UInt32
  io_base : UInt32

/-- `sizeof(struct tss)` -/
def tss_size : UInt32 := 27 * 4

/-- The TSS, the descriptors by their addresses, and the registers of the processor. -/
structure State where
  tss : TssFields
  desc : UInt32 → GdtDesc
  gdtr : UInt64
  tr : UInt32

def gdt_operand : UInt64 := (8 * 7 - 1 : UInt64) ||| ((0xc0000000 + GDT_BASE).toUInt64 <<< 16)

/-- `tss_init`, with `tss` at address `addr`. -/
def tss_init (addr : UInt32) (s : State) : State :=
  let desc : UInt32 := 0xc0000000 + (GDT_BASE + 8 * 4)
  let d := s.desc
  let d := Function.update d (desc + 8 * 0) (make_gdt_desc addr (tss_size - 1) TSS_ATTR_LOW TSS_ATTR_HIGH)
  let d := Function.update d (desc + 8 * 1) (make_gdt_desc 0 0xfffff GDT_CODE_ATTR_LOW_DPL3 GDT_ATTR_HIGH)
  let d := Function.update d (desc + 8 * 2) (make_gdt_desc 0 0xfffff GDT_DATA_ATTR_LOW_DPL3 GDT_ATTR_HIGH)
  { tss := { esp0 := 0, ss0 := SELECTOR_K_STACK, io_base := tss_size }
    desc := d
    gdtr := gdt_operand
    tr := SELECTOR_TSS }

/-- Before `tss_init`. -/
def State.zero : State := ⟨⟨0, 0, 0⟩, fun _ => ⟨0, 0, 0, 0, 0, 0⟩, 0, 0⟩

/-- The segment that a selector chooses in the loaded table. -/
def State.segment (s : State) (selector : UInt32) : Segment :=
  Descriptor.segment (s.desc (UInt32.ofNat (table s.gdtr.toNat).base + (selector &&& ~~~7))).quad

/-! ## The descriptor as the processor reads it -/

theorem limit_high (limit : UInt32) (attr_high : UInt8) (hl : limit < 0x100000) :
    (((limit &&& 0xf0000) >>> 16 ||| attr_high.toUInt32).toUInt8).toNat =
      limit.toNat / 2 ^ 16 ||| attr_high.toNat := by
  have hl' : limit.toNat < 2 ^ 20 := hl
  have hnib : limit.toNat / 2 ^ 16 < 2 ^ 8 := by omega
  have hattr : attr_high.toNat < 2 ^ 8 := attr_high.toNat_lt
  have hmask : (limit &&& 0xf0000).toNat = limit.toNat / 2 ^ 16 * 2 ^ 16 := by
    rw [UInt32.toNat_and]
    show limit.toNat &&& ((2 ^ 4 - 1) <<< 16) = _
    rw [nat_and_mask, Nat.mod_eq_of_lt (by omega)]
  have hshift : ((limit &&& 0xf0000) >>> 16).toNat = limit.toNat / 2 ^ 16 := by
    rw [UInt32.toNat_shiftRight, hmask]
    show (limit.toNat / 2 ^ 16 * 2 ^ 16) >>> 16 = _
    rw [Nat.shiftRight_eq_div_pow, Nat.mul_div_cancel _ (by decide)]
  rw [UInt32.toNat_toUInt8, UInt32.toNat_or, hshift, UInt8.toNat_toUInt32,
    Nat.mod_eq_of_lt (Nat.or_lt_two_pow hnib hattr)]

/-- The low nibble of `attr_high` goes into the limit. -/
theorem make_gdt_desc_segment (base limit : UInt32) (attr_low attr_high : UInt8) (hl : limit < 0x100000) :
    Descriptor.segment (make_gdt_desc base limit attr_low attr_high).quad =
      { base := base.toNat
        limit := limit.toNat % 2 ^ 16 + 2 ^ 16 * ((limit.toNat / 2 ^ 16 ||| attr_high.toNat) % 16)
        access := attr_low.toNat
        flags := (limit.toNat / 2 ^ 16 ||| attr_high.toNat) / 16 } := by
  have hb := base.toNat_lt
  have hlow := u32_low16 limit
  have hbase := u32_low16 base
  have hmid : ((base &&& 0xff0000) >>> 16).toUInt8.toNat = base.toNat / 2 ^ 16 % 2 ^ 8 := by
    rw [UInt32.toNat_toUInt8, UInt32.toNat_shiftRight, UInt32.toNat_and]
    show (base.toNat &&& ((2 ^ 8 - 1) <<< 16)) >>> 16 % 2 ^ 8 = _
    rw [nat_and_mask, Nat.shiftRight_eq_div_pow, Nat.mul_div_cancel _ (by decide), Nat.mod_mod]
  have htop : (base >>> 24).toUInt8.toNat = base.toNat / 2 ^ 24 := by
    rw [UInt32.toNat_toUInt8]
    show (base >>> UInt32.ofNat 24).toNat % 2 ^ 8 = _
    rw [u32_shr _ _ (by decide)]
    omega
  have hhigh := limit_high limit attr_high hl
  have hnib : limit.toNat / 2 ^ 16 ||| attr_high.toNat < 2 ^ 8 := hhigh ▸ UInt8.toNat_lt _
  unfold GdtDesc.quad make_gdt_desc
  dsimp only
  rw [hlow, hbase, hmid, htop, hhigh, segment_pack _ _ _ _ _ _ (by omega) (by omega) (by omega) attr_low.toNat_lt
    hnib (by omega)]
  congr 1
  omega

theorem nibble_or (limit : UInt32) (attr_high : UInt8) (hl : limit < 0x100000) (ha : attr_high &&& 0xf = 0) :
    limit.toNat / 2 ^ 16 ||| attr_high.toNat = 16 * (attr_high.toNat / 16) + limit.toNat / 2 ^ 16 := by
  have hl' : limit.toNat < 2 ^ 20 := hl
  have hlow : attr_high.toNat % 16 = 0 := by
    have := congrArg UInt8.toNat ha
    rw [UInt8.toNat_and] at this
    rwa [show UInt8.toNat 0xf = 2 ^ 4 - 1 from rfl, Nat.and_two_pow_sub_one_eq_mod] at this
  rw [Nat.or_comm, show attr_high.toNat = 2 ^ 4 * (attr_high.toNat / 16) by omega, nat_or_add _ _ 4 (by omega)]
  omega

theorem make_gdt_desc_round_trip (base limit : UInt32) (attr_low attr_high : UInt8) (hl : limit < 0x100000)
    (ha : attr_high &&& 0xf = 0) :
    Descriptor.segment (make_gdt_desc base limit attr_low attr_high).quad =
      { base := base.toNat, limit := limit.toNat, access := attr_low.toNat, flags := attr_high.toNat / 16 } := by
  have hl' : limit.toNat < 2 ^ 20 := hl
  rw [make_gdt_desc_segment base limit attr_low attr_high hl, nibble_or limit attr_high hl ha]
  congr 1 <;> omega

/-! ## The segments of user mode -/

/-- The descriptor that `tss_init` writes for a user segment, whatever `attr_high` is. -/
theorem flat_segment (attr_low attr_high : UInt8) :
    Descriptor.segment (make_gdt_desc 0 0xfffff attr_low attr_high).quad =
      { base := 0, limit := 0xfffff, access := attr_low.toNat, flags := attr_high.toNat / 16 } := by
  have hones : ∀ n < 16, 0xf ||| n = 0xf := by decide
  have hlow : (0xf ||| attr_high.toNat) % 2 ^ 4 = 0xf := by
    rw [Nat.or_mod_two_pow]
    exact hones _ (Nat.mod_lt _ (by decide))
  have hhigh : (0xf ||| attr_high.toNat) / 2 ^ 4 = attr_high.toNat / 2 ^ 4 := by
    rw [Nat.or_div_two_pow]
    exact Nat.zero_or _
  rw [make_gdt_desc_segment 0 0xfffff attr_low attr_high (by decide)]
  change Segment.mk 0 (0xffff + 2 ^ 16 * ((0xf ||| attr_high.toNat) % 2 ^ 4)) _ ((0xf ||| attr_high.toNat) / 2 ^ 4) = _
  rw [hlow, hhigh]
  rfl

/-- It reaches all of user space with 32-bit operands exactly when G and D are set. -/
theorem flat_segment_reaches (attr_low attr_high : UInt8) (hup : attr_low.toNat / 2 ^ 2 % 8 ≠ 5) :
    let seg := Descriptor.segment (make_gdt_desc 0 0xfffff attr_low attr_high).quad
    (∀ a < 0xc0000000, seg.Reaches a ∧ seg.big) ↔ attr_high.toNat / 2 ^ 6 = 3 := by
  have hlt : attr_high.toNat < 2 ^ 8 := attr_high.toNat_lt
  dsimp only
  rw [flat_segment]
  have hreach : ∀ a < 0xc0000000, Segment.Reaches ⟨0, 0xfffff, attr_low.toNat, attr_high.toNat / 16⟩ a ↔
      a ≤ Segment.last ⟨0, 0xfffff, attr_low.toNat, attr_high.toNat / 16⟩ := fun a ha =>
    Segment.reaches_flat _ a (by omega) rfl (decide_eq_false hup)
  constructor
  · intro h
    obtain ⟨hr, hbig⟩ := h 0xbfffffff (by decide)
    have hlast := (hreach _ (by decide)).mp hr
    have hd : attr_high.toNat / 16 / 4 % 2 = 1 := of_decide_eq_true hbig
    have hg : attr_high.toNat / 16 / 8 % 2 = 1 := by
      by_contra hg
      simp [Segment.last, Segment.granular, hg] at hlast
    omega
  · intro h a ha
    have hg : attr_high.toNat / 16 / 8 % 2 = 1 := by omega
    have hd : attr_high.toNat / 16 / 4 % 2 = 1 := by omega
    refine ⟨(hreach a ha).mpr ?_, decide_eq_true hd⟩
    simp only [Segment.last, Segment.granular, hg, decide_true, if_true]
    omega

/-- The selectors find the two descriptors of user mode. -/
theorem tss_init_desc (addr : UInt32) (s : State) :
    (tss_init addr s).segment Switch.SELECTOR_U_CODE =
        Descriptor.segment (make_gdt_desc 0 0xfffff GDT_CODE_ATTR_LOW_DPL3 GDT_ATTR_HIGH).quad ∧
      (tss_init addr s).segment Switch.SELECTOR_U_DATA =
        Descriptor.segment (make_gdt_desc 0 0xfffff GDT_DATA_ATTR_LOW_DPL3 GDT_ATTR_HIGH).quad := by
  have hcode : UInt32.ofNat (table gdt_operand.toNat).base + (Switch.SELECTOR_U_CODE &&& ~~~7) = 0xc0000928 := by
    decide
  have hdata : UInt32.ofNat (table gdt_operand.toNat).base + (Switch.SELECTOR_U_DATA &&& ~~~7) = 0xc0000930 := by
    decide
  have hslot1 : (0xc0000000 + (GDT_BASE + 8 * 4) + 8 * 1 : UInt32) = 0xc0000928 := by decide
  have hslot2 : (0xc0000000 + (GDT_BASE + 8 * 4) + 8 * 2 : UInt32) = 0xc0000930 := by decide
  unfold State.segment tss_init
  dsimp only
  rw [hcode, hdata, hslot1, hslot2, Function.update_of_ne (by decide), Function.update_self, Function.update_self]
  exact ⟨rfl, rfl⟩

/-- **`GDT_ATTR_HIGH` is 1: G and D are clear, so a user segment ends at 1 MB and is a 16-bit one.** -/
theorem user_segments (addr : UInt32) (s : State) (sel : UInt32)
    (hsel : sel = Switch.SELECTOR_U_CODE ∨ sel = Switch.SELECTOR_U_DATA) :
    let seg := (tss_init addr s).segment sel
    seg.dpl = 3 ∧ seg.big = false ∧ ∀ a < 0xc0000000, seg.Reaches a ↔ a ≤ 0xfffff := by
  obtain ⟨hcode, hdata⟩ := tss_init_desc addr s
  dsimp only
  rcases hsel with rfl | rfl
  · rw [hcode, flat_segment]
    exact ⟨by decide, by decide, fun a ha => Segment.reaches_flat _ a (by omega) rfl (by decide)⟩
  · rw [hdata, flat_segment]
    exact ⟨by decide, by decide, fun a ha => Segment.reaches_flat _ a (by omega) rfl (by decide)⟩

/-- **A descriptor decodes to what it was made of; no address of user space is in a 32-bit user segment.** -/
theorem user_segments_short (addr : UInt32) (s : State) :
    (∀ (base limit : UInt32) (attr_low attr_high : UInt8), limit < 0x100000 → attr_high &&& 0xf = 0 →
      Descriptor.segment (make_gdt_desc base limit attr_low attr_high).quad =
        { base := base.toNat, limit := limit.toNat, access := attr_low.toNat, flags := attr_high.toNat / 16 }) ∧
    ∀ sel ∈ [Switch.SELECTOR_U_CODE, Switch.SELECTOR_U_DATA], ∀ a < 0xc0000000,
      ¬ (((tss_init addr s).segment sel).Reaches a ∧ ((tss_init addr s).segment sel).big) ∧
        (((tss_init addr s).segment sel).Reaches a ↔ a < 0x100000) := by
  refine ⟨make_gdt_desc_round_trip, fun sel hsel a ha => ?_⟩
  obtain ⟨-, hbig, hreach⟩ := user_segments addr s sel (by simpa using hsel)
  refine ⟨fun h => ?_, (hreach a ha).trans (by omega)⟩
  rw [hbig] at h
  exact Bool.false_ne_true h.2

theorem user_segments_short_text :
    Descriptor.segment (make_gdt_desc 0x12345678 0xabcde 0x92 0xc0).quad = ⟨0x12345678, 0xabcde, 0x92, 0xc⟩ ∧
      ¬ ((tss_init 0xc0004000 State.zero).segment
        Switch.SELECTOR_U_CODE).Reaches 0x8048000 := by
  obtain ⟨htrip, hshort⟩ := user_segments_short 0xc0004000 State.zero
  refine ⟨htrip 0x12345678 0xabcde 0x92 0xc0 (by decide) (by decide), fun h => ?_⟩
  have := (hshort Switch.SELECTOR_U_CODE (by decide) 0x8048000 (by decide)).2.mp h
  exact absurd this (by decide)

/-- The text of a program is at 0x8048000, and its segment ends before it. -/
theorem user_text_outside :
    let seg := (tss_init 0xc0004000 State.zero).segment Switch.SELECTOR_U_CODE
    0x8048000 < 0xc0000000 ∧ seg.big = false ∧ ¬ seg.Reaches 0x8048000 := by
  obtain ⟨-, hbig, hreach⟩ := user_segments 0xc0004000 State.zero
    Switch.SELECTOR_U_CODE (.inl rfl)
  refine ⟨by decide, hbig, fun h => ?_⟩
  exact absurd ((hreach 0x8048000 (by decide)).mp h) (by decide)

end OsLearn.Tss
