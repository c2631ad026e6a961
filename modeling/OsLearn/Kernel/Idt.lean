import OsLearn.Lib.Descriptor
import OsLearn.Kernel.Syscall
import OsLearn.Memory.Access

/-!
# `kernel/interrupt.c`: the interrupt table and the operand of `lidt`

`idt_init` shifts the address of `idt` as a 32-bit number, before the cast to 64 bits.
-/

open OsLearn.Descriptor

namespace OsLearn.Idt

/-! ## `kernel/interrupt.c` -/

def IDT_DESC_CNT : Nat := 0x81

/-- `sizeof(struct gate_desc)` -/
def gate_desc_size : Nat := 8

/-- `sizeof(idt)` -/
def idt_size : Nat := IDT_DESC_CNT * gate_desc_size

def make_idt_desc (mem : Mem) (p_gdesc : Nat) (attr : UInt8) (function : UInt32) : Mem :=
  -- func_offset_low_word, func_offset_high_word
  let mem := write16 mem p_gdesc (function &&& 0xffff).toUInt16
  let mem := write16 mem (p_gdesc + 6) ((function >>> 16) &&& 0xffff).toUInt16
  -- selector, dcount, attribute
  let mem := write16 mem (p_gdesc + 2) SELECTOR_K_CODE
  let mem := Function.update mem (p_gdesc + 4) 0
  Function.update mem (p_gdesc + 5) attr

/-- The operand of `lidt`, with `idt` at an address. -/
def idt_operand (idt : UInt32) : UInt64 := (UInt32.ofNat idt_size - 1).toUInt64 ||| (idt <<< 16).toUInt64

/-! ## The gates -/

theorem readLE_make_idt_desc (mem : Mem) (p : Nat) (attr : UInt8) (function : UInt32) :
    readLE (make_idt_desc mem p attr function) p 8 =
      function.toNat % 2 ^ 16 + 2 ^ 16 * SELECTOR_K_CODE.toNat + 2 ^ 32 * 0 + 2 ^ 40 * attr.toNat +
        2 ^ 48 * (function.toNat / 2 ^ 16) := by
  have hf := function.toNat_lt
  have hlow := u32_low16 function
  have hhigh : ((function >>> 16) &&& 0xffff).toUInt16.toNat = function.toNat / 2 ^ 16 := by
    rw [u32_low16]
    show (function >>> UInt32.ofNat 16).toNat % 2 ^ 16 = _
    rw [u32_shr _ _ (by decide)]
    omega
  generalize hmem : make_idt_desc mem p attr function = mem'
  -- Each field is read where nothing behind its own write has written.
  have h0 : readLE mem' p 2 = function.toNat % 2 ^ 16 := by
    rw [← hmem, ← hlow, ← readLE_write16 mem p]
    refine readLE_congr _ _ _ _ fun x h1 h2 => ?_
    unfold make_idt_desc
    rw [Function.update_of_ne (by omega), Function.update_of_ne (by omega), write16_other _ _ _ _ (by omega),
      write16_other _ _ _ _ (by omega)]
  have h2 : readLE mem' (p + 2) 2 = SELECTOR_K_CODE.toNat := by
    rw [← hmem, ← readLE_write16 (write16 (write16 mem p (function &&& 0xffff).toUInt16) (p + 6)
      ((function >>> 16) &&& 0xffff).toUInt16) (p + 2)]
    refine readLE_congr _ _ _ _ fun x h1 h2 => ?_
    unfold make_idt_desc
    rw [Function.update_of_ne (by omega), Function.update_of_ne (by omega)]
  have h4 : mem' (p + 4) = 0 := by
    rw [← hmem]
    unfold make_idt_desc
    rw [Function.update_of_ne (by omega), Function.update_self]
  have h5 : mem' (p + 5) = attr := by
    rw [← hmem]
    exact Function.update_self _ _ _
  have h6 : readLE mem' (p + 6) 2 = function.toNat / 2 ^ 16 := by
    rw [← hmem, ← hhigh, ← readLE_write16 (write16 mem p (function &&& 0xffff).toUInt16) (p + 6)]
    refine readLE_congr _ _ _ _ fun x h1 h2 => ?_
    unfold make_idt_desc
    rw [Function.update_of_ne (by omega), Function.update_of_ne (by omega), write16_other _ _ _ _ (by omega)]
  rw [show 8 = 2 + (2 + (1 + (1 + 2))) from rfl, readLE_split, readLE_split, readLE_split, readLE_split]
  simp only [Nat.add_assoc, readLE_one]
  rw [h0, h2, h4, h5, h6]
  show _ + 2 ^ 16 * (_ + 2 ^ 16 * (0 + 2 ^ 8 * (_ + 2 ^ 8 * _))) = _
  ring

theorem make_idt_desc_gate (mem : Mem) (p : Nat) (attr : UInt8) (function : UInt32) :
    gate (readLE (make_idt_desc mem p attr function) p gate_desc_size) =
      { offset := function.toNat, selector := SELECTOR_K_CODE.toNat, access := attr.toNat } := by
  have hf := function.toNat_lt
  have hs := SELECTOR_K_CODE.toNat_lt
  have ha := attr.toNat_lt
  unfold gate_desc_size
  rw [readLE_make_idt_desc, gate_pack _ _ _ _ _ (by omega) hs (by omega) ha (by omega)]
  congr 1
  omega

/-! ## The operand -/

theorem idt_operand_table (idt : UInt32) :
    table (idt_operand idt).toNat = { limit := idt_size - 1, base := idt.toNat % 2 ^ 16 } := by
  have hidt := idt.toNat_lt
  have hshift : (idt <<< 16).toNat = 2 ^ 16 * (idt.toNat % 2 ^ 16) := by
    rw [UInt32.toNat_shiftLeft]
    show idt.toNat <<< 16 % 2 ^ 32 = _
    rw [Nat.shiftLeft_eq]
    omega
  have hpack : (idt_operand idt).toNat = (idt_size - 1) + 2 ^ 16 * (idt.toNat % 2 ^ 16) := by
    unfold idt_operand
    rw [UInt64.toNat_or, UInt32.toNat_toUInt64, UInt32.toNat_toUInt64, hshift, Nat.or_comm]
    exact (nat_or_add _ _ 16 (by decide)).trans (Nat.add_comm _ _)
  rw [hpack, table_pack _ _ (by decide) (by omega)]

/-! ## Finding the gates -/

/-- The processor's address of byte `k` of the table that `lidt` has loaded. -/
def gateByte (idt : UInt32) (k : Nat) : UInt32 := UInt32.ofNat ((table (idt_operand idt).toNat).base + k)

/-- Only addresses of the kernel half are mapped. -/
def KernelHalf (ram : Ram) (dir : Nat) : Prop := ∀ i < 768, target (ram dir i) = none

structure Encodes (idt : UInt32) : Prop where
  operand : table (idt_operand idt).toNat = { limit := idt_size - 1, base := idt.toNat }
  gates : ∀ mem p attr function, (gate (readLE (make_idt_desc mem p attr function) p gate_desc_size)).offset =
    function.toNat
  found : ∀ ram dir, KernelHalf ram dir → ∀ k < idt_size, ∀ a,
    physical ram dir (UInt32.ofNat (idt.toNat + k)) = some a → physical ram dir (gateByte idt k) = some a

theorem encodes_iff (idt : UInt32) : Encodes idt ↔ idt.toNat < 2 ^ 16 := by
  constructor
  · intro h
    have hbase := congrArg Table.base h.operand
    rw [idt_operand_table] at hbase
    dsimp only at hbase
    omega
  · intro h
    have hop : table (idt_operand idt).toNat = { limit := idt_size - 1, base := idt.toNat } := by
      rw [idt_operand_table, Nat.mod_eq_of_lt h]
    refine ⟨hop, fun mem p attr function => ?_, fun ram dir _ k _ a ha => ?_⟩
    · rw [make_idt_desc_gate]
    · unfold gateByte
      rw [hop]
      exact ha

/-- The table that is loaded is in the lowest 68 KB. -/
theorem gateByte_lt (idt : UInt32) (k : Nat) (hk : k < idt_size) : (gateByte idt k).toNat < 2 ^ 17 := by
  have hk' : k < 0x408 := hk
  unfold gateByte
  rw [idt_operand_table]
  dsimp only
  rw [UInt32.toNat_ofNat_of_lt' (by show _ < 2 ^ 32; omega)]
  omega

theorem gateByte_unmapped (ram : Ram) (dir : Nat) (h : KernelHalf ram dir) (idt : UInt32) (k : Nat)
    (hk : k < idt_size) : physical ram dir (gateByte idt k) = none := by
  have hlt := gateByte_lt idt k hk
  unfold physical
  rw [walk_eq, frameAt, h _ (by omega)]
  rfl

/-- **The operand of `lidt` keeps 16 bits of the address of `idt`. Above 64 KB no directory that maps only the
kernel half has the table that is loaded.** -/
theorem idt_encodes (idt : UInt32) :
    (Encodes idt ↔ idt.toNat < 2 ^ 16) ∧
      ∀ ram dir, KernelHalf ram dir → ∀ k < idt_size, physical ram dir (gateByte idt k) = none :=
  ⟨encodes_iff idt, fun ram dir h k hk => gateByte_unmapped ram dir h idt k hk⟩

theorem idt_encodes_kernel :
    Encodes 0x4000 ∧ physical (fun _ _ => 0) 0x300 (gateByte 0xc0004000 (8 * 0x20)) = none :=
  ⟨(idt_encodes 0x4000).1.mpr (by decide),
    (idt_encodes 0xc0004000).2 (fun _ _ => 0) 0x300 (fun _ _ => target_zero) (8 * 0x20) (by decide)⟩

/-- `idt` in the kernel half. -/
theorem idt_truncated :
    table (idt_operand 0xc0004000).toNat = { limit := 0x407, base := 0x4000 } ∧ ¬ Encodes 0xc0004000 := by
  refine ⟨by decide, fun h => ?_⟩
  exact absurd (congrArg Table.base h.operand) (by decide)

/-! ## The directories of this kernel -/

section

variable {booted : Nat → Prop} {dirs : List Nat}

theorem newDir_kernelHalf (s : Mm) (r : UInt32 × Mm) (f : Nat) (h : NewDir booted dirs s r f) (hf : f ∉ dirs) :
    KernelHalf r.2.ram f := by
  intro i hi
  by_contra hsome
  by_cases hlow : i < 32
  · obtain ⟨rfl, -⟩ := h.frames.spaces.low f List.mem_cons_self i hlow hsome
    exact hf h.page.spaces.boot
  · obtain ⟨p, hp⟩ := Option.ne_none_iff_exists'.mp hsome
    have hrole : HasRole booted (f :: dirs) r.2.ram p (.page_table f i) :=
      ⟨List.mem_cons_self, by omega, hi, hp⟩
    exact hf ((h.roles p _).mp hrole).1

/-- A process directory does not have the table that is loaded. -/
theorem create_page_dir_gates (ndebug : Bool) (s : Mm) (v : UInt32) (s₁ : Mm) (h : Frames booted dirs [] s)
    (hget : get_kernel_pages ndebug s 1 = .ok (v, s₁)) (hne : v ≠ NULL) :
    ∃ ram f, create_page_dir ndebug s = .ok (v, s₁.withRam ram) ∧
      ∀ idt, ∀ k < idt_size, physical ram f (gateByte idt k) = none := by
  obtain ⟨ram, f, hcreate, hnew, hfresh, -⟩ := create_page_dir_ok ndebug s v s₁ h hget hne
  have hhalf := newDir_kernelHalf s _ f hnew hfresh
  rw [s₁.withRam_ram] at hhalf
  exact ⟨ram, f, hcreate, fun idt k hk => gateByte_unmapped ram f hhalf idt k hk⟩

end

/-- The boot directory maps the first megabyte twice, and hides the loss. -/
theorem boot_gates (ram : Ram) (h : BootMap ram) (x k : Nat) (hx : x < 2 ^ 16) (hk : k < idt_size) :
    physical ram PAGE_DIR_FRAME (gateByte (0xc0000000 + UInt32.ofNat x) k) =
      physical ram PAGE_DIR_FRAME (0xc0000000 + UInt32.ofNat (x + k)) := by
  have hk' : k < 0x408 := hk
  have hxk : (UInt32.ofNat (x + k)).toNat = x + k := UInt32.toNat_ofNat_of_lt' (by show _ < 2 ^ 32; omega)
  have hmega : UInt32.ofNat (x + k) < 0x100000 := by
    rw [UInt32.lt_iff_toNat_lt, hxk]
    show _ < 0x100000
    omega
  have hbase : (0xc0000000 + UInt32.ofNat x : UInt32).toNat % 2 ^ 16 = x := by
    rw [UInt32.toNat_add, UInt32.toNat_ofNat_of_lt' (by show _ < 2 ^ 32; omega)]
    show (0xc0000000 + x) % 2 ^ 32 % 2 ^ 16 = x
    omega
  unfold gateByte
  rw [idt_operand_table, hbase, h.low _ hmega, h.high _ hmega]

end OsLearn.Idt
