import OsLearn.Lib.X86
import OsLearn.Memory.Boot

/-!
# `boot/loader.S`: `kernel_init` copies the segments of the kernel
-/

namespace OsLearn.Boot

open X86

/-! ## Constants of `boot.inc` -/

def LOADER_BASE_ADDR : UInt32 := 0x900
def LOADER_SECTOR_COUNT : Nat := 4
def LOADER_STACK_TOP : UInt32 := LOADER_BASE_ADDR
def KERNEL_BIN_BASE_ADDR : UInt32 := 0x70000
def PT_NULL : UInt8 := 0

/-! ## Memory through the pages of the loader -/

/-- The low megabyte is mapped twice. Behind it the tables hold what was there before `setup_page`, and
the model stops. -/
def phys (v : UInt32) : Option Nat :=
  if v.toNat < 0x100000 then some v.toNat
  else if 0xc0000000 ≤ v.toNat ∧ v.toNat < 0xc0100000 then some (v.toNat - 0xc0000000)
  else none

def physWord (v : UInt32) : Option Nat := if (phys (v + 3)).isSome then phys v else none

def load8 (c : Cpu) (v : UInt32) : Option UInt8 := (phys v).map c.mem

def load16 (c : Cpu) (v : UInt32) : Option UInt16 := do
  let lo ← load8 c v
  let hi ← load8 c (v + 1)
  pure (UInt16.ofNat (lo.toNat + 0x100 * hi.toNat))

def load32 (c : Cpu) (v : UInt32) : Option UInt32 := (physWord v).map (read32 c.mem)

def store8 (c : Cpu) (v : UInt32) (b : UInt8) : Option Cpu :=
  (phys v).map fun a => { c with mem := Function.update c.mem a b }

def store32 (c : Cpu) (v w : UInt32) : Option Cpu :=
  (physWord v).map fun a => { c with mem := write32 c.mem a w }

def push (c : Cpu) (w : UInt32) : Option Cpu := store32 (c.setReg .esp (c.esp - 4)) (c.esp - 4) w

def pop (c : Cpu) : Option (UInt32 × Cpu) := do
  let w ← load32 c c.esp
  pure (w, c.addEsp 4)

def setLow (c : Cpu) (r : Reg) (w : UInt16) : Cpu := c.setReg r ((c.reg r &&& 0xffff0000) ||| w.toUInt32)

/-! ## The code -/

/-- `movsb` after `cld`. -/
def movsb (c : Cpu) : Option Cpu := do
  let b ← load8 c (c.reg .esi)
  let c ← store8 c (c.reg .edi) b
  pure ((c.setReg .esi (c.reg .esi + 1)).setReg .edi (c.reg .edi + 1))

def rep_movsb : Nat → Cpu → Option Cpu
  | 0, c => some c
  | n + 1, c => do
    let c ← movsb c
    rep_movsb n (c.setReg .ecx (c.reg .ecx - 1))

/-- The address that `ret` goes to is a part of the result. -/
def mem_cpy (c : Cpu) : Option (UInt32 × Cpu) := do
  let c ← push c (c.reg .ebp)
  let c := c.setReg .ebp c.esp
  let c ← push c (c.reg .ecx)
  let c := c.setReg .edi (← load32 c (c.reg .ebp + 8))
  let c := c.setReg .esi (← load32 c (c.reg .ebp + 0xc))
  let c := c.setReg .ecx (← load32 c (c.reg .ebp + 0x10))
  let c ← rep_movsb (c.reg .ecx).toNat c
  let (ecx, c) ← pop c
  let c := c.setReg .ecx ecx
  let (ebp, c) ← pop c
  let c := c.setReg .ebp ebp
  pop c

/-- The push of the arguments and `call mem_cpy`, with `back` behind the call. A return to another
address leaves the model. -/
def copy_segment (back : UInt32) (c : Cpu) : Option Cpu := do
  let c ← push c (← load32 c (c.reg .ebx + 0x10))
  let c := c.setReg .eax (← load32 c (c.reg .ebx + 0x4))
  let c := c.setReg .eax (c.reg .eax + KERNEL_BIN_BASE_ADDR)
  let c ← push c (c.reg .eax)
  let c ← push c (← load32 c (c.reg .ebx + 0x8))
  let c ← push c back
  let (eip, c) ← mem_cpy c
  if eip = back then some (c.addEsp 0xc) else none

/-- From `.each_segment` to `.PTNULL`. -/
def visit (back : UInt32) (c : Cpu) : Option Cpu := do
  let p_type ← load8 c (c.reg .ebx + 0)
  if p_type = PT_NULL then some c else copy_segment back c

def next (c : Cpu) : Cpu :=
  let c := c.setReg .ebx (c.reg .ebx + c.reg .edx)
  c.setReg .ecx (c.reg .ecx - 1)

/-- The addresses of the headers are collected. -/
def each_segment (back : UInt32) : Nat → Cpu → Option (List UInt32 × Cpu)
  | 0, _ => none
  | fuel + 1, c => do
    let ebx := c.reg .ebx
    let c ← visit back c
    let c := next c
    if c.reg .ecx ≠ 0 then
      let (seen, c) ← each_segment back fuel c
      pure (ebx :: seen, c)
    else pure ([ebx], c)

def kernel_init (back : UInt32) (fuel : Nat) (c : Cpu) : Option (List UInt32 × Cpu) := do
  let c := (((c.setReg .eax 0).setReg .ebx 0).setReg .ecx 0).setReg .edx 0
  let c := c.setReg .ebx (← load32 c (KERNEL_BIN_BASE_ADDR + 0x1c))
  let c := c.setReg .ebx (c.reg .ebx + KERNEL_BIN_BASE_ADDR)
  let c := setLow c .ecx (← load16 c (KERNEL_BIN_BASE_ADDR + 0x2c))
  let c := setLow c .edx (← load16 c (KERNEL_BIN_BASE_ADDR + 0x2a))
  let (seen, c) ← each_segment back fuel c
  let (_, c) ← pop c
  pure (seen, c)

/-! ## Addresses -/

def low (v : UInt32) : Nat := v.toNat % 0xc0000000

/-- `n` bytes from `v` on are in one of the two windows. -/
def Mapped (v : UInt32) (n : Nat) : Prop :=
  n = 0 ∨ v.toNat + n ≤ 0x100000 ∨ (0xc0000000 ≤ v.toNat ∧ v.toNat + n ≤ 0xc0100000)

instance (v : UInt32) (n : Nat) : Decidable (Mapped v n) := inferInstanceAs (Decidable (_ ∨ _))

def Apart (a n b m : Nat) : Prop := n = 0 ∨ m = 0 ∨ a + n ≤ b ∨ b + m ≤ a

instance (a n b m : Nat) : Decidable (Apart a n b m) := inferInstanceAs (Decidable (_ ∨ _))

theorem phys_mapped (v : UInt32) (n : Nat) (h : Mapped v (n + 1)) : phys v = some (low v) := by
  unfold Mapped at h
  unfold phys low
  by_cases hlow : v.toNat < 0x100000
  · rw [if_pos hlow, Nat.mod_eq_of_lt (by omega)]
  · rw [if_neg hlow, if_pos (by omega), Option.some_inj]
    omega

theorem mapped_next (v : UInt32) (n : Nat) (h : Mapped v (n + 1)) :
    Mapped (v + 1) n ∧ low (v + 1) = low v + 1 ∧ (v + 1).toNat = v.toNat + 1 := by
  unfold Mapped at h
  have hadd : (v + 1).toNat = v.toNat + 1 := toNat_add_small v 1 (by omega)
  unfold Mapped low
  rw [hadd]
  omega

/-- The windows of `phys` are what the page tables of the loader map, whatever was in the memory. -/
theorem walk_phys (ram : Ram) (v : UInt32) (a : Nat) (h : phys v = some a) :
    walk (setup_page ram) PAGE_DIR_FRAME v = some (a / 2 ^ 12) := by
  have hv : (v.toNat / 2 ^ 12 / 2 ^ 10 = 0 ∨ v.toNat / 2 ^ 12 / 2 ^ 10 = 768) ∧
      a / 2 ^ 12 = v.toNat / 2 ^ 12 % 2 ^ 10 ∧ a / 2 ^ 12 < 256 := by
    unfold phys at h
    split at h
    · rw [Option.some_inj] at h
      omega
    · split at h
      · rw [Option.some_inj] at h
        omega
      · cases h
  obtain ⟨hv, ha, hlt⟩ := hv
  have hdir : setup_page ram PAGE_DIR_FRAME (v.toNat / 2 ^ 12 / 2 ^ 10) = entry (kernelTable 768) := by
    rw [setup_page_dir]
    obtain hz | hz := hv
    · rw [hz, bootDir, if_pos rfl]
    · rw [hz, bootDir, if_neg (by omega), if_pos (by omega)]
  rw [walk_eq, frameAt, hdir, target_entry _ (by decide), Option.bind_some, setup_page_table _ _ _ (by decide),
    if_pos ⟨rfl, by omega⟩, ← ha, target_entry _ (by omega)]

/-! ## The copy -/

def copied (mem : Mem) (dst src n : Nat) : Mem := fun x =>
  if dst ≤ x ∧ x < dst + n then mem (src + (x - dst)) else mem x

theorem movsb_spec (c : Cpu) (n : Nat) (hd : Mapped (c.reg .edi) (n + 1)) (hs : Mapped (c.reg .esi) (n + 1)) :
    movsb c = some ((({ c with mem := Function.update c.mem (low (c.reg .edi)) (c.mem (low (c.reg .esi))) } :
      Cpu).setReg .esi (c.reg .esi + 1)).setReg .edi (c.reg .edi + 1)) := by
  unfold movsb load8 store8
  rw [phys_mapped _ n hd, phys_mapped _ n hs]
  rfl

/-- **Copy.** `rep movsb` between ranges that are apart copies all the bytes and nothing else. -/
theorem rep_movsb_spec (n : Nat) (c : Cpu) (hd : Mapped (c.reg .edi) n) (hs : Mapped (c.reg .esi) n)
    (hapart : Apart (low (c.reg .edi)) n (low (c.reg .esi)) n) :
    ∃ c', rep_movsb n c = some c' ∧
      (∀ r, r ≠ .esi → r ≠ .edi → r ≠ .ecx → c'.reg r = c.reg r) ∧
      ∀ x, c'.mem x = copied c.mem (low (c.reg .edi)) (low (c.reg .esi)) n x := by
  induction n generalizing c with
  | zero =>
    refine ⟨c, rfl, fun _ _ _ _ => rfl, fun x => ?_⟩
    unfold copied
    rw [if_neg (by omega)]
  | succ n ih =>
    obtain ⟨hd', hlowd, -⟩ := mapped_next _ n hd
    obtain ⟨hs', hlows, -⟩ := mapped_next _ n hs
    rw [rep_movsb, movsb_spec c n hd hs, Option.bind_eq_bind, Option.bind_some]
    generalize hc1 : Cpu.setReg _ .ecx _ = c1
    have hedi : c1.reg .edi = c.reg .edi + 1 := by simp [← hc1, Cpu.setReg]
    have hesi : c1.reg .esi = c.reg .esi + 1 := by simp [← hc1, Cpu.setReg]
    have hmem : c1.mem = Function.update c.mem (low (c.reg .edi)) (c.mem (low (c.reg .esi))) := by
      rw [← hc1]
      rfl
    have hreg : ∀ r, r ≠ .esi → r ≠ .edi → r ≠ .ecx → c1.reg r = c.reg r := by
      intro r h1 h2 h3
      simp [← hc1, Cpu.setReg, h1, h2, h3]
    unfold Apart at hapart
    obtain ⟨c', hrun, hkeep, hcopy⟩ := ih c1 (hedi ▸ hd') (hesi ▸ hs') (by rw [hedi, hesi]; unfold Apart; omega)
    refine ⟨c', hrun, fun r h1 h2 h3 => (hkeep r h1 h2 h3).trans (hreg r h1 h2 h3), fun x => ?_⟩
    rw [hcopy x, hedi, hesi, hlowd, hlows, hmem]
    unfold copied
    by_cases hx : low (c.reg .edi) + 1 ≤ x ∧ x < low (c.reg .edi) + 1 + n
    · rw [if_pos hx, if_pos (by omega), Function.update_of_ne (by omega)]
      congr 1
      omega
    · rw [if_neg hx]
      by_cases hfirst : x = low (c.reg .edi)
      · rw [hfirst, Function.update_self, if_pos (by omega)]
        congr 1
        omega
      · rw [Function.update_of_ne hfirst, if_neg (by omega)]

/-! ## The stack of the loader -/

/-- Not in the seven words that `kernel_init` and `mem_cpy` use of the stack. -/
def OffStack (x : Nat) : Prop := x < 0x8e4 ∨ 0x900 ≤ x

def atCopy (c : Cpu) : Cpu :=
  let mem := write32 (write32 c.mem 0x8e8 (c.reg .ebp)) 0x8e4 (c.reg .ecx)
  { (((((c.setReg .esp 0xc00008e8).setReg .ebp 0xc00008e8).setReg .esp 0xc00008e4).setReg .edi
      (read32 c.mem 0x8f0)).setReg .esi (read32 c.mem 0x8f4)).setReg .ecx (read32 c.mem 0x8f8) with mem }

def leave (c : Cpu) : Option (UInt32 × Cpu) := do
  let (ecx, c) ← pop c
  let (ebp, c) ← pop (c.setReg .ecx ecx)
  pop (c.setReg .ebp ebp)

theorem mem_cpy_eq (c : Cpu) (hesp : c.reg .esp = 0xc00008ec) :
    mem_cpy c = (rep_movsb (read32 c.mem 0x8f8).toNat (atCopy c)).bind leave := by
  simp [mem_cpy, push, store32, load32, Cpu.setReg, Cpu.esp, hesp, physWord, phys, read32_write32_other, atCopy]
  rfl

theorem leave_eq (c : Cpu) (hesp : c.reg .esp = 0xc00008e4) :
    leave c = some (read32 c.mem 0x8ec, ((((((c.addEsp 4).setReg .ecx (read32 c.mem 0x8e4)).addEsp 4).setReg .ebp
      (read32 c.mem 0x8e8)).addEsp 4))) := by
  simp [leave, pop, load32, Cpu.setReg, Cpu.addEsp, Cpu.esp, hesp, physWord, phys]

theorem read32_copied (mem : Mem) (dst src n a : Nat) (h : Apart dst n 0x8e4 0x1c) (ha : 0x8e4 ≤ a)
    (ha' : a + 4 ≤ 0x900) : read32 (copied mem dst src n) a = read32 mem a := by
  apply read32_congr
  intro x hx hx'
  unfold Apart at h
  unfold copied
  rw [if_neg (by omega)]

/-- **`mem_cpy`.** The bytes are copied, the stack is popped and the other registers are kept. -/
theorem mem_cpy_spec (c : Cpu) (hesp : c.reg .esp = 0xc00008ec) (dst src n : UInt32)
    (hdst : read32 c.mem 0x8f0 = dst) (hsrc : read32 c.mem 0x8f4 = src) (hn : read32 c.mem 0x8f8 = n)
    (hd : Mapped dst n.toNat) (hs : Mapped src n.toNat) (hapart : Apart (low dst) n.toNat (low src) n.toNat)
    (hdoff : Apart (low dst) n.toNat 0x8e4 0x1c) (hsoff : Apart (low src) n.toNat 0x8e4 0x1c) :
    ∃ c', mem_cpy c = some (read32 c.mem 0x8ec, c') ∧ c'.reg .esp = 0xc00008f0 ∧
      (∀ r, r ≠ .esi → r ≠ .edi → r ≠ .esp → c'.reg r = c.reg r) ∧
      ∀ x, OffStack x → c'.mem x = copied c.mem (low dst) (low src) n.toNat x := by
  have hedi : (atCopy c).reg .edi = dst := by simp [atCopy, Cpu.setReg, hdst]
  have hesi : (atCopy c).reg .esi = src := by simp [atCopy, Cpu.setReg, hsrc]
  obtain ⟨c1, hrun, hkeep, hcopy⟩ := rep_movsb_spec n.toNat (atCopy c) (hedi ▸ hd) (hesi ▸ hs)
    (by rw [hedi, hesi]; exact hapart)
  have hmem : c1.mem = copied (atCopy c).mem (low dst) (low src) n.toNat := by
    funext x
    rw [hcopy x, hedi, hesi]
  have hstack : ∀ a, 0x8e4 ≤ a → a + 4 ≤ 0x900 → read32 c1.mem a = read32 (atCopy c).mem a := by
    intro a h1 h2
    rw [hmem, read32_copied _ _ _ _ a hdoff h1 h2]
  have hoff : ∀ x, OffStack x → (atCopy c).mem x = c.mem x := by
    intro x hx
    unfold OffStack at hx
    unfold atCopy
    dsimp only
    rw [write32_other _ _ _ x (by omega), write32_other _ _ _ x (by omega)]
  have hesp1 : c1.reg .esp = 0xc00008e4 := by
    rw [hkeep .esp (by decide) (by decide) (by decide)]
    simp [atCopy, Cpu.setReg]
  have hecx : read32 (atCopy c).mem 0x8e4 = c.reg .ecx := by simp [atCopy]
  have hebp : read32 (atCopy c).mem 0x8e8 = c.reg .ebp := by simp [atCopy, read32_write32_other]
  have hback : read32 (atCopy c).mem 0x8ec = read32 c.mem 0x8ec := by simp [atCopy, read32_write32_other]
  rw [mem_cpy_eq c hesp, hn, hrun, Option.bind_some, leave_eq c1 hesp1, hstack 0x8e4 (by omega) (by omega),
    hstack 0x8e8 (by omega) (by omega), hstack 0x8ec (by omega) (by omega), hecx, hebp, hback]
  refine ⟨_, rfl, ?_, fun r h1 h2 h3 => ?_, fun x hx => ?_⟩
  · simp [Cpu.addEsp, Cpu.setReg, Cpu.esp, hesp1]
  · by_cases hr : r = .ecx
    · simp [Cpu.addEsp, Cpu.setReg, hr]
    · by_cases hr' : r = .ebp
      · simp [Cpu.addEsp, Cpu.setReg, hr']
      · have := hkeep r h1 h2 hr
        simp [Cpu.addEsp, Cpu.setReg, h3, hr, hr', this]
        simp [atCopy, Cpu.setReg, h1, h2, h3, hr, hr']
  · unfold Cpu.addEsp Cpu.setReg
    dsimp only
    rw [hmem]
    unfold copied
    unfold Apart at hsoff
    unfold OffStack at hoff
    by_cases hin : low dst ≤ x ∧ x < low dst + n.toNat
    · rw [if_pos hin, if_pos hin, hoff _ (by omega)]
    · rw [if_neg hin, if_neg hin, hoff x hx]

end OsLearn.Boot
