import OsLearn.Boot.Disk
import OsLearn.Boot.Segments
import OsLearn.Kernel.Print
import OsLearn.Lib.Descriptor

/-!
# `boot/loader.S`: from `p_mode_start` to the kernel

The loader reads the kernel from the disk, turns paging on, moves its GDT to the kernel half, and loads the
segments of the kernel.
-/

open OsLearn.X86 OsLearn.Ata OsLearn.Descriptor

namespace OsLearn.Boot

/-! ## Constants of `boot.inc` -/

def KERNEL_START_SECTOR : UInt32 := 0x9

def KERNEL_SECTOR_COUNT : UInt32 := 72

def KERNEL_ENTRY_POINT : UInt32 := 0xc0001500

def PAGE_DIR_TABLE_POS : UInt32 := 0x00100000

def DESC_G23_4KB : UInt32 := 0x00800000

def DESC_D22_32 : UInt32 := 0x00400000

def DESC_LIMIT19_16_CODE2 : UInt32 := 0x000f0000

def DESC_LIMIT19_16_DATA2 : UInt32 := DESC_LIMIT19_16_CODE2

def DESC_P15 : UInt32 := 0x00008000

def DESC_S12_CODE : UInt32 := 0x00001000

def DESC_S12_DATA : UInt32 := DESC_S12_CODE

def DESC_TYPE11_8_CODE : UInt32 := 0x00000800

def DESC_TYPE11_8_DATA : UInt32 := 0x00000200

def DESC_CODE_HIGH4 : UInt32 :=
  DESC_G23_4KB ||| DESC_D22_32 ||| DESC_LIMIT19_16_CODE2 ||| DESC_P15 ||| DESC_S12_CODE ||| DESC_TYPE11_8_CODE

def DESC_DATA_HIGH4 : UInt32 :=
  DESC_G23_4KB ||| DESC_D22_32 ||| DESC_LIMIT19_16_DATA2 ||| DESC_P15 ||| DESC_S12_DATA ||| DESC_TYPE11_8_DATA

def DESC_VIDEO_HIGH4 : UInt32 :=
  DESC_G23_4KB ||| DESC_D22_32 ||| DESC_P15 ||| DESC_S12_DATA ||| DESC_TYPE11_8_DATA ||| 0x0b

def SELECTOR_CODE : UInt16 := 0x08

def SELECTOR_DATA : UInt16 := 0x10

def SELECTOR_VIDEO : UInt16 := 0x18

/-- From `GDT_BASE` on. -/
def gdt : List UInt32 :=
  [0, 0, 0x0000ffff, DESC_CODE_HIGH4, 0x0000ffff, DESC_DATA_HIGH4, 0x80000007, DESC_VIDEO_HIGH4, 0, 0, 0, 0, 0, 0]

def GDT_BASE : UInt32 := LOADER_BASE_ADDR

def GDT_LIMIT : Nat := 8 * 7 - 1

/-- Behind `total_mem_bytes`. -/
def gdt_ptr : UInt32 := LOADER_BASE_ADDR + 0x200 + 4

/-! ## The machine -/

/-- Addresses below 1 MB are the same with and without paging, so `phys` serves for both. -/
structure Start where
  m : Machine
  -- The frames from 1 MB on.
  ram : Ram
  gdtr : Table
  cr3 : UInt32
  paging : Bool
  -- What the processor keeps of the descriptor of `gs`.
  gs : Segment

namespace Start

def cpu (s : Start) : Cpu := s.m.cpu

def withCpu (s : Start) (c : Cpu) : Start := { s with m := { s.m with cpu := c } }

def mov (s : Start) (r : Reg) (v : UInt32) : Start := s.withCpu (s.cpu.setReg r v)

/-- The descriptor that a selector stands for. -/
def descriptor (s : Start) (selector : UInt16) : Option Segment :=
  let k := selector.toNat / 8 * 8
  if k + 7 ≤ s.gdtr.limit then
    (phys (UInt32.ofNat (s.gdtr.base + k))).map fun a => segment (readLE s.cpu.mem a 8)
  else none

/-- `mov gs, ax` -/
def movGs (s : Start) (selector : UInt16) : Option Start := do
  let gs ← s.descriptor selector
  pure { s.withCpu (s.cpu.setSeg .gs selector) with gs }

/-- `mov byte [gs:offset], b` -/
def gsByte (s : Start) (offset : Nat) (b : UInt8) : Option Start :=
  if offset ≤ s.gs.last then (store8 s.cpu (UInt32.ofNat (s.gs.base + offset)) b).map s.withCpu else none

/-- A row of such moves. -/
def gsBytes (s : Start) : List (Nat × UInt8) → Option Start
  | [] => some s
  | (offset, b) :: rest => do
    let s ← s.gsByte offset b
    s.gsBytes rest

/-- `sgdt [v]` -/
def sgdt (s : Start) (v : UInt32) : Option Start := do
  let a ← phys v
  pure (s.withCpu { s.cpu with
    mem := write32 (write16 s.cpu.mem a (UInt16.ofNat s.gdtr.limit)) (a + 2) (UInt32.ofNat s.gdtr.base) })

/-- `lgdt [v]` -/
def lgdt (s : Start) (v : UInt32) : Option Start := do
  let a ← phys v
  pure { s with gdtr := table (readLE s.cpu.mem a 6) }

/-- `or dword [v], w` -/
def orMem (s : Start) (v w : UInt32) : Option Start := do
  let old ← load32 s.cpu v
  (store32 s.cpu v (old ||| w)).map s.withCpu

/-- `call` and `ret`. A return to another address leaves the model. -/
def call (s : Start) (back : UInt32) (f : Start → Option Start) : Option Start := do
  let c ← push s.cpu back
  let s ← f (s.withCpu c)
  let (eip, c) ← pop s.cpu
  if eip = back then some (s.withCpu c) else none

end Start

/-! ## The code -/

/-- The count of the rounds bounds the wait for the drive and the words. -/
def read_kernel (rounds : Nat) (s : Start) : Option Start :=
  (rd_disk_m_32 rounds s.m).map fun m => { s with m }

/-- `setup_page`, with the registers as its loops leave them. -/
def setup_pages (s : Start) : Start :=
  { ((((s.mov .eax 0x200007).mov .ebx PAGE_DIR_TABLE_POS).mov .ecx 0).mov .edx 0x100007).mov .esi 1023 with
    ram := setup_page s.ram }

def set_screen (s : Start) : Option Start :=
  s.gsBytes [(0xa0, 0x32), (0xa2, 0x20), (0xa3, 0xa4), (0xa4, 0x4c), (0xa5, 0xa4), (0xa6, 0x4f), (0xa7, 0xa4),
    (0xa8, 0x41), (0xa9, 0xa4), (0xaa, 0x44), (0xab, 0xa4), (0xac, 0x45), (0xad, 0xa4), (0xae, 0x52), (0xaf, 0xa4)]

def show_kernel (s : Start) : Option Start :=
  s.gsBytes [(0x140, 0x4b), (0x142, 0x45), (0x144, 0x52), (0x146, 0x4e), (0x148, 0x45), (0x14a, 0x4c)]

/-- The segments up to the call of `rd_disk_m_32`. -/
def p_mode_segments (s : Start) : Option Start := do
  let s := s.withCpu (((s.cpu.setSeg .ds SELECTOR_DATA).setSeg .es SELECTOR_DATA).setSeg .ss SELECTOR_DATA)
  let s := s.mov .esp LOADER_STACK_TOP
  let s := s.mov .eax (Regs.setLow16 (s.cpu.reg .eax) SELECTOR_VIDEO)
  let s ← s.movGs SELECTOR_VIDEO
  let s ← s.gsByte 0xa0 0x50
  let s := s.mov .eax KERNEL_START_SECTOR
  let s := s.mov .ebx KERNEL_BIN_BASE_ADDR
  pure (s.mov .ecx KERNEL_SECTOR_COUNT)

/-- From behind the call of `setup_page` to that of `set_screen`. -/
def turn_paging_on (s : Start) : Option Start := do
  let s ← s.sgdt gdt_ptr
  let s := s.mov .ebx (← load32 s.cpu (gdt_ptr + 2))
  let s ← s.orMem (s.cpu.reg .ebx + 0x18 + 4) 0xc0000000
  let s ← s.orMem (gdt_ptr + 2) 0xc0000000
  let s := s.mov .esp (s.cpu.esp ||| 0xc0000000)
  let s := s.mov .eax PAGE_DIR_TABLE_POS
  let s := { s with cr3 := s.cpu.reg .eax }
  let s := { s with paging := true }
  s.lgdt gdt_ptr

/-- `enter_kernel`, up to the first instruction of the kernel. -/
def enter_kernel (back : Nat → UInt32) (rounds : Nat) (s : Start) : Option Start := do
  let s ← s.call (back 3) show_kernel
  let c ← push s.cpu (back 4)
  let (_, c) ← kernel_init (back 5) rounds c
  let s := (s.withCpu c).mov .esp 0xc009f000
  pure (s.withCpu { s.cpu with eip := KERNEL_ENTRY_POINT })

/-- `back` has the addresses behind the calls. -/
def p_mode_start (back : Nat → UInt32) (rounds : Nat) (s : Start) : Option Start := do
  let s ← p_mode_segments s
  let s ← s.call (back 0) (read_kernel rounds)
  let s ← s.call (back 1) (some ∘ setup_pages)
  let s ← turn_paging_on s
  let s ← s.call (back 2) set_screen
  enter_kernel back rounds s

/-! ## The screen and the stack -/

theorem readLE_word (mem : Mem) (a : Nat) : readLE mem a 4 = (read32 mem a).toNat := by
  have h0 := (mem a).toNat_lt
  have h1 := (mem (a + 1)).toNat_lt
  have h2 := (mem (a + 2)).toNat_lt
  have h3 := (mem (a + 3)).toNat_lt
  rw [read32, UInt32.toNat_ofNat_of_lt' (by show _ < 2 ^ 32; omega)]
  simp only [readLE, Nat.add_assoc, Nat.reduceAdd]
  omega

/-- A descriptor is two words. -/
theorem readLE_quad (mem : Mem) (a : Nat) :
    readLE mem a 8 = (read32 mem a).toNat + 2 ^ 32 * (read32 mem (a + 4)).toNat := by
  rw [show 8 = 4 + 4 from rfl, readLE_split, readLE_word, readLE_word]

def videoLow : Segment := { base := 0xb8000, limit := 7, access := 0x92, flags := 0xc }

/-- What is neither the stack nor the screen, in the loader and above it. -/
def Quiet (x : Nat) : Prop := 0x900 ≤ x ∧ x < 0xb8000

theorem gsByte_run (s : Start) (offset : Nat) (b : UInt8) (hgs : s.gs = videoLow) (hoff : offset ≤ 0x7fff) :
    s.gsByte offset b =
      some (s.withCpu { s.cpu with mem := Function.update s.cpu.mem (0xb8000 + offset) b }) := by
  have hphys : phys (UInt32.ofNat (s.gs.base + offset)) = some (0xb8000 + offset) := by
    have hsum : (UInt32.ofNat (s.gs.base + offset)).toNat = 0xb8000 + offset := by
      rw [hgs, UInt32.toNat_ofNat_of_lt' (by show 0xb8000 + offset < 2 ^ 32; omega)]
      rfl
    rw [phys, hsum, if_pos (by omega)]
  rw [Start.gsByte, if_pos (by rw [hgs]; exact hoff), store8, hphys]
  rfl

theorem gsBytes_run (l : List (Nat × UInt8)) (s : Start) (hgs : s.gs = videoLow) (hl : ∀ p ∈ l, p.1 ≤ 0x7fff) :
    ∃ mem, s.gsBytes l = some (s.withCpu { s.cpu with mem }) ∧ ∀ x, x < 0xb8000 → mem x = s.cpu.mem x := by
  induction l generalizing s with
  | nil => exact ⟨s.cpu.mem, rfl, fun _ _ => rfl⟩
  | cons p l ih =>
    obtain ⟨offset, b⟩ := p
    obtain ⟨mem, hrun, hmem⟩ := ih (s.withCpu { s.cpu with mem := Function.update s.cpu.mem (0xb8000 + offset) b })
      hgs fun p hp => hl p (List.mem_cons_of_mem _ hp)
    refine ⟨mem, ?_, fun x hx => (hmem x hx).trans (Function.update_of_ne (by omega) _ _)⟩
    rw [Start.gsBytes, gsByte_run s offset b hgs (hl (offset, b) List.mem_cons_self), Option.bind_eq_bind,
      Option.bind_some, hrun]
    rfl

/-! ## Calls -/

/-- The machine behind `call`. -/
def pushed (s : Start) (back : UInt32) : Start :=
  s.withCpu { s.cpu.setReg .esp (s.cpu.esp - 4) with mem := write32 s.cpu.mem 0x8fc back }

theorem push_top (c : Cpu) (back : UInt32) (h : c.esp = 0x900 ∨ c.esp = 0xc0000900) :
    push c back = some { c.setReg .esp (c.esp - 4) with mem := write32 c.mem 0x8fc back } := by
  have hw : physWord (c.esp - 4) = some 0x8fc := by
    obtain h | h := h <;> rw [h] <;> rfl
  rw [push, store32, hw]
  rfl

theorem call_run (s s' : Start) (back : UInt32) (f : Start → Option Start)
    (h : s.cpu.esp = 0x900 ∨ s.cpu.esp = 0xc0000900) (hf : f (pushed s back) = some s')
    (hesp : s'.cpu.esp = s.cpu.esp - 4) (hmem : read32 s'.cpu.mem 0x8fc = back) :
    s.call back f = some (s'.withCpu (s'.cpu.addEsp 4)) := by
  have hw : physWord s'.cpu.esp = some 0x8fc := by
    rw [hesp]
    obtain h | h := h <;> rw [h] <;> rfl
  have hpop : pop s'.cpu = some (back, s'.cpu.addEsp 4) := by
    rw [pop, load32, hw, Option.map_some, hmem]
    rfl
  have hpush : push s.cpu back = some (pushed s back).cpu := push_top _ _ h
  have hwith : s.withCpu (pushed s back).cpu = pushed s back := rfl
  rw [Start.call, hpush, Option.bind_eq_bind, Option.bind_some, hwith, hf, Option.bind_eq_bind, Option.bind_some, hpop,
    Option.bind_eq_bind, Option.bind_some]
  exact if_pos rfl

/-! ## The steps of `p_mode_start` -/

theorem descriptor_low (s : Start) (sel : UInt16) (k : Nat) (hk : sel.toNat / 8 * 8 = 4 * k) (hlim : 4 * k + 7 ≤ 55)
    (hgdtr : s.gdtr = ⟨55, 0x900⟩ ∨ s.gdtr = ⟨55, 0xc0000900⟩) :
    s.descriptor sel = some (segment ((read32 s.cpu.mem (0x900 + 4 * k)).toNat +
      2 ^ 32 * (read32 s.cpu.mem (0x900 + 4 * (k + 1))).toNat)) := by
  have hphys : phys (UInt32.ofNat (s.gdtr.base + 4 * k)) = some (0x900 + 4 * k) := by
    have hbase : s.gdtr.base = 0x900 ∨ s.gdtr.base = 0xc0000900 := by
      obtain h | h := hgdtr
      · exact .inl (by rw [h])
      · exact .inr (by rw [h])
    rw [phys, UInt32.toNat_ofNat_of_lt' (by show s.gdtr.base + 4 * k < 2 ^ 32; omega)]
    obtain h | h := hbase
    · rw [h, if_pos (by omega)]
    · rw [h, if_neg (by omega), if_pos (by omega), Option.some_inj]
      omega
  have hlim' : 4 * k + 7 ≤ s.gdtr.limit := by
    obtain h | h := hgdtr <;> rw [h] <;> exact hlim
  unfold Start.descriptor
  dsimp only
  rw [hk, if_pos hlim', hphys, Option.map_some, readLE_quad]
  rfl

/-- The segments but for `gs`, and the stack. -/
def flat (s : Start) : Start :=
  let s := s.withCpu (((s.cpu.setSeg .ds SELECTOR_DATA).setSeg .es SELECTOR_DATA).setSeg .ss SELECTOR_DATA)
  let s := s.mov .esp LOADER_STACK_TOP
  s.mov .eax (Regs.setLow16 (s.cpu.reg .eax) SELECTOR_VIDEO)

/-- The operands of `rd_disk_m_32`. -/
def asking (s : Start) : Start :=
  ((s.mov .eax KERNEL_START_SECTOR).mov .ebx KERNEL_BIN_BASE_ADDR).mov .ecx KERNEL_SECTOR_COUNT

theorem p_mode_segments_run (s : Start) (hgdtr : s.gdtr = ⟨GDT_LIMIT, 0x900⟩) (hgdt : StackAt s.cpu.mem 0x900 gdt) :
    ∃ s', p_mode_segments s = some s' ∧ s'.m.drive = s.m.drive ∧ s'.ram = s.ram ∧ s'.gdtr = s.gdtr ∧
      s'.gs = videoLow ∧ s'.cpu.esp = 0x900 ∧ s'.cpu.reg .eax = 9 ∧ s'.cpu.reg .ebx = 0x70000 ∧
      s'.cpu.reg .ecx = 72 ∧ ∀ x, x < 0xb8000 → s'.cpu.mem x = s.cpu.mem x := by
  have hlow : read32 s.cpu.mem (0x900 + 4 * 6) = 0x80000007 := hgdt.2.2.2.2.2.2.1
  have hhigh : read32 s.cpu.mem (0x900 + 4 * (6 + 1)) = DESC_VIDEO_HIGH4 := hgdt.2.2.2.2.2.2.2.1
  have hdesc : (flat s).descriptor SELECTOR_VIDEO = some videoLow := by
    rw [descriptor_low (flat s) SELECTOR_VIDEO 6 rfl (by omega) (.inl hgdtr)]
    show some (segment ((read32 s.cpu.mem (0x900 + 4 * 6)).toNat +
      2 ^ 32 * (read32 s.cpu.mem (0x900 + 4 * (6 + 1))).toNat)) = _
    rw [hlow, hhigh]
    rfl
  have hgs : (flat s).movGs SELECTOR_VIDEO =
      some { (flat s).withCpu ((flat s).cpu.setSeg .gs SELECTOR_VIDEO) with gs := videoLow } := by
    rw [Start.movGs, hdesc]
    rfl
  have hcode : p_mode_segments s = ((flat s).movGs SELECTOR_VIDEO).bind
      fun s => (s.gsByte 0xa0 0x50).bind fun s => some (asking s) := rfl
  rw [hcode, hgs, Option.bind_some, gsByte_run _ 0xa0 0x50 rfl (by omega), Option.bind_some]
  refine ⟨_, rfl, rfl, rfl, rfl, rfl, rfl, rfl, rfl, rfl, fun x hx => Function.update_of_ne (by omega) _ _⟩

/-- The request of `p_mode_start`, in any machine that has its three registers. -/
theorem read_kernel_run (s : Start) (heax : s.cpu.reg .eax = 9) (hebx : s.cpu.reg .ebx = 0x70000)
    (hecx : s.cpu.reg .ecx = 72) :
    ∃ s', (∀ rounds, s.m.drive.busy.length < rounds → 256 * 72 ≤ rounds → read_kernel rounds s = some s') ∧
      s'.cpu.mem = brought s.cpu.mem s.m.drive.disk 0x70000 (512 * 9) (512 * 72) ∧ s'.ram = s.ram ∧
      s'.gdtr = s.gdtr ∧ s'.gs = s.gs ∧ s'.cpu.esp = s.cpu.esp := by
  have hreq : Request .bits32 s.m 9 0x70000 72 := by
    refine ⟨?_, ?_, ?_, by omega, by omega, ?_⟩
    · show (s.cpu.reg .eax).toNat % 2 ^ 28 = 9
      rw [heax]
      rfl
    · show 0 + (s.cpu.reg .ebx).toNat = _
      rw [hebx]
      rfl
    · show (s.cpu.reg .ecx).toNat = _
      rw [hecx]
      rfl
    · show (s.cpu.reg .ebx).toNat + 512 * 72 ≤ 2 ^ 32
      rw [hebx]
      decide
  obtain ⟨m', hrun, hmem, -, -, -, hesp, -⟩ := rd_disk_m_spec .bits32 s.m 9 0x70000 72 hreq
  refine ⟨{ s with m := m' }, fun rounds h1 h2 => ?_, hmem, rfl, rfl, rfl, hesp⟩
  rw [read_kernel, rd_disk_m_32, hrun rounds h1 h2]
  rfl

/-- The GDT with the base of the screen in the kernel half. -/
def gdtMoved : List UInt32 := gdt.set 7 (DESC_VIDEO_HIGH4 ||| 0xc0000000)

/-- The memory after `sgdt`. -/
def stored (mem : Mem) : Mem := write32 (write16 mem 0xb04 (UInt16.ofNat GDT_LIMIT)) 0xb06 0x900

/-- The memory after both descriptors are moved. -/
def movedMem (mem : Mem) : Mem :=
  write32 (write32 (stored mem) 0x91c (DESC_VIDEO_HIGH4 ||| 0xc0000000)) 0xb06 0xc0000900

theorem movedMem_gdt (mem : Mem) (h : StackAt mem 0x900 gdt) : StackAt (movedMem mem) 0x900 gdtMoved := by
  have hstored : StackAt (stored mem) 0x900 gdt := by
    refine stackAt_congr mem _ _ _ (fun x _ hx => ?_) h
    change x < 0x900 + 4 * 14 at hx
    rw [stored, write32_other _ _ _ x (by omega), write16_other _ _ _ x (by omega)]
  refine stackAt_congr _ _ _ _ (fun x _ hx => ?_) (stackAt_set (stored mem) 0x900 gdt 7 _ hstored (by decide))
  change x < 0x900 + 4 * 14 at hx
  rw [movedMem, write32_other _ _ _ x (by omega)]

theorem movedMem_ptr (mem : Mem) : table (readLE (movedMem mem) 0xb04 6) = ⟨GDT_LIMIT, 0xc0000900⟩ := by
  have hlimit : readLE (movedMem mem) 0xb04 2 = GDT_LIMIT := by
    have hsame : readLE (movedMem mem) 0xb04 2 = readLE (write16 mem 0xb04 (UInt16.ofNat GDT_LIMIT)) 0xb04 2 := by
      apply readLE_congr
      intro x _ hx
      rw [movedMem, write32_other _ _ _ x (by omega), write32_other _ _ _ x (by omega), stored,
        write32_other _ _ _ x (by omega)]
    rw [hsame, readLE_write16]
    rfl
  have hbase : read32 (movedMem mem) 0xb06 = 0xc0000900 := read32_write32 _ _ _
  rw [show 6 = 2 + 4 from rfl, readLE_split, hlimit, readLE_word, hbase]
  exact table_pack GDT_LIMIT 0xc0000900 (by decide) (by decide)

theorem sgdt_run (s : Start) (hgdtr : s.gdtr = ⟨GDT_LIMIT, 0x900⟩) :
    s.sgdt gdt_ptr = some (s.withCpu { s.cpu with mem := stored s.cpu.mem }) := by
  rw [Start.sgdt, hgdtr]
  rfl

theorem orMem_run (s : Start) (v w : UInt32) (a : Nat) (hw : physWord v = some a) :
    s.orMem v w = some (s.withCpu { s.cpu with mem := write32 s.cpu.mem a (read32 s.cpu.mem a ||| w) }) := by
  rw [Start.orMem, load32, hw, Option.map_some, Option.bind_eq_bind, Option.bind_some, store32, hw]
  rfl

theorem turn_paging_on_run (s : Start) (hgdtr : s.gdtr = ⟨GDT_LIMIT, 0x900⟩) (hgdt : StackAt s.cpu.mem 0x900 gdt)
    (hesp : s.cpu.esp = 0x900) :
    ∃ s', turn_paging_on s = some s' ∧ s'.gdtr = ⟨GDT_LIMIT, 0xc0000900⟩ ∧ s'.ram = s.ram ∧ s'.gs = s.gs ∧
      s'.cr3 = PAGE_DIR_TABLE_POS ∧ s'.paging = true ∧ s'.cpu.esp = 0xc0000900 ∧
      s'.cpu.mem = movedMem s.cpu.mem := by
  have hbase : read32 (stored s.cpu.mem) 0xb06 = 0x900 := read32_write32 _ _ _
  have hvideo : read32 (stored s.cpu.mem) 0x91c = DESC_VIDEO_HIGH4 := by
    rw [stored, read32_write32_other _ _ _ _ (by omega)]
    have hsame : read32 (write16 s.cpu.mem 0xb04 (UInt16.ofNat GDT_LIMIT)) 0x91c = read32 s.cpu.mem 0x91c :=
      read32_congr _ _ _ fun x _ hx => write16_other _ _ _ _ (by omega)
    rw [hsame]
    exact hgdt.2.2.2.2.2.2.2.1
  let s1 := s.withCpu { s.cpu with mem := stored s.cpu.mem }
  let s2 := s1.mov .ebx 0x900
  let s3 := s2.withCpu { s2.cpu with mem := write32 (stored s.cpu.mem) 0x91c (DESC_VIDEO_HIGH4 ||| 0xc0000000) }
  let s4 := s3.withCpu { s3.cpu with mem := movedMem s.cpu.mem }
  let s5 := { (s4.mov .esp (s.cpu.esp ||| 0xc0000000)).mov .eax PAGE_DIR_TABLE_POS with
    cr3 := PAGE_DIR_TABLE_POS
    paging := true }
  have hload : load32 s1.cpu (gdt_ptr + 2) = some 0x900 := congrArg some hbase
  have hor3 : s2.orMem (0x900 + 0x18 + 4) 0xc0000000 = some s3 := by
    have hor := orMem_run s2 (0x900 + 0x18 + 4) 0xc0000000 0x91c rfl
    have hold : read32 s2.cpu.mem 0x91c = DESC_VIDEO_HIGH4 := hvideo
    rw [hold] at hor
    exact hor
  have hor4 : s3.orMem (gdt_ptr + 2) 0xc0000000 = some s4 := by
    have hor := orMem_run s3 (gdt_ptr + 2) 0xc0000000 0xb06 rfl
    have hold : read32 s3.cpu.mem 0xb06 = 0x900 := (read32_write32_other _ _ _ _ (by omega)).trans hbase
    rw [hold] at hor
    exact hor
  have hlgdt : s5.lgdt gdt_ptr = some { s5 with gdtr := ⟨GDT_LIMIT, 0xc0000900⟩ } := by
    rw [← movedMem_ptr s.cpu.mem]
    rfl
  have hrun : turn_paging_on s = some { s5 with gdtr := ⟨GDT_LIMIT, 0xc0000900⟩ } := by
    have hcode : turn_paging_on s = (s.sgdt gdt_ptr).bind fun s => (load32 s.cpu (gdt_ptr + 2)).bind fun ebx =>
        ((s.mov .ebx ebx).orMem ((s.mov .ebx ebx).cpu.reg .ebx + 0x18 + 4) 0xc0000000).bind fun s =>
          (s.orMem (gdt_ptr + 2) 0xc0000000).bind fun s =>
            ({ (s.mov .esp (s.cpu.esp ||| 0xc0000000)).mov .eax PAGE_DIR_TABLE_POS with
              cr3 := PAGE_DIR_TABLE_POS, paging := true } : Start).lgdt gdt_ptr := rfl
    rw [hcode]
    refine Option.bind_eq_some_iff.mpr ⟨s1, sgdt_run s hgdtr, ?_⟩
    refine Option.bind_eq_some_iff.mpr ⟨0x900, hload, ?_⟩
    refine Option.bind_eq_some_iff.mpr ⟨s3, hor3, ?_⟩
    exact Option.bind_eq_some_iff.mpr ⟨s4, hor4, hlgdt⟩
  refine ⟨_, hrun, rfl, rfl, rfl, rfl, rfl, ?_, rfl⟩
  show s.cpu.esp ||| 0xc0000000 = _
  rw [hesp]
  rfl

/-! ## The way to the kernel -/

/-- What a routine leaves alone. -/
structure Carries (s s' : Start) : Prop where
  ram : s'.ram = s.ram
  gdtr : s'.gdtr = s.gdtr
  gs : s'.gs = s.gs
  cr3 : s'.cr3 = s.cr3
  paging : s'.paging = s.paging
  esp : s'.cpu.esp = s.cpu.esp
  quiet : ∀ x, Quiet x → s'.cpu.mem x = s.cpu.mem x

theorem print_call (s : Start) (back : UInt32) (l : List (Nat × UInt8)) (hgs : s.gs = videoLow)
    (hesp : s.cpu.esp = 0x900 ∨ s.cpu.esp = 0xc0000900) (hl : ∀ p ∈ l, p.1 ≤ 0x7fff) :
    ∃ s', s.call back (fun s => s.gsBytes l) = some s' ∧ Carries s s' := by
  obtain ⟨mem, hrun, hmem⟩ := gsBytes_run l (pushed s back) hgs hl
  have hback : read32 mem 0x8fc = back := by
    rw [read32_congr (pushed s back).cpu.mem mem 0x8fc fun x _ hx => hmem x (by omega)]
    exact read32_write32 _ _ _
  refine ⟨_, call_run s _ back _ hesp hrun rfl hback, rfl, rfl, rfl, rfl, rfl, UInt32.sub_add_cancel _ _,
    fun x hx => ?_⟩
  unfold Quiet at hx
  exact (hmem x hx.2).trans (write32_other _ _ _ x (by omega))

theorem withCpu_ram (s : Start) (c : Cpu) : (s.withCpu c).ram = s.ram := rfl

theorem setup_pages_ram (s : Start) : (setup_pages s).ram = setup_page s.ram := by
  unfold setup_pages
  with_reducible rfl

/-- The machine in front of `turn_paging_on`: the sectors of the kernel are in the memory. -/
theorem kernel_read (back : Nat → UInt32) (s : Start) (hgdtr : s.gdtr = ⟨GDT_LIMIT, 0x900⟩)
    (hgdt : StackAt s.cpu.mem 0x900 gdt) :
    ∃ s', (∀ rounds, s.m.drive.busy.length < rounds → 256 * 72 ≤ rounds →
        (p_mode_segments s).bind (fun s => (s.call (back 0) (read_kernel rounds)).bind fun s =>
          s.call (back 1) (some ∘ setup_pages)) = some s') ∧
      s'.gdtr = s.gdtr ∧ s'.gs = videoLow ∧ s'.ram = setup_page s.ram ∧ s'.cpu.esp = 0x900 ∧
      StackAt s'.cpu.mem 0x900 gdt ∧
      ∀ x, 0x70000 ≤ x → x < 0x70000 + 512 * 72 → s'.cpu.mem x = s.m.drive.disk (512 * 9 + (x - 0x70000)) := by
  obtain ⟨s1, hseg, hdrive1, hram1, hgdtr1, hgs1, hesp1, heax1, hebx1, hecx1, hmem1⟩ := p_mode_segments_run s hgdtr hgdt
  obtain ⟨s2, hread, hmem2, hram2, hgdtr2, hgs2, hesp2⟩ := read_kernel_run (pushed s1 (back 0)) heax1 hebx1 hecx1
  have hback : read32 s2.cpu.mem 0x8fc = back 0 := by
    rw [hmem2, read32_congr (pushed s1 (back 0)).cpu.mem _ 0x8fc fun x _ hx => brought_other _ _ _ _ _ x (by omega)]
    exact read32_write32 _ _ _
  let s3 := s2.withCpu (s2.cpu.addEsp 4)
  have hesp3 : s3.cpu.esp = 0x900 := by
    show s2.cpu.esp + 4 = _
    rw [hesp2]
    show s1.cpu.esp - 4 + 4 = _
    rw [hesp1]
    rfl
  let s4 := (setup_pages (pushed s3 (back 1))).withCpu ((setup_pages (pushed s3 (back 1))).cpu.addEsp 4)
  have hsetup : s3.call (back 1) (some ∘ setup_pages) = some s4 :=
    call_run s3 (setup_pages (pushed s3 (back 1))) (back 1) _ (.inl hesp3) rfl rfl (read32_write32 _ _ _)
  have hquiet : ∀ x, 0x900 ≤ x → x < 0xb8000 →
      (pushed s3 (back 1)).cpu.mem x =
        brought (pushed s1 (back 0)).cpu.mem s.m.drive.disk 0x70000 (512 * 9) (512 * 72) x := by
    intro x hx _
    rw [← hdrive1]
    exact (write32_other _ _ _ x (by omega)).trans (congrFun hmem2 x)
  refine ⟨s4, fun rounds h1 h2 => ?_, hgdtr2.trans hgdtr1, hgs2.trans hgs1, ?_, ?_, ?_, ?_⟩
  · have hcall : s1.call (back 0) (read_kernel rounds) = some s3 :=
      call_run s1 s2 (back 0) _ (.inl hesp1) (hread rounds (by rw [← hdrive1] at h1; exact h1) h2) hesp2 hback
    rw [hseg, Option.bind_some, hcall, Option.bind_some, hsetup]
  · have hram3 : (pushed s3 (back 1)).ram = s.ram := hram2.trans hram1
    rw [withCpu_ram, setup_pages_ram, hram3]
  · show s3.cpu.esp - 4 + 4 = _
    rw [hesp3]
    rfl
  · refine stackAt_congr s.cpu.mem _ _ _ (fun x h1 h2 => ?_) hgdt
    change x < 0x900 + 4 * 14 at h2
    refine (hquiet x h1 (by omega)).trans ?_
    rw [brought_other _ _ _ _ _ x (by omega)]
    exact (write32_other _ _ _ x (by omega)).trans (hmem1 x (by omega))
  · intro x h1 h2
    exact (hquiet x (by omega) (by omega)).trans (if_pos ⟨h1, h2⟩)

theorem Carries.trans (s s' s'' : Start) (h : Carries s s') (h' : Carries s' s'') : Carries s s'' :=
  ⟨h'.ram.trans h.ram, h'.gdtr.trans h.gdtr, h'.gs.trans h.gs, h'.cr3.trans h.cr3, h'.paging.trans h.paging,
    h'.esp.trans h.esp, fun x hx => (h'.quiet x hx).trans (h.quiet x hx)⟩

theorem set_screen_call (s : Start) (back : UInt32) (hgs : s.gs = videoLow)
    (hesp : s.cpu.esp = 0x900 ∨ s.cpu.esp = 0xc0000900) : ∃ s', s.call back set_screen = some s' ∧ Carries s s' :=
  print_call s back _ hgs hesp (by decide)

theorem show_kernel_call (s : Start) (back : UInt32) (hgs : s.gs = videoLow)
    (hesp : s.cpu.esp = 0x900 ∨ s.cpu.esp = 0xc0000900) : ∃ s', s.call back show_kernel = some s' ∧ Carries s s' :=
  print_call s back _ hgs hesp (by decide)

/-- No header is copied over the loader. -/
theorem after_loader (mem : Mem) (size : Nat) (hw : WellFormed mem size) (ho : OthersFree mem size) (x : Nat)
    (hx : 0x900 ≤ x) (hx' : x < 0x900 + 512 * LOADER_SECTOR_COUNT) : after mem (e_phnum mem) x = mem x := by
  refine after_untouched mem _ x fun k hk hc => ?_
  have hfree := (copied_free mem size hw ho k hk hc.1).2.loader
  obtain ⟨-, hlo, hhi⟩ := hc
  unfold Apart at hfree
  omega

theorem phys_add (v : UInt32) (n i : Nat) (h : Mapped v n) (hi : i < n) :
    phys (v + UInt32.ofNat i) = some (low v + i) := by
  have hv := v.toNat_lt
  unfold Mapped at h
  have hadd : (v + UInt32.ofNat i).toNat = v.toNat + i := toNat_add_small v i (by omega)
  unfold phys low
  rw [hadd]
  by_cases hlow : v.toNat + i < 0x100000
  · rw [if_pos hlow, Nat.mod_eq_of_lt (by omega)]
  · rw [if_neg hlow, if_pos (by omega), Option.some_inj]
    omega

/-- The GDT at the entry of the kernel. -/
theorem moved_descriptors (s : Start) (hgdtr : s.gdtr = ⟨GDT_LIMIT, 0xc0000900⟩)
    (hgdt : StackAt s.cpu.mem 0x900 gdtMoved) :
    s.descriptor SELECTOR_CODE = some { base := 0, limit := 0xfffff, access := 0x98, flags := 0xc } ∧
      s.descriptor SELECTOR_DATA = some { base := 0, limit := 0xfffff, access := 0x92, flags := 0xc } ∧
      s.descriptor SELECTOR_VIDEO = some { base := Print.gsBase, limit := 7, access := 0x92, flags := 0xc } := by
  have hword := fun k w => stackAt_get s.cpu.mem 0x900 gdtMoved k w hgdt
  refine ⟨?_, ?_, ?_⟩
  · rw [descriptor_low s _ 2 rfl (by omega) (.inr hgdtr), hword 2 _ rfl, hword (2 + 1) _ rfl]
    rfl
  · rw [descriptor_low s _ 4 rfl (by omega) (.inr hgdtr), hword 4 _ rfl, hword (4 + 1) _ rfl]
    rfl
  · rw [descriptor_low s _ 6 rfl (by omega) (.inr hgdtr), hword 6 _ rfl, hword (6 + 1) _ rfl]
    rfl

end OsLearn.Boot
