import OsLearn.Lib.Ata
import OsLearn.Lib.Regs
import OsLearn.Lib.X86

/-!
# `rd_disk_m_16` of `boot/mbr.S` and `rd_disk_m_32` of `boot/loader.S`

One is a copy of the other. They differ in the width of the address and of the counter of `loop`.
-/

open OsLearn.Regs OsLearn.X86 OsLearn.Ata

namespace OsLearn.Boot

/-! ## The machine -/

structure Machine where
  cpu : Cpu
  drive : Drive

/-- `bits 16` and `bits 32` -/
inductive Width where
  | bits16
  | bits32
  deriving DecidableEq, Repr

def Width.top : Width → Nat
  | .bits16 => 2 ^ 16
  | .bits32 => 2 ^ 32

namespace Machine

def get (m : Machine) (r : Reg) : UInt32 := m.cpu.reg r

def mov (m : Machine) (r : Reg) (v : UInt32) : Machine := { m with cpu := m.cpu.setReg r v }

def mov16 (m : Machine) (r : Reg) (v : UInt16) : Machine := m.mov r (setLow16 (m.get r) v)

def mov8 (m : Machine) (r : Reg) (v : UInt8) : Machine := m.mov r (setLow8 (m.get r) v)

/-- `out dx, al` -/
def outAl (m : Machine) : Machine := { m with drive := m.drive.out (low16 (m.get .edx)) (low8 (m.get .eax)) }

/-- `in al, dx` -/
def inAl (m : Machine) : Machine :=
  let (b, drive) := m.drive.inb (low16 (m.get .edx))
  { m with drive }.mov8 .eax b

/-- `in ax, dx` -/
def inAx (m : Machine) : Machine :=
  let (w, drive) := m.drive.inw (low16 (m.get .edx))
  { m with drive }.mov16 .eax w

/-- `shr eax, cl` -/
def shrEax (m : Machine) : Machine := m.mov .eax (m.get .eax >>> ((low8 (m.get .ecx)).toUInt32 % 32))

/-- `mul dx` -/
def mulDx (m : Machine) : Machine :=
  let p := mul16 (low16 (m.get .eax)) (low16 (m.get .edx))
  (m.mov16 .edx p.1).mov16 .eax p.2

/-- `bx` or `ebx` -/
def offset (m : Machine) : Width → Nat
  | .bits16 => (low16 (m.get .ebx)).toNat
  | .bits32 => (m.get .ebx).toNat

/-- Where `ds` begins. The segments of the loader begin at 0. -/
def base (m : Machine) : Width → Nat
  | .bits16 => 16 * (m.cpu.seg .ds).toNat
  | .bits32 => 0

/-- `mov [bx], ax`, which stops where the word does not lie in the segment. -/
def storeAx (m : Machine) (w : Width) : Option Machine :=
  if m.offset w + 1 < w.top then
    some { m with cpu := { m.cpu with mem := write16 m.cpu.mem (m.base w + m.offset w) (low16 (m.get .eax)) } }
  else none

/-- `add bx, 2` -/
def nextWord (m : Machine) : Width → Machine
  | .bits16 => m.mov16 .ebx (low16 (m.get .ebx) + 2)
  | .bits32 => m.mov .ebx (m.get .ebx + 2)

/-- The counter of `loop`, in `cx` or in `ecx`. -/
def counter (m : Machine) : Width → Nat
  | .bits16 => (low16 (m.get .ecx)).toNat
  | .bits32 => (m.get .ecx).toNat

def countDown (m : Machine) : Width → Machine
  | .bits16 => m.mov16 .ecx (low16 (m.get .ecx) - 1)
  | .bits32 => m.mov .ecx (m.get .ecx - 1)

end Machine

/-! ## The code -/

/-- The first three steps: the sectors come into the task file, and then the command. -/
def rd_disk_command (m : Machine) : Machine :=
  let m := m.mov .esi (m.get .eax)
  let m := m.mov16 .edi (low16 (m.get .ecx))
  let m := m.mov16 .edx 0x1f2
  let m := m.mov8 .eax (low8 (m.get .ecx))
  let m := m.outAl
  let m := m.mov .eax (m.get .esi)
  let m := m.mov16 .edx 0x1f3
  let m := m.outAl
  let m := m.mov8 .ecx 8
  let m := m.shrEax
  let m := m.mov16 .edx 0x1f4
  let m := m.outAl
  let m := m.shrEax
  let m := m.mov16 .edx 0x1f5
  let m := m.outAl
  let m := m.shrEax
  let m := m.mov8 .eax (low8 (m.get .eax) &&& 0xf)
  let m := m.mov8 .eax (low8 (m.get .eax) ||| 0xe0)
  let m := m.mov16 .edx 0x1f6
  let m := m.outAl
  let m := m.mov16 .edx 0x1f7
  let m := m.mov8 .eax 0x20
  m.outAl

/-- `.not_ready` -/
def not_ready : Nat → Machine → Option Machine
  | 0, _ => none
  | fuel + 1, m =>
    let m := m.inAl
    let m := m.mov8 .eax (low8 (m.get .eax) &&& 0x88)
    if low8 (m.get .eax) = 0x08 then some m else not_ready fuel m

/-- From behind `jnz .not_ready` to `.go_on_read`. -/
def rd_disk_words (m : Machine) : Machine :=
  let m := m.mov16 .eax (low16 (m.get .edi))
  let m := m.mov16 .edx 256
  let m := m.mulDx
  let m := m.mov16 .ecx (low16 (m.get .eax))
  m.mov16 .edx 0x1f0

/-- `.go_on_read` -/
def go_on_read (w : Width) : Nat → Machine → Option Machine
  | 0, _ => none
  | fuel + 1, m => do
    let m ← m.inAx.storeAx w
    let m := (m.nextWord w).countDown w
    if m.counter w ≠ 0 then go_on_read w fuel m else some m

def rd_disk_m (w : Width) (fuel : Nat) (m : Machine) : Option Machine := do
  let m ← not_ready fuel (rd_disk_command m)
  go_on_read w fuel (rd_disk_words m)

def rd_disk_m_16 (fuel : Nat) (m : Machine) : Option Machine := rd_disk_m .bits16 fuel m

def rd_disk_m_32 (fuel : Nat) (m : Machine) : Option Machine := rd_disk_m .bits32 fuel m

/-! ## Registers and the drive after an instruction -/

namespace Machine

theorem get_mov (m : Machine) (r s : Reg) (v : UInt32) : (m.mov r v).get s = if s = r then v else m.get s := by
  simp [mov, get, Cpu.setReg, Function.update_apply]

theorem get_outAl (m : Machine) (r : Reg) : m.outAl.get r = m.get r := rfl

@[simp] theorem drive_mov (m : Machine) (r : Reg) (v : UInt32) : (m.mov r v).drive = m.drive := rfl

theorem drive_outAl (m : Machine) : m.outAl.drive = m.drive.out (low16 (m.get .edx)) (low8 (m.get .eax)) := rfl

end Machine

/-! ## The command -/

/-- `and al, 0xf` and `or al, 0xe0` -/
theorem device_byte (b : UInt8) : (b &&& 0xf ||| 0xe0).toNat = 224 + b.toNat % 16 := by
  have hmask : (b &&& 0xf).toNat = b.toNat % 2 ^ 4 := by
    rw [UInt8.toNat_and]
    show b.toNat &&& (2 ^ 4 - 1) = _
    rw [Nat.and_two_pow_sub_one_eq_mod]
  rw [UInt8.toNat_or, hmask, Nat.or_comm]
  show 2 ^ 4 * 14 ||| b.toNat % 2 ^ 4 = _
  rw [nat_or_add _ _ _ (Nat.mod_lt _ (by omega))]
  rfl

/-- The sector number, in the four bytes that are sent. -/
theorem lba_bytes (eax : UInt32) :
    (low8 eax).toNat + 2 ^ 8 * (low8 (eax >>> 8)).toNat + 2 ^ 16 * (low8 (eax >>> 8 >>> 8)).toNat +
      2 ^ 24 * ((low8 (eax >>> 8 >>> 8 >>> 8) &&& 0xf ||| 0xe0).toNat % 16) = eax.toNat % 2 ^ 28 := by
  have hlt := eax.toNat_lt
  have hshr : ∀ v : UInt32, (v >>> 8).toNat = v.toNat / 2 ^ 8 := fun v => u32_shr v 8 (by decide)
  rw [device_byte]
  simp only [low8_toNat, hshr]
  omega

theorem command_drive (m : Machine) :
    let d := (rd_disk_command m).drive
    d.disk = m.drive.disk ∧ d.busy = m.drive.busy ∧ d.next = 512 * ((m.get .eax).toNat % 2 ^ 28) ∧
      d.left = 256 * (if low8 (m.get .ecx) = 0 then 256 else (low8 (m.get .ecx)).toNat) := by
  have hdrive : (rd_disk_command m).drive = (((((m.drive.out COUNT (low8 (m.get .ecx))).out LBA_LOW
      (low8 (m.get .eax))).out LBA_MID (low8 (m.get .eax >>> 8))).out LBA_HIGH (low8 (m.get .eax >>> 8 >>> 8))).out
      DEVICE (low8 (m.get .eax >>> 8 >>> 8 >>> 8) &&& 0xf ||| 0xe0)).out COMMAND READ_SECTORS := by
    simp [rd_disk_command, Machine.mov16, Machine.mov8, Machine.shrEax, Machine.get_mov, Machine.get_outAl,
      Machine.drive_outAl]
    rfl
  have hdev := device_byte (low8 (m.get .eax >>> 8 >>> 8 >>> 8))
  have hlba := lba_bytes (m.get .eax)
  generalize low8 (m.get .eax >>> 8 >>> 8 >>> 8) &&& 0xf ||| 0xe0 = device at hdrive hdev hlba
  rw [hdrive, Drive.out_other _ COUNT _ (by decide), Drive.out_other _ LBA_LOW _ (by decide),
    Drive.out_other _ LBA_MID _ (by decide), Drive.out_other _ LBA_HIGH _ (by decide),
    Drive.out_other _ DEVICE _ (by decide), Drive.out_read]
  · exact ⟨rfl, rfl, by rw [← hlba]; rfl, rfl⟩
  · simp [Drive.selected]
    omega

theorem command_cpu (m : Machine) :
    (rd_disk_command m).cpu.mem = m.cpu.mem ∧ (rd_disk_command m).cpu.seg = m.cpu.seg ∧
      low16 ((rd_disk_command m).get .edx) = 0x1f7 ∧ low16 ((rd_disk_command m).get .edi) = low16 (m.get .ecx) ∧
      (rd_disk_command m).get .ecx = setLow8 (m.get .ecx) 8 ∧
      ∀ r, r ≠ .eax → r ≠ .ecx → r ≠ .edx → r ≠ .esi → r ≠ .edi → (rd_disk_command m).get r = m.get r := by
  refine ⟨rfl, rfl, ?_, ?_, ?_, fun r h1 h2 h3 h4 h5 => ?_⟩
  all_goals simp [rd_disk_command, Machine.mov16, Machine.mov8, Machine.shrEax, Machine.get_mov, Machine.get_outAl, *]


/-! ## The wait -/

theorem low8_busy (s : UInt8) : (0x80 ||| s) &&& 0x88 ≠ 0x08 := by
  intro h
  have hbit : ((0x80 ||| s) &&& 0x88 : UInt8).toNat.testBit 7 = true := by
    rw [UInt8.toNat_and, UInt8.toNat_or, Nat.testBit_and, Nat.testBit_or]
    rfl
  rw [h] at hbit
  exact absurd hbit (by decide)

def polled (m : Machine) (b : UInt8) (drive : Drive) : Machine :=
  ({ m with drive }.mov8 .eax b).mov8 .eax (b &&& 0x88)

theorem not_ready_succ (fuel : Nat) (m : Machine) (b : UInt8) (d : Drive)
    (h : m.drive.inb (low16 (m.get .edx)) = (b, d)) :
    not_ready (fuel + 1) m = if b &&& 0x88 = 0x08 then some (polled m b d) else not_ready fuel (polled m b d) := by
  have hin : m.inAl = { m with drive := d }.mov8 .eax b := by
    unfold Machine.inAl
    rw [h]
  rw [not_ready, hin]
  simp [polled, Machine.mov8, Machine.get_mov]

theorem polled_get (m : Machine) (b : UInt8) (d : Drive) (r : Reg) (h : r ≠ .eax) : (polled m b d).get r = m.get r := by
  simp only [polled, Machine.mov8, Machine.get_mov, if_neg h]
  rfl

/-- The wait ends when the drive has been found busy for the last time. -/
theorem not_ready_run (busy : List UInt8) (m : Machine) (hport : low16 (m.get .edx) = COMMAND)
    (hbusy : m.drive.busy = busy) (hleft : m.drive.left ≠ 0) :
    ∃ m', (∀ fuel, busy.length < fuel → not_ready fuel m = some m') ∧ m'.drive = { m.drive with busy := [] } ∧
      m'.cpu.mem = m.cpu.mem ∧ m'.cpu.seg = m.cpu.seg ∧ ∀ r, r ≠ .eax → m'.get r = m.get r := by
  induction busy generalizing m with
  | nil =>
    have hstep := fun fuel => not_ready_succ fuel m 0x58 m.drive (by rw [hport, Drive.inb_ready _ hbusy hleft])
    refine ⟨polled m 0x58 m.drive, fun fuel hf => ?_, ?_, rfl, rfl, fun r hr => polled_get _ _ _ _ hr⟩
    · obtain ⟨fuel, rfl⟩ := Nat.exists_eq_add_of_le' hf
      exact (hstep _).trans (if_pos (by decide))
    · rw [← hbusy]
      rfl
  | cons s busy ih =>
    have hstep := fun fuel => not_ready_succ fuel m (0x80 ||| s) { m.drive with busy }
      (by rw [hport, Drive.inb_busy _ s busy hbusy])
    obtain ⟨m', hrun, hdrive, hmem, hseg, hreg⟩ := ih (polled m (0x80 ||| s) { m.drive with busy })
      ((congrArg low16 (polled_get _ _ _ _ (by decide))).trans hport) rfl hleft
    refine ⟨m', fun fuel hf => ?_, hdrive, hmem, hseg, fun r hr => (hreg r hr).trans (polled_get _ _ _ _ hr)⟩
    obtain ⟨fuel, rfl⟩ := Nat.exists_eq_add_of_le' (Nat.lt_of_le_of_lt (Nat.zero_le _) hf)
    rw [hstep, if_neg (low8_busy s)]
    rw [List.length_cons] at hf
    exact hrun fuel (by omega)

/-! ## The words -/

theorem words_spec (m : Machine) :
    (rd_disk_words m).cpu.mem = m.cpu.mem ∧ (rd_disk_words m).cpu.seg = m.cpu.seg ∧
      (rd_disk_words m).drive = m.drive ∧ low16 ((rd_disk_words m).get .edx) = DATA ∧
      (rd_disk_words m).get .ecx = setLow16 (m.get .ecx) (mul16 (low16 (m.get .edi)) 256).2 ∧
      ∀ r, r ≠ .eax → r ≠ .ecx → r ≠ .edx → (rd_disk_words m).get r = m.get r := by
  refine ⟨rfl, rfl, rfl, ?_, ?_, fun r h1 h2 h3 => ?_⟩
  all_goals simp [rd_disk_words, Machine.mulDx, Machine.mov16, Machine.get_mov, DATA, *]

theorem offset_nextWord (m : Machine) (w : Width) (h : m.offset w + 2 < w.top) :
    ((m.nextWord w).countDown w).offset w = m.offset w + 2 := by
  cases w with
  | bits16 =>
    have hadd : (low16 (m.get .ebx) + 2).toNat = (low16 (m.get .ebx)).toNat + 2 := by
      rw [UInt16.toNat_add]
      exact Nat.mod_eq_of_lt h
    simp [Machine.offset, Machine.nextWord, Machine.countDown, Machine.mov16, Machine.get_mov, hadd]
  | bits32 =>
    have hadd : (m.get .ebx + 2).toNat = (m.get .ebx).toNat + 2 := toNat_add_small _ 2 h
    simp [Machine.offset, Machine.nextWord, Machine.countDown, Machine.get_mov, hadd]

theorem counter_countDown (m : Machine) (w : Width) (h : m.counter w ≠ 0) :
    ((m.nextWord w).countDown w).counter w = m.counter w - 1 := by
  cases w with
  | bits16 =>
    have hne : (low16 (m.get .ecx)).toNat ≠ 0 := h
    have hlt := (low16 (m.get .ecx)).toNat_lt
    have hsub : (low16 (m.get .ecx) - 1).toNat = (low16 (m.get .ecx)).toNat - 1 := by
      rw [UInt16.toNat_sub]
      show (2 ^ 16 - 1 + (low16 (m.get .ecx)).toNat) % 2 ^ 16 = _
      omega
    simp [Machine.counter, Machine.nextWord, Machine.countDown, Machine.mov16, Machine.get_mov, hsub]
  | bits32 =>
    have hne : (m.get .ecx).toNat ≠ 0 := h
    have hlt := (m.get .ecx).toNat_lt
    have hsub : (m.get .ecx - 1).toNat = (m.get .ecx).toNat - 1 := by
      rw [UInt32.toNat_sub]
      show (2 ^ 32 - 1 + (m.get .ecx).toNat) % 2 ^ 32 = _
      omega
    simp [Machine.counter, Machine.nextWord, Machine.countDown, Machine.get_mov, hsub]

/-- The machine after one round of `.go_on_read`, with a word at hand. -/
def wordRead (w : Width) (m : Machine) : Machine :=
  let m' : Machine :=
    { cpu := { m.cpu.setReg .eax (setLow16 (m.get .eax) m.drive.word) with
        mem := write16 m.cpu.mem (m.base w + m.offset w) m.drive.word }
      drive := { m.drive with next := m.drive.next + 2, left := m.drive.left - 1 } }
  (m'.nextWord w).countDown w

theorem go_on_read_succ (w : Width) (fuel : Nat) (m : Machine) (hport : low16 (m.get .edx) = DATA)
    (hbusy : m.drive.busy = []) (hleft : m.drive.left ≠ 0) (hroom : m.offset w + 2 ≤ w.top) :
    go_on_read w (fuel + 1) m =
      if (wordRead w m).counter w ≠ 0 then go_on_read w fuel (wordRead w m) else some (wordRead w m) := by
  have hin : m.inAx = { m with drive := { m.drive with next := m.drive.next + 2, left := m.drive.left - 1 } }.mov16
      .eax m.drive.word := by
    unfold Machine.inAx
    rw [hport, Drive.inw_data _ hbusy hleft]
  have hoff : m.inAx.offset w = m.offset w ∧ m.inAx.base w = m.base w := by
    rw [hin]
    cases w <;> exact ⟨rfl, rfl⟩
  have hax : low16 (m.inAx.get .eax) = m.drive.word := by simp [hin, Machine.mov16, Machine.get_mov]
  have hstore : (m.inAx.storeAx w).map (fun m => (m.nextWord w).countDown w) = some (wordRead w m) := by
    unfold Machine.storeAx
    rw [hoff.1, hoff.2, if_pos (by omega), hax, hin]
    rfl
  rw [go_on_read]
  obtain ⟨m1, hm1, hm2⟩ := Option.map_eq_some_iff.mp hstore
  rw [hm1, Option.bind_eq_bind, Option.bind_some]
  dsimp only
  rw [hm2]

theorem wordRead_get (w : Width) (m : Machine) (r : Reg) (h1 : r ≠ .eax) (h2 : r ≠ .ebx) (h3 : r ≠ .ecx) :
    (wordRead w m).get r = m.get r := by
  cases w <;>
    simp [wordRead, Machine.nextWord, Machine.countDown, Machine.mov16, Machine.mov, Machine.get, Cpu.setReg, h1, h2,
      h3]

theorem wordRead_fields (w : Width) (m : Machine) :
    (wordRead w m).drive = { m.drive with next := m.drive.next + 2, left := m.drive.left - 1 } ∧
      (wordRead w m).cpu.mem = write16 m.cpu.mem (m.base w + m.offset w) m.drive.word ∧
      (wordRead w m).cpu.seg = m.cpu.seg ∧ (wordRead w m).base w = m.base w := by
  cases w <;> exact ⟨rfl, rfl, rfl, rfl⟩

theorem wordRead_place (w : Width) (m : Machine) :
    (m.offset w + 2 < w.top → (wordRead w m).offset w = m.offset w + 2) ∧
      (m.counter w ≠ 0 → (wordRead w m).counter w = m.counter w - 1) := by
  cases w with
  | bits16 => exact ⟨offset_nextWord _ .bits16, counter_countDown _ .bits16⟩
  | bits32 => exact ⟨offset_nextWord _ .bits32, counter_countDown _ .bits32⟩

/-- **Words.** As many rounds as words are left bring the sectors to the memory, and nothing else. -/
theorem go_on_read_run (w : Width) (n : Nat) (m : Machine) (hport : low16 (m.get .edx) = DATA)
    (hbusy : m.drive.busy = []) (hleft : m.drive.left = n + 1) (hcount : m.counter w = n + 1)
    (hroom : m.offset w + 2 * (n + 1) ≤ w.top) :
    ∃ m', (∀ fuel, n < fuel → go_on_read w fuel m = some m') ∧
      m'.cpu.mem = brought m.cpu.mem m.drive.disk (m.base w + m.offset w) m.drive.next (2 * (n + 1)) ∧
      m'.cpu.seg = m.cpu.seg ∧ m'.drive.disk = m.drive.disk ∧ m'.drive.left = 0 ∧
      ∀ r, r ≠ .eax → r ≠ .ebx → r ≠ .ecx → m'.get r = m.get r := by
  induction n generalizing m with
  | zero =>
    have hround := fun fuel => go_on_read_succ w fuel m hport hbusy (by omega) (by omega)
    obtain ⟨hdrive, hmem, hseg, -⟩ := wordRead_fields w m
    have hctr := (wordRead_place w m).2 (by omega)
    refine ⟨wordRead w m, fun fuel hf => ?_, ?_, hseg, by rw [hdrive], by rw [hdrive]; simp [hleft],
      wordRead_get w m⟩
    · obtain ⟨fuel, rfl⟩ := Nat.exists_eq_add_of_le' hf
      rw [hround, if_neg (by omega)]
    · rw [hmem, ← brought_word, brought_zero]
  | succ n ih =>
    have hround := fun fuel => go_on_read_succ w fuel m hport hbusy (by omega) (by omega)
    obtain ⟨hdrive, hmem, hseg, hbase⟩ := wordRead_fields w m
    have hoff := (wordRead_place w m).1 (by omega)
    have hctr := (wordRead_place w m).2 (by omega)
    have hget := wordRead_get w m
    obtain ⟨m', hrun, hmem', hseg', hdisk', hleft', hreg'⟩ := ih (wordRead w m)
      (by rw [hget .edx (by decide) (by decide) (by decide), hport]) (by rw [hdrive]; exact hbusy)
      (by rw [hdrive]; simp [hleft]) (by omega) (by omega)
    refine ⟨m', fun fuel hf => ?_, ?_, hseg'.trans hseg, hdisk'.trans (by rw [hdrive]), hleft',
      fun r h1 h2 h3 => (hreg' r h1 h2 h3).trans (hget r h1 h2 h3)⟩
    · obtain ⟨fuel, rfl⟩ := Nat.exists_eq_add_of_le' (Nat.lt_of_le_of_lt (Nat.zero_le _) hf)
      rw [hround, if_pos (by omega)]
      exact hrun fuel (by omega)
    · rw [hmem', hmem, hdrive, hbase, hoff, ← Nat.add_assoc]
      exact brought_word m.cpu.mem m.drive _ _

/-! ## The whole routine -/

/-- What the caller asks for: `n` sectors from `lba` on, to the memory from `dst` on. A count that does not
fit in a byte, or a word that would not lie in the segment, is no request. -/
structure Request (w : Width) (m : Machine) (lba dst n : Nat) : Prop where
  lba : (m.get .eax).toNat % 2 ^ 28 = lba
  dst : m.base w + m.offset w = dst
  count : m.counter w = n
  some : 0 < n
  byte : n < 2 ^ 8
  room : m.offset w + 512 * n ≤ w.top

theorem Request.low_count (w : Width) (m : Machine) (lba dst n : Nat) (h : Request w m lba dst n) :
    (m.get .ecx).toNat % 2 ^ 16 = n := by
  have hcount := h.count
  have hbyte := h.byte
  cases w with
  | bits16 =>
    rw [← hcount]
    exact (low16_toNat _).symm
  | bits32 =>
    change (m.get .ecx).toNat = n at hcount
    omega

/-- **Sectors.** However often the drive is busy, the routine returns with the sectors in the memory, and
has changed no other byte and no register that it does not use. -/
theorem rd_disk_m_spec (w : Width) (m : Machine) (lba dst n : Nat) (h : Request w m lba dst n) :
    ∃ m', (∀ fuel, m.drive.busy.length < fuel → 256 * n ≤ fuel → rd_disk_m w fuel m = some m') ∧
      m'.cpu.mem = brought m.cpu.mem m.drive.disk dst (512 * lba) (512 * n) ∧ m'.cpu.seg = m.cpu.seg ∧
      m'.drive.disk = m.drive.disk ∧ m'.drive.left = 0 ∧ m'.get .esp = m.get .esp ∧ m'.get .ebp = m.get .ebp := by
  have hlow := h.low_count
  obtain ⟨hlba, hdst, hcount, hsome, hbyte, hroom⟩ := h
  have hcl : (low8 (m.get .ecx)).toNat = n := by
    rw [low8_toNat]
    omega
  have hne : ¬ low8 (m.get .ecx) = 0 := by
    intro h0
    rw [h0] at hcl
    exact absurd hcl (Nat.ne_of_lt hsome)
  obtain ⟨hmem1, hseg1, hport1, hedi1, hecx1, hreg1⟩ := command_cpu m
  obtain ⟨hdisk1, hbusy1, hnext1, hleft1⟩ := command_drive m
  rw [if_neg hne, hcl] at hleft1
  rw [hlba] at hnext1
  obtain ⟨m2, hwait, hdrive2, hmem2, hseg2, hreg2⟩ := not_ready_run m.drive.busy (rd_disk_command m) hport1 hbusy1
    (by omega)
  obtain ⟨hmem3, hseg3, hdrive3, hport3, hecx3, hreg3⟩ := words_spec m2
  have hcount3 : (mul16 (low16 (m2.get .edi)) 256).2.toNat = 256 * n := by
    rw [(mul16_toNat _ _).2, hreg2 .edi (by decide), hedi1, low16_toNat, hlow]
    show n * 256 % 2 ^ 16 = _
    omega
  have hbx : (rd_disk_words m2).get .ebx = m.get .ebx := by
    rw [hreg3 .ebx (by decide) (by decide) (by decide), hreg2 .ebx (by decide),
      hreg1 .ebx (by decide) (by decide) (by decide) (by decide) (by decide)]
  have hseg : (rd_disk_words m2).cpu.seg = m.cpu.seg := by rw [hseg3, hseg2, hseg1]
  have hoff : (rd_disk_words m2).offset w = m.offset w := by
    cases w with
    | bits16 => exact congrArg (fun v => (low16 v).toNat) hbx
    | bits32 => exact congrArg UInt32.toNat hbx
  have hbase : (rd_disk_words m2).base w = m.base w := by
    cases w with
    | bits16 => exact congrArg (fun s : Seg → UInt16 => 16 * (s .ds).toNat) hseg
    | bits32 => rfl
  have hctr : (rd_disk_words m2).counter w = 256 * n := by
    cases w with
    | bits16 =>
      show (low16 ((rd_disk_words m2).get .ecx)).toNat = _
      rw [hecx3, low16_setLow16, hcount3]
    | bits32 =>
      -- `mov cl, 8` and `mov cx, ax` keep the upper half, which is that of the count.
      show ((rd_disk_words m2).get .ecx).toNat = _
      change (m.get .ecx).toNat = n at hcount
      have hupper := setLow8_toNat (m.get .ecx) 8
      rw [hecx3, setLow16_toNat, hcount3, hreg2 .ecx (by decide), hecx1, hupper, hcount]
      show (n / 2 ^ 8 * 2 ^ 8 + 8) / 2 ^ 16 * 2 ^ 16 + _ = _
      omega
  obtain ⟨m', hread, hmem', hseg', hdisk', hleft', hreg'⟩ := go_on_read_run w (256 * n - 1) (rd_disk_words m2) hport3
    (by rw [hdrive3, hdrive2]) (by rw [hdrive3, hdrive2]; show (rd_disk_command m).drive.left = _; omega)
    (by omega) (by omega)
  have hkeep : ∀ r, r = .esp ∨ r = .ebp → m'.get r = m.get r := by
    rintro r (rfl | rfl) <;>
      rw [hreg' _ (by decide) (by decide) (by decide), hreg3 _ (by decide) (by decide) (by decide),
        hreg2 _ (by decide), hreg1 _ (by decide) (by decide) (by decide) (by decide) (by decide)]
  refine ⟨m', fun fuel hbusy hfuel => ?_, ?_, hseg'.trans hseg, ?_, hleft', hkeep _ (.inl rfl), hkeep _ (.inr rfl)⟩
  · rw [rd_disk_m, hwait fuel hbusy, Option.bind_eq_bind, Option.bind_some]
    exact hread fuel (by omega)
  · rw [hmem', hmem3, hmem2, hmem1, hdrive3, hdrive2, hbase, hoff, hdst,
      show 2 * (256 * n - 1 + 1) = 512 * n by omega]
    show brought m.cpu.mem (rd_disk_command m).drive.disk dst (rd_disk_command m).drive.next _ = _
    rw [hdisk1, hnext1]
  · rw [hdisk', hdrive3, hdrive2]
    exact hdisk1

/-- `mbr.S` at its call, on a disk that is filled with one byte. -/
def sampleMbr (b : UInt8) : Machine where
  cpu :=
    { reg := fun r => match r with
        | .eax => 2
        | .ebx => 0x900
        | .ecx => 4
        | _ => 0
      seg := fun _ => 0
      eip := 0
      eflags := 0
      mem := fun _ => 0
      ports := [] }
  drive := { disk := fun _ => b, file := fun _ => 0, busy := [0, 0], next := 0, left := 0 }

end OsLearn.Boot
