import OsLearn.Lib.Bytes

/-!
# A hard disk that is read by polling

The task file of an ATA drive, and the transfer that a `READ SECTORS` starts. The drive may be busy for any
number of reads of the status. From then on it has the words of all the sectors at hand.
-/

namespace OsLearn.Ata

/-! ## Ports -/

def DATA : UInt16 := 0x1f0

def COUNT : UInt16 := 0x1f2

def LBA_LOW : UInt16 := 0x1f3

def LBA_MID : UInt16 := 0x1f4

def LBA_HIGH : UInt16 := 0x1f5

def DEVICE : UInt16 := 0x1f6

/-- The command when it is written, the status when it is read. -/
def COMMAND : UInt16 := 0x1f7

def READ_SECTORS : UInt8 := 0x20

/-- What an `in` gives where nobody answers. -/
def FLOATING : UInt8 := 0xff

/-! ## The drive -/

structure Drive where
  disk : Mem
  -- The last byte that was sent to each port.
  file : UInt16 → UInt8
  -- The status but for its bit 7, for each read that finds the drive busy.
  busy : List UInt8
  -- The transfer: where the next word comes from, and the words that are left.
  next : Nat
  left : Nat

namespace Drive

/-- The 28 bits of the sector number. -/
def lba (d : Drive) : Nat :=
  (d.file LBA_LOW).toNat + 2 ^ 8 * (d.file LBA_MID).toNat + 2 ^ 16 * (d.file LBA_HIGH).toNat +
    2 ^ 24 * ((d.file DEVICE).toNat % 16)

/-- A count of 0 stands for 256. -/
def sectors (d : Drive) : Nat := if d.file COUNT = 0 then 256 else (d.file COUNT).toNat

/-- Drive 0 is selected, and its sectors by their number. -/
def selected (d : Drive) : Bool := (d.file DEVICE).toNat / 2 ^ 4 % 2 = 0 ∧ (d.file DEVICE).toNat / 2 ^ 6 % 2 = 1

def out (d : Drive) (port : UInt16) (b : UInt8) : Drive :=
  let d := { d with file := Function.update d.file port b }
  if port = COMMAND ∧ b = READ_SECTORS ∧ d.selected then { d with next := 512 * d.lba, left := 256 * d.sectors }
  else d

/-- `in` of a byte. DRQ is set while words are left. -/
def inb (d : Drive) (port : UInt16) : UInt8 × Drive :=
  if port = COMMAND then
    match d.busy with
    | [] => (if d.left = 0 then 0x50 else 0x58, d)
    | s :: busy => (0x80 ||| s, { d with busy })
  else if port = DATA then (FLOATING, d)
  else (d.file port, d)

def word (d : Drive) : UInt16 := UInt16.ofNat ((d.disk d.next).toNat + 0x100 * (d.disk (d.next + 1)).toNat)

/-- `in` of a word. A busy drive, or one with no words left, does not answer. -/
def inw (d : Drive) (port : UInt16) : UInt16 × Drive :=
  if port = DATA ∧ d.busy = [] ∧ d.left ≠ 0 then (d.word, { d with next := d.next + 2, left := d.left - 1 })
  else (0xffff, d)

theorem out_file (d : Drive) (port : UInt16) (b : UInt8) : (d.out port b).file = Function.update d.file port b := by
  unfold out
  dsimp only
  split <;> rfl

/-- A write to any port but that of the command is kept, and that is all. -/
theorem out_other (d : Drive) (port : UInt16) (b : UInt8) (h : port ≠ COMMAND) :
    d.out port b = { d with file := Function.update d.file port b } := by
  unfold out
  dsimp only
  rw [if_neg fun hc => h hc.1]

/-- `READ SECTORS` starts the transfer of the sectors in the task file. -/
theorem out_read (d : Drive) (h : d.selected) :
    d.out COMMAND READ_SECTORS =
      { d with
        file := Function.update d.file COMMAND READ_SECTORS
        next := 512 * d.lba
        left := 256 * d.sectors } := by
  have hfile : ∀ port, port ≠ COMMAND → Function.update d.file COMMAND READ_SECTORS port = d.file port :=
    fun port hp => Function.update_of_ne hp _ _
  have hdev := hfile DEVICE (by decide)
  have hsel : ({ d with file := Function.update d.file COMMAND READ_SECTORS } : Drive).selected := by
    simpa [selected, hdev] using h
  unfold out
  dsimp only
  rw [if_pos ⟨rfl, rfl, hsel⟩]
  simp only [lba, sectors, hfile LBA_LOW (by decide), hfile LBA_MID (by decide), hfile LBA_HIGH (by decide), hdev,
    hfile COUNT (by decide)]

theorem inb_busy (d : Drive) (s : UInt8) (busy : List UInt8) (h : d.busy = s :: busy) :
    d.inb COMMAND = (0x80 ||| s, { d with busy }) := by
  rw [inb, if_pos rfl, h]

theorem inb_ready (d : Drive) (h : d.busy = []) (hleft : d.left ≠ 0) : d.inb COMMAND = (0x58, d) := by
  rw [inb, if_pos rfl, h]
  dsimp only
  rw [if_neg hleft]

theorem inw_data (d : Drive) (h : d.busy = []) (hleft : d.left ≠ 0) :
    d.inw DATA = (d.word, { d with next := d.next + 2, left := d.left - 1 }) := if_pos ⟨rfl, h, hleft⟩

end Drive

/-! ## What a transfer brings -/

/-- `n` bytes of the disk from `src` on, in the memory from `dst` on. -/
def brought (mem disk : Mem) (dst src n : Nat) : Mem := fun x =>
  if dst ≤ x ∧ x < dst + n then disk (src + (x - dst)) else mem x

@[simp] theorem brought_zero (mem disk : Mem) (dst src : Nat) : brought mem disk dst src 0 = mem := by
  funext x
  exact if_neg (by omega)

theorem brought_other (mem disk : Mem) (dst src n x : Nat) (h : x < dst ∨ dst + n ≤ x) :
    brought mem disk dst src n x = mem x := if_neg (by omega)

/-- One word, and then the others. -/
theorem brought_word (mem : Mem) (d : Drive) (dst n : Nat) :
    brought (write16 mem dst d.word) d.disk (dst + 2) (d.next + 2) n = brought mem d.disk dst d.next (n + 2) := by
  funext x
  have h0 := (d.disk d.next).toNat_lt
  have h1 := (d.disk (d.next + 1)).toNat_lt
  have hword : d.word.toNat = (d.disk d.next).toNat + 0x100 * (d.disk (d.next + 1)).toNat :=
    UInt16.toNat_ofNat_of_lt' (by show _ < 2 ^ 16; omega)
  unfold brought write16
  by_cases hx : dst + 2 ≤ x ∧ x < dst + 2 + n
  · rw [if_pos hx, if_pos (by omega)]
    congr 1
    omega
  · rw [if_neg hx]
    by_cases hfirst : x = dst
    · have hsrc : d.next + (x - dst) = d.next := by omega
      rw [if_pos hfirst, if_pos (by omega), hsrc, hword, ← UInt8.toNat_inj, UInt8.toNat_ofNat']
      omega
    · rw [if_neg hfirst]
      by_cases hsecond : x = dst + 1
      · have hsrc : d.next + (x - dst) = d.next + 1 := by omega
        rw [if_pos hsecond, if_pos (by omega), hsrc, hword, ← UInt8.toNat_inj, UInt8.toNat_ofNat']
        omega
      · rw [if_neg hsecond, if_neg (by omega)]

end OsLearn.Ata
