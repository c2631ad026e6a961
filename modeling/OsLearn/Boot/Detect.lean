import OsLearn.Lib.Regs
import Mathlib.Data.List.Basic

/-!
# `boot/loader.S`: `detect_memory`

The loop over the E820 descriptors leaves when `ebx` is 0, before it looks at the descriptor of that
call. It takes no notice of the type.
-/

open OsLearn.Regs

namespace OsLearn.Detect

/-! ## Constants of `boot.inc` -/

def KB1 : UInt16 := 0x400

def KB64 : UInt32 := 0x10000

def MB1 : UInt32 := 0x100000

/-! ## The machine -/

/-- An address range descriptor. -/
structure Ards where
  BaseAddrLow : UInt32
  BaseAddrHigh : UInt32
  LengthLow : UInt32
  LengthHigh : UInt32
  type : UInt32
  deriving DecidableEq, Repr

/-- What `int 15h` leaves in the registers. -/
structure Reply where
  carry : Bool
  eax : UInt32
  ebx : UInt32
  ecx : UInt32
  edx : UInt32
  deriving DecidableEq, Repr

/-- The replies of the BIOS, with the descriptor that a call E820 writes to `ards_buf`. -/
structure Bios where
  e820 : List (Reply × Ards)
  e801 : Reply
  e88 : Reply

inductive Label where
  | e820_mem_get_loop
  | next_ards
  | end_e820_mem_get_loop
  | e820_failed_so_try_e801
  | e801_failed_so_try88
  | error_hlt
  | mem_get_ok
  deriving DecidableEq, Repr

/-- The registers and the variables of the loader. `path` collects the labels that are passed. -/
structure Machine where
  eax : UInt32
  ebx : UInt32
  ecx : UInt32
  edx : UInt32
  esi : UInt32
  ards_buf : Ards
  ards_nr : UInt16
  total_mem_bytes : UInt32
  path : List Label

namespace Machine

def pass (m : Machine) (l : Label) : Machine := { m with path := m.path ++ [l] }

def int15 (m : Machine) (r : Reply) : Machine := { m with eax := r.eax, ebx := r.ebx, ecx := r.ecx, edx := r.edx }

/-- `mul` with a 16-bit operand. -/
def mulWord (m : Machine) (v : UInt16) : Machine :=
  let p := mul16 (low16 m.eax) v
  { m with edx := setLow16 m.edx p.1, eax := setLow16 m.eax p.2 }

/-- `mul` with a 32-bit operand. -/
def mulDword (m : Machine) (v : UInt32) : Machine :=
  let p := mul32 m.eax v
  { m with edx := p.1, eax := p.2 }

end Machine

/-! ## The code -/

def mem_get_ok (m : Machine) : Machine :=
  let m := m.pass .mem_get_ok
  { m with total_mem_bytes := m.edx }

/-- `hlt` waits for an interrupt. The next instruction is `.mem_get_ok`. -/
def error_hlt (m : Machine) : Machine := mem_get_ok (m.pass .error_hlt)

def e801_failed_so_try88 (b : Bios) (m : Machine) : Machine :=
  let m := m.pass .e801_failed_so_try88
  let m := { m with eax := setHigh8 m.eax 0x88 }
  let m := m.int15 b.e88
  if b.e88.carry then error_hlt m
  else
    let m := { m with eax := m.eax &&& 0x0000ffff }
    let m := { m with ecx := setLow16 m.ecx KB1 }
    let m := m.mulWord (low16 m.ecx)
    let m := { m with edx := m.edx <<< 16 }
    let m := { m with edx := m.edx ||| m.eax }
    let m := { m with edx := m.edx + MB1 }
    error_hlt m

def e820_failed_so_try_e801 (b : Bios) (m : Machine) : Machine :=
  let m := m.pass .e820_failed_so_try_e801
  let m := { m with eax := setLow16 m.eax 0xe801 }
  let m := m.int15 b.e801
  if b.e801.carry then e801_failed_so_try88 b m
  else
    let m := { m with ecx := setLow16 m.ecx KB1 }
    let m := m.mulWord (low16 m.ecx)
    let m := { m with edx := m.edx >>> 16 }
    let m := { m with eax := m.eax &&& 0x0000ffff }
    let m := { m with edx := m.edx ||| m.eax }
    let m := { m with edx := m.edx + MB1 }
    let m := { m with esi := m.edx }
    let m := { m with eax := 0 }
    let m := { m with eax := setLow16 m.eax (low16 m.ebx) }
    let m := { m with ecx := KB64 }
    let m := m.mulDword m.ecx
    let m := { m with esi := m.esi + m.eax }
    let m := { m with edx := m.esi }
    mem_get_ok m

def end_e820_mem_get_loop (m : Machine) : Machine :=
  let m := m.pass .end_e820_mem_get_loop
  let m := { m with edx := m.esi }
  mem_get_ok m

/-- The call, from the head of the loop to `jc`. -/
def e820_call (r : Reply) (ards : Ards) (m : Machine) : Machine :=
  let m := m.pass .e820_mem_get_loop
  let m := { m with eax := 0xe820 }
  let m := { m with ecx := 0x14 }
  { m.int15 r with ards_buf := ards }

/-- From behind `jz .end_e820_mem_get_loop` back to the head. -/
def e820_compare (m : Machine) : Machine :=
  let m := { m with eax := m.ards_buf.BaseAddrLow }
  let m := { m with eax := m.eax + m.ards_buf.LengthLow }
  let m := if sge32 m.esi m.eax then m else { m with esi := m.eax }
  m.pass .next_ards

/-- The loop does not end when the BIOS has no last descriptor. -/
def e820_mem_get_loop (b : Bios) : List (Reply × Ards) → Machine → Option Machine
  | [], _ => none
  | (r, ards) :: replies, m =>
    let m := e820_call r ards m
    if r.carry then some (e820_failed_so_try_e801 b m)
    else
      let m := { m with ards_nr := m.ards_nr + 1 }
      if m.ebx = 0 then some (end_e820_mem_get_loop m) else e820_mem_get_loop b replies (e820_compare m)

def detect_memory (b : Bios) (m : Machine) : Option Machine :=
  e820_mem_get_loop b b.e820 { m with ebx := 0, edx := 0x534D4150, esi := 0 }

/-! ## What the replies of E820 say -/

/-- Every call succeeds, and `ebx` is 0 after the last one only. -/
def Complete : List (Reply × Ards) → Prop
  | [] => False
  | [(r, _)] => r.carry = false ∧ r.ebx = 0
  | (r, _) :: replies => r.carry = false ∧ r.ebx ≠ 0 ∧ Complete replies

/-- The end of a range below 4 GB. -/
def Ards.top (d : Ards) : Nat := d.BaseAddrLow.toNat + d.LengthLow.toNat

/-- The largest end of a list of ranges. -/
def largest (ds : List Ards) : Nat := (ds.map Ards.top).foldr max 0

def Bios.ards (b : Bios) : List Ards := b.e820.map Prod.snd

theorem le_largest (ds : List Ards) (d : Ards) (hd : d ∈ ds) : d.top ≤ largest ds := by
  induction ds with
  | nil => simp at hd
  | cons e ds ih =>
    rcases List.mem_cons.mp hd with rfl | hd
    · exact Nat.le_max_left _ _
    · exact Nat.le_trans (ih hd) (Nat.le_max_right _ _)

/-! ## The loop -/

/-- What one descriptor does to `esi`. -/
def raised (esi : UInt32) (d : Ards) : UInt32 :=
  if sge32 esi (d.BaseAddrLow + d.LengthLow) then esi else d.BaseAddrLow + d.LengthLow

theorem raised_toNat (esi : UInt32) (d : Ards) (hesi : esi.toNat < 2 ^ 31) (hd : d.top < 2 ^ 31) :
    (raised esi d).toNat = max esi.toNat d.top := by
  have hsum : (d.BaseAddrLow + d.LengthLow).toNat = d.top := by
    unfold Ards.top at hd ⊢
    rw [UInt32.toNat_add, Nat.mod_eq_of_lt (by omega)]
  have hge := sge32_iff esi (d.BaseAddrLow + d.LengthLow) hesi (hsum ▸ hd)
  rw [hsum] at hge
  unfold raised
  split
  · next h => rw [Nat.max_eq_left (hge.mp h)]
  · next h => rw [hsum, Nat.max_eq_right (by rw [hge] at h; omega)]

theorem e820_compare_esi (m : Machine) : (e820_compare m).esi = raised m.esi m.ards_buf := by
  unfold e820_compare raised
  dsimp only
  split <;> rfl

/-- A descriptor that is not the last one. -/
theorem e820_step (b : Bios) (r : Reply) (ards : Ards) (replies : List (Reply × Ards)) (m : Machine)
    (hc : r.carry = false) (hebx : r.ebx ≠ 0) :
    ∃ m', e820_mem_get_loop b ((r, ards) :: replies) m = e820_mem_get_loop b replies m' ∧
      m'.esi = raised m.esi ards := by
  refine ⟨e820_compare { e820_call r ards m with ards_nr := m.ards_nr + 1 }, ?_, e820_compare_esi _⟩
  rw [e820_mem_get_loop, hc, if_neg Bool.false_ne_true]
  exact if_neg hebx

/-- The last one is not looked at. -/
theorem e820_last (b : Bios) (r : Reply) (ards : Ards) (m : Machine) (hc : r.carry = false) (hebx : r.ebx = 0) :
    ∃ m', e820_mem_get_loop b [(r, ards)] m = some m' ∧ m'.total_mem_bytes = m.esi := by
  refine ⟨end_e820_mem_get_loop { e820_call r ards m with ards_nr := m.ards_nr + 1 }, ?_, rfl⟩
  rw [e820_mem_get_loop, hc, if_neg Bool.false_ne_true]
  exact if_pos hebx

/-- All the descriptors but the last one raise `esi`. -/
theorem e820_loop (b : Bios) (replies : List (Reply × Ards)) (m : Machine) (h : Complete replies) :
    ∃ m', e820_mem_get_loop b replies m = some m' ∧
      m'.total_mem_bytes = (replies.map Prod.snd).dropLast.foldl raised m.esi := by
  induction replies generalizing m with
  | nil => exact h.elim
  | cons x replies ih =>
    obtain ⟨r, ards⟩ := x
    cases replies with
    | nil => exact e820_last b r ards m h.1 h.2
    | cons y replies =>
      obtain ⟨hc, hebx, hrest⟩ := h
      obtain ⟨m₁, hstep, hesi⟩ := e820_step b r ards (y :: replies) m hc hebx
      obtain ⟨m', hrun, htotal⟩ := ih m₁ hrest
      exact ⟨m', hstep.trans hrun, by rw [htotal, hesi]; rfl⟩

theorem foldl_raised (ds : List Ards) (esi : UInt32) (hesi : esi.toNat < 2 ^ 31) (h : ∀ d ∈ ds, d.top < 2 ^ 31) :
    (ds.foldl raised esi).toNat = max esi.toNat (largest ds) := by
  induction ds generalizing esi with
  | nil => exact (Nat.max_zero _).symm
  | cons d ds ih =>
    have hd := h d List.mem_cons_self
    have hr := raised_toNat esi d hesi hd
    rw [List.foldl_cons, ih _ (by omega) fun e he => h e (List.mem_cons_of_mem _ he), hr, Nat.max_assoc]
    rfl

/-- **E820.** The largest end of all the ranges, whatever their types, when the last range is not above the others
and all of them are below 2 GB. -/
theorem detect_memory_e820 (b : Bios) (m : Machine) (h : Complete b.e820) (hlt : largest b.ards < 2 ^ 31)
    (hlast : largest b.ards.dropLast = largest b.ards) :
    ∃ m', detect_memory b m = some m' ∧ m'.total_mem_bytes.toNat = largest b.ards := by
  obtain ⟨m', hrun, htotal⟩ := e820_loop b b.e820 { m with ebx := 0, edx := 0x534D4150, esi := 0 } h
  refine ⟨m', hrun, ?_⟩
  have hall : ∀ d ∈ b.ards.dropLast, d.top < 2 ^ 31 := fun d hd =>
    Nat.lt_of_le_of_lt (le_largest b.ards d (List.dropLast_subset _ hd)) hlt
  rw [htotal, ← hlast]
  exact (foldl_raised b.ards.dropLast 0 (by decide) hall).trans (Nat.zero_max _)

/-- The machine before the call. -/
def machine0 : Machine := ⟨0, 0, 0, 0, 0, ⟨0, 0, 0, 0, 0⟩, 0, 0, []⟩

/-- 31 MB of memory at 1 MB, a reserved range behind it, and the memory below 640 KB as the last one. -/
def reservedBios : Bios where
  e820 := [(⟨false, 0x534D4150, 1, 0x14, 0x534D4150⟩, ⟨0x100000, 0, 0x1ee0000, 0, 1⟩),
    (⟨false, 0x534D4150, 2, 0x14, 0x534D4150⟩, ⟨0x1fe0000, 0, 0x20000, 0, 2⟩),
    (⟨false, 0x534D4150, 0, 0x14, 0x534D4150⟩, ⟨0, 0, 0x9fc00, 0, 1⟩)]
  e801 := ⟨true, 0, 0, 0, 0⟩
  e88 := ⟨true, 0, 0, 0, 0⟩

theorem detect_memory_reserved :
    ∃ m', detect_memory reservedBios machine0 = some m' ∧ m'.total_mem_bytes.toNat = 0x2000000 :=
  detect_memory_e820 reservedBios machine0 ⟨rfl, by decide, rfl, by decide, rfl, rfl⟩ (by decide) (by decide)

/-- The end of the reserved range is stored, and the memory ends before it. -/
theorem e820_type_ignored :
    Complete reservedBios.e820 ∧
      (∃ m', detect_memory reservedBios machine0 = some m' ∧ m'.total_mem_bytes = 0x2000000) ∧
      largest (reservedBios.ards.filter fun d => d.type = 1) = 0x1fe0000 :=
  ⟨⟨rfl, by decide, rfl, by decide, rfl, rfl⟩, ⟨_, rfl, by decide⟩, by decide⟩

/-! ## Without E820 -/

theorem mulWord_toNat (m : Machine) (v : UInt16) :
    (m.mulWord v).edx.toNat = m.edx.toNat / 2 ^ 16 * 2 ^ 16 + m.eax.toNat % 2 ^ 16 * v.toNat / 2 ^ 16 ∧
      (m.mulWord v).eax.toNat = m.eax.toNat / 2 ^ 16 * 2 ^ 16 + m.eax.toNat % 2 ^ 16 * v.toNat % 2 ^ 16 := by
  obtain ⟨hhi, hlo⟩ := mul16_toNat (low16 m.eax) v
  rw [low16_toNat] at hhi hlo
  unfold Machine.mulWord
  dsimp only
  rw [setLow16_toNat, setLow16_toNat, hhi, hlo]
  exact ⟨rfl, rfl⟩

/-- What the two calls report in `ax`, and E801 in `bx`. -/
def Reply.ax (r : Reply) : UInt16 := low16 r.eax

def Reply.bx (r : Reply) : UInt16 := low16 r.ebx

/-- The bytes that `ax` stands for. -/
def kilobytes (ax : UInt16) : UInt32 := ax.toUInt32 * 1024

theorem kilobytes_toNat (r : Reply) : (kilobytes r.ax).toNat = r.eax.toNat % 2 ^ 16 * 1024 := by
  unfold kilobytes Reply.ax
  rw [UInt32.toNat_mul, UInt16.toNat_toUInt32, low16_toNat]
  show r.eax.toNat % 2 ^ 16 * 1024 % 2 ^ 32 = _
  omega

/-- `shl edx, 16` and `or edx, eax`, behind a product. -/
theorem shl_or (m : Machine) (r : Reply) (heax : m.eax = r.eax &&& (0x0000ffff : UInt32)) :
    (m.mulWord KB1).edx <<< 16 ||| (m.mulWord KB1).eax = kilobytes r.ax := by
  obtain ⟨hedx, heax'⟩ := mulWord_toNat m KB1
  have hax := kilobytes_toNat r
  have hKB1 : KB1.toNat = 1024 := rfl
  rw [heax, u32_and_low16, hKB1] at hedx heax'
  have hshl : ((m.mulWord KB1).edx <<< 16).toNat = 2 ^ 16 * (r.eax.toNat % 2 ^ 16 * 1024 / 2 ^ 16) := by
    rw [UInt32.toNat_shiftLeft, hedx]
    show _ <<< 16 % 2 ^ 32 = _
    rw [Nat.shiftLeft_eq]
    omega
  rw [← UInt32.toNat_inj, UInt32.toNat_or, hshl, heax', hax]
  rw [nat_or_add _ _ _ (by omega)]
  omega

/-- `shr edx, 16` and `or edx, eax`: what was in the upper half of `edx` comes in. -/
theorem shr_or (m : Machine) (r : Reply) (heax : m.eax = r.eax) (hedx : m.edx = r.edx) :
    ((m.mulWord KB1).edx >>> 16 : UInt32) ||| ((m.mulWord KB1).eax &&& (0x0000ffff : UInt32)) =
      (r.edx >>> 16 : UInt32) ||| (kilobytes r.ax &&& (0x0000ffff : UInt32)) := by
  obtain ⟨hedx', heax'⟩ := mulWord_toNat m KB1
  have hax := kilobytes_toNat r
  have hKB1 : KB1.toNat = 1024 := rfl
  have hlt : r.eax.toNat % 2 ^ 16 * 1024 / 2 ^ 16 < 2 ^ 16 := by omega
  rw [heax, hKB1] at heax'
  rw [heax, hedx, hKB1] at hedx'
  have hhigh : (m.mulWord KB1).edx >>> 16 = r.edx >>> 16 := by
    rw [← UInt32.toNat_inj]
    show ((m.mulWord KB1).edx >>> UInt32.ofNat 16).toNat = (r.edx >>> UInt32.ofNat 16).toNat
    rw [u32_shr _ _ (by decide), u32_shr _ _ (by decide), hedx']
    omega
  have hlow : (m.mulWord KB1).eax &&& 0x0000ffff = kilobytes r.ax &&& 0x0000ffff := by
    rw [← UInt32.toNat_inj, u32_and_low16, u32_and_low16, heax', hax]
    omega
  rw [hhigh, hlow]

/-- The 88 path: the sum is right, and the code passes `.error_hlt`. -/
theorem e88_spec (b : Bios) (m : Machine) (hc : b.e88.carry = false) :
    (e801_failed_so_try88 b m).total_mem_bytes = MB1 + kilobytes b.e88.ax ∧
      (e801_failed_so_try88 b m).path = m.path ++ [.e801_failed_so_try88, .error_hlt, .mem_get_ok] := by
  unfold e801_failed_so_try88
  rw [hc, if_neg Bool.false_ne_true]
  dsimp only [error_hlt, mem_get_ok, Machine.pass]
  rw [low16_setLow16, shl_or _ b.e88 rfl, UInt32.add_comm]
  refine ⟨rfl, ?_⟩
  dsimp only [Machine.mulWord, Machine.int15]
  rw [List.append_assoc, List.append_assoc]
  rfl

/-- The E801 path shifts `edx` the other way: the upper half from before the multiplication comes in. -/
theorem e801_spec (b : Bios) (m : Machine) (hc : b.e801.carry = false) :
    (e820_failed_so_try_e801 b m).total_mem_bytes =
      MB1 + ((b.e801.edx >>> 16 : UInt32) ||| (kilobytes b.e801.ax &&& (0x0000ffff : UInt32))) +
        b.e801.bx.toUInt32 * 65536 := by
  have hbx : setLow16 0 (low16 b.e801.ebx) = b.e801.bx.toUInt32 := setLow16_zero _
  unfold e820_failed_so_try_e801
  rw [hc, if_neg Bool.false_ne_true]
  dsimp only [mem_get_ok, Machine.pass, Machine.mulDword]
  rw [low16_setLow16, shr_or _ b.e801 rfl rfl, mul32_low, UInt32.add_comm MB1]
  exact congrArg _ (congrArg (· * KB64) hbx)

/-- `ax` stands for less than 64 KB, and the upper half of `edx` adds no bit to it. -/
def Fits (r : Reply) : Prop := r.ax < 64 ∧ (r.edx >>> 16 : UInt32) ||| kilobytes r.ax = kilobytes r.ax

instance (r : Reply) : Decidable (Fits r) := inferInstanceAs (Decidable (_ ∧ _))

theorem fits_iff (r : Reply) :
    (r.edx >>> 16 : UInt32) ||| (kilobytes r.ax &&& (0x0000ffff : UInt32)) = kilobytes r.ax ↔ Fits r := by
  have hax : r.ax.toNat = r.eax.toNat % 2 ^ 16 := low16_toNat _
  have hkb := kilobytes_toNat r
  have hmask := u32_and_low16 (kilobytes r.ax)
  have hedx : (r.edx >>> 16).toNat < 2 ^ 16 := by
    show (r.edx >>> UInt32.ofNat 16).toNat < _
    have := r.edx.toNat_lt
    rw [u32_shr _ _ (by decide)]
    omega
  have hlt : r.ax < 64 ↔ (kilobytes r.ax).toNat < 2 ^ 16 := by
    rw [UInt16.lt_iff_toNat_lt, hkb, hax]
    show _ < 64 ↔ _
    omega
  unfold Fits
  rw [hlt]
  constructor
  · intro h
    have hsmall : (kilobytes r.ax).toNat < 2 ^ 16 := by
      rw [← h, UInt32.toNat_or]
      exact Nat.or_lt_two_pow hedx (by omega)
    have hsame : kilobytes r.ax &&& (0x0000ffff : UInt32) = kilobytes r.ax := by
      rw [← UInt32.toNat_inj, hmask, Nat.mod_eq_of_lt hsmall]
    rw [hsame] at h
    exact ⟨hsmall, h⟩
  · rintro ⟨hsmall, h⟩
    have hsame : kilobytes r.ax &&& (0x0000ffff : UInt32) = kilobytes r.ax := by
      rw [← UInt32.toNat_inj, hmask, Nat.mod_eq_of_lt hsmall]
    rw [hsame, h]

theorem e801_right_iff (b : Bios) (m : Machine) (hc : b.e801.carry = false) :
    (e820_failed_so_try_e801 b m).total_mem_bytes =
      MB1 + kilobytes b.e801.ax + b.e801.bx.toUInt32 * 65536 ↔ Fits b.e801 := by
  rw [e801_spec b m hc, UInt32.add_left_inj, UInt32.add_right_inj, fits_iff]

/-- **Without E820.** The E801 path is right where the shift does no harm. The 88 path is right in the sum, and always
goes through `.error_hlt`. -/
theorem detect_memory_fallback (b : Bios) (m m' : Machine) :
    (b.e801.carry = false → ((e820_failed_so_try_e801 b m).total_mem_bytes =
      MB1 + kilobytes b.e801.ax + b.e801.bx.toUInt32 * 65536 ↔ Fits b.e801)) ∧
    (b.e88.carry = false → (e801_failed_so_try88 b m').total_mem_bytes = MB1 + kilobytes b.e88.ax ∧
      (e801_failed_so_try88 b m').path = m'.path ++ [.e801_failed_so_try88, .error_hlt, .mem_get_ok]) ∧
    (b.e801.carry = false → b.e88.carry = false →
      kilobytes b.e801.ax + b.e801.bx.toUInt32 * 65536 = kilobytes b.e88.ax →
      ((e820_failed_so_try_e801 b m).total_mem_bytes = (e801_failed_so_try88 b m').total_mem_bytes ↔
        Fits b.e801)) := by
  refine ⟨e801_right_iff b m, e88_spec b m', fun h801 h88 hsame => ?_⟩
  rw [(e88_spec b m' h88).1, ← hsame, ← UInt32.add_assoc]
  exact e801_right_iff b m h801

/-- 17 MB, and what E820 left in the upper half of `edx`. -/
def bios17 : Bios where
  e820 := [(⟨true, 0, 0, 0, 0⟩, ⟨0, 0, 0, 0, 0⟩)]
  e801 := ⟨false, 0x3c00, 0x10, 0x3c00, 0x534D0010⟩
  e88 := ⟨false, 0x4000, 0, 0, 0⟩

theorem detect_memory_fallback_17 :
    ¬ (e820_failed_so_try_e801 bios17 machine0).total_mem_bytes = 0x1100000 ∧
      (e801_failed_so_try88 bios17 machine0).total_mem_bytes = 0x1100000 ∧
      (e820_failed_so_try_e801 bios17 machine0).total_mem_bytes ≠
        (e801_failed_so_try88 bios17 machine0).total_mem_bytes := by
  obtain ⟨h801, h88, hagree⟩ := detect_memory_fallback bios17 machine0 machine0
  refine ⟨fun h => ?_, (h88 rfl).1, fun h => ?_⟩
  · exact absurd ((h801 rfl).mp h) (by decide)
  · exact absurd ((hagree rfl rfl (by decide)).mp h) (by decide)

theorem e801_wrong :
    (detect_memory bios17 machine0).map Machine.total_mem_bytes = some 0x20534D ∧
      MB1 + kilobytes bios17.e801.ax + bios17.e801.bx.toUInt32 * 65536 = 0x1100000 ∧
      Label.error_hlt ∈ (e801_failed_so_try88 bios17 machine0).path :=
  ⟨by decide, by decide, by decide⟩

end OsLearn.Detect
