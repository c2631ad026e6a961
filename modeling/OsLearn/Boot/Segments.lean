import OsLearn.Boot.Loader

/-!
# What `kernel_init` leaves of an ELF image
-/

namespace OsLearn.Boot

open X86

/-! ## The image -/

structure Phdr where
  p_type : UInt32
  p_offset : UInt32
  p_vaddr : UInt32
  p_filesz : UInt32
  p_memsz : UInt32
  deriving DecidableEq, Repr

def PT_LOAD : UInt32 := 1

def read16 (mem : Mem) (a : Nat) : UInt16 := UInt16.ofNat ((mem a).toNat + 0x100 * (mem (a + 1)).toNat)

def e_phoff (mem : Mem) : Nat := (read32 mem 0x7001c).toNat

def e_phentsize (mem : Mem) : Nat := (read16 mem 0x7002a).toNat

def e_phnum (mem : Mem) : Nat := (read16 mem 0x7002c).toNat

def headerAt (mem : Mem) (j : Nat) : Nat := 0x70000 + e_phoff mem + j * e_phentsize mem

def phdrAt (mem : Mem) (a : Nat) : Phdr where
  p_type := read32 mem a
  p_offset := read32 mem (a + 0x4)
  p_vaddr := read32 mem (a + 0x8)
  p_filesz := read32 mem (a + 0x10)
  p_memsz := read32 mem (a + 0x14)

def phdr (mem : Mem) (j : Nat) : Phdr := phdrAt mem (headerAt mem j)

namespace Phdr

def Holds (h : Phdr) (x : Nat) : Prop := low h.p_vaddr ≤ x ∧ x < low h.p_vaddr + h.p_memsz.toNat

/-- A byte that `kernel_init` copies for this header: it looks at the low byte of the type only. -/
def Copies (h : Phdr) (x : Nat) : Prop :=
  h.p_type.toNat % 0x100 ≠ 0 ∧ low h.p_vaddr ≤ x ∧ x < low h.p_vaddr + h.p_filesz.toNat

instance (h : Phdr) (x : Nat) : Decidable (h.Holds x) := inferInstanceAs (Decidable (_ ∧ _))

instance (h : Phdr) (x : Nat) : Decidable (h.Copies x) := inferInstanceAs (Decidable (_ ∧ _))

def fileByte (h : Phdr) (mem : Mem) (x : Nat) : UInt8 := mem (0x70000 + h.p_offset.toNat + (x - low h.p_vaddr))

/-- `n` bytes at the address of the header are mapped, and are in no use by the loader, its stack or the
image. -/
structure Free (h : Phdr) (size n : Nat) : Prop where
  mapped : Mapped h.p_vaddr n
  image : Apart (low h.p_vaddr) n 0x70000 size
  loader : Apart (low h.p_vaddr) n 0x8e4 (0x1c + 512 * LOADER_SECTOR_COUNT)

end Phdr

/-- An ELF image of `size` bytes, with room for its segments. -/
structure WellFormed (mem : Mem) (size : Nat) : Prop where
  room : 0x70000 + size ≤ 0x100000
  ehdr : 0x34 ≤ size
  phnum : 1 ≤ e_phnum mem
  phentsize : 0x20 ≤ e_phentsize mem
  table : e_phoff mem + e_phnum mem * e_phentsize mem ≤ size
  file : ∀ j < e_phnum mem, (phdr mem j).p_type ≠ 0 →
    (phdr mem j).p_filesz = 0 ∨ (phdr mem j).p_offset.toNat + (phdr mem j).p_filesz.toNat ≤ size
  memsz : ∀ j < e_phnum mem, (phdr mem j).p_type = PT_LOAD → (phdr mem j).p_filesz ≤ (phdr mem j).p_memsz
  free : ∀ j < e_phnum mem, (phdr mem j).p_type = PT_LOAD → (phdr mem j).Free size (phdr mem j).p_memsz.toNat
  disjoint : ∀ j < e_phnum mem, ∀ k < e_phnum mem, j ≠ k → (phdr mem j).p_type = PT_LOAD →
    (phdr mem k).p_type = PT_LOAD → ∀ x, (phdr mem j).Holds x → ¬ (phdr mem k).Holds x

/-! ## What the boot wants -/

/-- The byte at `x` after a load. In a segment it is the byte of the file, or zero behind the file. -/
structure Wanted (mem : Mem) (x : Nat) (b : UInt8) : Prop where
  segment : ∀ j < e_phnum mem, (phdr mem j).p_type = PT_LOAD → (phdr mem j).Holds x →
    b = if x < low (phdr mem j).p_vaddr + (phdr mem j).p_filesz.toNat then (phdr mem j).fileByte mem x else 0
  other : (∀ j < e_phnum mem, (phdr mem j).p_type = PT_LOAD → ¬ (phdr mem j).Holds x) → b = mem x

/-- `kernel_init` returns, has looked at each header once, and every byte that is not of its stack is the
one wanted. -/
def Loads (back : UInt32) (c : Cpu) : Prop :=
  ∃ fuel c', kernel_init back fuel c =
      some ((List.range (e_phnum c.mem)).map (fun j => UInt32.ofNat (headerAt c.mem j)), c') ∧
    ∀ x, OffStack x → Wanted c.mem x (c'.mem x)

/-! ## When it gets it -/

/-- The headers of other types that are copied stay clear of the loader and the image. -/
def OthersFree (mem : Mem) (size : Nat) : Prop :=
  ∀ j < e_phnum mem, (phdr mem j).p_type.toNat % 0x100 ≠ 0 → (phdr mem j).p_type ≠ PT_LOAD →
    (phdr mem j).Free size (phdr mem j).p_filesz.toNat

/-- The memory behind the file bytes of a segment was clear, where no header is copied to. -/
def TailsClear (mem : Mem) : Prop :=
  ∀ j < e_phnum mem, (phdr mem j).p_type = PT_LOAD → ∀ x, (phdr mem j).Holds x →
    (∀ k < e_phnum mem, ¬ (phdr mem k).Copies x) → mem x = 0

/-- The last header that is copied to `x`. -/
def LastCopy (mem : Mem) (j x : Nat) : Prop :=
  j < e_phnum mem ∧ (phdr mem j).Copies x ∧ ∀ k, j < k → k < e_phnum mem → ¬ (phdr mem k).Copies x

/-- Where a header of another type is copied last, it brings the byte wanted there. -/
def OthersAgree (mem : Mem) : Prop :=
  ∀ j x, LastCopy mem j x → (phdr mem j).p_type ≠ PT_LOAD → Wanted mem x ((phdr mem j).fileByte mem x)

/-! ## One header -/

def atCall (back : UInt32) (h : Phdr) (c : Cpu) : Cpu :=
  let eax := h.p_offset + KERNEL_BIN_BASE_ADDR
  let mem := write32 (write32 (write32 (write32 c.mem 0x8f8 h.p_filesz) 0x8f4 eax) 0x8f0 h.p_vaddr) 0x8ec back
  { ((((((c.setReg .esp 0xc00008f8).setReg .eax h.p_offset).setReg .eax eax).setReg .esp 0xc00008f4).setReg .esp
      0xc00008f0).setReg .esp 0xc00008ec) with mem }

theorem physWord_header (a k : Nat) (h : a + k + 4 ≤ 0x100000) :
    physWord (UInt32.ofNat a + UInt32.ofNat k) = some (a + k) := by
  have h0 : (UInt32.ofNat a + UInt32.ofNat k).toNat = a + k := by
    rw [← UInt32.ofNat_add, UInt32.toNat_ofNat_of_lt' (by show a + k < 2 ^ 32; omega)]
  have h3 : (UInt32.ofNat a + UInt32.ofNat k + 3).toNat = a + k + 3 := by
    rw [UInt32.toNat_add, h0]
    show (a + k + 3) % 2 ^ 32 = _
    omega
  unfold physWord phys
  rw [h0, h3, if_pos (by omega : a + k + 3 < 0x100000), if_pos (by omega : a + k < 0x100000)]
  rfl

theorem copy_segment_eq (back : UInt32) (c : Cpu) (a : Nat) (hesp : c.reg .esp = 0xc00008fc)
    (hebx : c.reg .ebx = UInt32.ofNat a) (ha : 0x900 ≤ a) (ha' : a + 0x14 ≤ 0x100000) :
    copy_segment back c = (mem_cpy (atCall back (phdrAt c.mem a) c)).bind
      fun r => if r.1 = back then some (r.2.addEsp 0xc) else none := by
  have h10 : physWord (UInt32.ofNat a + 0x10) = some (a + 0x10) := physWord_header a 0x10 (by omega)
  have h4 : physWord (UInt32.ofNat a + 0x4) = some (a + 0x4) := physWord_header a 0x4 (by omega)
  have h8 : physWord (UInt32.ofNat a + 0x8) = some (a + 0x8) := physWord_header a 0x8 (by omega)
  have hs : physWord 0xc00008f8 = some 0x8f8 ∧ physWord 0xc00008f4 = some 0x8f4 ∧
      physWord 0xc00008f0 = some 0x8f0 ∧ physWord 0xc00008ec = some 0x8ec := by decide
  -- the pushes before a load of the header are below the header
  have hread : ∀ mem : Mem, ∀ b k w, b + 4 ≤ 0x900 → read32 (write32 mem b w) (a + k) = read32 mem (a + k) :=
    fun mem b k w hb => read32_write32_other mem b (a + k) w (by omega)
  simp [copy_segment, push, store32, load32, Cpu.setReg, Cpu.esp, hesp, hebx, h10, h4, h8, hs, atCall, hread, phdrAt]

def Phdr.InFile (h : Phdr) (size : Nat) : Prop := h.p_filesz = 0 ∨ h.p_offset.toNat + h.p_filesz.toNat ≤ size

theorem src_spec (h : Phdr) (size : Nat) (hsize : 0x70000 + size ≤ 0x100000) (hin : h.InFile size)
    (hfree : h.Free size h.p_filesz.toNat) :
    let src := h.p_offset + KERNEL_BIN_BASE_ADDR
    Mapped src h.p_filesz.toNat ∧ Apart (low h.p_vaddr) h.p_filesz.toNat (low src) h.p_filesz.toNat ∧
      Apart (low src) h.p_filesz.toNat 0x8e4 0x1c ∧
      (h.p_filesz = 0 ∨ low src = 0x70000 + h.p_offset.toNat) := by
  intro src
  obtain hn | hoff := hin
  · rw [hn]
    exact ⟨.inl rfl, .inl rfl, .inl rfl, .inl rfl⟩
  have hsum : src.toNat = 0x70000 + h.p_offset.toNat := by
    rw [UInt32.toNat_add]
    show (h.p_offset.toNat + 0x70000) % 2 ^ 32 = _
    omega
  have hlow : low src = 0x70000 + h.p_offset.toNat := by
    rw [low, hsum]
    omega
  have himage := hfree.image
  unfold Apart at himage
  unfold Mapped Apart
  rw [hlow, hsum]
  omega

theorem copy_segment_spec (back : UInt32) (c : Cpu) (a size : Nat) (h : Phdr) (hh : phdrAt c.mem a = h)
    (hesp : c.reg .esp = 0xc00008fc) (hebx : c.reg .ebx = UInt32.ofNat a) (ha : 0x900 ≤ a)
    (ha' : a + 0x14 ≤ 0x100000) (hsize : 0x70000 + size ≤ 0x100000) (hin : h.InFile size)
    (hfree : h.Free size h.p_filesz.toNat) :
    ∃ c', copy_segment back c = some c' ∧ c'.reg .esp = 0xc00008fc ∧
      (∀ r, r ≠ .eax → r ≠ .esi → r ≠ .edi → r ≠ .esp → c'.reg r = c.reg r) ∧
      ∀ x, OffStack x → c'.mem x =
        copied c.mem (low h.p_vaddr) (0x70000 + h.p_offset.toNat) h.p_filesz.toNat x := by
  obtain ⟨hs, hapart, hsoff, hlow⟩ := src_spec h size hsize hin hfree
  have hdoff : Apart (low h.p_vaddr) h.p_filesz.toNat 0x8e4 0x1c := by
    have := hfree.loader
    unfold Apart at this ⊢
    omega
  obtain ⟨c1, hcpy, hesp1, hkeep, hmem⟩ := mem_cpy_spec (atCall back h c) (by simp [atCall, Cpu.setReg]) h.p_vaddr
    (h.p_offset + KERNEL_BIN_BASE_ADDR) h.p_filesz (by simp [atCall, read32_write32_other])
    (by simp [atCall, read32_write32_other]) (by simp [atCall, read32_write32_other]) hfree.mapped hs hapart hdoff hsoff
  have hback : read32 (atCall back h c).mem 0x8ec = back := by simp [atCall]
  have hoff : ∀ x, OffStack x → (atCall back h c).mem x = c.mem x := by
    intro x hx
    unfold OffStack at hx
    unfold atCall
    dsimp only
    rw [write32_other _ _ _ x (by omega), write32_other _ _ _ x (by omega), write32_other _ _ _ x (by omega),
      write32_other _ _ _ x (by omega)]
  rw [copy_segment_eq back c a hesp hebx ha ha', hh, hcpy, Option.bind_some, hback, if_pos rfl]
  refine ⟨_, rfl, ?_, fun r h1 h2 h3 h4 => ?_, fun x hx => ?_⟩
  · simp [Cpu.addEsp, Cpu.setReg, Cpu.esp, hesp1]
  · have := hkeep r h2 h3 h4
    simp [Cpu.addEsp, Cpu.setReg, h4, this]
    simp [atCall, Cpu.setReg, h1, h4]
  · show c1.mem x = _
    rw [hmem x hx]
    unfold copied
    unfold OffStack at hoff
    by_cases hx' : low h.p_vaddr ≤ x ∧ x < low h.p_vaddr + h.p_filesz.toNat
    · have hn : h.p_filesz ≠ 0 := by
        rintro hz
        rw [hz] at hx'
        exact absurd hx'.2 (by simp; exact hx'.1)
      rw [if_pos hx', if_pos hx', hlow.resolve_left hn, hoff _ (by omega)]
    · rw [if_neg hx', if_neg hx', hoff x hx]

/-! ## The loop over the headers -/

theorem Phdr.Free.mono (h : Phdr) (size n m : Nat) (hle : n ≤ m) (hf : h.Free size m) : h.Free size n := by
  obtain ⟨hmap, himage, hloader⟩ := hf
  unfold Mapped at hmap
  unfold Apart at himage hloader
  constructor
  · unfold Mapped
    omega
  · unfold Apart
    omega
  · unfold Apart
    omega

theorem copied_free (mem : Mem) (size : Nat) (hw : WellFormed mem size) (ho : OthersFree mem size) (j : Nat)
    (hj : j < e_phnum mem) (ht : (phdr mem j).p_type.toNat % 0x100 ≠ 0) :
    (phdr mem j).InFile size ∧ (phdr mem j).Free size (phdr mem j).p_filesz.toNat := by
  refine ⟨hw.file j hj (fun hz => ht (by rw [hz]; rfl)), ?_⟩
  by_cases hload : (phdr mem j).p_type = PT_LOAD
  · exact Phdr.Free.mono _ _ _ _ (UInt32.le_iff_toNat_le.mp (hw.memsz j hj hload)) (hw.free j hj hload)
  · exact ho j hj ht hload

/-- The memory after the first `k` headers. -/
def after (mem : Mem) : Nat → Mem
  | 0 => mem
  | k + 1 => fun x => if (phdr mem k).Copies x then (phdr mem k).fileByte mem x else after mem k x

theorem after_succ (mem : Mem) (k x : Nat) : after mem (k + 1) x =
    if (phdr mem k).Copies x then (phdr mem k).fileByte mem x else after mem k x := rfl

theorem after_image (mem : Mem) (size : Nat) (hw : WellFormed mem size) (ho : OthersFree mem size) (k : Nat)
    (hk : k ≤ e_phnum mem) (x : Nat) (hx : 0x70000 ≤ x) (hx' : x < 0x70000 + size) : after mem k x = mem x := by
  induction k with
  | zero => rfl
  | succ k ih =>
    rw [after_succ, if_neg, ih (by omega)]
    rintro ⟨ht, hlo, hhi⟩
    have := (copied_free mem size hw ho k (by omega) ht).2.image
    unfold Apart at this
    omega

/-- The state at `.each_segment`, for header `k`. -/
structure AtHeader (mem : Mem) (k : Nat) (c : Cpu) : Prop where
  ebx : c.reg .ebx = UInt32.ofNat (headerAt mem k)
  ecx : c.reg .ecx = UInt32.ofNat (e_phnum mem - k)
  edx : c.reg .edx = UInt32.ofNat (e_phentsize mem)
  esp : c.reg .esp = 0xc00008fc
  bytes : ∀ x, OffStack x → c.mem x = after mem k x

theorem phdrAt_congr (mem mem' : Mem) (a : Nat) (h : ∀ x, a ≤ x → x < a + 0x18 → mem' x = mem x) :
    phdrAt mem' a = phdrAt mem a := by
  have hword : ∀ k, k ≤ 0x14 → read32 mem' (a + k) = read32 mem (a + k) :=
    fun k hk => read32_congr mem mem' (a + k) fun x h1 h2 => h x (by omega) (by omega)
  unfold phdrAt
  rw [hword 0x4 (by omega), hword 0x8 (by omega), hword 0x10 (by omega), hword 0x14 (by omega),
    show read32 mem' a = read32 mem a from hword 0 (by omega)]

theorem headerAt_le (mem : Mem) (size : Nat) (hw : WellFormed mem size) (k : Nat) (hk : k < e_phnum mem) :
    headerAt mem k + e_phentsize mem ≤ 0x70000 + size := by
  have hmul : (k + 1) * e_phentsize mem ≤ e_phnum mem * e_phentsize mem := Nat.mul_le_mul_right _ hk
  have htable := hw.table
  rw [Nat.succ_mul] at hmul
  unfold headerAt
  omega

/-- The image still holds header `k` when the loop gets there. -/
theorem AtHeader.phdr_eq (mem : Mem) (size : Nat) (hw : WellFormed mem size) (ho : OthersFree mem size) (k : Nat)
    (hk : k < e_phnum mem) (c : Cpu) (h : AtHeader mem k c) : phdrAt c.mem (headerAt mem k) = phdr mem k := by
  have hle := headerAt_le mem size hw k hk
  have hent := hw.phentsize
  apply phdrAt_congr
  intro x hx hx'
  have hlow : 0x70000 ≤ headerAt mem k := by
    unfold headerAt
    omega
  rw [h.bytes x (.inr (by omega)), after_image mem size hw ho k (by omega) x (by omega) (by omega)]

theorem p_type_byte (mem : Mem) (a : Nat) : (phdrAt mem a).p_type.toNat % 0x100 = (mem a).toNat := by
  have h0 := (mem a).toNat_lt
  have h1 := (mem (a + 1)).toNat_lt
  have h2 := (mem (a + 2)).toNat_lt
  have h3 := (mem (a + 3)).toNat_lt
  unfold phdrAt read32
  dsimp only
  rw [UInt32.toNat_ofNat_of_lt' (by show _ < 2 ^ 32; omega)]
  omega

theorem visit_spec (back : UInt32) (mem : Mem) (size : Nat) (hw : WellFormed mem size) (ho : OthersFree mem size)
    (k : Nat) (hk : k < e_phnum mem) (c : Cpu) (h : AtHeader mem k c) :
    ∃ c', visit back c = some c' ∧ c'.reg .esp = 0xc00008fc ∧
      (∀ r, r ≠ .eax → r ≠ .esi → r ≠ .edi → r ≠ .esp → c'.reg r = c.reg r) ∧
      ∀ x, OffStack x → c'.mem x = after mem (k + 1) x := by
  have hle := headerAt_le mem size hw k hk
  have hent := hw.phentsize
  have hroom := hw.room
  have hlow : 0x70000 ≤ headerAt mem k := by
    unfold headerAt
    omega
  have hphdr := AtHeader.phdr_eq mem size hw ho k hk c h
  have hbyte := p_type_byte c.mem (headerAt mem k)
  rw [hphdr] at hbyte
  have hload : load8 c (c.reg .ebx + 0) = some (c.mem (headerAt mem k)) := by
    rw [load8, h.ebx, UInt32.add_zero, phys, UInt32.toNat_ofNat_of_lt' (by show _ < 2 ^ 32; omega),
      if_pos (by omega), Option.map_some]
  rw [visit, hload, Option.bind_eq_bind, Option.bind_some]
  by_cases hnull : c.mem (headerAt mem k) = PT_NULL
  · refine ⟨c, if_pos hnull, h.esp, fun _ _ _ _ _ => rfl, fun x hx => ?_⟩
    have hskip : ¬ (phdr mem k).Copies x := by
      rintro ⟨ht, -⟩
      rw [hbyte, hnull] at ht
      exact ht rfl
    rw [after_succ, if_neg hskip, h.bytes x hx]
  · have ht : (phdr mem k).p_type.toNat % 0x100 ≠ 0 := by
      rw [hbyte]
      exact fun hz => hnull (UInt8.toNat_inj.mp hz)
    obtain ⟨hin, hfree⟩ := copied_free mem size hw ho k hk ht
    obtain ⟨c', hcopy, hesp, hkeep, hmem⟩ := copy_segment_spec back c (headerAt mem k) size (phdr mem k) hphdr h.esp h.ebx
      (by omega) (by omega) hroom hin hfree
    rw [if_neg hnull]
    refine ⟨c', hcopy, hesp, hkeep, fun x hx => ?_⟩
    rw [hmem x hx, after_succ]
    unfold copied
    by_cases hx' : low (phdr mem k).p_vaddr ≤ x ∧ x < low (phdr mem k).p_vaddr + (phdr mem k).p_filesz.toNat
    · have hoff : (phdr mem k).p_offset.toNat + (phdr mem k).p_filesz.toNat ≤ size := by
        refine hin.resolve_left fun hz => ?_
        rw [hz, UInt32.toNat_zero] at hx'
        omega
      have hcopies : (phdr mem k).Copies x := ⟨ht, hx'⟩
      rw [if_pos hx', if_pos hcopies, h.bytes _ (.inr (by omega)),
        after_image mem size hw ho k (by omega) _ (by omega) (by omega)]
      rfl
    · have hskip : ¬ (phdr mem k).Copies x := fun hc => hx' hc.2
      rw [if_neg hx', if_neg hskip, h.bytes x hx]

theorem each_segment_succ (back : UInt32) (fuel : Nat) (c c' : Cpu) (h : visit back c = some c') :
    each_segment back (fuel + 1) c =
      if (next c').reg .ecx ≠ 0 then (each_segment back fuel (next c')).map fun r => (c.reg .ebx :: r.1, r.2)
      else some ([c.reg .ebx], next c') := by
  rw [each_segment, h, Option.bind_eq_bind, Option.bind_some]
  dsimp only
  split
  · rw [Option.map_eq_bind]
    rfl
  · rfl

/-- One turn of the loop. -/
theorem each_segment_step (back : UInt32) (mem : Mem) (size : Nat) (hw : WellFormed mem size)
    (ho : OthersFree mem size) (k : Nat) (hk : k < e_phnum mem) (c : Cpu) (h : AtHeader mem k c) :
    ∃ c', AtHeader mem (k + 1) c' ∧ ∀ fuel, each_segment back (fuel + 1) c =
      if k + 1 < e_phnum mem then (each_segment back fuel c').map fun r => (UInt32.ofNat (headerAt mem k) :: r.1, r.2)
      else some ([UInt32.ofNat (headerAt mem k)], c') := by
  obtain ⟨c1, hvisit, hesp, hkeep, hmem⟩ := visit_spec back mem size hw ho k hk c h
  have hnum : e_phnum mem < 2 ^ 16 := UInt16.toNat_lt _
  have hebx : c1.reg .ebx + c1.reg .edx = UInt32.ofNat (headerAt mem (k + 1)) := by
    rw [hkeep .ebx (by decide) (by decide) (by decide) (by decide), hkeep .edx (by decide) (by decide) (by decide)
      (by decide), h.ebx, h.edx, ← UInt32.ofNat_add]
    congr 1
    unfold headerAt
    rw [Nat.succ_mul]
    omega
  have hecx : c1.reg .ecx - 1 = UInt32.ofNat (e_phnum mem - (k + 1)) := by
    rw [hkeep .ecx (by decide) (by decide) (by decide) (by decide), h.ecx, ← UInt32.toNat_inj, UInt32.toNat_sub,
      UInt32.toNat_ofNat_of_lt' (by show _ < 2 ^ 32; omega), UInt32.toNat_ofNat_of_lt' (by show _ < 2 ^ 32; omega)]
    show (2 ^ 32 - 1 + (e_phnum mem - k)) % 2 ^ 32 = _
    omega
  have hnext : AtHeader mem (k + 1) (next c1) := by
    constructor
    · simpa [next, Cpu.setReg] using hebx
    · simpa [next, Cpu.setReg] using hecx
    · simp [next, Cpu.setReg, hkeep, h.edx]
    · simpa [next, Cpu.setReg] using hesp
    · exact hmem
  have hzero : (next c1).reg .ecx ≠ 0 ↔ k + 1 < e_phnum mem := by
    rw [hnext.ecx, Ne, ← UInt32.toNat_inj, UInt32.toNat_ofNat_of_lt' (by show _ < 2 ^ 32; omega), UInt32.toNat_zero]
    omega
  refine ⟨next c1, hnext, fun fuel => ?_⟩
  rw [each_segment_succ back fuel c c1 hvisit, h.ebx]
  by_cases hlast : k + 1 < e_phnum mem
  · rw [if_pos (hzero.mpr hlast), if_pos hlast]
  · rw [if_neg (fun hz => hlast (hzero.mp hz)), if_neg hlast]

/-- **Header loop.** The loop looks at each of the `n` headers left once, whatever fuel it has beyond that. -/
theorem each_segment_run (back : UInt32) (mem : Mem) (size : Nat) (hw : WellFormed mem size)
    (ho : OthersFree mem size) (n k : Nat) (hn : k + (n + 1) = e_phnum mem) (c : Cpu) (h : AtHeader mem k c) :
    ∃ c', c'.reg .esp = 0xc00008fc ∧ (∀ x, OffStack x → c'.mem x = after mem (e_phnum mem) x) ∧
      ∀ fuel, each_segment back fuel c =
        if n + 1 ≤ fuel then some ((List.range' k (n + 1)).map (fun j => UInt32.ofNat (headerAt mem j)), c')
        else none := by
  induction n generalizing k c with
  | zero =>
    obtain ⟨c', hat, hstep⟩ := each_segment_step back mem size hw ho k (by omega) c h
    refine ⟨c', hat.esp, hn ▸ hat.bytes, fun fuel => ?_⟩
    cases fuel with
    | zero => rfl
    | succ fuel =>
      rw [hstep fuel, if_neg (by omega), if_pos (by omega)]
      rfl
  | succ n ih =>
    obtain ⟨c1, hat, hstep⟩ := each_segment_step back mem size hw ho k (by omega) c h
    obtain ⟨c', hesp, hmem, hrun⟩ := ih (k + 1) (by omega) c1 hat
    refine ⟨c', hesp, hmem, fun fuel => ?_⟩
    cases fuel with
    | zero => rfl
    | succ fuel =>
      rw [hstep fuel, if_pos (by omega), hrun fuel]
      by_cases hfuel : n + 1 ≤ fuel
      · rw [if_pos hfuel, if_pos (by omega)]
        rfl
      · rw [if_neg hfuel, if_neg (by omega)]
        rfl

/-! ## The whole run -/

theorem load16_image (c : Cpu) (a : Nat) (h : a + 1 < 0x100000) :
    load16 c (UInt32.ofNat a) = some (read16 c.mem a) := by
  have h0 : (UInt32.ofNat a).toNat = a := UInt32.toNat_ofNat_of_lt' (by show a < 2 ^ 32; omega)
  have h1 : (UInt32.ofNat a + 1).toNat = a + 1 := by
    rw [UInt32.toNat_add, h0]
    show (a + 1) % 2 ^ 32 = _
    omega
  unfold load16 load8 phys
  rw [h0, h1, if_pos (by omega), if_pos (by omega)]
  rfl

def atLoop (c : Cpu) : Cpu :=
  let c := (((c.setReg .eax 0).setReg .ebx 0).setReg .ecx 0).setReg .edx 0
  ((c.setReg .ebx (read32 c.mem 0x7001c + KERNEL_BIN_BASE_ADDR)).setReg .ecx
    (read16 c.mem 0x7002c).toUInt32).setReg .edx (read16 c.mem 0x7002a).toUInt32

theorem kernel_init_eq (back : UInt32) (fuel : Nat) (c : Cpu) :
    kernel_init back fuel c =
      (each_segment back fuel (atLoop c)).bind fun r => (pop r.2).bind fun q => some (r.1, q.2) := by
  have h1c : physWord (KERNEL_BIN_BASE_ADDR + 0x1c) = some 0x7001c := by decide
  have h2c : ∀ c, load16 c (KERNEL_BIN_BASE_ADDR + 0x2c) = some (read16 c.mem 0x7002c) :=
    fun c => load16_image c 0x7002c (by omega)
  have h2a : ∀ c, load16 c (KERNEL_BIN_BASE_ADDR + 0x2a) = some (read16 c.mem 0x7002a) :=
    fun c => load16_image c 0x7002a (by omega)
  simp [kernel_init, load32, h1c, h2c, h2a, Cpu.setReg, setLow, atLoop]

theorem atHeader_atLoop (c : Cpu) (hesp : c.reg .esp = 0xc00008fc) (hoff : e_phoff c.mem < 0x100000) :
    AtHeader c.mem 0 (atLoop c) := by
  constructor
  · rw [← UInt32.toNat_inj, UInt32.toNat_ofNat_of_lt' (by unfold headerAt; show _ < 2 ^ 32; omega)]
    simp [atLoop, Cpu.setReg, headerAt, KERNEL_BIN_BASE_ADDR]
    unfold e_phoff at *
    omega
  · rw [← UInt32.toNat_inj]
    simp [atLoop, Cpu.setReg, e_phnum]
  · rw [← UInt32.toNat_inj]
    simp [atLoop, Cpu.setReg, e_phentsize]
  · simpa [atLoop, Cpu.setReg] using hesp
  · intro x _
    rfl

/-- **Run.** `kernel_init` returns after the last header, and leaves the copies of all of them. -/
theorem kernel_init_run (back : UInt32) (c : Cpu) (size : Nat) (hesp : c.reg .esp = 0xc00008fc)
    (hw : WellFormed c.mem size) (ho : OthersFree c.mem size) :
    ∃ c', (∀ x, OffStack x → c'.mem x = after c.mem (e_phnum c.mem) x) ∧
      ∀ fuel, kernel_init back fuel c =
        if e_phnum c.mem ≤ fuel then
          some ((List.range (e_phnum c.mem)).map (fun j => UInt32.ofNat (headerAt c.mem j)), c')
        else none := by
  have hroom := hw.room
  have htable := hw.table
  obtain ⟨n, hn⟩ := Nat.exists_eq_add_of_le' hw.phnum
  obtain ⟨c', hesp', hmem, hrun⟩ := each_segment_run back c.mem size hw ho n 0 (by omega) (atLoop c)
    (atHeader_atLoop c hesp (by omega))
  have hpop : pop c' = some (read32 c'.mem 0x8fc, c'.addEsp 4) := by
    rw [pop, load32, Cpu.esp, hesp']
    rfl
  refine ⟨c'.addEsp 4, hmem, fun fuel => ?_⟩
  rw [kernel_init_eq, hrun fuel, ← hn]
  by_cases hfuel : e_phnum c.mem ≤ fuel
  · rw [if_pos hfuel, if_pos hfuel, Option.bind_some, hpop, List.range_eq_range']
    rfl
  · rw [if_neg hfuel, if_neg hfuel]
    rfl

/-! ## The bytes that it leaves -/

theorem after_copied (mem : Mem) (n j x : Nat) (hj : j < n) (hc : (phdr mem j).Copies x)
    (hlast : ∀ k, j < k → k < n → ¬ (phdr mem k).Copies x) : after mem n x = (phdr mem j).fileByte mem x := by
  induction n with
  | zero => omega
  | succ n ih =>
    rw [after_succ]
    by_cases hn : j = n
    · rw [← hn, if_pos hc]
    · rw [if_neg (hlast n (by omega) (by omega)), ih (by omega) fun k h1 h2 => hlast k h1 (by omega)]

theorem after_untouched (mem : Mem) (n x : Nat) (h : ∀ k < n, ¬ (phdr mem k).Copies x) : after mem n x = mem x := by
  induction n with
  | zero => rfl
  | succ n ih =>
    rw [after_succ, if_neg (h n (by omega)), ih fun k hk => h k (by omega)]

theorem lastCopy_or (mem : Mem) (x : Nat) :
    (∀ k < e_phnum mem, ¬ (phdr mem k).Copies x) ∨ ∃ j, LastCopy mem j x := by
  unfold LastCopy
  generalize e_phnum mem = n
  induction n with
  | zero => exact .inl fun k hk => absurd hk (by omega)
  | succ n ih =>
    by_cases hn : (phdr mem n).Copies x
    · exact .inr ⟨n, by omega, hn, fun k h1 h2 => by omega⟩
    · have hskip : ∀ k, k < n + 1 → k ≠ n → k < n := fun k h1 h2 => by omega
      obtain hnone | ⟨j, hj, hc, hlast⟩ := ih
      · refine .inl fun k hk hck => ?_
        by_cases hkn : k = n
        · exact hn (hkn ▸ hck)
        · exact hnone k (hskip k hk hkn) hck
      · refine .inr ⟨j, by omega, hc, fun k h1 h2 hck => ?_⟩
        by_cases hkn : k = n
        · exact hn (hkn ▸ hck)
        · exact hlast k h1 (hskip k h2 hkn) hck

theorem wanted_load (mem : Mem) (size : Nat) (hw : WellFormed mem size) (j x : Nat) (hj : j < e_phnum mem)
    (hload : (phdr mem j).p_type = PT_LOAD) (hc : (phdr mem j).Copies x) :
    Wanted mem x ((phdr mem j).fileByte mem x) := by
  obtain ⟨-, hlo, hhi⟩ := hc
  have hle := UInt32.le_iff_toNat_le.mp (hw.memsz j hj hload)
  have hholds : (phdr mem j).Holds x := ⟨hlo, by omega⟩
  constructor
  · intro k hk hkload hkx
    by_cases hjk : j = k
    · rw [← hjk, if_pos hhi]
    · exact absurd hkx (hw.disjoint j hj k hk hjk hload hkload x hholds)
  · intro hnone
    exact absurd hholds (hnone j hj hload)

/-- A byte that no header is copied to must have been right before. -/
theorem wanted_untouched (mem : Mem) (x : Nat) (h : ∀ k < e_phnum mem, ¬ (phdr mem k).Copies x) :
    Wanted mem x (mem x) ↔
      ∀ j < e_phnum mem, (phdr mem j).p_type = PT_LOAD → (phdr mem j).Holds x → mem x = 0 := by
  have htail : ∀ j < e_phnum mem, (phdr mem j).p_type = PT_LOAD → (phdr mem j).Holds x →
      ¬ x < low (phdr mem j).p_vaddr + (phdr mem j).p_filesz.toNat := by
    intro j hj hload hx hlt
    refine h j hj ⟨?_, hx.1, hlt⟩
    rw [hload]
    decide
  constructor
  · intro hwant j hj hload hx
    rw [hwant.segment j hj hload hx, if_neg (htail j hj hload hx)]
  · intro hzero
    refine ⟨fun j hj hload hx => ?_, fun _ => rfl⟩
    rw [hzero j hj hload hx, if_neg (htail j hj hload hx)]

theorem Phdr.Free.offStack (h : Phdr) (size n x : Nat) (hf : h.Free size n) (hx : low h.p_vaddr ≤ x)
    (hx' : x < low h.p_vaddr + n) : OffStack x := by
  have := hf.loader
  unfold Apart at this
  unfold OffStack
  omega

theorem after_wanted (mem : Mem) (size : Nat) (hw : WellFormed mem size) (ho : OthersFree mem size) :
    (∀ x, OffStack x → Wanted mem x (after mem (e_phnum mem) x)) ↔ TailsClear mem ∧ OthersAgree mem := by
  constructor
  · intro hwant
    constructor
    · intro j hj hload x hx hnone
      have := hwant x ((hw.free j hj hload).offStack _ _ _ _ hx.1 hx.2)
      rw [after_untouched mem _ x hnone, wanted_untouched mem x hnone] at this
      exact this j hj hload hx
    · intro j x ⟨hj, hc, hlast⟩ hother
      have := hwant x ((ho j hj hc.1 hother).offStack _ _ _ _ hc.2.1 hc.2.2)
      rwa [after_copied mem _ j x hj hc hlast] at this
  · rintro ⟨hclear, hagree⟩ x -
    obtain hnone | ⟨j, hlast⟩ := lastCopy_or mem x
    · rw [after_untouched mem _ x hnone, wanted_untouched mem x hnone]
      exact fun j hj hload hx => hclear j hj hload x hx hnone
    · rw [after_copied mem _ j x hlast.1 hlast.2.1 hlast.2.2]
      by_cases hload : (phdr mem j).p_type = PT_LOAD
      · exact wanted_load mem size hw j x hlast.1 hload hlast.2.1
      · exact hagree j x hlast hload

/-- The result of `kernel_init` does not depend on the fuel. -/
theorem loads_iff (back : UInt32) (c : Cpu) (size : Nat) (hesp : c.reg .esp = 0xc00008fc)
    (hw : WellFormed c.mem size) (ho : OthersFree c.mem size) :
    Loads back c ↔ ∀ x, OffStack x → Wanted c.mem x (after c.mem (e_phnum c.mem) x) := by
  obtain ⟨c1, hmem, hrun⟩ := kernel_init_run back c size hesp hw ho
  constructor
  · rintro ⟨fuel, c', hres, hwant⟩ x hx
    rw [hrun fuel] at hres
    split at hres
    · have hc : c1 = c' := (Prod.mk.inj (Option.some.inj hres)).2
      rw [← hmem x hx, hc]
      exact hwant x hx
    · cases hres
  · intro hwant
    refine ⟨e_phnum c.mem, c1, by rw [hrun, if_pos (Nat.le_refl _)], fun x hx => ?_⟩
    rw [hmem x hx]
    exact hwant x hx

/-- **Kernel image.** Where no other header is copied over the loader or the image, `kernel_init` loads the
image exactly when the memory behind the file bytes was clear before, and the headers of other types that
it copies bring nothing else than what is wanted. -/
theorem kernel_image_loaded (back : UInt32) (c : Cpu) (size : Nat)
    (hesp : c.reg .esp = (LOADER_STACK_TOP ||| 0xc0000000) - 4) (hw : WellFormed c.mem size)
    (ho : OthersFree c.mem size) : Loads back c ↔ TailsClear c.mem ∧ OthersAgree c.mem := by
  rw [loads_iff back c size hesp hw ho]
  exact after_wanted c.mem size hw ho

/-! ## An image with four bytes behind its file bytes -/

/-- One segment, in a memory that is filled with `b`. -/
def sampleMem (b : UInt8) : Mem :=
  let mem : Mem := fun _ => b
  let mem := write32 mem 0x7001c 0x34
  let mem := write32 mem 0x7002a 0x10020
  let mem := write32 mem 0x70034 PT_LOAD
  let mem := write32 mem 0x70038 0x1c
  let mem := write32 mem 0x7003c 0xc0001500
  let mem := write32 mem 0x70044 4
  write32 mem 0x70048 8

def sample (b : UInt8) : Cpu where
  reg r := if r = .esp then 0xc00008fc else 0
  seg _ := 0
  eip := 0
  eflags := 0
  mem := sampleMem b
  ports := []

theorem sample_phdr (b : UInt8) : e_phnum (sampleMem b) = 1 ∧ e_phoff (sampleMem b) = 0x34 ∧
    e_phentsize (sampleMem b) = 0x20 ∧ phdr (sampleMem b) 0 = ⟨PT_LOAD, 0x1c, 0xc0001500, 4, 8⟩ := by
  have hoff : e_phoff (sampleMem b) = 0x34 := by simp [sampleMem, e_phoff, read32_write32_other]
  refine ⟨by simp [sampleMem, e_phnum, read16, write32], hoff, by simp [sampleMem, e_phentsize, read16, write32], ?_⟩
  unfold phdr headerAt
  rw [hoff]
  simp [sampleMem, phdrAt, read32_write32_other]

theorem sample_one (b : UInt8) (j : Nat) (hj : j < e_phnum (sampleMem b)) :
    j = 0 ∧ phdr (sampleMem b) j = ⟨PT_LOAD, 0x1c, 0xc0001500, 4, 8⟩ := by
  obtain ⟨hnum, -, -, hphdr⟩ := sample_phdr b
  have hzero : j = 0 := by omega
  exact ⟨hzero, by rw [hzero, hphdr]⟩

theorem sample_wellFormed (b : UInt8) : WellFormed (sampleMem b) 0x54 := by
  obtain ⟨hnum, hoff, hent, -⟩ := sample_phdr b
  constructor
  · decide
  · decide
  · omega
  · omega
  · have htable : e_phnum (sampleMem b) * e_phentsize (sampleMem b) = 0x20 := by rw [hnum, hent]
    omega
  · intro j hj _
    rw [(sample_one b j hj).2]
    decide
  · intro j hj _
    rw [(sample_one b j hj).2]
    decide
  · intro j hj _
    rw [(sample_one b j hj).2]
    exact ⟨by decide, by decide, by decide⟩
  · intro j hj k hk hjk
    omega

theorem sample_others (b : UInt8) : OthersFree (sampleMem b) 0x54 ∧ OthersAgree (sampleMem b) := by
  constructor
  · intro j hj _ hother
    rw [(sample_one b j hj).2] at hother
    exact absurd rfl hother
  · intro j x hlast hother
    rw [(sample_one b j hlast.1).2] at hother
    exact absurd rfl hother

theorem sample_byte (b : UInt8) (x : Nat) (hx : x < 0x7001c) : sampleMem b x = b := by
  unfold sampleMem
  rw [write32_other _ _ _ x (by omega), write32_other _ _ _ x (by omega), write32_other _ _ _ x (by omega),
    write32_other _ _ _ x (by omega), write32_other _ _ _ x (by omega), write32_other _ _ _ x (by omega),
    write32_other _ _ _ x (by omega)]

theorem sample_tails (b : UInt8) : TailsClear (sampleMem b) ↔ b = 0 := by
  obtain ⟨hnum, -, -, hphdr⟩ := sample_phdr b
  constructor
  · intro hclear
    rw [← sample_byte b 0x1504 (by omega)]
    refine hclear 0 (by omega) (by rw [hphdr]) 0x1504 (by rw [hphdr]; decide) fun k hk => ?_
    rw [(sample_one b k hk).2]
    decide
  · rintro rfl j hj _ x hx _
    rw [(sample_one 0 j hj).2] at hx
    have hx : 0x1500 ≤ x ∧ x < 0x1508 := hx
    exact sample_byte 0 x (by omega)

/-- On a memory of zeros the segment and its zeros are there. -/
theorem kernel_image_loaded_clear : Loads 0 (sample 0) :=
  (kernel_image_loaded 0 (sample 0) 0x54 rfl (sample_wellFormed 0) (sample_others 0).1).mpr
    ⟨(sample_tails 0).mpr rfl, (sample_others 0).2⟩

/-- The same image on a memory that is not clear: the zeros of the segment are not written. -/
theorem kernel_image_not_cleared : WellFormed (sample 0xcc).mem 0x54 ∧
    (sample 0xcc).reg .esp = (LOADER_STACK_TOP ||| 0xc0000000) - 4 ∧ ¬ Loads 0 (sample 0xcc) := by
  have hw : WellFormed (sample 0xcc).mem 0x54 := sample_wellFormed 0xcc
  have ho : OthersFree (sample 0xcc).mem 0x54 := (sample_others 0xcc).1
  refine ⟨hw, rfl, ?_⟩
  rw [loads_iff 0 (sample 0xcc) 0x54 rfl hw ho, after_wanted _ _ hw ho]
  rintro ⟨hclear, -⟩
  exact absurd ((sample_tails 0xcc).mp hclear) (by decide)

end OsLearn.Boot
