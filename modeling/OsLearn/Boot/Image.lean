import OsLearn.Boot.Start

/-!
# The kernel comes from the disk

The image in the sectors of the kernel, and the bytes of it that the kernel finds when it starts.
-/

open OsLearn.X86 OsLearn.Ata

namespace OsLearn.Boot

/-! ## The kernel on the disk -/

/-- The memory as it is when the sectors of the kernel have been read into a memory of zeros. -/
def diskImage (disk : Mem) : Mem := brought (fun _ => 0) disk 0x70000 (512 * 9) (512 * 72)

theorem diskImage_file (disk : Mem) (x : Nat) (h : 0x70000 ≤ x) (h' : x < 0x70000 + 512 * 72) :
    diskImage disk x = disk (512 * 9 + (x - 0x70000)) := if_pos ⟨h, h'⟩

/-- Where another header is copied over a byte of a segment, it brings the same byte. -/
def OthersSame (mem : Mem) : Prop :=
  ∀ j < e_phnum mem, ∀ k < e_phnum mem, (phdr mem j).p_type = PT_LOAD → ∀ x, (phdr mem j).Copies x →
    (phdr mem k).Copies x → (phdr mem k).fileByte mem x = (phdr mem j).fileByte mem x

/-- The sectors of the kernel hold an image of `size` bytes. -/
structure KernelOnDisk (disk : Mem) (size : Nat) : Prop where
  fits : size ≤ 512 * 72
  wellFormed : WellFormed (diskImage disk) size
  others : OthersFree (diskImage disk) size
  same : OthersSame (diskImage disk)

/-- The same bytes of an image. -/
def SameImage (mem mem' : Mem) (size : Nat) : Prop := ∀ x, 0x70000 ≤ x → x < 0x70000 + size → mem' x = mem x

theorem SameImage.ehdr (mem mem' : Mem) (size : Nat) (h : SameImage mem mem' size) (hsize : 0x34 ≤ size) :
    e_phoff mem' = e_phoff mem ∧ e_phentsize mem' = e_phentsize mem ∧ e_phnum mem' = e_phnum mem := by
  have hoff : read32 mem' 0x7001c = read32 mem 0x7001c := read32_congr _ _ _ fun x h1 h2 => h x (by omega) (by omega)
  refine ⟨?_, ?_, ?_⟩
  · rw [e_phoff, hoff, e_phoff]
  · rw [e_phentsize, read16, h 0x7002a (by omega) (by omega), h (0x7002a + 1) (by omega) (by omega)]
    rfl
  · rw [e_phnum, read16, h 0x7002c (by omega) (by omega), h (0x7002c + 1) (by omega) (by omega)]
    rfl

theorem SameImage.phdr (mem mem' : Mem) (size : Nat) (h : SameImage mem mem' size) (hw : WellFormed mem size) (j : Nat)
    (hj : j < e_phnum mem) : phdr mem' j = phdr mem j := by
  obtain ⟨hoff, hent, -⟩ := h.ehdr mem mem' size hw.ehdr
  have hle := headerAt_le mem size hw j hj
  have hent' := hw.phentsize
  have hat : headerAt mem' j = headerAt mem j := by rw [headerAt, hoff, hent, headerAt]
  unfold Boot.phdr
  rw [hat]
  refine phdrAt_congr _ _ _ fun x h1 h2 => h x ?_ (by omega)
  unfold headerAt at h1
  omega

theorem SameImage.fileByte (mem mem' : Mem) (size : Nat) (h : SameImage mem mem' size) (p : Phdr) (x : Nat)
    (hin : p.InFile size) (hc : p.Copies x) : p.fileByte mem' x = p.fileByte mem x := by
  obtain ⟨-, h1, h2⟩ := hc
  unfold Phdr.fileByte
  unfold Phdr.InFile at hin
  obtain hz | hin := hin
  · rw [hz] at h2
    exact absurd h2 (by show ¬ _ < _ + 0; omega)
  · exact h _ (by omega) (by omega)

theorem WellFormed.congr (mem mem' : Mem) (size : Nat) (h : SameImage mem mem' size) (hw : WellFormed mem size) :
    WellFormed mem' size := by
  obtain ⟨hoff, hent, hnum⟩ := h.ehdr mem mem' size hw.ehdr
  have hphdr := fun j (hj : j < e_phnum mem) => h.phdr mem mem' size hw j hj
  constructor
  · exact hw.room
  · exact hw.ehdr
  · rw [hnum]
    exact hw.phnum
  · rw [hent]
    exact hw.phentsize
  · rw [hoff, hnum, hent]
    exact hw.table
  · intro j hj
    rw [hnum] at hj
    rw [hphdr j hj]
    exact hw.file j hj
  · intro j hj
    rw [hnum] at hj
    rw [hphdr j hj]
    exact hw.memsz j hj
  · intro j hj
    rw [hnum] at hj
    rw [hphdr j hj]
    exact hw.free j hj
  · intro j hj k hk
    rw [hnum] at hj hk
    rw [hphdr j hj, hphdr k hk]
    exact hw.disjoint j hj k hk

theorem OthersFree.congr (mem mem' : Mem) (size : Nat) (h : SameImage mem mem' size) (hw : WellFormed mem size)
    (ho : OthersFree mem size) : OthersFree mem' size := by
  intro j hj
  rw [(h.ehdr mem mem' size hw.ehdr).2.2] at hj
  rw [h.phdr mem mem' size hw j hj]
  exact ho j hj

/-- The copies of `kernel_init`, in a memory with the image that is on the disk. -/
theorem after_image_on_disk (disk mem : Mem) (size : Nat) (hk : KernelOnDisk disk size)
    (h : SameImage (diskImage disk) mem size) (j : Nat) (hj : j < e_phnum (diskImage disk))
    (hload : (phdr (diskImage disk) j).p_type = PT_LOAD) (i : Nat)
    (hi : i < (phdr (diskImage disk) j).p_filesz.toNat) :
    after mem (e_phnum mem) (low (phdr (diskImage disk) j).p_vaddr + i) =
      disk (512 * 9 + (phdr (diskImage disk) j).p_offset.toNat + i) := by
  obtain ⟨-, -, hnum⟩ := h.ehdr _ _ size hk.wellFormed.ehdr
  have hphdr := fun k (hk' : k < e_phnum (diskImage disk)) => h.phdr _ _ size hk.wellFormed k hk'
  have hcopies : (phdr (diskImage disk) j).Copies (low (phdr (diskImage disk) j).p_vaddr + i) := by
    refine ⟨?_, by omega, by omega⟩
    rw [hload]
    decide
  have hin := (copied_free _ size hk.wellFormed hk.others j hj hcopies.1).1
  have hbyte : (phdr (diskImage disk) j).fileByte (diskImage disk) (low (phdr (diskImage disk) j).p_vaddr + i) =
      disk (512 * 9 + (phdr (diskImage disk) j).p_offset.toNat + i) := by
    have hfits := hk.fits
    unfold Phdr.InFile at hin
    obtain hz | hin := hin
    · rw [hz] at hi
      exact absurd hi (Nat.not_lt_zero i)
    · unfold Phdr.fileByte
      rw [diskImage_file _ _ (by omega) (by omega)]
      exact congrArg disk (by omega)
  obtain hnone | ⟨k, hlt, hck, hlast⟩ := lastCopy_or mem (low (phdr (diskImage disk) j).p_vaddr + i)
  · have hself := hnone j (by omega)
    rw [hphdr j hj] at hself
    exact absurd hcopies hself
  · have hlt' : k < e_phnum (diskImage disk) := hnum ▸ hlt
    rw [after_copied mem _ k _ hlt hck hlast, hphdr k hlt']
    rw [hphdr k hlt'] at hck
    have hkin := (copied_free _ size hk.wellFormed hk.others k hlt' hck.1).1
    rw [h.fileByte _ _ size _ _ hkin hck, hk.same j hj k hlt' hload _ hcopies hck, hbyte]

/-! ## From `p_mode_start` to the kernel -/

/-- Words from `a` on, in a memory of zeros. -/
def wordsAt (a : Nat) : List UInt32 → Mem
  | [] => fun _ => 0
  | w :: ws => write32 (wordsAt (a + 4) ws) a w

theorem stackAt_wordsAt (a : Nat) (ws : List UInt32) : StackAt (wordsAt a ws) a ws := by
  induction ws generalizing a with
  | nil => trivial
  | cons w ws ih =>
    exact ⟨read32_write32 _ _ _, stackAt_congr _ _ _ _ (fun x hx _ => write32_other _ _ _ x (by omega)) (ih (a + 4))⟩

def sampleDisk : Mem := fun x => sampleMem 0 (0x70000 + (x - 512 * 9))

def sampleStart : Start where
  m := { cpu := { sample 0 with mem := wordsAt GDT_BASE.toNat gdt }
         drive := { disk := sampleDisk, file := fun _ => 0, busy := [0, 0x40, 0x50], next := 0, left := 0 } }
  ram _ _ := 0
  gdtr := ⟨GDT_LIMIT, GDT_BASE.toNat⟩
  cr3 := 0
  paging := false
  gs := videoLow

theorem sampleDisk_image : SameImage (sampleMem 0) (diskImage sampleDisk) 0x54 := by
  intro x hx hx'
  rw [diskImage_file _ x hx (by omega)]
  exact congrArg (sampleMem 0) (by omega)

theorem sampleDisk_kernel : KernelOnDisk sampleDisk 0x54 := by
  have hw := sample_wellFormed 0
  refine ⟨by omega, hw.congr _ _ _ sampleDisk_image, OthersFree.congr _ _ _ sampleDisk_image hw (sample_others 0).1, ?_⟩
  intro j hj k hk _ x _ _
  have hnum : e_phnum (diskImage sampleDisk) = 1 :=
    (sampleDisk_image.ehdr _ _ _ hw.ehdr).2.2.trans (sample_phdr 0).1
  have hjk : j = k := by omega
  rw [hjk]

theorem sampleStart_gdt : StackAt sampleStart.cpu.mem GDT_BASE.toNat gdt := by
  have hmem : sampleStart.cpu.mem = wordsAt GDT_BASE.toNat gdt := by
    unfold sampleStart Start.cpu
    with_reducible rfl
  rw [hmem]
  exact stackAt_wordsAt _ _

theorem sampleStart_kernel : KernelOnDisk sampleStart.m.drive.disk 0x54 := by
  have hdisk : sampleStart.m.drive.disk = sampleDisk := by
    unfold sampleStart
    with_reducible rfl
  rw [hdisk]
  exact sampleDisk_kernel

end OsLearn.Boot
