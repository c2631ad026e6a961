import OsLearn.Memory.Directories

/-!
# Boot: `setup_page` and `mem_init` start with no role and no frame in use
-/

namespace OsLearn

/-! ## The loops of `setup_page` -/

theorem fill_entries_apply (n f : Nat) (ram : Ram) (esi : Nat) (e : UInt32) (g j : Nat) :
    fill_entries f ram esi e n g j =
      if g = f ∧ esi ≤ j ∧ j < esi + n then e + UInt32.ofNat (j - esi) * 0x1000 else ram g j := by
  induction n generalizing ram esi e with
  | zero => rw [fill_entries, if_neg (by omega)]
  | succ n ih =>
    rw [fill_entries, ih, Ram.set_apply]
    by_cases hg : g = f
    · by_cases hj : j = esi
      · rw [if_neg (by omega), if_pos ⟨hg, hj⟩, if_pos (by omega), hj, Nat.sub_self]
        simp
      · by_cases hin : esi + 1 ≤ j ∧ j < esi + 1 + n
        · have hsub : UInt32.ofNat (j - esi) = 1 + UInt32.ofNat (j - (esi + 1)) := by
            rw [← UInt32.ofNat_one, ← UInt32.ofNat_add]
            congr 1
            omega
          rw [if_pos ⟨hg, hin⟩, if_pos (by omega), hsub, UInt32.add_mul, UInt32.one_mul, UInt32.add_assoc]
        · rw [if_neg (fun hh => hin hh.2), if_neg (fun hh => hj hh.2), if_neg (by omega)]
    · rw [if_neg (fun hh => hg hh.1), if_neg (fun hh => hg hh.1), if_neg (fun hh => hg hh.1)]

theorem entry_step (a k : Nat) (h : a + k < 2 ^ 20) : entry a + UInt32.ofNat k * 0x1000 = entry (a + k) := by
  rw [← UInt32.toNat_inj, UInt32.toNat_add, entry_toNat a (by omega), entry_toNat (a + k) h, UInt32.toNat_mul,
    UInt32.toNat_ofNat_of_lt' (by show k < 2 ^ 32; omega)]
  show (a * 2 ^ 12 + 7 + k * 4096 % 2 ^ 32) % 2 ^ 32 = _
  omega

/-- The directory that the loader leaves. -/
def bootDir (i : Nat) : UInt32 :=
  if i = 0 then entry (kernelTable 768)
  else if 768 ≤ i ∧ i < 1023 then entry (kernelTable i)
  else if i = 1023 then entry PAGE_DIR_FRAME
  else 0

/-- The first megabyte is mapped to itself. The rest of the tables is as it was. -/
def bootTables (ram : Ram) : Ram := fun g j =>
  if g = PAGE_DIR_FRAME then bootDir j else if g = kernelTable 768 ∧ j < 256 then entry j else ram g j

theorem setup_page_dir (ram : Ram) (i : Nat) : setup_page ram PAGE_DIR_FRAME i = bootDir i := by
  have h1 : ((0x100000 + 0x1000 * 1) ||| PG_ATTR : UInt32) = entry (kernelTable 768) := by decide
  have h2 : ((0x100000 + 0x1000 * 2) ||| PG_ATTR : UInt32) = entry 0x102 := by decide
  have h3 : (0x100000 ||| PG_ATTR : UInt32) = entry PAGE_DIR_FRAME := by decide
  have hne : ¬ PAGE_DIR_FRAME = PAGE_DIR_FRAME + 1 := by omega
  unfold setup_page create_kernel_pde create_pte bootDir
  simp only [fill_entries_apply, Ram.set_apply, true_and, h1, h2, h3, hne, false_and, if_false, Ram.zero_self]
  by_cases hi : 769 ≤ i ∧ i < 1023
  · have hk : 0x102 + (i - (0xc00 + 4) / 4) = kernelTable i := by
      unfold kernelTable
      omega
    rw [if_pos (by omega), entry_step _ _ (by omega), if_neg (by omega), if_pos (by omega), hk]
  · rw [if_neg (by omega)]
    by_cases hlast : i = 1023
    · rw [if_pos (by omega), if_neg (by omega), if_neg (by omega), if_pos hlast]
    · rw [if_neg (by omega)]
      by_cases hmid : i = 768
      · rw [if_pos (by omega), if_neg (by omega), if_pos (by omega), hmid]
      · rw [if_neg (by omega)]
        by_cases hz : i = 0
        · rw [if_pos (by omega), if_pos hz]
        · rw [if_neg (by omega), if_neg hz, if_neg (by omega), if_neg hlast]

theorem setup_page_table (ram : Ram) (g j : Nat) (hg : g ≠ PAGE_DIR_FRAME) :
    setup_page ram g j = if g = kernelTable 768 ∧ j < 256 then entry j else ram g j := by
  have h0 : (0 ||| PG_ATTR : UInt32) = entry 0 := by decide
  unfold setup_page create_kernel_pde create_pte
  simp only [fill_entries_apply, Ram.set_apply, hg, false_and, if_false, h0, Ram.zero_of_ne _ _ _ hg]
  by_cases hj : g = kernelTable 768 ∧ j < 256
  · rw [if_pos ⟨hj.1, by omega, by omega⟩, if_pos hj, entry_step _ _ (by omega)]
    congr 1
    omega
  · rw [if_neg (fun hh => hj ⟨hh.1, by omega⟩), if_neg hj]

/-- The loops of the loader in closed form. -/
theorem setup_page_eq (ram : Ram) : setup_page ram = bootTables ram := by
  funext g j
  unfold bootTables
  by_cases hg : g = PAGE_DIR_FRAME
  · rw [if_pos hg, hg, setup_page_dir]
  · rw [if_neg hg, setup_page_table ram g j hg]

/-! ## The pools of `mem_pool_init` -/

/-- The pages of the kernel half that are mapped at boot. The loader does not clear the tables behind
entries 769 to 1022, so what they hold is mapped too. -/
def bootPages (ram : Ram) (v : Nat) : Prop :=
  0xc0000 ≤ v ∧ v < 0xffc00 ∧ frameAt (setup_page ram) PAGE_DIR_FRAME v ≠ none

theorem bitmap_init_test (btmp : Bitmap) (i : Nat) (hi : i < 8 * (bitmap_init btmp).btmp_bytes_len) :
    bitmap_scan_test (bitmap_init btmp) i = false := by
  change i < 8 * btmp.btmp_bytes_len at hi
  rw [bitmap_scan_test_eq, bitmap_init]
  dsimp only
  rw [if_pos (by omega)]
  simp

/-- The free pages as `mem_pool_init` counts them, in 16 bits. -/
def freePages (all_mem : UInt32) : Nat := ((all_mem - (PG_SIZE * 256 + 0x100000)) / PG_SIZE).toUInt16.toNat

/-- Two pools and the addresses of the kernel, for `n` free pages. -/
structure PoolsOf (n : Nat) (kernel user : Pool) (heap : VirtualAddr) : Prop where
  kernel_start : kernel.phy_addr_start.toNat = 0x200000
  kernel_size : kernel.pool_size.toNat = n / 2 * 4096
  kernel_len : kernel.pool_bitmap.btmp_bytes_len = n / 2 / 8
  user_start : user.phy_addr_start.toNat = 0x200000 + n / 2 * 4096
  user_size : user.pool_size.toNat = (n - n / 2) * 4096
  user_len : user.pool_bitmap.btmp_bytes_len = (n - n / 2) / 8
  heap_start : heap.vaddr_start = K_HEAP_START
  heap_len : heap.vaddr_bitmap.btmp_bytes_len = n / 2 / 8

theorem mem_pool_init_pools (all_mem : UInt32) (bits : Fin 3 → Nat → UInt8) :
    PoolsOf (freePages all_mem) (mem_pool_init all_mem bits).1 (mem_pool_init all_mem bits).2.1
      (mem_pool_init all_mem bits).2.2 := by
  unfold mem_pool_init bitmap_init freePages
  dsimp only
  generalize ((all_mem - (PG_SIZE * 256 + 0x100000)) / PG_SIZE).toUInt16 = pages
  have hpages := pages.toNat_lt
  have hk : (pages / 2).toNat = pages.toNat / 2 := UInt16.toNat_div _ _
  have hk8 : (pages / 2 / 8).toNat = pages.toNat / 2 / 8 := by
    rw [UInt16.toNat_div, hk]
    rfl
  have hu : (pages - pages / 2).toNat = pages.toNat - pages.toNat / 2 := by
    rw [UInt16.toNat_sub, hk]
    omega
  refine ⟨rfl, ?_, hk8, ?_, ?_, ?_, rfl, hk8⟩
  · rw [UInt32.toNat_mul, UInt16.toNat_toUInt32, hk]
    change pages.toNat / 2 * 4096 % 2 ^ 32 = _
    omega
  · rw [UInt32.toNat_add, UInt32.toNat_mul, UInt16.toNat_toUInt32, hk]
    change (0x200000 + pages.toNat / 2 * 4096 % 2 ^ 32) % 2 ^ 32 = _
    omega
  · rw [UInt32.toNat_mul, UInt16.toNat_toUInt32, hu]
    change (pages.toNat - pages.toNat / 2) * 4096 % 2 ^ 32 = _
    omega
  · rw [UInt16.toNat_div, hu]
    rfl

theorem freePages_lt (all_mem : UInt32) : freePages all_mem < 2 ^ 16 := UInt16.toNat_lt _

theorem mem_pool_init_sizes (all_mem : UInt32) (bits : Fin 3 → Nat → UInt8) :
    ∃ kernel < 2 ^ 15,
      (mem_pool_init all_mem bits).1.phy_addr_start.toNat = 0x200 * 2 ^ 12 ∧
      8 * (mem_pool_init all_mem bits).1.pool_bitmap.btmp_bytes_len ≤ kernel ∧
      (mem_pool_init all_mem bits).2.1.phy_addr_start.toNat = (0x200 + kernel) * 2 ^ 12 ∧
      8 * (mem_pool_init all_mem bits).2.1.pool_bitmap.btmp_bytes_len ≤ 2 ^ 15 ∧
      8 * (mem_pool_init all_mem bits).2.2.vaddr_bitmap.btmp_bytes_len ≤ kernel ∧
      (mem_pool_init all_mem bits).2.2.vaddr_start = K_HEAP_START := by
  have hn := freePages_lt all_mem
  have h := mem_pool_init_pools all_mem bits
  generalize freePages all_mem = n at hn h
  refine ⟨n / 2, by omega, h.kernel_start, ?_, ?_, ?_, ?_, h.heap_start⟩
  · rw [h.kernel_len]
    omega
  · rw [h.user_start]
    omega
  · rw [h.user_len]
    omega
  · rw [h.heap_len]
    omega

theorem mem_init_layout (ram : Ram) (all_mem : UInt32) (bits : Fin 3 → Nat → UInt8) (main : Tid) :
    Layout (mem_init ram all_mem bits main) := by
  obtain ⟨kernel, hlt, hks, hkl, hus, hul, hvl, hvs⟩ := mem_pool_init_sizes all_mem bits
  have hkp : (mem_init ram all_mem bits main).pool .PF_KERNEL = (mem_pool_init all_mem bits).1 := by
    simp only [mem_init, Mm.pool]
  have hup : (mem_init ram all_mem bits main).pool .PF_USER = (mem_pool_init all_mem bits).2.1 := by
    simp only [mem_init, Mm.pool]
  have hva : (mem_init ram all_mem bits main).kernel_vaddr = (mem_pool_init all_mem bits).2.2 := by
    simp only [mem_init]
  refine ⟨fun pf => ?_, fun pf => ?_, fun pf => ?_, ?_, ?_, fun t => .inl ?_⟩
  · cases pf
    · rw [hkp, hks]
      omega
    · rw [hup, hus]
      omega
  · unfold Pool.first
    cases pf
    · rw [hkp, hks]
      omega
    · rw [hup, hus]
      omega
  · unfold Pool.first
    cases pf
    · rw [hkp, hks]
      omega
    · rw [hup, hus]
      omega
  · show ((mem_init ram all_mem bits main).pool .PF_KERNEL).first +
      8 * ((mem_init ram all_mem bits main).pool .PF_KERNEL).pool_bitmap.btmp_bytes_len ≤
        ((mem_init ram all_mem bits main).pool .PF_USER).first
    unfold Pool.first
    rw [hkp, hks, hup, hus]
    omega
  · rw [hva]
    exact ⟨hvs, by omega⟩
  · simp only [mem_init]

theorem mem_init_unused (ram : Ram) (all_mem : UInt32) (bits : Fin 3 → Nat → UInt8) (main : Tid) (pf : PoolFlags)
    (p : Nat) : ¬ ((mem_init ram all_mem bits main).pool pf).Used p := by
  rintro ⟨i, hi, -, ht⟩
  cases pf with
  | PF_KERNEL =>
    simp only [mem_init, Mm.pool, mem_pool_init] at hi ht
    rw [bitmap_init_test _ i hi] at ht
    cases ht
  | PF_USER =>
    simp only [mem_init, Mm.pool, mem_pool_init] at hi ht
    rw [bitmap_init_test _ i hi] at ht
    cases ht

theorem mem_init_frames (ram : Ram) (all_mem : UInt32) (bits : Fin 3 → Nat → UInt8) (main : Tid) :
    Frames (bootPages ram) [PAGE_DIR_FRAME] [] (mem_init ram all_mem bits main) := by
  have hram : (mem_init ram all_mem bits main).ram = setup_page ram := by simp only [mem_init]
  have hdir : ∀ i, setup_page ram PAGE_DIR_FRAME i = bootDir i := setup_page_dir ram
  unfold bootDir at hdir
  have hnone : ∀ i, 0 < i → i < 768 → target (setup_page ram PAGE_DIR_FRAME i) = none := by
    intro i h1 h2
    rw [hdir, if_neg (by omega), if_neg (by omega), if_neg (by omega), target_zero]
  have hrole : ∀ p r, ¬ HasRole (bootPages ram) [PAGE_DIR_FRAME] (setup_page ram) p r := by
    intro p r hr
    cases r with
    | kernel_page v =>
      obtain ⟨hb, h1, h2, hf⟩ := hr
      exact hb ⟨h1, h2, by rw [hf]; simp⟩
    | user_page d v =>
      obtain ⟨hd, h1, h2, hf⟩ := hr
      obtain ⟨t, ht, -⟩ := (frameAt_some _ _ _ _).mp hf
      rw [List.mem_singleton.mp hd, hnone _ (by omega) (by omega)] at ht
      cases ht
    | page_table d i =>
      obtain ⟨hd, h1, h2, ht⟩ := hr
      rw [List.mem_singleton.mp hd, hnone _ (by omega) h2] at ht
      cases ht
  have htab : ∀ j < 256, setup_page ram (kernelTable 768) j = entry j := by
    intro j hj
    rw [setup_page_table ram _ j (by decide), if_pos ⟨rfl, hj⟩]
  refine { spaces := ?_, layout := mem_init_layout ram all_mem bits main, active := ?_, pgdir := ?_, used := ?_,
           role := ?_, held := by simp }
  · rw [hram]
    refine { boot := List.mem_singleton_self _, self := ?_, kernel := ?_, low := ?_, first := ?_, identity := htab,
             mapped := fun v hv => hv, high := fun p r hr => absurd hr (hrole p r),
             dir_role := fun d hd => .inl (List.mem_singleton.mp hd),
             unique := fun p r _ hr => absurd hr (hrole p r) }
    · intro d hd
      rw [List.mem_singleton.mp hd, hdir, if_neg (by omega), if_neg (by omega), if_pos rfl]
    · intro d hd i h1 h2
      rw [List.mem_singleton.mp hd, hdir, if_neg (by omega), if_pos ⟨h1, h2⟩]
    · intro d hd i hi hne
      have hd := List.mem_singleton.mp hd
      refine ⟨hd, ?_⟩
      by_contra hpos
      rw [hd] at hne
      exact hne (hnone i (by omega) (by omega))
    · rw [hdir, if_pos rfl]
  · show frameOf _ ∈ _
    simp only [mem_init]
    decide
  · intro t ht
    simp only [mem_init, ne_eq, not_true_eq_false] at ht
  · rw [hram]
    exact fun p r hr => absurd hr (hrole p r)
  · exact fun pf p hu => absurd hu (mem_init_unused ram all_mem bits main pf p)

end OsLearn
