import OsLearn.Memory.Isolation

/-!
# What boot maps, and who may use it
-/

namespace OsLearn

/-! ## The map that `setup_page` leaves -/

def physical (ram : Ram) (dir : Nat) (v : UInt32) : Option Nat := (walk ram dir v).map fun f => f * 2 ^ 12 + v.toNat % 2 ^ 12

structure BootMap (ram : Ram) : Prop where
  low : ∀ v : UInt32, v < 0x100000 → physical ram PAGE_DIR_FRAME v = some v.toNat
  high : ∀ v : UInt32, v < 0x100000 → physical ram PAGE_DIR_FRAME (0xc0000000 + v) = some v.toNat
  rest : ∀ v : UInt32, v < 0xffc00000 → 0x100000 ≤ v → ¬ (0xc0000000 ≤ v ∧ v < 0xc0100000) →
    walk ram PAGE_DIR_FRAME v = none
  self : ram PAGE_DIR_FRAME 1023 = entry PAGE_DIR_FRAME

theorem frameAt_boot (ram : Ram) (page k : Nat) (hdir : bootDir (page / 2 ^ 10) = entry (kernelTable k)) (h1 : 768 ≤ k)
    (h2 : k < 1023) :
    frameAt (setup_page ram) PAGE_DIR_FRAME page =
      if k = 768 ∧ page % 2 ^ 10 < 256 then some (page % 2 ^ 10) else target (ram (kernelTable k) (page % 2 ^ 10)) := by
  have hne : kernelTable k ≠ PAGE_DIR_FRAME := by
    unfold kernelTable PAGE_DIR_FRAME
    omega
  unfold frameAt
  rw [setup_page_dir, hdir, target_kernelTable k h2, Option.bind_some, setup_page_table _ _ _ hne]
  by_cases hfirst : k = 768 ∧ page % 2 ^ 10 < 256
  · rw [if_pos hfirst, if_pos ⟨by rw [hfirst.1], hfirst.2⟩]
    exact target_entry _ (by omega)
  · rw [if_neg hfirst, if_neg]
    rintro ⟨heq, hlt⟩
    exact hfirst ⟨kernelTable_inj k 768 h1 (by omega) heq, hlt⟩

theorem bootDir_zero : bootDir 0 = entry (kernelTable 768) := rfl

theorem bootDir_kernel (i : Nat) (h1 : 768 ≤ i) (h2 : i < 1023) : bootDir i = entry (kernelTable i) := by
  unfold bootDir
  rw [if_neg (by omega), if_pos ⟨h1, h2⟩]

theorem frameAt_boot_none (ram : Ram) (page : Nat) (h0 : page / 2 ^ 10 ≠ 0) (h : page / 2 ^ 10 < 768) :
    frameAt (setup_page ram) PAGE_DIR_FRAME page = none := by
  unfold frameAt
  rw [setup_page_dir, bootDir, if_neg h0, if_neg (by omega), if_neg (by omega), target_zero, Option.bind_none]

theorem toNat_high (v : UInt32) (hv : v < 0x100000) : (0xc0000000 + v).toNat = 0xc0000000 + v.toNat := by
  rw [UInt32.lt_iff_toNat_lt] at hv
  change v.toNat < 0x100000 at hv
  rw [UInt32.toNat_add]
  show (0xc0000000 + v.toNat) % 2 ^ 32 = _
  omega

theorem physical_boot (ram : Ram) (v : UInt32) (i : Nat) (hi : bootDir i = entry (kernelTable 768))
    (h1 : i * 2 ^ 22 ≤ v.toNat) (h2 : v.toNat < i * 2 ^ 22 + 0x100000) :
    physical (setup_page ram) PAGE_DIR_FRAME v = some (v.toNat - i * 2 ^ 22) := by
  have hidx : v.toNat / 2 ^ 12 / 2 ^ 10 = i := by omega
  unfold physical
  rw [walk_eq, frameAt_boot ram _ 768 (by rw [hidx, hi]) (by omega) (by omega), if_pos ⟨rfl, by omega⟩,
    Option.map_some, Option.some.injEq]
  omega

theorem boot_rest (ram : Ram) (h : KernelTablesEmpty ram) (page : Nat) (h1 : 0x100 ≤ page) (h2 : page < 0xffc00)
    (h3 : ¬ (0xc0000 ≤ page ∧ page < 0xc0100)) : frameAt (setup_page ram) PAGE_DIR_FRAME page = none := by
  by_cases h0 : page / 2 ^ 10 = 0
  · rw [frameAt_boot ram page 768 (by rw [h0, bootDir_zero]) (by omega) (by omega), if_neg (by omega)]
    exact h 768 (by omega) (by omega) _ (by omega) (by omega)
  · by_cases hk : page / 2 ^ 10 < 768
    · exact frameAt_boot_none ram page h0 hk
    · rw [frameAt_boot ram page _ (bootDir_kernel _ (by omega) (by omega)) (by omega) (by omega), if_neg (by omega)]
      exact h _ (by omega) (by omega) _ (by omega) (by omega)

/-- **Boot paging.** The first megabyte is mapped twice and nothing else is, if and only if the tables
of the kernel half were empty before: the loader clears the directory and not the tables. -/
theorem boot_paging (ram : Ram) : BootMap (setup_page ram) ↔ KernelTablesEmpty ram := by
  constructor
  · intro h i h1 h2 j hj hfirst
    have hv : (UInt32.ofNat (i * 2 ^ 22 + j * 2 ^ 12)).toNat = i * 2 ^ 22 + j * 2 ^ 12 :=
      UInt32.toNat_ofNat_of_lt' (by show _ < 2 ^ 32; omega)
    have hnone := h.rest (UInt32.ofNat (i * 2 ^ 22 + j * 2 ^ 12))
      (by rw [UInt32.lt_iff_toNat_lt, hv]; show _ < 0xffc00000; omega)
      (by rw [UInt32.le_iff_toNat_le, hv]; show 0x100000 ≤ _; omega)
      (by
        rw [UInt32.le_iff_toNat_le, UInt32.lt_iff_toNat_lt, hv]
        show ¬ (0xc0000000 ≤ _ ∧ _ < 0xc0100000)
        omega)
    have hi : (i * 2 ^ 22 + j * 2 ^ 12) / 2 ^ 12 / 2 ^ 10 = i := by omega
    have hmod : (i * 2 ^ 22 + j * 2 ^ 12) / 2 ^ 12 % 2 ^ 10 = j := by omega
    rw [walk_eq, hv, frameAt_boot ram _ i (by rw [hi, bootDir_kernel i h1 h2]) h1 h2, hmod, if_neg (by omega)] at hnone
    exact hnone
  · intro h
    refine ⟨fun v hv => ?_, fun v hv => ?_, fun v h1 h2 h3 => ?_, ?_⟩
    · rw [UInt32.lt_iff_toNat_lt] at hv
      change v.toNat < 0x100000 at hv
      exact physical_boot ram v 0 bootDir_zero (by omega) (by omega)
    · have ha := toNat_high v hv
      rw [UInt32.lt_iff_toNat_lt] at hv
      change v.toNat < 0x100000 at hv
      rw [physical_boot ram _ 768 (bootDir_kernel 768 (by omega) (by omega)) (by omega) (by omega), ha,
        Option.some.injEq]
      omega
    · rw [UInt32.lt_iff_toNat_lt] at h1
      rw [UInt32.le_iff_toNat_le] at h2
      rw [UInt32.le_iff_toNat_le, UInt32.lt_iff_toNat_lt] at h3
      change v.toNat < 0xffc00000 at h1
      change 0x100000 ≤ v.toNat at h2
      change ¬ (0xc0000000 ≤ v.toNat ∧ v.toNat < 0xc0100000) at h3
      rw [walk_eq]
      exact boot_rest ram h _ (by omega) (by omega) (by omega)
    · rw [setup_page_dir]
      rfl

/-- Memory that starts as ones: the first page of the kernel heap is mapped already. -/
theorem boot_paging_dirty : ¬ BootMap (setup_page fun _ _ => 0xffffffff) := by
  rw [boot_paging]
  intro h
  have := h 768 (by omega) (by omega) 256 (by omega) (by omega)
  revert this
  decide

/-! ## The U/S bit -/

/-- `PG_US_U` is set in an entry that is present. -/
def forUser (e : UInt32) : Bool := present e && decide (e.toNat / 4 % 2 = 1)

/-- The processor lets privilege level 3 use the address: both entries are present and for the user. -/
def UserAccess (ram : Ram) (dir : Nat) (v : UInt32) : Prop :=
  forUser (ram dir (v.toNat / 2 ^ 22)) = true ∧
    forUser (ram (frameOf (ram dir (v.toNat / 2 ^ 22))) (v.toNat / 2 ^ 12 % 2 ^ 10)) = true

def KernelClosed (ram : Ram) (dir : Nat) : Prop := ∀ v : UInt32, 0xc0000000 ≤ v → ¬ UserAccess ram dir v

theorem forUser_entry (f : Nat) (hf : f < 2 ^ 20) : forUser (entry f) = true := by
  unfold forUser
  rw [present_entry f hf, entry_toNat f hf, Bool.true_and, decide_eq_true_iff]
  omega

theorem userAccess_of_entries (ram : Ram) (dir : Nat) (v : UInt32) (t p : Nat) (ht : t < 2 ^ 20) (hp : p < 2 ^ 20)
    (hpde : ram dir (v.toNat / 2 ^ 22) = entry t) (hpte : ram t (v.toNat / 2 ^ 12 % 2 ^ 10) = entry p) :
    UserAccess ram dir v := by
  unfold UserAccess
  rw [hpde, frameOf_entry t ht, hpte]
  exact ⟨forUser_entry t ht, forUser_entry p hp⟩

/-- **The kernel is open to the user.** In every state and under every directory, privilege level 3 can
use the first megabyte at its addresses in the kernel half, and the directory and the tables of the
kernel half through the window. -/
theorem kernel_open (ndebug : Bool) (log : List MemEvent) (s : Mm)
    (hr : Run.Reach (memSystem (mem_call ndebug) ndebug fun _ => True) inContract log s) :
    ∀ d ∈ pageDirs log s, ¬ KernelClosed s.ram d ∧
      (∀ v : UInt32, 0xc0000000 ≤ v → v < 0xc0100000 → UserAccess s.ram d v) ∧
      ∀ v : UInt32, 0xfff00000 ≤ v → UserAccess s.ram d v := by
  obtain ⟨ram, -, dirs, hinv⟩ := mem_reach _ ndebug (mem_call_keeps ndebug) _ log s hr
  have hsp := hinv.frames.spaces
  intro d hd
  have hd := (hinv.mem_dirs log s d).mpr hd
  have hdlt := (hsp.dir_range d hd).2
  have hlow : ∀ v : UInt32, 0xc0000000 ≤ v → v < 0xc0100000 → UserAccess s.ram d v := by
    intro v h1 h2
    rw [UInt32.le_iff_toNat_le] at h1
    rw [UInt32.lt_iff_toNat_lt] at h2
    change 0xc0000000 ≤ v.toNat at h1
    change v.toNat < 0xc0100000 at h2
    refine userAccess_of_entries s.ram d v (kernelTable 768) (v.toNat / 2 ^ 12 % 2 ^ 10) (by decide) (by omega) ?_
      (hsp.identity _ (by omega))
    rw [show v.toNat / 2 ^ 22 = 768 from by omega]
    exact hsp.kernel d hd 768 (by omega) (by omega)
  refine ⟨fun hclosed => hclosed 0xc0000000 (by decide) (hlow _ (by decide) (by decide)), hlow, fun v h1 => ?_⟩
  rw [UInt32.le_iff_toNat_le] at h1
  change 0xfff00000 ≤ v.toNat at h1
  have hv := v.toNat_lt
  have hpde : s.ram d (v.toNat / 2 ^ 22) = entry d := by
    rw [show v.toNat / 2 ^ 22 = 1023 from by omega]
    exact hsp.self d hd
  by_cases hlast : v.toNat / 2 ^ 12 % 2 ^ 10 = 1023
  · exact userAccess_of_entries s.ram d v d d hdlt hdlt hpde (by rw [hlast]; exact hsp.self d hd)
  · exact userAccess_of_entries s.ram d v d _ hdlt (by unfold kernelTable; omega) hpde
      (hsp.kernel d hd _ (by omega) (by omega))

theorem kernel_open_boot : UserAccess (zeroMemory 0x210000).ram PAGE_DIR_FRAME 0xfffff000 :=
  (kernel_open false [] _ (reach_zeroMemory _ _ _ trivial _) _ List.mem_cons_self).2.2 _ (by decide)

/-- The entry point of the kernel, at boot. -/
theorem kernel_not_closed : ¬ KernelClosed (zeroMemory 0x210000).ram PAGE_DIR_FRAME := by
  intro h
  refine h 0xc0001500 (by decide) ?_
  rw [zeroMemory_eq]
  unfold UserAccess
  decide +kernel

end OsLearn
