import OsLearn.Memory.Access
import OsLearn.Memory.Scan
import OsLearn.Memory.Directories

/-!
# The recursive window

`pte_ptr` and `pde_ptr` against the walk of the processor, and what `page_table_add` does through them.
-/

namespace OsLearn

/-- The physical address of entry `i` of the table in frame `t`. -/
def entryAddr (t i : Nat) : Nat := t * 2 ^ 12 + 4 * i

theorem physical_some (ram : Ram) (dir : Nat) (v : UInt32) (a : Nat) :
    physical ram dir v = some a ↔ ∃ f, walk ram dir v = some f ∧ a = f * 2 ^ 12 + v.toNat % 2 ^ 12 := by
  unfold physical
  rw [Option.map_eq_some_iff]
  exact exists_congr fun f => and_congr_right fun _ => eq_comm

/-- The processor finds the directory entry of `v` where `pde_ptr` says, its table entry where `pte_ptr`
says, and `v` itself where `addr_v2p` says. -/
structure WindowAgrees (s : Mm) (v : UInt32) : Prop where
  pde : physical s.ram s.dir (pde_ptr v) = some (entryAddr s.dir (v.toNat / 2 ^ 22))
  pte : present (s.ram s.dir (v.toNat / 2 ^ 22)) = true → physical s.ram s.dir (pte_ptr v) =
    some (entryAddr (frameOf (s.ram s.dir (v.toNat / 2 ^ 22))) (v.toNat / 2 ^ 12 % 2 ^ 10))
  v2p : ∀ a, physical s.ram s.dir v = some a → ∃ w, addr_v2p s v = .ok w ∧ w.toNat = a

/-- **The window agrees with the processor**, for every address, those in the window included. -/
theorem window_agrees (s : Mm) (h : SelfMap s.ram s.dir) (v : UInt32) : WindowAgrees s v := by
  have hv := v.toNat_lt
  refine ⟨?_, fun hp => ?_, fun a ha => ?_⟩
  · have haddr := pde_ptr_toNat v
    refine (physical_some _ _ _ _).mpr ⟨_, (walk_pde_ptr s.ram s.dir v h).1, ?_⟩
    unfold entryAddr
    omega
  · have haddr := pte_ptr_toNat v
    refine (physical_some _ _ _ _).mpr ⟨_, (walk_pte_ptr s.ram s.dir v h hp).1, ?_⟩
    unfold entryAddr
    omega
  · obtain ⟨f, hf, rfl⟩ := (physical_some _ _ _ _).mp ha
    rw [walk_eq] at hf
    exact addr_v2p_eq s v f h hf

theorem window_agrees_boot : WindowAgrees (zeroMemory 0x210000) 0xc0001500 := by
  refine window_agrees _ ?_ _
  rw [zeroMemory_eq]
  exact ⟨by decide +kernel, by decide +kernel⟩

/-! ## Translation with the access rights -/

/-- The physical address, and the rights that both entries give. -/
def access (ram : Ram) (dir : Nat) (v : UInt32) : Option (Nat × UInt32) :=
  let pde := ram dir (v.toNat / 2 ^ 22)
  (target pde).bind fun t =>
    let pte := ram t (v.toNat / 2 ^ 12 % 2 ^ 10)
    (target pte).map fun f => (f * 2 ^ 12 + v.toNat % 2 ^ 12, pde &&& pte &&& PG_ATTR)

theorem access_physical (ram : Ram) (dir : Nat) (v : UInt32) : (access ram dir v).map Prod.fst = physical ram dir v := by
  have hi : v.toNat / 2 ^ 12 / 2 ^ 10 = v.toNat / 2 ^ 22 := by omega
  unfold access physical
  rw [walk_eq, frameAt, hi]
  dsimp only
  cases target (ram dir (v.toNat / 2 ^ 22)) with
  | none => rfl
  | some t =>
    rw [Option.bind_some, Option.bind_some, Option.map_map]
    rfl

/-- An access depends on the two entries that the walk reads. -/
theorem access_congr (ram ram' : Ram) (dir : Nat) (v : UInt32)
    (hpde : ram' dir (v.toNat / 2 ^ 22) = ram dir (v.toNat / 2 ^ 22))
    (hpte : ∀ t, target (ram dir (v.toNat / 2 ^ 22)) = some t →
      ram' t (v.toNat / 2 ^ 12 % 2 ^ 10) = ram t (v.toNat / 2 ^ 12 % 2 ^ 10)) :
    access ram' dir v = access ram dir v := by
  unfold access
  rw [hpde]
  dsimp only
  cases ht : target (ram dir (v.toNat / 2 ^ 22)) with
  | none => rfl
  | some t => rw [Option.bind_some, Option.bind_some, hpte t ht]

theorem entry_attr (p : Nat) : entry p &&& PG_ATTR = PG_ATTR := by
  apply UInt32.toNat_inj.mp
  unfold entry
  rw [UInt32.toNat_and, UInt32.toNat_or]
  apply Nat.eq_of_testBit_eq
  intro i
  rw [Nat.testBit_and, Nat.testBit_or]
  cases PG_ATTR.toNat.testBit i
  · rw [Bool.and_false]
  · rw [Bool.or_true, Bool.and_true]

theorem access_entries (ram : Ram) (dir : Nat) (v : UInt32) (t p : Nat) (hp : p < 2 ^ 20)
    (hpde : target (ram dir (v.toNat / 2 ^ 22)) = some t) (hattr : ram dir (v.toNat / 2 ^ 22) &&& PG_ATTR = PG_ATTR)
    (hpte : ram t (v.toNat / 2 ^ 12 % 2 ^ 10) = entry p) :
    access ram dir v = some (p * 2 ^ 12 + v.toNat % 2 ^ 12, PG_ATTR) := by
  unfold access
  dsimp only
  rw [hpde, Option.bind_some, hpte, target_entry p hp, Option.map_some, UInt32.and_assoc, entry_attr, hattr]

/-! ## Tables of the kind that the loader and `create_page_dir` build -/

/-- Entries 0 and 768 may have one table. -/
def SameTable (i j : Nat) : Prop := i = j ∨ i = 0 ∧ j = 768 ∨ i = 768 ∧ j = 0

structure Tables (ram : Ram) (dir : Nat) : Prop where
  self : SelfMap ram dir
  apart : ∀ i < 1023, ∀ j < 1023, ∀ t, target (ram dir i) = some t → target (ram dir j) = some t → SameTable i j
  notDir : ∀ i < 1023, target (ram dir i) ≠ some dir
  attr : ∀ i < 1023, target (ram dir i) ≠ none → ram dir i &&& PG_ATTR = PG_ATTR

/-- The clear bits of the kernel pool stand for frames that are no table. -/
def FreshFrames (s : Mm) : Prop :=
  ∀ i < s.kernel_pool.pool_bitmap.bitLen, bitmap_scan_test s.kernel_pool.pool_bitmap i = false →
    s.kernel_pool.first + i ≠ s.dir ∧ ∀ j < 1023, target (s.ram s.dir j) ≠ some (s.kernel_pool.first + i)

/-- The page of `w` is the page of `v` under its other name: entries 0 and 768 share a table. -/
def Alias (ram : Ram) (dir : Nat) (v w : UInt32) : Prop :=
  v.toNat / 2 ^ 12 % 2 ^ 10 = w.toNat / 2 ^ 12 % 2 ^ 10 ∧
    (v.toNat / 2 ^ 22 = 0 ∧ w.toNat / 2 ^ 22 = 768 ∨ v.toNat / 2 ^ 22 = 768 ∧ w.toNat / 2 ^ 22 = 0) ∧
      ∃ t, target (ram dir 0) = some t ∧ target (ram dir 768) = some t

/-- The page of `v` is mapped to `p`, and no other page is touched. -/
structure MapsOnly (s : Mm) (v p : UInt32) (s' : Mm) : Prop where
  dir : s'.dir = s.dir
  here : ∀ w : UInt32, w.toNat / 2 ^ 12 = v.toNat / 2 ^ 12 →
    access s'.ram s'.dir w = some (p.toNat + w.toNat % 2 ^ 12, PG_ATTR)
  rest : ∀ w : UInt32, w < 0xffc00000 → w.toNat / 2 ^ 12 ≠ v.toNat / 2 ^ 12 → ¬ Alias s.ram s.dir v w →
    access s'.ram s'.dir w = access s.ram s.dir w
  table : target (s.ram s.dir (v.toNat / 2 ^ 22)) = none → ∃ i < s.kernel_pool.pool_bitmap.bitLen,
    bitmap_scan_test s.kernel_pool.pool_bitmap i = false ∧
      s'.kernel_pool.pool_bitmap = bitmap_set s.kernel_pool.pool_bitmap i true ∧
      target (s'.ram s'.dir (v.toNat / 2 ^ 22)) = some (s.kernel_pool.first + i) ∧
      ∀ w : UInt32, w.toNat / 2 ^ 22 = v.toNat / 2 ^ 22 → w.toNat / 2 ^ 12 ≠ v.toNat / 2 ^ 12 →
        walk s'.ram s'.dir w = none
  tables : Tables s'.ram s'.dir

/-! ## An entry in a table that is there -/

section

variable (ram : Ram) (dir : Nat) (v : UInt32) (t : Nat) (e : UInt32) (h : Tables ram dir)
  (hv : v.toNat / 2 ^ 22 < 1023) (ht : target (ram dir (v.toNat / 2 ^ 22)) = some t)

include h hv ht

theorem Tables.set_dir (j : Nat) : ram.set t j e dir = ram dir :=
  Ram.set_of_ne _ _ _ _ _ fun heq => h.notDir _ hv (heq ▸ ht)

theorem Tables.set (j : Nat) : Tables (ram.set t j e) dir := by
  have hdir := h.set_dir ram dir v t e hv ht j
  refine ⟨⟨?_, ?_⟩, ?_, ?_, ?_⟩ <;> rw [hdir]
  · exact h.self.here
  · exact h.self.frame
  · exact h.apart
  · exact h.notDir
  · exact h.attr

theorem Tables.set_here (p : Nat) (hp : p < 2 ^ 20) (w : UInt32) (hw : w.toNat / 2 ^ 12 = v.toNat / 2 ^ 12) :
    access (ram.set t (v.toNat / 2 ^ 12 % 2 ^ 10) (entry p)) dir w = some (p * 2 ^ 12 + w.toNat % 2 ^ 12, PG_ATTR) := by
  have hdir := h.set_dir ram dir v t (entry p) hv ht (v.toNat / 2 ^ 12 % 2 ^ 10)
  have hi : w.toNat / 2 ^ 22 = v.toNat / 2 ^ 22 := by omega
  refine access_entries _ dir w t p hp ?_ ?_ ?_
  · rw [hdir, hi, ht]
  · rw [hdir, hi]
    exact h.attr _ hv (by rw [ht]; simp)
  · rw [hw, Ram.set_apply, if_pos ⟨rfl, rfl⟩]

theorem Tables.set_rest (w : UInt32) (hw : w.toNat / 2 ^ 22 < 1023) (hne : w.toNat / 2 ^ 12 ≠ v.toNat / 2 ^ 12)
    (halias : ¬ Alias ram dir v w) :
    access (ram.set t (v.toNat / 2 ^ 12 % 2 ^ 10) e) dir w = access ram dir w := by
  have hdir := h.set_dir ram dir v t e hv ht (v.toNat / 2 ^ 12 % 2 ^ 10)
  apply access_congr
  · rw [hdir]
  · intro u hu
    rw [Ram.set_apply, if_neg]
    rintro ⟨rfl, hj⟩
    -- one table behind two entries: it is the pair 0 and 768
    rcases h.apart _ hv _ hw u ht hu with heq | ⟨h0, h768⟩ | ⟨h768, h0⟩
    · omega
    · exact halias ⟨hj.symm, .inl ⟨h0, h768⟩, u, by rw [← h0, ht], by rw [← h768, hu]⟩
    · exact halias ⟨hj.symm, .inr ⟨h768, h0⟩, u, by rw [← h0, hu], by rw [← h768, ht]⟩

end

/-! ## A table that is new -/

section

variable (ram : Ram) (dir i t : Nat) (h : Tables ram dir) (hi : i < 1023) (hnone : target (ram dir i) = none)
  (hlt : t < 2 ^ 20) (htd : t ≠ dir) (hfresh : ∀ j < 1023, target (ram dir j) ≠ some t)

include htd

theorem newTable_dir (k : Nat) : (ram.set dir i (entry t)).zero t dir k = if k = i then entry t else ram dir k := by
  rw [Ram.zero_of_ne _ _ _ htd.symm, Ram.set_apply]
  simp only [true_and]

include h hi hlt hfresh

theorem Tables.newTable : Tables ((ram.set dir i (entry t)).zero t) dir := by
  have hdir := newTable_dir ram dir i t htd
  have hold : ∀ k < 1023, ∀ u, target ((ram.set dir i (entry t)).zero t dir k) = some u →
      k = i ∧ u = t ∨ u ≠ t ∧ target (ram dir k) = some u := by
    intro k hk u hu
    rw [hdir] at hu
    split at hu
    · rename_i heq
      rw [target_entry t hlt] at hu
      exact .inl ⟨heq, (Option.some.inj hu).symm⟩
    · exact .inr ⟨fun heq => hfresh k hk (heq ▸ hu), hu⟩
  refine ⟨⟨?_, ?_⟩, fun k hk l hl u hu hu' => ?_, fun k hk hu => ?_, fun k hk hne => ?_⟩
  · rw [hdir, if_neg (by omega)]
    exact h.self.here
  · rw [hdir, if_neg (by omega)]
    exact h.self.frame
  · rcases hold k hk u hu with ⟨rfl, rfl⟩ | ⟨hne, hu⟩ <;> rcases hold l hl _ hu' with ⟨rfl, heq⟩ | ⟨hne', hu'⟩
    · exact .inl rfl
    · exact absurd rfl hne'
    · exact absurd heq hne
    · exact h.apart k hk l hl u hu hu'
  · rcases hold k hk dir hu with ⟨-, heq⟩ | ⟨-, hu⟩
    · exact htd heq.symm
    · exact h.notDir k hk hu
  · rw [hdir] at hne ⊢
    split at hne
    · rename_i heq
      rw [if_pos heq]
      exact entry_attr t
    · rename_i heq
      rw [if_neg heq]
      exact h.attr k hk hne

omit hi in
include hnone in
/-- The new table is empty, and no other is touched. -/
theorem Tables.newTable_access (w : UInt32) (hw : w.toNat / 2 ^ 22 < 1023) :
    access ((ram.set dir i (entry t)).zero t) dir w = access ram dir w := by
  have hdir := newTable_dir ram dir i t htd
  by_cases heq : w.toNat / 2 ^ 22 = i
  · unfold access
    dsimp only
    rw [hdir, heq, if_pos rfl, target_entry t hlt, hnone, Option.bind_some, Option.bind_none, Ram.zero_self,
      target_zero, Option.map_none]
  · apply access_congr
    · rw [hdir, if_neg heq]
    · intro u hu
      have hut : u ≠ t := fun h' => hfresh _ hw (h' ▸ hu)
      have hud : u ≠ dir := fun h' => h.notDir _ hw (h' ▸ hu)
      rw [Ram.zero_of_ne _ _ _ hut, Ram.set_of_ne _ _ _ _ _ hud]

end

/-! ## `page_table_add` -/

theorem page_table_add_old (ndebug : Bool) (s : Mm) (v p : UInt32) (t : Nat) (hself : SelfMap s.ram s.dir)
    (ht : target (s.ram s.dir (v.toNat / 2 ^ 22)) = some t)
    (hnone : target (s.ram t (v.toNat / 2 ^ 12 % 2 ^ 10)) = none) :
    page_table_add ndebug s v p = .ok (s.withRam (s.ram.set t (v.toNat / 2 ^ 12 % 2 ^ 10) (p ||| PG_ATTR))) := by
  have hclear : ¬ s.ram t (v.toNat / 2 ^ 12 % 2 ^ 10) &&& 1 ≠ 0 := by
    rw [and_one_iff, hnone]
    simp
  have hthere : s.ram s.dir (v.toNat / 2 ^ 22) &&& 1 ≠ 0 := by
    rw [and_one_iff, ht]
    simp
  unfold page_table_add
  simp only [s.load_pde v hself, s.load_pte v hself t ht, bind, Except.bind]
  rw [if_pos hthere, ASSERT_in_of _ _ _ hclear]
  dsimp only
  rw [if_neg hclear]
  exact s.store_pte v hself t ht _

theorem palloc_some (ndebug : Bool) (s : Mm) (pf : PoolFlags) (h : ¬ (s.pool pf).pool_bitmap.Full) :
    ∃ i < (s.pool pf).pool_bitmap.bitLen, bitmap_scan_test (s.pool pf).pool_bitmap i = false ∧
      palloc ndebug s pf = .ok (UInt32.ofNat i * PG_SIZE + (s.pool pf).phy_addr_start, s.take pf i) := by
  rcases bitmap_scan_first ndebug _ 1 (by omega) h with ⟨i, hs, hrun, hle, -⟩ | ⟨hs, -⟩
  · refine ⟨i, hle, hrun 0 (by omega), ?_⟩
    unfold palloc
    dsimp only
    rw [hs]
    rfl
  · exact absurd (not_not.mp (mt (full_iff_no_run _).mpr h)) (bitmap_scan_none ndebug _ 1 (by omega) hs)

/-- The table entry is written, after a new table has been put behind an empty directory entry. -/
theorem page_table_add_new (ndebug : Bool) (s : Mm) (v p : UInt32) (h : SelfMap s.ram s.dir) (hl : Layout s)
    (hv : v.toNat / 2 ^ 22 < 1023) (hnone : target (s.ram s.dir (v.toNat / 2 ^ 22)) = none)
    (hleft : ¬ s.kernel_pool.pool_bitmap.Full) (hfresh : FreshFrames s) :
    ∃ i < s.kernel_pool.pool_bitmap.bitLen, bitmap_scan_test s.kernel_pool.pool_bitmap i = false ∧
      page_table_add ndebug s v p = .ok ((s.take .PF_KERNEL i).withRam
        (((s.ram.set s.dir (v.toNat / 2 ^ 22) (entry (s.kernel_pool.first + i))).zero (s.kernel_pool.first + i)).set
          (s.kernel_pool.first + i) (v.toNat / 2 ^ 12 % 2 ^ 10) (p ||| PG_ATTR))) := by
  obtain ⟨i, hi, hclear, hpal⟩ := palloc_some ndebug s .PF_KERNEL hleft
  have haddr := hl.phyaddr s .PF_KERNEL i hi
  have hbot := hl.bottom .PF_KERNEL
  have htop := hl.top .PF_KERNEL
  change _ = (s.kernel_pool.first + i) * 2 ^ 12 at haddr
  change 0x200 ≤ s.kernel_pool.first at hbot
  change s.kernel_pool.first + s.kernel_pool.pool_bitmap.bitLen ≤ 2 ^ 20 at htop
  change i < s.kernel_pool.pool_bitmap.bitLen at hi
  obtain ⟨hdir, htab⟩ := hfresh i hi hclear
  have hlt : s.kernel_pool.first + i < 2 ^ 20 := by omega
  have hge : ¬ s.kernel_pool.first + i < 0x100 := by omega
  have hempty : ¬ s.ram s.dir (v.toNat / 2 ^ 22) &&& 1 ≠ 0 := by
    rw [and_one_iff, hnone]
    simp
  refine ⟨i, hi, hclear, ?_⟩
  generalize s.kernel_pool.first + i = t at *
  -- the frame is taken: only the bitmap has changed
  have hram₁ : (s.take .PF_KERNEL i).ram = s.ram := s.take_ram .PF_KERNEL i
  have hdir₁ : (s.take .PF_KERNEL i).dir = s.dir := (Keeps.take s .PF_KERNEL i).dir
  generalize s.take .PF_KERNEL i = s₁ at *
  obtain ⟨s₂, hstore, hzero⟩ := s₁.store_table v t (by rw [hram₁, hdir₁]; exact h) hv hlt
  rw [if_neg hge, hram₁, hdir₁] at hzero
  have hself : SelfMap ((s.ram.set s.dir (v.toNat / 2 ^ 22) (entry t)).zero t) s.dir := by
    constructor <;> rw [newTable_dir s.ram s.dir _ t hdir, if_neg (by omega)]
    · exact h.here
    · exact h.frame
  have htarget : target ((s.ram.set s.dir (v.toNat / 2 ^ 22) (entry t)).zero t s.dir (v.toNat / 2 ^ 22)) = some t := by
    rw [newTable_dir s.ram s.dir _ t hdir, if_pos rfl, target_entry t hlt]
  have hpte : (s.ram.set s.dir (v.toNat / 2 ^ 22) (entry t)).zero t t (v.toNat / 2 ^ 12 % 2 ^ 10) = 0 :=
    Ram.zero_self _ _ _
  generalize (s.ram.set s.dir (v.toNat / 2 ^ 22) (entry t)).zero t = ram₃ at *
  have hself₃ : SelfMap (s₁.withRam ram₃).ram (s₁.withRam ram₃).dir := by
    rw [s₁.withRam_ram, s₁.withRam_dir, hdir₁]
    exact hself
  have htarget₃ : target ((s₁.withRam ram₃).ram (s₁.withRam ram₃).dir (v.toNat / 2 ^ 22)) = some t := by
    rw [s₁.withRam_ram, s₁.withRam_dir, hdir₁]
    exact htarget
  have hload : (s₁.withRam ram₃).load (pte_ptr v) = .ok 0 := by
    rw [Mm.load_pte _ v hself₃ t htarget₃, s₁.withRam_ram, hpte]
  unfold page_table_add
  simp only [s.load_pde v h, bind, Except.bind]
  rw [if_neg hempty, hpal]
  dsimp only
  rw [or_PG_ATTR _ t haddr, hstore]
  dsimp only
  rw [hzero]
  dsimp only
  rw [hload]
  dsimp only
  rw [ASSERT_in_of _ _ _ (by decide)]
  exact Mm.store_pte _ v hself₃ t htarget₃ _

theorem walk_of_access (ram : Ram) (dir : Nat) (v : UInt32) : walk ram dir v = none ↔ access ram dir v = none := by
  rw [← Option.map_eq_none_iff (f := Prod.fst), access_physical]
  unfold physical
  rw [Option.map_eq_none_iff]

section

variable (ndebug : Bool) (s : Mm) (v p : UInt32) (h : Tables s.ram s.dir) (hv : v.toNat / 2 ^ 22 < 1023)
  (hp : p.toNat % 2 ^ 12 = 0)

include h hv hp

theorem Tables.maps_old (t : Nat) (ht : target (s.ram s.dir (v.toNat / 2 ^ 22)) = some t) :
    MapsOnly s v p (s.withRam (s.ram.set t (v.toNat / 2 ^ 12 % 2 ^ 10) (p ||| PG_ATTR))) := by
  have hpl := p.toNat_lt
  have hpf : p.toNat = p.toNat / 2 ^ 12 * 2 ^ 12 := by omega
  refine ⟨rfl, fun w hw => ?_, fun w hw hne halias => ?_, fun hno => ?_, ?_⟩
  · have hset := h.set_here s.ram s.dir v t hv ht (p.toNat / 2 ^ 12) (by omega) w hw
    rw [← hpf] at hset
    rw [or_PG_ATTR p _ hpf]
    exact hset
  · rw [UInt32.lt_iff_toNat_lt] at hw
    change w.toNat < 0xffc00000 at hw
    exact h.set_rest s.ram s.dir v t _ hv ht w (by omega) hne halias
  · rw [ht] at hno
    cases hno
  · exact h.set s.ram s.dir v t _ hv ht _

theorem Tables.maps_new (s₁ : Mm) (i t : Nat) (hs₁ : s₁.dir = s.dir) (hi : i < s.kernel_pool.pool_bitmap.bitLen)
    (hclear : bitmap_scan_test s.kernel_pool.pool_bitmap i = false)
    (hbit : s₁.kernel_pool.pool_bitmap = bitmap_set s.kernel_pool.pool_bitmap i true)
    (hfirst : s.kernel_pool.first + i = t) (hlt : t < 2 ^ 20) (htd : t ≠ s.dir)
    (hnone : target (s.ram s.dir (v.toNat / 2 ^ 22)) = none) (hfresh : ∀ j < 1023, target (s.ram s.dir j) ≠ some t) :
    MapsOnly s v p (s₁.withRam (((s.ram.set s.dir (v.toNat / 2 ^ 22) (entry t)).zero t).set t
      (v.toNat / 2 ^ 12 % 2 ^ 10) (p ||| PG_ATTR))) := by
  have hpl := p.toNat_lt
  have hpf : p.toNat = p.toNat / 2 ^ 12 * 2 ^ 12 := by omega
  have hnew := h.newTable s.ram s.dir _ t hv hlt htd hfresh
  have hsame := h.newTable_access s.ram s.dir _ t hnone hlt htd hfresh
  have hentries := newTable_dir s.ram s.dir (v.toNat / 2 ^ 22) t htd
  generalize (s.ram.set s.dir (v.toNat / 2 ^ 22) (entry t)).zero t = ram₁ at *
  have htarget : target (ram₁ s.dir (v.toNat / 2 ^ 22)) = some t := by
    rw [hentries, if_pos rfl, target_entry t hlt]
  -- the new table is behind one entry only: the page has no second name
  have halone : ∀ k < 1023, k ≠ v.toNat / 2 ^ 22 → target (ram₁ s.dir k) ≠ some t := by
    intro k hk hne
    rw [hentries, if_neg hne]
    exact hfresh k hk
  have halias : ∀ w, ¬ Alias ram₁ s.dir v w := by
    rintro w ⟨-, ⟨hv0, -⟩ | ⟨hv768, -⟩, u, h0, h768⟩
    · rw [hv0, h0] at htarget
      exact halone 768 (by omega) (by omega) (h768.trans htarget)
    · rw [hv768, h768] at htarget
      exact halone 0 (by omega) (by omega) (h0.trans htarget)
  have hrest : ∀ w : UInt32, w.toNat / 2 ^ 22 < 1023 → w.toNat / 2 ^ 12 ≠ v.toNat / 2 ^ 12 →
      access (ram₁.set t (v.toNat / 2 ^ 12 % 2 ^ 10) (p ||| PG_ATTR)) s.dir w = access s.ram s.dir w := by
    intro w hw hne
    rw [hnew.set_rest ram₁ s.dir v t _ hv htarget w hw hne (halias w), hsame w hw]
  refine ⟨hs₁, fun w hw => ?_, fun w hw hne _ => ?_, fun _ => ⟨i, hi, hclear, hbit, ?_, fun w hw hne => ?_⟩, ?_⟩ <;>
    rw [s₁.withRam_ram, s₁.withRam_dir, hs₁]
  · have hset := hnew.set_here ram₁ s.dir v t hv htarget (p.toNat / 2 ^ 12) (by omega) w hw
    rw [← hpf] at hset
    rw [or_PG_ATTR p _ hpf]
    exact hset
  · rw [UInt32.lt_iff_toNat_lt] at hw
    change w.toNat < 0xffc00000 at hw
    exact hrest w (by omega) hne
  · rw [hnew.set_dir ram₁ s.dir v t _ hv htarget, htarget, hfirst]
  · rw [walk_of_access, hrest w (by omega) hne]
    unfold access
    dsimp only
    rw [hw, hnone, Option.bind_none]
  · exact hnew.set ram₁ s.dir v t _ hv htarget _

end

/-- **A page is mapped, and nothing else.** -/
theorem page_table_add_maps (ndebug : Bool) (s : Mm) (v p : UInt32) (h : Tables s.ram s.dir) (hl : Layout s)
    (hv : v < 0xffc00000) (hnone : walk s.ram s.dir v = none) (hp : p.toNat % 2 ^ 12 = 0)
    (hleft : ¬ s.kernel_pool.pool_bitmap.Full) (hfresh : FreshFrames s) :
    ∃ s', page_table_add ndebug s v p = .ok s' ∧ MapsOnly s v p s' := by
  rw [UInt32.lt_iff_toNat_lt] at hv
  change v.toNat < 0xffc00000 at hv
  have hvi : v.toNat / 2 ^ 22 < 1023 := by omega
  cases hpde : target (s.ram s.dir (v.toNat / 2 ^ 22)) with
  | some t =>
    have hpte : target (s.ram t (v.toNat / 2 ^ 12 % 2 ^ 10)) = none := by
      rw [walk_eq, frameAt, show v.toNat / 2 ^ 12 / 2 ^ 10 = v.toNat / 2 ^ 22 from by omega, hpde] at hnone
      exact hnone
    exact ⟨_, page_table_add_old ndebug s v p t h.self hpde hpte, h.maps_old s v p hvi hp t hpde⟩
  | none =>
    obtain ⟨i, hi, hclear, hadd⟩ := page_table_add_new ndebug s v p h.self hl hvi hpde hleft hfresh
    obtain ⟨hdir, htab⟩ := hfresh i hi hclear
    have htop := hl.top .PF_KERNEL
    change s.kernel_pool.first + s.kernel_pool.pool_bitmap.bitLen ≤ 2 ^ 20 at htop
    exact ⟨_, hadd, h.maps_new s v p hvi hp _ i _ (Keeps.take s .PF_KERNEL i).dir hi hclear rfl rfl (by omega) hdir
      hpde htab⟩

/-! ## The states of the allocator -/

theorem Spaces.tables {booted : Nat → Prop} {dirs : List Nat} (ram : Ram) (h : Spaces booted dirs ram) (d : Nat)
    (hd : d ∈ dirs) (hattr : ∀ i < 1023, target (ram d i) ≠ none → ram d i &&& PG_ATTR = PG_ATTR) : Tables ram d := by
  -- entry 0 is the only one below 32, and has the table of entry 768
  have hlow : ∀ i < 32, ∀ t, target (ram d i) = some t → i = 0 ∧ target (ram d 768) = some t := by
    intro i hi t ht
    obtain ⟨rfl, rfl⟩ := h.low d hd i hi (by rw [ht]; simp)
    rw [h.first, target_kernelTable 768 (by omega)] at ht
    rw [h.target_kernel _ 768 hd (by omega) (by omega), ht]
    exact ⟨rfl, rfl⟩
  refine ⟨h.selfMap d hd, fun i hi j hj t ht ht' => ?_, fun i hi ht => ?_, hattr⟩
  · by_cases hi32 : i < 32 <;> by_cases hj32 : j < 32
    · exact .inl ((hlow i hi32 t ht).1.trans (hlow j hj32 t ht').1.symm)
    · obtain ⟨h0, h768⟩ := hlow i hi32 t ht
      obtain ⟨heq, -⟩ := h.table_inj d 768 d j t hd hd (by omega) (by omega) (by omega) hj h768 ht'
      exact .inr (.inl ⟨h0, heq⟩)
    · obtain ⟨h0, h768⟩ := hlow j hj32 t ht'
      obtain ⟨heq, -⟩ := h.table_inj d 768 d i t hd hd (by omega) (by omega) (by omega) hi h768 ht
      exact .inr (.inr ⟨heq, h0⟩)
    · exact .inl (h.table_inj d i d j t hd hd (by omega) hi (by omega) hj ht ht').1.symm
  · by_cases hi32 : i < 32
    · obtain ⟨-, h768⟩ := hlow i hi32 d ht
      exact h.table_not_dir d 768 d hd (by omega) (by omega) h768 hd
    · exact h.table_not_dir d i d hd (by omega) hi ht hd

theorem Frames.freshFrames {booted : Nat → Prop} {dirs held : List Nat} (s : Mm) (h : Frames booted dirs held s) :
    FreshFrames s := by
  intro i hi hclear
  have hbot := h.layout.bottom .PF_KERNEL
  change 0x200 ≤ s.kernel_pool.first at hbot
  have hfresh : ∀ r, ¬ HasRole booted dirs s.ram (s.kernel_pool.first + i) r := by
    intro r hr
    obtain ⟨j, hj, heq, hset⟩ := h.used _ r hr
    obtain ⟨hpf, rfl⟩ := h.layout.same_pool s .PF_KERNEL r.pool i j hi hj heq
    rw [← hpf] at hset
    exact absurd hset (Bool.eq_false_iff.mp hclear)
  have hnt := h.spaces.fresh_not_table _ (by omega) hfresh
  refine ⟨fun heq => hnt (.inl (heq ▸ h.active)), fun j hj ht => ?_⟩
  by_cases hlow : j < 32
  · obtain ⟨hd, rfl⟩ := h.spaces.low s.dir h.active j hlow (by rw [ht]; simp)
    rw [hd, h.spaces.first, target_kernelTable 768 (by omega)] at ht
    have := Option.some.inj ht
    unfold kernelTable at this
    omega
  · exact hnt (.inr ⟨s.dir, h.active, j, by omega, hj, ht⟩)

theorem mem_init_ram (ram : Ram) (all_mem : UInt32) (bits : Fin 3 → Nat → UInt8) (main : Tid) :
    (mem_init ram all_mem bits main).ram = setup_page ram := by
  unfold mem_init
  dsimp only

theorem boot_tables (ram : Ram) : Tables (setup_page ram) PAGE_DIR_FRAME := by
  have hsp := (mem_init_frames ram 0 (fun _ _ => 0) 0).spaces
  rw [mem_init_ram] at hsp
  refine hsp.tables _ _ List.mem_cons_self fun i _ ht => ?_
  rw [setup_page_dir] at ht ⊢
  unfold bootDir at ht ⊢
  split_ifs at ht ⊢
  · exact entry_attr _
  · exact entry_attr _
  · exact entry_attr _
  · exact absurd target_zero ht

theorem page_table_add_maps_boot : ∃ s', page_table_add false (zeroMemory 0x280000) 0x8048000 0x250000 = .ok s' ∧
    MapsOnly (zeroMemory 0x280000) 0x8048000 0x250000 s' := by
  have hf := mem_init_frames (fun _ _ => 0) 0x280000 (fun _ _ => 0) 0
  have hdir : (zeroMemory 0x280000).dir = PAGE_DIR_FRAME := List.mem_singleton.mp hf.active
  have hram : (zeroMemory 0x280000).ram = setup_page fun _ _ => 0 := mem_init_ram _ _ _ _
  have hpage : (0x8048000 : UInt32).toNat / 2 ^ 12 = 0x8048 := by decide
  refine page_table_add_maps false _ _ _ ?_ hf.layout (by decide) ?_ (by decide) (fun hfull => ?_) (hf.freshFrames _)
  · rw [hdir, hram]
    exact boot_tables _
  · rw [hdir, hram, walk_eq, hpage]
    exact frameAt_boot_none _ _ (by omega) (by omega)
  · exact absurd (hfull 0 (by decide)) (by decide)

end OsLearn
