import OsLearn.Memory.Isolation

/-!
# The numbers of `mem_pool_init`

Sizes, starts and bitmaps all come from one number. It is counted in pages, in 16 bits.
-/

namespace OsLearn

theorem freePages_eq (all_mem : UInt32) (h : 0x200000 ≤ all_mem.toNat) :
    freePages all_mem = (all_mem.toNat - 0x200000) / 4096 % 2 ^ 16 := by
  have hlt := all_mem.toNat_lt
  have hfree : (all_mem - (PG_SIZE * 256 + 0x100000)).toNat = all_mem.toNat - 0x200000 := by
    rw [UInt32.toNat_sub]
    change (2 ^ 32 - 0x200000 + all_mem.toNat) % 2 ^ 32 = _
    omega
  unfold freePages
  rw [UInt32.toNat_toUInt16, UInt32.toNat_div, hfree]
  rfl

def Pool.pages (m_pool : Pool) : Nat := m_pool.pool_size.toNat / 4096

/-! ## How much memory the pools hold -/

structure NothingDropped (all_mem : UInt32) (kernel user : Pool) : Prop where
  sum : kernel.pages + user.pages = (all_mem.toNat - 0x200000) / 4096
  even : kernel.pages ≤ user.pages + 1 ∧ user.pages ≤ kernel.pages + 1
  covered : ∀ m_pool, m_pool = kernel ∨ m_pool = user →
    8 * m_pool.pool_bitmap.btmp_bytes_len ≤ m_pool.pages ∧
      m_pool.pages < 8 * m_pool.pool_bitmap.btmp_bytes_len + 8

/-- **Memory is dropped from 258 MB on**: the number of free pages no longer fits 16 bits. -/
theorem nothing_dropped (all_mem : UInt32) (bits : Fin 3 → Nat → UInt8) (h : 0x200000 ≤ all_mem) :
    NothingDropped all_mem (mem_pool_init all_mem bits).1 (mem_pool_init all_mem bits).2.1 ↔ all_mem < 0x10200000 := by
  rw [UInt32.le_iff_toNat_le] at h
  rw [UInt32.lt_iff_toNat_lt]
  change 0x200000 ≤ all_mem.toNat at h
  change _ ↔ all_mem.toNat < 0x10200000
  have hn := freePages_eq all_mem h
  have hp := mem_pool_init_pools all_mem bits
  generalize freePages all_mem = n at hn hp
  generalize mem_pool_init all_mem bits = pools at hp
  have hk : pools.1.pages = n / 2 := by
    unfold Pool.pages
    rw [hp.kernel_size]
    omega
  have hu : pools.2.1.pages = n - n / 2 := by
    unfold Pool.pages
    rw [hp.user_size]
    omega
  constructor
  · intro hd
    have := hd.sum
    rw [hk, hu] at this
    omega
  · intro hlt
    refine ⟨by rw [hk, hu]; omega, by rw [hk, hu]; omega, ?_⟩
    rintro m_pool (rfl | rfl)
    · rw [hk, hp.kernel_len]
      omega
    · rw [hu, hp.user_len]
      omega

theorem nothing_dropped_small : NothingDropped 0x2000000 (mem_pool_init 0x2000000 fun _ _ => 0).1
    (mem_pool_init 0x2000000 fun _ _ => 0).2.1 :=
  (nothing_dropped 0x2000000 _ (by decide)).mpr (by decide)

/-- At 258 MB both pools are empty. -/
theorem everything_dropped : (0x200000 : UInt32) ≤ 0x10200000 ∧ (0x10200000 : UInt32) ≤ 0x20000000 ∧
    (mem_pool_init 0x10200000 fun _ _ => 0).1.pages = 0 ∧ (mem_pool_init 0x10200000 fun _ _ => 0).2.1.pages = 0 ∧
    ¬ NothingDropped 0x10200000 (mem_pool_init 0x10200000 fun _ _ => 0).1 (mem_pool_init 0x10200000 fun _ _ => 0).2.1 := by
  have hk : (mem_pool_init 0x10200000 fun _ _ => 0).1.pages = 0 := by decide
  have hu : (mem_pool_init 0x10200000 fun _ _ => 0).2.1.pages = 0 := by decide
  refine ⟨by decide, by decide, hk, hu, fun h => ?_⟩
  have hsum := h.sum
  rw [hk, hu] at hsum
  exact absurd hsum (by decide)

/-! ## Where the pools and the bitmaps lie -/

def MEM_BITMAP_BASE : UInt32 := 0xc009a000

/-- The addresses that `bits` gets: the kernel pool, the user pool, the addresses of the kernel. -/
def bitmap_bits (kernel user : Pool) : UInt32 × UInt32 × UInt32 :=
  let kbm_length := UInt32.ofNat kernel.pool_bitmap.btmp_bytes_len
  let ubm_length := UInt32.ofNat user.pool_bitmap.btmp_bytes_len
  (MEM_BITMAP_BASE, MEM_BITMAP_BASE + kbm_length, MEM_BITMAP_BASE + kbm_length + ubm_length)

/-- The address of frame `i`, as `palloc` computes it. -/
def Pool.phyaddr (m_pool : Pool) (i : Nat) : UInt32 := UInt32.ofNat i * PG_SIZE + m_pool.phy_addr_start

/-- A page of memory that lies in the pool. -/
structure Pool.Holds (m_pool : Pool) (a : UInt32) : Prop where
  aligned : a.toNat % 4096 = 0
  start : m_pool.phy_addr_start.toNat ≤ a.toNat
  stop : a.toNat + 4096 ≤ m_pool.phy_addr_start.toNat + m_pool.pool_size.toNat

/-- The same area of memory, whatever the bits and the lock are. -/
structure Pool.SameArea (m_pool m_pool' : Pool) : Prop where
  start : m_pool'.phy_addr_start = m_pool.phy_addr_start
  size : m_pool'.pool_size = m_pool.pool_size
  len : m_pool'.pool_bitmap.btmp_bytes_len = m_pool.pool_bitmap.btmp_bytes_len

structure Mm.HasPools (s : Mm) (kernel user : Pool) : Prop where
  kernel : kernel.SameArea s.kernel_pool
  user : user.SameArea s.user_pool

structure PoolsSafe (all_mem : UInt32) (kernel user : Pool) (heap : VirtualAddr) : Prop where
  frames : ∀ m_pool, m_pool = kernel ∨ m_pool = user → ∀ i < 8 * m_pool.pool_bitmap.btmp_bytes_len,
    m_pool.Holds (m_pool.phyaddr i)
  memory : ∀ m_pool, m_pool = kernel ∨ m_pool = user →
    0x200000 ≤ m_pool.phy_addr_start.toNat ∧ m_pool.phy_addr_start.toNat + m_pool.pool_size.toNat ≤ all_mem.toNat
  apart : kernel.phy_addr_start.toNat + kernel.pool_size.toNat ≤ user.phy_addr_start.toNat
  -- the three bitmaps, one after the other, below the PCB of the main thread
  bitmaps : 0xc009a000 ≤ (bitmap_bits kernel user).1.toNat ∧
    (bitmap_bits kernel user).1.toNat + kernel.pool_bitmap.btmp_bytes_len ≤ (bitmap_bits kernel user).2.1.toNat ∧
    (bitmap_bits kernel user).2.1.toNat + user.pool_bitmap.btmp_bytes_len ≤ (bitmap_bits kernel user).2.2.toNat ∧
    (bitmap_bits kernel user).2.2.toNat + heap.vaddr_bitmap.btmp_bytes_len ≤ 0xc009e000
  heap : ∀ i < 8 * heap.vaddr_bitmap.btmp_bytes_len, 0xc0100000 ≤ (heap.vaddr_start + UInt32.ofNat i * PG_SIZE).toNat ∧
    (heap.vaddr_start + UInt32.ofNat i * PG_SIZE).toNat + 4096 ≤ 0xffc00000
  palloc : ∀ ndebug s pf a s', s.HasPools kernel user → palloc ndebug s pf = .ok (a, s') → a ≠ NULL →
    (s.pool pf).Holds a ∧ s'.HasPools kernel user

theorem Pool.holds_phyaddr (m_pool : Pool) (i : Nat) (hstart : m_pool.phy_addr_start.toNat % 4096 = 0)
    (hi : i < m_pool.pages) (htop : m_pool.phy_addr_start.toNat + m_pool.pool_size.toNat < 2 ^ 32) :
    m_pool.Holds (m_pool.phyaddr i) := by
  unfold Pool.pages at hi
  have haddr : (m_pool.phyaddr i).toNat = m_pool.phy_addr_start.toNat + i * 4096 := by
    unfold Pool.phyaddr
    rw [UInt32.toNat_add, UInt32.toNat_mul, UInt32.toNat_ofNat_of_lt' (by change i < 2 ^ 32; omega)]
    change (i * 4096 % 2 ^ 32 + _) % 2 ^ 32 = _
    omega
  refine ⟨?_, ?_, ?_⟩ <;> rw [haddr] <;> omega

theorem palloc_holds (ndebug : Bool) (s : Mm) (pf : PoolFlags) (a : UInt32) (s' : Mm)
    (h : palloc ndebug s pf = .ok (a, s')) (hne : a ≠ NULL) :
    ∃ i < 8 * (s.pool pf).pool_bitmap.btmp_bytes_len, a = (s.pool pf).phyaddr i ∧ s' = s.take pf i := by
  have hspec := bitmap_scan_spec ndebug (s.pool pf).pool_bitmap 1
  unfold palloc at h
  dsimp only at h
  generalize bitmap_scan ndebug (s.pool pf).pool_bitmap 1 = scan at hspec h
  rcases scan with e | _ | i
  · cases h
  · exact absurd (Prod.mk.inj (Except.ok.inj h)).1.symm hne
  · obtain ⟨ha, hs⟩ := Prod.mk.inj (Except.ok.inj h)
    exact ⟨i, (hspec.1 i rfl).one rfl, ha.symm, hs.symm⟩

section

variable (n : Nat) (kernel user : Pool) (heap : VirtualAddr) (hp : PoolsOf n kernel user heap) (hn : n < 2 ^ 16)

include hp hn

theorem PoolsOf.frames (m_pool : Pool) (h : m_pool = kernel ∨ m_pool = user) (i : Nat)
    (hi : i < 8 * m_pool.pool_bitmap.btmp_bytes_len) : m_pool.Holds (m_pool.phyaddr i) := by
  apply m_pool.holds_phyaddr i
  · rcases h with rfl | rfl
    · rw [hp.kernel_start]
    · rw [hp.user_start]
      omega
  · unfold Pool.pages
    rcases h with rfl | rfl
    · rw [hp.kernel_len] at hi
      rw [hp.kernel_size]
      omega
    · rw [hp.user_len] at hi
      rw [hp.user_size]
      omega
  · rcases h with rfl | rfl
    · rw [hp.kernel_start, hp.kernel_size]
      omega
    · rw [hp.user_start, hp.user_size]
      omega

theorem PoolsOf.bitmaps : 0xc009a000 ≤ (bitmap_bits kernel user).1.toNat ∧
    (bitmap_bits kernel user).1.toNat + kernel.pool_bitmap.btmp_bytes_len ≤ (bitmap_bits kernel user).2.1.toNat ∧
    (bitmap_bits kernel user).2.1.toNat + user.pool_bitmap.btmp_bytes_len ≤ (bitmap_bits kernel user).2.2.toNat ∧
    (bitmap_bits kernel user).2.2.toNat + heap.vaddr_bitmap.btmp_bytes_len ≤ 0xc009e000 := by
  have hk := hp.kernel_len
  have hu := hp.user_len
  have h1 : (MEM_BITMAP_BASE + UInt32.ofNat kernel.pool_bitmap.btmp_bytes_len).toNat =
      0xc009a000 + kernel.pool_bitmap.btmp_bytes_len := by
    rw [UInt32.toNat_add, UInt32.toNat_ofNat_of_lt' (by change _ < 2 ^ 32; omega)]
    change (0xc009a000 + _) % 2 ^ 32 = _
    omega
  have h2 : (MEM_BITMAP_BASE + UInt32.ofNat kernel.pool_bitmap.btmp_bytes_len +
      UInt32.ofNat user.pool_bitmap.btmp_bytes_len).toNat =
      0xc009a000 + kernel.pool_bitmap.btmp_bytes_len + user.pool_bitmap.btmp_bytes_len := by
    rw [UInt32.toNat_add, h1, UInt32.toNat_ofNat_of_lt' (by change _ < 2 ^ 32; omega)]
    omega
  unfold bitmap_bits
  dsimp only
  rw [h1, h2, hp.heap_len]
  change _ ≤ 0xc009a000 ∧ 0xc009a000 + _ ≤ _ ∧ _
  omega

theorem PoolsOf.heap_range (i : Nat) (hi : i < 8 * heap.vaddr_bitmap.btmp_bytes_len) :
    0xc0100000 ≤ (heap.vaddr_start + UInt32.ofNat i * PG_SIZE).toNat ∧
      (heap.vaddr_start + UInt32.ofNat i * PG_SIZE).toNat + 4096 ≤ 0xffc00000 := by
  rw [hp.heap_len] at hi
  have haddr : (heap.vaddr_start + UInt32.ofNat i * PG_SIZE).toNat = 0xc0100000 + i * 4096 := by
    rw [hp.heap_start, UInt32.toNat_add, UInt32.toNat_mul, UInt32.toNat_ofNat_of_lt' (by change i < 2 ^ 32; omega)]
    change (0xc0100000 + i * 4096 % 2 ^ 32) % 2 ^ 32 = _
    omega
  omega

omit hn in
theorem PoolsOf.same (s : Mm) (h : s.HasPools kernel user) : PoolsOf n s.kernel_pool s.user_pool heap := by
  obtain ⟨⟨hks, hkz, hkl⟩, hus, huz, hul⟩ := h
  refine ⟨?_, ?_, ?_, ?_, ?_, ?_, hp.heap_start, hp.heap_len⟩
  · rw [hks, hp.kernel_start]
  · rw [hkz, hp.kernel_size]
  · rw [hkl, hp.kernel_len]
  · rw [hus, hp.user_start]
  · rw [huz, hp.user_size]
  · rw [hul, hp.user_len]

end

theorem Mm.HasPools.take (s : Mm) (kernel user : Pool) (h : s.HasPools kernel user) (pf : PoolFlags) (i : Nat) :
    (s.take pf i).HasPools kernel user := by
  obtain ⟨⟨hks, hkz, hkl⟩, hus, huz, hul⟩ := h
  cases pf
  · exact ⟨⟨hks, hkz, hkl⟩, hus, huz, hul⟩
  · exact ⟨⟨hks, hkz, hkl⟩, hus, huz, hul⟩

/-- **The pools are safe**, for every size of memory. -/
theorem pools_safe (all_mem : UInt32) (bits : Fin 3 → Nat → UInt8) (h : 0x200000 ≤ all_mem) :
    PoolsSafe all_mem (mem_pool_init all_mem bits).1 (mem_pool_init all_mem bits).2.1
      (mem_pool_init all_mem bits).2.2 := by
  rw [UInt32.le_iff_toNat_le] at h
  change 0x200000 ≤ all_mem.toNat at h
  have hlt := freePages_lt all_mem
  have hn := freePages_eq all_mem h
  have hp := mem_pool_init_pools all_mem bits
  generalize freePages all_mem = n at hn hp hlt
  generalize mem_pool_init all_mem bits = pools at hp
  obtain ⟨kernel, user, heap⟩ := pools
  dsimp only at hp ⊢
  refine ⟨hp.frames n kernel user heap hlt, fun m_pool hm => ?_, ?_, hp.bitmaps n kernel user heap hlt,
    hp.heap_range n kernel user heap hlt, fun ndebug s pf a s' hs hpal hne => ?_⟩
  · rcases hm with rfl | rfl
    · rw [hp.kernel_start, hp.kernel_size]
      omega
    · rw [hp.user_start, hp.user_size]
      omega
  · exact Nat.le_of_eq (by rw [hp.kernel_start, hp.kernel_size, hp.user_start])
  · obtain ⟨i, hi, rfl, rfl⟩ := palloc_holds ndebug s pf a s' hpal hne
    refine ⟨(hp.same n kernel user heap s hs).frames n _ _ heap hlt _ ?_ i hi, hs.take s kernel user pf i⟩
    cases pf
    · exact .inl rfl
    · exact .inr rfl

theorem pools_safe_small : PoolsSafe 0x2000000 (mem_pool_init 0x2000000 fun _ _ => 0).1
    (mem_pool_init 0x2000000 fun _ _ => 0).2.1 (mem_pool_init 0x2000000 fun _ _ => 0).2.2 :=
  pools_safe 0x2000000 _ (by decide)

end OsLearn
