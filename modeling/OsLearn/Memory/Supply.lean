import OsLearn.Memory.Failure
import OsLearn.Memory.Window

/-!
# Calls that succeed

While there is enough left at the end of the bitmaps, the calls give pages.
-/

namespace OsLearn

/-! ## Bitmaps -/

/-- The last `n` bits are clear. -/
def Bitmap.Left (btmp : Bitmap) (n : Nat) : Prop :=
  n ≤ btmp.bitLen ∧ ∀ i, btmp.bitLen - n ≤ i → i < btmp.bitLen → bitmap_scan_test btmp i = false

theorem Bitmap.Left.scan (ndebug : Bool) (btmp : Bitmap) (n m : Nat) (h : btmp.Left (n + m)) (hn : 0 < n) :
    ∃ i, bitmap_scan ndebug btmp n = .ok (some i) ∧ i + n + m ≤ btmp.bitLen ∧ btmp.FreeRun n i := by
  obtain ⟨hle, hclear⟩ := h
  have hrun : btmp.FreeRun n (btmp.bitLen - (n + m)) := fun k hk => hclear _ (by omega) (by omega)
  have hfull : ¬ btmp.Full := by
    intro hfull
    have hfirst := hrun 0 hn
    rw [hfull _ (by omega)] at hfirst
    cases hfirst
  rcases bitmap_scan_first ndebug btmp n hn hfull with ⟨i, hscan, hfree, -, hleast⟩ | ⟨-, hnone⟩
  · have hi := hleast _ hrun
    exact ⟨i, hscan, by omega, hfree⟩
  · have hlimit := hnone _ hrun
    unfold Bitmap.limit at hlimit
    split at hlimit <;> omega

theorem Bitmap.Left.set_run (btmp : Bitmap) (n m i : Nat) (h : btmp.Left (n + m)) (hi : i + n + m ≤ btmp.bitLen) :
    (set_run btmp i n).Left m := by
  obtain ⟨hle, hclear⟩ := h
  have hlen : (OsLearn.set_run btmp i n).bitLen = btmp.bitLen := by
    unfold Bitmap.bitLen
    rw [set_run_len]
  refine ⟨by omega, fun j h1 h2 => ?_⟩
  rw [hlen] at h1 h2
  rw [set_run_test, hclear j (by omega) h2, Bool.false_or, decide_eq_false_iff_not]
  omega

theorem Bitmap.Left.full (btmp : Bitmap) (n : Nat) (h : btmp.Left (n + 1)) : ¬ btmp.Full := by
  obtain ⟨hle, hclear⟩ := h
  intro hfull
  have hlast := hclear (btmp.bitLen - 1) (by omega) (by omega)
  rw [hfull _ (by omega)] at hlast
  cases hlast

/-! ## What is left -/

/-- `k` frames of the kernel, `u` frames for the users and `h` pages of the kernel heap are left, and no
task is in a call. -/
structure Stock (s : Mm) (k u h : Nat) : Prop where
  kernel : s.kernel_pool.pool_bitmap.Left k
  user : s.user_pool.pool_bitmap.Left u
  heap : s.kernel_vaddr.vaddr_bitmap.Left h
  unmapped : ∀ i < s.kernel_vaddr.vaddr_bitmap.bitLen, bitmap_scan_test s.kernel_vaddr.vaddr_bitmap i = false →
    frameAt s.ram PAGE_DIR_FRAME (0xc0100 + i) = none
  free : ∀ pf, (s.pool pf).lock = lock_init.1 ∧ (s.pool pf).semaphore = lock_init.2

theorem Layout.heap_lt (s : Mm) (hl : Layout s) : s.kernel_vaddr.vaddr_bitmap.bitLen < 2 ^ 15 := by
  have hbytes := hl.heap.2
  unfold Bitmap.bitLen
  omega

/-- The address range that `create_user_vaddr_bitmap` gives a process. -/
def newRange : VirtualAddr :=
  { vaddr_start := USER_VADDR_START
    vaddr_bitmap := { btmp_bytes_len := user_bytes_len, bits := fun _ => 0 } }

section

variable {booted : Nat → Prop} {dirs : List Nat} (ndebug : Bool) (s : Mm) (k u h : Nat)

theorem palloc_left (pf : PoolFlags) (n : Nat) (hleft : (s.pool pf).pool_bitmap.Left (1 + n)) :
    ∃ i < (s.pool pf).pool_bitmap.bitLen, bitmap_scan_test (s.pool pf).pool_bitmap i = false ∧
      palloc ndebug s pf = .ok (UInt32.ofNat i * PG_SIZE + (s.pool pf).phy_addr_start, s.take pf i) ∧
      (bitmap_set (s.pool pf).pool_bitmap i true).Left n := by
  obtain ⟨i, hscan, hi, hfree⟩ := hleft.scan ndebug _ 1 n (by omega)
  refine ⟨i, by omega, hfree 0 (by omega), ?_, hleft.set_run _ 1 n i hi⟩
  unfold palloc
  dsimp only
  rw [hscan]
  rfl

/-! ## Pages of the kernel -/

/-- The tables of the kernel half are there: a page takes its own frame and no other. -/
theorem Frames.add_kernel_page (v a : UInt32) (lo p : Nat) (hf : Frames booted dirs [p] s)
    (ha : a.toNat = p * 2 ^ 12) (hv : v.toNat / 2 ^ 12 = lo) (h1 : 0xc0000 ≤ lo) (h2 : lo < 0xffc00)
    (hnone : frameAt s.ram PAGE_DIR_FRAME lo = none) (hu : (s.pool .PF_KERNEL).Used p) :
    ∃ ram', page_table_add ndebug s v a = .ok (s.withRam ram') ∧ Frames booted dirs [] (s.withRam ram') ∧
      ∀ w, 0xc0000 ≤ w → w < 0xffc00 →
        frameAt ram' PAGE_DIR_FRAME w = if w = lo then some p else frameAt s.ram PAGE_DIR_FRAME w := by
  have hd := hf.active
  have hidx : v.toNat / 2 ^ 22 = lo / 2 ^ 10 := by omega
  have ht := hf.spaces.target_kernel s.dir (lo / 2 ^ 10) hd (by omega) (by omega)
  have hpte : target (s.ram (kernelTable (lo / 2 ^ 10)) (lo % 2 ^ 10)) = none := by
    rw [← hf.spaces.shared s.dir lo hd h1 h2, frameAt, ht] at hnone
    exact hnone
  have hadd := page_table_add_old ndebug s v a (kernelTable (lo / 2 ^ 10)) (hf.spaces.selfMap _ hd)
    (by rw [hidx, ht]) (by rw [hv, hpte])
  rw [hv, or_PG_ATTR a p ha] at hadd
  have hrole : (pageRole s.dir (v.toNat / 2 ^ 12)).pool = .PF_KERNEL := by
    rw [hv, pageRole, if_neg (by omega)]
    rfl
  obtain ⟨hfr, -⟩ := spec_of_ok _ _ _
    (page_table_add_spec ndebug s v a p hf ha (by omega) (by omega) (by rwa [hrole])) _ hadd
  refine ⟨_, hadd, hfr, fun w hw1 hw2 => ?_⟩
  have hset := hf.spaces.frameAt_set s.dir lo _ p hd (by omega) h2 ht (hf.layout.used_range s _ p hu).2
    PAGE_DIR_FRAME w hf.spaces.boot (by omega) hw2
  rw [hset]
  refine if_congr ((pageRole_eq_iff _ _ _ _).trans ?_) rfl rfl
  exact ⟨And.left, fun heq => ⟨heq, fun hlow => by omega⟩⟩

/-- `n` pages of the kernel from `lo` on are new, and `k` frames are left. -/
structure KernelPages (lo n : Nat) (s' : Mm) : Prop where
  keeps : Keeps s s'
  left : s'.kernel_pool.pool_bitmap.Left k
  user : s'.user_pool = s.user_pool
  rest : ∀ w, 0xc0000 ≤ w → w < 0xffc00 → (w < lo ∨ lo + n ≤ w) →
    frameAt s'.ram PAGE_DIR_FRAME w = frameAt s.ram PAGE_DIR_FRAME w

theorem map_pages_kernel (n lo : Nat) (v : UInt32) (hf : Frames booted dirs [] s)
    (hleft : s.kernel_pool.pool_bitmap.Left (n + k)) (hv : v.toNat = lo * 2 ^ 12) (h1 : 0xc0000 ≤ lo)
    (h2 : lo + n < 0xffc00) (hnone : ∀ j < n, frameAt s.ram PAGE_DIR_FRAME (lo + j) = none) :
    ∃ s', map_pages ndebug .PF_KERNEL s v n = .ok (true, s') ∧ KernelPages s k lo n s' := by
  induction n generalizing s v lo with
  | zero =>
    rw [Nat.zero_add] at hleft
    exact ⟨s, rfl, Keeps.refl s, hleft, rfl, fun _ _ _ _ => rfl⟩
  | succ n ih =>
    rw [show n + 1 + k = 1 + (n + k) from by omega] at hleft
    obtain ⟨i, hi, hclear, hpal, hleft₁⟩ := palloc_left ndebug s .PF_KERNEL (n + k) hleft
    have htake := hf.take s .PF_KERNEL i hi hclear
    have haddr := hf.layout.phyaddr s .PF_KERNEL i hi
    have hbot := hf.layout.bottom .PF_KERNEL
    generalize (s.pool .PF_KERNEL).first + i = p at htake haddr
    generalize UInt32.ofNat i * PG_SIZE + (s.pool .PF_KERNEL).phy_addr_start = a at hpal haddr
    have hne : a ≠ NULL := by
      rintro rfl
      have hp := (htake.frames.layout.used_range _ _ _ htake.used).1
      have hzero : p * 2 ^ 12 = 0 := haddr.symm
      omega
    obtain ⟨ram₁, hadd, hfr₁, hsame⟩ := htake.frames.add_kernel_page ndebug _ v a lo p haddr (by omega) h1 (by omega)
      (by rw [htake.ram]; exact hnone 0 (by omega)) htake.used
    rw [htake.ram] at hsame
    have hv₁ : (v + PG_SIZE).toNat = (lo + 1) * 2 ^ 12 := by
      have : (v + PG_SIZE).toNat = v.toNat + 4096 := toNat_add_small v 4096 (by omega)
      omega
    obtain ⟨s', hmap, hnew⟩ := ih ((s.take .PF_KERNEL i).withRam ram₁) (lo + 1) (v + PG_SIZE) hfr₁ hleft₁ hv₁
      (by omega) (by omega) fun j hj => by
        rw [Mm.withRam_ram, hsame _ (by omega) (by omega), if_neg (by omega), Nat.add_assoc, Nat.add_comm 1 j]
        exact hnone (j + 1) (by omega)
    refine ⟨s', ?_, (htake.keeps.trans _ _ _ (Keeps.withRam _ _)).trans _ _ _ hnew.keeps, hnew.left, hnew.user,
      fun w hw1 hw2 hout => ?_⟩
    · unfold map_pages
      rw [hpal]
      dsimp only [bind, Except.bind]
      rw [if_neg hne, hadd]
      exact hmap
    · rw [hnew.rest w hw1 hw2 (by omega), Mm.withRam_ram, hsame w hw1 hw2, if_neg (by omega)]

/-- The pages of a request can be zeroed. -/
theorem Returned.memset (pf : PoolFlags) (n lo : Nat) (v : UInt32) (s' : Mm) (hret : Returned s pf lo n s')
    (hg : Grows booted dirs s lo n s') (hf : Frames booted dirs [] s) (hf' : Frames booted dirs [] s')
    (hv : v.toNat = lo * 2 ^ 12) (hlo : 0x8048 ≤ lo) (hn : 0 < n) :
    ∃ ram', s'.memset_zero v n = .ok (s'.withRam ram') ∧ ∀ t, IsTable dirs s'.ram t → ram' t = s'.ram t := by
  have hd : s'.dir = s.dir := by
    unfold Mm.dir
    rw [hg.cr3]
  have htop := (hret.range (n - 1) (by omega)).bounds.2
  have hzero := memset_zero_spec n s' v lo hf' hv hlo (by omega) fun k hk f hp => by
    rw [hd] at hp
    exact (hret.not_table s s' pf lo n hg hf hf' k f hk hp).2
  generalize s'.memset_zero v n = res at hzero
  cases res with
  | ok s'' =>
    obtain ⟨ram', rfl, hag, -⟩ := hzero
    exact ⟨ram', rfl, hag⟩
  | error e =>
    obtain ⟨k, hk, hlow⟩ := hzero
    obtain ⟨f, hp⟩ := Option.ne_none_iff_exists'.mp (hret.after k hk)
    have hhigh := hf'.spaces.high _ _ (hret.role s s' pf lo n hf hf' k f hk hp)
    have := hlow f (by rw [hd, hp])
    omega

/-- The addresses of a run in the kernel heap. -/
theorem heap_addr (i : Nat) (hi : i < 2 ^ 16) :
    (K_HEAP_START + UInt32.ofNat i * PG_SIZE).toNat = (0xc0100 + i) * 2 ^ 12 := by
  rw [UInt32.toNat_add, UInt32.toNat_mul, UInt32.toNat_ofNat_of_lt' (by change i < 2 ^ 32; omega)]
  change (0xc0100000 + i * 4096 % 2 ^ 32) % 2 ^ 32 = _
  omega

theorem vaddr_get_kernel (n i : Nat) (hscan : bitmap_scan ndebug s.kernel_vaddr.vaddr_bitmap n = .ok (some i)) :
    vaddr_get ndebug s .PF_KERNEL n = .ok (s.kernel_vaddr.vaddr_start + UInt32.ofNat i * PG_SIZE,
      s.setVaddrs .PF_KERNEL { s.kernel_vaddr with vaddr_bitmap := set_run s.kernel_vaddr.vaddr_bitmap i n }) := by
  unfold vaddr_get
  change bitmap_scan ndebug (s.vaddrs .PF_KERNEL).vaddr_bitmap n = _ at hscan
  dsimp only
  rw [hscan]
  dsimp only [bind, Except.bind]
  rw [if_neg (by decide)]
  rfl

/-- What a call for `n` pages of the kernel leaves, with the first page that it gives. -/
structure Gives (n : Nat) (v : UInt32) (s' : Mm) : Prop where
  ne : v ≠ NULL
  first : ∀ i, bitmap_scan ndebug s.kernel_vaddr.vaddr_bitmap n = .ok (some i) → v.toNat = (0xc0100 + i) * 2 ^ 12
  stock : Stock s' k u h
  userprog_vaddr : s'.userprog_vaddr = s.userprog_vaddr

theorem Stock.set_run (n i : Nat) (s' : Mm) (hst : Stock s (n + k) u (n + h))
    (hi : i + n + h ≤ s.kernel_vaddr.vaddr_bitmap.bitLen) (hlen : s.kernel_vaddr.vaddr_bitmap.bitLen < 2 ^ 15)
    (hnew : KernelPages (s.setVaddrs .PF_KERNEL
      { s.kernel_vaddr with vaddr_bitmap := set_run s.kernel_vaddr.vaddr_bitmap i n }) k (0xc0100 + i) n s') :
    Stock s' k u h := by
  have hva := hnew.keeps.kernel_vaddr
  change s'.kernel_vaddr = { s.kernel_vaddr with vaddr_bitmap := OsLearn.set_run s.kernel_vaddr.vaddr_bitmap i n } at hva
  have huser := hnew.user
  change s'.user_pool = s.user_pool at huser
  refine ⟨hnew.left, ?_, ?_, fun j hj hclear => ?_, fun pf => ?_⟩
  · rw [huser]
    exact hst.user
  · rw [hva]
    exact hst.heap.set_run _ n h i hi
  · rw [hva] at hj hclear
    dsimp only at hj hclear
    unfold Bitmap.bitLen at hj hlen
    rw [set_run_len] at hj
    rw [set_run_test, Bool.or_eq_false_iff, decide_eq_false_iff_not] at hclear
    rw [hnew.rest _ (by omega) (by omega) (by omega)]
    exact hst.unmapped j hj hclear.1
  · obtain ⟨bits, hpool⟩ := hnew.keeps.pools pf
    rw [hpool, setVaddrs_pool]
    exact hst.free pf

/-- A change of the memory that maps no page. -/
theorem Stock.withRam (ram' : Ram) (hst : Stock s k u h) (hlen : s.kernel_vaddr.vaddr_bitmap.bitLen < 2 ^ 15)
    (hsame : ∀ w, 0xc0000 ≤ w → w < 0xffc00 → frameAt ram' PAGE_DIR_FRAME w = frameAt s.ram PAGE_DIR_FRAME w) :
    Stock (s.withRam ram') k u h := by
  refine ⟨hst.kernel, hst.user, hst.heap, fun i hi hclear => ?_, fun pf => ?_⟩
  · change i < s.kernel_vaddr.vaddr_bitmap.bitLen at hi
    rw [s.withRam_ram, hsame _ (by omega) (by omega)]
    exact hst.unmapped i hi hclear
  · rw [s.withRam_pool]
    exact hst.free pf

theorem Stock.congr (s' : Mm) (hst : Stock s k u h) (hk : s'.kernel_pool = s.kernel_pool)
    (hu : s'.user_pool = s.user_pool) (hh : s'.kernel_vaddr = s.kernel_vaddr) (hram : s'.ram = s.ram) :
    Stock s' k u h := by
  refine ⟨hk ▸ hst.kernel, hu ▸ hst.user, hh ▸ hst.heap, ?_, fun pf => ?_⟩
  · rw [hh, hram]
    exact hst.unmapped
  · cases pf with
    | PF_KERNEL =>
      change s'.kernel_pool.lock = _ ∧ s'.kernel_pool.semaphore = _
      rw [hk]
      exact hst.free .PF_KERNEL
    | PF_USER =>
      change s'.user_pool.lock = _ ∧ s'.user_pool.semaphore = _
      rw [hu]
      exact hst.free .PF_USER

/-- **A kernel request succeeds** while there are addresses and frames left. -/
theorem get_kernel_pages_gives (n : Nat) (hf : Frames booted dirs [] s) (hst : Stock s (n + k) u (n + h))
    (hn : 0 < n) (hn' : n < 3840) : ∃ v s', get_kernel_pages ndebug s n = .ok (v, s') ∧ Gives ndebug s k u h n v s' := by
  have hstart := hf.layout.heap.1
  have hlen := hf.layout.heap_lt s
  obtain ⟨i, hscan, hi, hfree⟩ := hst.heap.scan ndebug _ n h hn
  have hget := vaddr_get_kernel ndebug s n i hscan
  rw [hstart] at hget
  have hv := heap_addr i (by omega)
  generalize K_HEAP_START + UInt32.ofNat i * PG_SIZE = v at hget hv
  have hne : v ≠ NULL := by
    rintro rfl
    have hzero : (0xc0100 + i) * 2 ^ 12 = 0 := hv.symm
    omega
  have hf₁ := hf.setVaddrs [] s .PF_KERNEL
    { s.kernel_vaddr with vaddr_bitmap := OsLearn.set_run s.kernel_vaddr.vaddr_bitmap i n } rfl (set_run_len _ i n)
  obtain ⟨s₂, hmap, hnew⟩ := map_pages_kernel ndebug _ k n (0xc0100 + i) v hf₁ hst.kernel hv (by omega) (by omega)
    fun j hj => by
      rw [Nat.add_assoc]
      exact hst.unmapped (i + j) (by omega) (hfree j hj)
  have hst₂ := Stock.set_run s k u h n i s₂ hst hi hlen hnew
  have hmalloc : malloc_page ndebug s .PF_KERNEL n = .ok (v, s₂) := by
    unfold malloc_page
    rw [ASSERT_in_of _ _ _ ⟨hn, hn'⟩]
    dsimp only [bind, Except.bind]
    rw [hget]
    dsimp only
    rw [if_neg hne, hmap]
    rfl
  obtain ⟨⟨hf₂, lo, hg, hres⟩, -⟩ := spec_of_ok _ _ _ (malloc_page_spec ndebug s .PF_KERNEL n hn hf) _ hmalloc
  obtain ⟨hpage, hlo, hret⟩ := hres.resolve_left fun hnull => hne hnull.1
  dsimp only at hf₂ hg hpage hret
  have hpage' : lo = 0xc0100 + i := by omega
  rw [← hpage'] at hv
  obtain ⟨ram', hzero, hag⟩ := Returned.memset s .PF_KERNEL n lo v s₂ hret hg hf hf₂ hv hlo hn
  obtain ⟨-, -, hframe⟩ := hf₂.agree [] s₂ ram' hag
  refine ⟨v, s₂.withRam ram', ?_, hne, fun j hj => ?_, ?_, ?_⟩
  · unfold get_kernel_pages
    rw [hmalloc]
    dsimp only [bind, Except.bind]
    rw [if_pos hne, hzero]
    rfl
  · rw [hscan] at hj
    rw [hv, hpage', Option.some.inj (Except.ok.inj hj)]
  · exact Stock.withRam s₂ k u h ram' hst₂ (hf₂.layout.heap_lt s₂) fun w hw1 hw2 => hframe _ hf₂.spaces.boot w (by omega) hw2
  · exact hnew.keeps.userprog_vaddr

/-! ## A page of a process -/

theorem Frames.add_page (v a : UInt32) (p : Nat) (hf : Frames booted dirs [p] s) (ha : a.toNat = p * 2 ^ 12)
    (h1 : 0x8048 ≤ v.toNat / 2 ^ 12) (h2 : v.toNat / 2 ^ 12 < 0xffc00)
    (hu : (s.pool (pageRole s.dir (v.toNat / 2 ^ 12)).pool).Used p)
    (hnone : frameAt s.ram s.dir (v.toNat / 2 ^ 12) = none) (hleft : ¬ s.kernel_pool.pool_bitmap.Full) :
    ∃ s', page_table_add ndebug s v a = .ok s' ∧ Keeps s s' := by
  have hself := hf.spaces.selfMap _ hf.active
  rw [frameAt, show v.toNat / 2 ^ 12 / 2 ^ 10 = v.toNat / 2 ^ 22 from by omega] at hnone
  obtain ⟨s', hadd⟩ : ∃ s', page_table_add ndebug s v a = .ok s' := by
    cases ht : target (s.ram s.dir (v.toNat / 2 ^ 22)) with
    | some t =>
      rw [ht] at hnone
      exact ⟨_, page_table_add_old ndebug s v a t hself ht hnone⟩
    | none =>
      obtain ⟨i, -, -, hadd⟩ := page_table_add_new ndebug s v a hself hf.layout (by omega) ht hleft (hf.freshFrames s)
      exact ⟨_, hadd⟩
  exact ⟨s', hadd, (spec_of_ok _ _ _ (page_table_add_spec ndebug s v a p hf ha h1 h2 hu) _ hadd).2.1.keeps⟩

/-- The state in which `get_a_page` looks for a frame: the lock is taken, and the bit is set. -/
def asked (i : Nat) : Mm :=
  (s.setLock .PF_USER { holder := some s.cur, holder_repeat_nr := 1 } { value := 0, waiters := [] }).setVaddrs .PF_USER
    { s.vaddrs .PF_USER with vaddr_bitmap := bitmap_set (s.vaddrs .PF_USER).vaddr_bitmap i true }

theorem asked_frames (i : Nat) (hf : Frames booted dirs [] s) : Frames booted dirs [] (asked s i) := by
  have hsame := SameMemory.setLock s .PF_USER { holder := some s.cur, holder_repeat_nr := 1 } { value := 0, waiters := [] }
  refine (hsame.frames s _ hf).setVaddrs [] _ .PF_USER _ ?_ ?_
  · rfl
  · rfl

theorem a_page_user (s₂ s' : Mm) (v a idx : UInt32) (hproc : s.pgdir s.cur ≠ NULL)
    (hidx : (v - (s.vaddrs .PF_USER).vaddr_start) / PG_SIZE = idx) (hbit : idx > 0)
    (hpal : palloc ndebug (s.setVaddrs .PF_USER { s.vaddrs .PF_USER with
      vaddr_bitmap := bitmap_set (s.vaddrs .PF_USER).vaddr_bitmap idx.toNat true }) .PF_USER = .ok (a, s₂))
    (hne : a ≠ NULL) (hadd : page_table_add ndebug s₂ v a = .ok s') :
    a_page ndebug s .PF_USER v = .ok (v, true, s') := by
  unfold a_page
  dsimp only [bind, Except.bind]
  rw [if_pos (.inl ⟨hproc, rfl⟩), hidx, ASSERT_in_of _ _ _ hbit]
  dsimp only [pure, Except.pure]
  rw [hpal]
  dsimp only
  rw [if_neg hne, hadd]

theorem lock_acquire_free (cur : Tid) : lock_acquire ndebug cur lock_init.1 lock_init.2 =
    .ok ({ holder := some cur, holder_repeat_nr := 1 }, { value := 0, waiters := [] }) := by
  cases ndebug <;> rfl

/-- **A page of a process** takes a frame for the users, and perhaps one of the kernel for the table. -/
theorem get_a_page_gives (v : UInt32) (hf : Frames booted dirs [] s) (hst : Stock s (k + 1) (1 + u) h)
    (hproc : s.pgdir s.cur ≠ NULL) (hbit : (v - (s.userprog_vaddr s.cur).vaddr_start) / PG_SIZE > 0)
    (hpage : InRange .PF_USER (v.toNat / 2 ^ 12)) (hnone : frameAt s.ram s.dir (v.toNat / 2 ^ 12) = none) :
    ∃ s', get_a_page ndebug s .PF_USER v = .ok (v, s') := by
  obtain ⟨hlock, hsem⟩ := hst.free .PF_USER
  have hbounds := hpage.bounds
  -- the lock and the bit
  obtain ⟨idx, hidx⟩ : ∃ idx, (v - (s.userprog_vaddr s.cur).vaddr_start) / PG_SIZE = idx := ⟨_, rfl⟩
  rw [hidx] at hbit
  have hf₁ := asked_frames s idx.toNat hf
  have hram₁ : (asked s idx.toNat).ram = s.ram := rfl
  have hdir₁ : (asked s idx.toNat).dir = s.dir := rfl
  have hlock₁ : ((asked s idx.toNat).pool .PF_USER).lock = { holder := some s.cur, holder_repeat_nr := 1 } := rfl
  have hleft₁ : ((asked s idx.toNat).pool .PF_USER).pool_bitmap.Left (1 + u) := hst.user
  have hkernel₁ : (asked s idx.toNat).kernel_pool = s.kernel_pool := rfl
  have hcur₁ : (asked s idx.toNat).cur = s.cur := rfl
  -- the frame and the table entry
  obtain ⟨i, hi, hclear, hpal, -⟩ := palloc_left ndebug _ .PF_USER u hleft₁
  have htake := hf₁.take _ .PF_USER i hi hclear
  have haddr := hf₁.layout.phyaddr _ .PF_USER i hi
  generalize ((asked s idx.toNat).pool .PF_USER).first + i = p at htake haddr
  generalize UInt32.ofNat i * PG_SIZE + ((asked s idx.toNat).pool .PF_USER).phy_addr_start = a at hpal haddr
  have hne : a ≠ NULL := by
    rintro rfl
    have hp := (htake.frames.layout.used_range _ _ _ htake.used).1
    have hzero : p * 2 ^ 12 = 0 := haddr.symm
    omega
  have hleft : ¬ ((asked s idx.toNat).take .PF_USER i).kernel_pool.pool_bitmap.Full := hst.kernel.full _ k
  obtain ⟨s', hadd, hk⟩ := Frames.add_page ndebug _ v a p htake.frames haddr hbounds.1 hbounds.2
    (by rw [hpage.pool]; exact htake.used) (by rw [htake.ram, htake.keeps.dir, hram₁, hdir₁, hnone]) hleft
  have hlock' : (s'.pool .PF_USER).lock = { holder := some s.cur, holder_repeat_nr := 1 } :=
    (hk.lock _ _ .PF_USER).trans ((htake.keeps.lock _ _ .PF_USER).trans hlock₁)
  have hcur' : s'.cur = s.cur := hk.cur.trans (htake.keeps.cur.trans hcur₁)
  have hdone := a_page_user ndebug (s.setLock .PF_USER { holder := some s.cur, holder_repeat_nr := 1 }
    { value := 0, waiters := [] }) _ s' v a idx hproc hidx hbit hpal hne hadd
  unfold get_a_page pool_acquire
  dsimp only [bind, Except.bind, pure, Except.pure]
  rw [hlock, hsem, lock_acquire_free]
  dsimp only
  rw [hdone]
  dsimp only
  rw [if_pos rfl]
  unfold pool_release lock_release
  dsimp only [bind, Except.bind, pure, Except.pure]
  rw [hlock', hcur', ASSERT_in_of _ _ _ rfl]
  exact ⟨_, rfl⟩

/-! ## `userprog/process.c` -/

/-- **The range of a process** takes 23 pages of the kernel. -/
theorem create_user_vaddr_bitmap_gives (t : Tid) (hf : Frames booted dirs [] s) (hst : Stock s (23 + k) u (23 + h)) :
    ∃ v s', create_user_vaddr_bitmap ndebug s t = .ok (v, s') ∧ Stock s' k u h ∧
      s'.userprog_vaddr = Function.update s.userprog_vaddr t newRange := by
  obtain ⟨v, s₁, hget, hgives⟩ := get_kernel_pages_gives ndebug s k u h 23 hf hst (by omega) (by omega)
  obtain ⟨⟨hf₁, lo, hg, hres⟩, hal, -⟩ := spec_of_ok _ _ _ (get_kernel_pages_spec ndebug s 23 (by omega) hf) _ hget
  obtain ⟨hpage, hlo, hret⟩ := hres.resolve_left fun hnull => hgives.ne hnull.1
  dsimp only at hf₁ hg hpage hret hal
  obtain ⟨ram', hzero, hag⟩ := Returned.memset s .PF_KERNEL 23 lo v s₁ hret hg hf hf₁ (by omega) hlo (by omega)
  obtain ⟨-, -, hframe⟩ := hf₁.agree [] s₁ ram' hag
  have hst₁ := hgives.stock.withRam s₁ k u h ram' (hf₁.layout.heap_lt s₁) fun w hw1 hw2 =>
    hframe _ hf₁.spaces.boot w (by omega) hw2
  refine ⟨v, { s₁.withRam ram' with userprog_vaddr := Function.update s₁.userprog_vaddr t newRange }, ?_, ?_, ?_⟩
  · have hcnt : (user_bytes_len + 4096 - 1) / 4096 = 23 := rfl
    unfold create_user_vaddr_bitmap
    dsimp only
    rw [hcnt, hget]
    dsimp only [bind, Except.bind]
    rw [hzero]
    rfl
  · exact hst₁.congr _ k u h _ rfl rfl rfl rfl
  · dsimp only
    rw [hgives.userprog_vaddr]

/-- **A page directory** takes one page of the kernel. -/
theorem create_page_dir_gives (hf : Frames booted dirs [] s) (hst : Stock s (1 + k) u (1 + h)) :
    ∃ v s' f, create_page_dir ndebug s = .ok (v, s') ∧ v ≠ NULL ∧ NewDir booted dirs s (v, s') f ∧ f ∉ dirs ∧
      Stock s' k u h ∧ s'.userprog_vaddr = s.userprog_vaddr := by
  obtain ⟨v, s₁, hget, hgives⟩ := get_kernel_pages_gives ndebug s k u h 1 hf hst (by omega) (by omega)
  obtain ⟨⟨hf₁, -⟩, -⟩ := spec_of_ok _ _ _ (get_kernel_pages_spec ndebug s 1 (by omega) hf) _ hget
  obtain ⟨ram, f, hok, hnew, hnd, hag⟩ := create_page_dir_ok ndebug s v s₁ hf hget hgives.ne
  obtain ⟨-, -, hframe⟩ := hf₁.agree [] s₁ ram hag
  have hst₁ := hgives.stock.withRam s₁ k u h ram (hf₁.layout.heap_lt s₁) fun w hw1 hw2 =>
    hframe _ hf₁.spaces.boot w (by omega) hw2
  exact ⟨v, _, f, hok, hgives.ne, hnew, hnd, hst₁, hgives.userprog_vaddr⟩

/-- The user half of a new directory is empty. -/
theorem NewDir.unmapped (r : UInt32 × Mm) (f page : Nat) (hnew : NewDir booted dirs s r f) (hnd : f ∉ dirs)
    (h1 : 0x8048 ≤ page) (h2 : page < 0xc0000) : frameAt r.2.ram f page = none := by
  cases ht : target (r.2.ram f (page / 2 ^ 10)) with
  | none =>
    unfold frameAt
    rw [ht]
    rfl
  | some t =>
    have hrole : HasRole booted (f :: dirs) r.2.ram t (.page_table f (page / 2 ^ 10)) :=
      ⟨List.mem_cons_self, by omega, by omega, ht⟩
    exact absurd ((hnew.roles _ _).mp hrole).1 hnd

end

/-! ## Boot -/

theorem left_bitmap_init (btmp : Bitmap) : (bitmap_init btmp).Left (bitmap_init btmp).bitLen :=
  ⟨Nat.le_refl _, fun i _ hi => bitmap_init_test btmp i hi⟩

theorem mem_init_stock (ram : Ram) (all_mem : UInt32) (bits : Fin 3 → Nat → UInt8) (main : Tid)
    (h : KernelTablesEmpty ram) :
    Stock (mem_init ram all_mem bits main) (mem_init ram all_mem bits main).kernel_pool.pool_bitmap.bitLen
      (mem_init ram all_mem bits main).user_pool.pool_bitmap.bitLen
      (mem_init ram all_mem bits main).kernel_vaddr.vaddr_bitmap.bitLen := by
  have hlen := (mem_init_layout ram all_mem bits main).heap_lt
  refine ⟨?_, ?_, ?_, fun i hi _ => ?_, fun pf => ?_⟩
  · exact left_bitmap_init _
  · exact left_bitmap_init _
  · exact left_bitmap_init _
  · rw [mem_init_ram]
    by_contra hne
    have hboot : bootPages ram (0xc0100 + i) := ⟨by omega, by omega, hne⟩
    rw [bootPages_eq ram h] at hboot
    have hhigh := hboot.2
    omega
  · cases pf
    · exact ⟨rfl, rfl⟩
    · exact ⟨rfl, rfl⟩

/-- The kernel with 32 frames in each pool. -/
theorem stock_zeroMemory : Stock (zeroMemory 0x240000) 32 32 32 := by
  have hst := mem_init_stock (fun _ _ => 0) 0x240000 (fun _ _ => 0) 0 fun _ _ _ _ _ _ => target_zero
  exact hst

end OsLearn
