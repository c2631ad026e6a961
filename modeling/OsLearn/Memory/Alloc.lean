import OsLearn.Memory.Bitmap
import OsLearn.Memory.Paging
import OsLearn.Thread.Sync

/-!
# `kernel/memory.c`: pools, page tables and pages

The bytes of the bitmaps are kept outside `ram`: they lie in the low megabyte, or in pages of the
kernel that nothing else is stored in.
-/

namespace OsLearn

def PG_SIZE : UInt32 := 4096

inductive PoolFlags where
  | PF_KERNEL
  | PF_USER
  deriving DecidableEq, Repr

structure Pool where
  pool_bitmap : Bitmap
  phy_addr_start : UInt32
  pool_size : UInt32
  lock : Lock
  semaphore : Semaphore

structure VirtualAddr where
  vaddr_bitmap : Bitmap
  vaddr_start : UInt32

/-- The memory and what manages it. `cr3` is the register, `cur` the running task. -/
structure Mm where
  ram : Ram
  cr3 : UInt32
  kernel_pool : Pool
  user_pool : Pool
  kernel_vaddr : VirtualAddr
  cur : Tid
  pgdir : Tid → UInt32
  userprog_vaddr : Tid → VirtualAddr

namespace Mm

def dir (s : Mm) : Nat := frameOf s.cr3

def withRam (s : Mm) (ram : Ram) : Mm := { s with ram := ram }

def load (s : Mm) (v : UInt32) : Except Stop UInt32 :=
  match walk s.ram s.dir v with
  | some f => .ok (s.ram f (wordOf v))
  | none => PANIC .page_fault

def store (s : Mm) (v w : UInt32) : Except Stop Mm :=
  match walk s.ram s.dir v with
  | some f => .ok (s.withRam (s.ram.set f (wordOf v) w))
  | none => PANIC .page_fault

/-- `memset(v, 0, n * PG_SIZE)` at the start of a page. The frames of the first megabyte hold the GDT,
the kernel with its stack, and the bitmaps: a run that zeroes them is over. -/
def memset_zero (s : Mm) (v : UInt32) : Nat → Except Stop Mm
  | 0 => .ok s
  | n + 1 =>
    match walk s.ram s.dir v with
    | some f =>
      if f < 0x100 then PANIC .kernel_image
      else memset_zero (s.withRam (s.ram.zero f)) (v + PG_SIZE) n
    | none => PANIC .page_fault

/-- `memcpy` of `n` words. -/
def memcpy_words (s : Mm) (dst src : UInt32) : Nat → Except Stop Mm
  | 0 => .ok s
  | n + 1 => do
    let w ← s.load src
    let s ← s.store dst w
    memcpy_words s (dst + 4) (src + 4) n

def pool (s : Mm) : PoolFlags → Pool
  | .PF_KERNEL => s.kernel_pool
  | .PF_USER => s.user_pool

def setPool (s : Mm) : PoolFlags → Pool → Mm
  | .PF_KERNEL, p => { s with kernel_pool := p }
  | .PF_USER, p => { s with user_pool := p }

def setLock (s : Mm) (pf : PoolFlags) (lock : Lock) (semaphore : Semaphore) : Mm :=
  s.setPool pf { s.pool pf with lock := lock, semaphore := semaphore }

/-- The addresses of the running task: those of the kernel, or its own. -/
def vaddrs (s : Mm) : PoolFlags → VirtualAddr
  | .PF_KERNEL => s.kernel_vaddr
  | .PF_USER => s.userprog_vaddr s.cur

def setVaddrs (s : Mm) : PoolFlags → VirtualAddr → Mm
  | .PF_KERNEL, va => { s with kernel_vaddr := va }
  | .PF_USER, va => { s with userprog_vaddr := Function.update s.userprog_vaddr s.cur va }

@[simp] theorem withRam_ram (s : Mm) (ram : Ram) : (s.withRam ram).ram = ram := rfl

@[simp] theorem withRam_dir (s : Mm) (ram : Ram) : (s.withRam ram).dir = s.dir := rfl

@[simp] theorem withRam_pool (s : Mm) (ram : Ram) (pf : PoolFlags) : (s.withRam ram).pool pf = s.pool pf := by
  cases pf <;> rfl

@[simp] theorem withRam_withRam (s : Mm) (ram ram' : Ram) : (s.withRam ram).withRam ram' = s.withRam ram' := rfl

end Mm

section

variable (ndebug : Bool)

/-! ## Addresses and frames -/

/-- `while (cnt < pg_cnt) bitmap_set(btmp, bit_idx_start + cnt++, 1)` -/
def set_run (btmp : Bitmap) (bit_idx_start : Nat) : Nat → Bitmap
  | 0 => btmp
  | cnt + 1 => bitmap_set (set_run btmp bit_idx_start cnt) (bit_idx_start + cnt) true

def vaddr_get (s : Mm) (pf : PoolFlags) (pg_cnt : Nat) : Except Stop (UInt32 × Mm) := do
  let va := s.vaddrs pf
  match ← bitmap_scan ndebug va.vaddr_bitmap pg_cnt with
  | none => pure (NULL, s)
  | some bit_idx_start =>
    let va := { va with vaddr_bitmap := set_run va.vaddr_bitmap bit_idx_start pg_cnt }
    let s := s.setVaddrs pf va
    let vaddr_start := va.vaddr_start + UInt32.ofNat bit_idx_start * PG_SIZE
    if pf = .PF_USER then
      ASSERT_in ndebug (vaddr_start < 0xc0000000 - PG_SIZE) .vaddr_get_user_top
    pure (vaddr_start, s)

def palloc (s : Mm) (pf : PoolFlags) : Except Stop (UInt32 × Mm) := do
  let m_pool := s.pool pf
  match ← bitmap_scan ndebug m_pool.pool_bitmap 1 with
  | none => pure (NULL, s)
  | some bit_idx =>
    let s := s.setPool pf { m_pool with pool_bitmap := bitmap_set m_pool.pool_bitmap bit_idx true }
    pure (UInt32.ofNat bit_idx * PG_SIZE + m_pool.phy_addr_start, s)

/-! ## Mapping -/

def page_table_add (s : Mm) (vaddr page_phyaddr : UInt32) : Except Stop Mm := do
  let pde := pde_ptr vaddr
  let pte := pte_ptr vaddr
  let s ← if (← s.load pde) &&& 1 ≠ 0 then do
      ASSERT_in ndebug (¬ (← s.load pte) &&& 1 ≠ 0) .page_table_add_pte
      if (← s.load pte) &&& 1 ≠ 0 then PANIC .page_table_add_pte_repeat
      pure s
    else do
      let (pde_phyaddr, s) ← palloc ndebug s .PF_KERNEL
      let s ← s.store pde (pde_phyaddr ||| PG_ATTR)
      let s ← s.memset_zero (pte &&& 0xfffff000) 1
      ASSERT_in ndebug (¬ (← s.load pte) &&& 1 ≠ 0) .page_table_add_new_pte
      pure s
  s.store pte (page_phyaddr ||| PG_ATTR)

/-- The loop of `malloc_page`: `false` when the pool has no frame left. -/
def map_pages (pf : PoolFlags) (s : Mm) (vaddr : UInt32) : Nat → Except Stop (Bool × Mm)
  | 0 => .ok (true, s)
  | cnt + 1 => do
    let (page_phyaddr, s) ← palloc ndebug s pf
    if page_phyaddr = NULL then pure (false, s)
    else do
      let s ← page_table_add ndebug s vaddr page_phyaddr
      map_pages pf s (vaddr + PG_SIZE) cnt

def malloc_page (s : Mm) (pf : PoolFlags) (pg_cnt : Nat) : Except Stop (UInt32 × Mm) := do
  ASSERT_in ndebug (pg_cnt > 0 ∧ pg_cnt < 3840) .malloc_page_pg_cnt
  let (vaddr_start, s) ← vaddr_get ndebug s pf pg_cnt
  if vaddr_start = NULL then pure (NULL, s)
  else do
    let (done, s) ← map_pages ndebug pf s vaddr_start pg_cnt
    if done then pure (vaddr_start, s) else pure (NULL, s)

/-! ## The allocation functions -/

def get_kernel_pages (s : Mm) (pg_cnt : Nat) : Except Stop (UInt32 × Mm) := do
  let (vaddr, s) ← malloc_page ndebug s .PF_KERNEL pg_cnt
  if vaddr ≠ NULL then
    let s ← s.memset_zero vaddr pg_cnt
    pure (vaddr, s)
  else pure (vaddr, s)

/-- `get_user_pages` between its `lock_acquire` and its `lock_release`. -/
def user_pages (s : Mm) (pg_cnt : Nat) : Except Stop (UInt32 × Mm) := do
  let (vaddr, s) ← malloc_page ndebug s .PF_USER pg_cnt
  let s ← s.memset_zero vaddr pg_cnt
  pure (vaddr, s)

/-- `get_a_page` between its `lock_acquire` and its `lock_release`. The second result is whether it
gets to `lock_release`. -/
def a_page (s : Mm) (pf : PoolFlags) (vaddr : UInt32) : Except Stop (UInt32 × Bool × Mm) := do
  let s ← if (s.pgdir s.cur ≠ NULL ∧ pf = .PF_USER) ∨ (s.pgdir s.cur = NULL ∧ pf = .PF_KERNEL) then do
      let va := s.vaddrs pf
      let bit_idx := (vaddr - va.vaddr_start) / PG_SIZE
      ASSERT_in ndebug (bit_idx > 0) .get_a_page_bit_idx
      pure (s.setVaddrs pf { va with vaddr_bitmap := bitmap_set va.vaddr_bitmap bit_idx.toNat true })
    else PANIC .get_a_page_not_allowed
  let (page_phyaddr, s) ← palloc ndebug s pf
  if page_phyaddr = NULL then pure (NULL, false, s)
  else do
    let s ← page_table_add ndebug s vaddr page_phyaddr
    pure (vaddr, true, s)

def pool_acquire (s : Mm) (pf : PoolFlags) : Except Stop Mm := do
  let m_pool := s.pool pf
  let (lock, semaphore) ← lock_acquire ndebug s.cur m_pool.lock m_pool.semaphore
  pure (s.setLock pf lock semaphore)

def pool_release (s : Mm) (pf : PoolFlags) : Except Stop Mm := do
  let m_pool := s.pool pf
  let (lock, semaphore, _) ← lock_release ndebug s.cur m_pool.lock m_pool.semaphore
  pure (s.setLock pf lock semaphore)

def get_user_pages (s : Mm) (pg_cnt : Nat) : Except Stop (UInt32 × Mm) := do
  let s ← pool_acquire ndebug s .PF_USER
  let (vaddr, s) ← user_pages ndebug s pg_cnt
  let s ← pool_release ndebug s .PF_USER
  pure (vaddr, s)

def get_a_page (s : Mm) (pf : PoolFlags) (vaddr : UInt32) : Except Stop (UInt32 × Mm) := do
  let s ← pool_acquire ndebug s pf
  let (page, done, s) ← a_page ndebug s pf vaddr
  if done then
    let s ← pool_release ndebug s pf
    pure (page, s)
  else pure (page, s)

def addr_v2p (s : Mm) (vaddr : UInt32) : Except Stop UInt32 := do
  let pte ← s.load (pte_ptr vaddr)
  pure ((pte &&& 0xfffff000) + (vaddr &&& 0xfff))

/-! ## `userprog/process.c` -/

def create_page_dir (s : Mm) : Except Stop (UInt32 × Mm) := do
  let (page_dir_vaddr, s) ← get_kernel_pages ndebug s 1
  if page_dir_vaddr = NULL then pure (NULL, s)
  else do
    let s ← s.memcpy_words (page_dir_vaddr + 0x300 * 4) (0xfffff000 + 0x300 * 4) 256
    let new_page_dir_phy_addr ← addr_v2p s page_dir_vaddr
    let s ← s.store (page_dir_vaddr + 1023 * 4) (new_page_dir_phy_addr ||| PG_ATTR)
    pure (page_dir_vaddr, s)

/-- The new value of `cr3`: the directory of task `t`, or that of the kernel. -/
def page_dir_activate (s : Mm) (t : Tid) : Except Stop Mm := do
  let pagedir_phy_addr ← if s.pgdir t ≠ NULL then addr_v2p s (s.pgdir t) else pure 0x100000
  pure { s with cr3 := pagedir_phy_addr }

def USER_VADDR_START : UInt32 := 0x8048000

/-- `(0xc0000000 - USER_VADDR_START) / PG_SIZE / 8` -/
def user_bytes_len : Nat := 0x16ff7

/-- `create_user_vaddr_bitmap` for task `t`, with the address that `bits` gets. -/
def create_user_vaddr_bitmap (s : Mm) (t : Tid) : Except Stop (UInt32 × Mm) := do
  let bitmap_pg_cnt := (user_bytes_len + 4096 - 1) / 4096
  let (bits, s) ← get_kernel_pages ndebug s bitmap_pg_cnt
  -- bitmap_init, to the end of the last page: get_kernel_pages has zeroed that part too
  let s ← s.memset_zero bits bitmap_pg_cnt
  let va : VirtualAddr :=
    { vaddr_start := USER_VADDR_START
      vaddr_bitmap := { btmp_bytes_len := user_bytes_len, bits := fun _ => 0 } }
  pure (bits, { s with userprog_vaddr := Function.update s.userprog_vaddr t va })

end

/-! ## Boot -/

def K_HEAP_START : UInt32 := 0xc0100000

/-- `mem_pool_init`: the two pools and the addresses of the kernel. `bits` is what is in memory where
the three bitmaps are put. -/
def mem_pool_init (all_mem : UInt32) (bits : Fin 3 → Nat → UInt8) : Pool × Pool × VirtualAddr :=
  let page_table_size := PG_SIZE * 256
  let used_mem := page_table_size + 0x100000
  let free_mem := all_mem - used_mem
  let all_free_pages := (free_mem / PG_SIZE).toUInt16
  let kernel_free_pages := all_free_pages / 2
  let user_free_pages := all_free_pages - kernel_free_pages
  let kbm_length := kernel_free_pages / 8
  let ubm_length := user_free_pages / 8
  let kp_start := used_mem
  let up_start := kp_start + kernel_free_pages.toUInt32 * PG_SIZE
  let kernel_pool : Pool :=
    { phy_addr_start := kp_start
      pool_size := kernel_free_pages.toUInt32 * PG_SIZE
      pool_bitmap := bitmap_init { btmp_bytes_len := kbm_length.toNat, bits := bits 0 }
      lock := lock_init.1
      semaphore := lock_init.2 }
  let user_pool : Pool :=
    { phy_addr_start := up_start
      pool_size := user_free_pages.toUInt32 * PG_SIZE
      pool_bitmap := bitmap_init { btmp_bytes_len := ubm_length.toNat, bits := bits 1 }
      lock := lock_init.1
      semaphore := lock_init.2 }
  let kernel_vaddr : VirtualAddr :=
    { vaddr_start := K_HEAP_START
      vaddr_bitmap := bitmap_init { btmp_bytes_len := kbm_length.toNat, bits := bits 2 } }
  (kernel_pool, user_pool, kernel_vaddr)

/-! ### `setup_page` of `boot/loader.S` -/

def PAGE_DIR_FRAME : Nat := 0x100

/-- The two loops: the next entry of frame `f` gets the next page, until `ecx` is 0. -/
def fill_entries (f : Nat) (ram : Ram) (esi : Nat) (e : UInt32) : Nat → Ram
  | 0 => ram
  | ecx + 1 => fill_entries f (ram.set f esi e) (esi + 1) (e + 0x1000) ecx

/-- `.create_pte`: the first page table. -/
def create_pte : Ram → Nat → UInt32 → Nat → Ram := fill_entries (PAGE_DIR_FRAME + 1)

/-- `.create_kernel_pde`: the directory. -/
def create_kernel_pde : Ram → Nat → UInt32 → Nat → Ram := fill_entries PAGE_DIR_FRAME

def setup_page (ram : Ram) : Ram :=
  -- .clear_page_dir
  let ram := ram.zero PAGE_DIR_FRAME
  -- .create_pde
  let eax : UInt32 := (0x100000 + 0x1000 * 1) ||| PG_ATTR
  let ram := ram.set PAGE_DIR_FRAME (0x0 / 4) eax
  let ram := ram.set PAGE_DIR_FRAME (0xc00 / 4) eax
  let ram := ram.set PAGE_DIR_FRAME ((0x1000 - 4) / 4) (0x100000 ||| PG_ATTR)
  let ram := create_pte ram 0 (0 ||| PG_ATTR) (0x100000 / 0x1000)
  create_kernel_pde ram ((0xc00 + 4) / 4) ((0x100000 + 0x1000 * 2) ||| PG_ATTR) (1022 - (0xc00 + 4) / 4 + 1)

/-- Memory management at `mem_init`, on the page tables of `setup_page`, with the main thread. -/
def mem_init (ram : Ram) (all_mem : UInt32) (bits : Fin 3 → Nat → UInt8) (main : Tid) : Mm :=
  let pools := mem_pool_init all_mem bits
  { ram := setup_page ram
    cr3 := 0x100000
    kernel_pool := pools.1
    user_pool := pools.2.1
    kernel_vaddr := pools.2.2
    cur := main
    pgdir := fun _ => NULL
    userprog_vaddr := fun _ => { vaddr_start := 0, vaddr_bitmap := { btmp_bytes_len := 0, bits := fun _ => 0 } } }

end OsLearn
