import OsLearn.Memory.Failure

/-!
# Preemption: `get_kernel_pages` and `get_user_pages` cut at their bitmaps

Each `bitmap_scan` and each `bitmap_set` is one step, and the timer can come between any two steps.
-/

namespace OsLearn

/-- The locals of `malloc_page`, and of the call that it is in. -/
structure Job where
  pf : PoolFlags
  pg_cnt : Nat
  vaddr_start : UInt32
  vaddr : UInt32
  cnt : Nat

def Job.new (pf : PoolFlags) (pg_cnt : Nat) : Job :=
  { pf := pf, pg_cnt := pg_cnt, vaddr_start := NULL, vaddr := NULL, cnt := pg_cnt }

inductive Ret where
  | malloc_page
  | page_table_add (page_phyaddr : UInt32)

inductive Pc where
  | idle
  | lock_acquire (pg_cnt : Nat)
  | vaddr_scan (j : Job)
  -- `cnt` bits are set.
  | vaddr_set (j : Job) (bit_idx_start cnt : Nat)
  | palloc_scan (pf : PoolFlags) (j : Job) (ret : Ret)
  | palloc_set (pf : PoolFlags) (bit_idx : Nat) (j : Job) (ret : Ret)
  | page_table_add (j : Job) (page_phyaddr : UInt32)
  | new_table (j : Job) (page_phyaddr pde_phyaddr : UInt32)
  | store_pte (j : Job) (page_phyaddr : UInt32)
  | memset (j : Job)
  | lock_release

inductive AllocEvent where
  -- `palloc` returned this frame.
  | frame (p : Nat)
  -- `get_kernel_pages` returned these pages.
  | kernel_pages (page n : Nat)
  deriving DecidableEq

/-- `malloc_page` returns `NULL`. Only `get_user_pages` goes on to its `memset`. -/
def Job.fail (j : Job) : Pc :=
  match j.pf with
  | .PF_KERNEL => .idle
  | .PF_USER => .memset { j with vaddr_start := NULL }

def Job.next (j : Job) : Pc :=
  if j.cnt = 0 then .memset j else .palloc_scan j.pf j .malloc_page

def pc_step (s : Mm) : Pc → Except Stop (Mm × Pc × List AllocEvent)
  | .idle => throw .notNow
  | .lock_acquire pg_cnt => do
    let s ← pool_acquire false s .PF_USER
    pure (s, .vaddr_scan (.new .PF_USER pg_cnt), [])
  | .vaddr_scan j => do
    match ← bitmap_scan false (s.vaddrs j.pf).vaddr_bitmap j.pg_cnt with
    | none => pure (s, j.fail, [])
    | some bit_idx_start => pure (s, .vaddr_set j bit_idx_start 0, [])
  | .vaddr_set j bit_idx_start cnt => do
    let va := s.vaddrs j.pf
    let s := s.setVaddrs j.pf { va with vaddr_bitmap := bitmap_set va.vaddr_bitmap (bit_idx_start + cnt) true }
    if cnt + 1 < j.pg_cnt then pure (s, .vaddr_set j bit_idx_start (cnt + 1), [])
    else do
      let vaddr_start := va.vaddr_start + UInt32.ofNat bit_idx_start * PG_SIZE
      if j.pf = .PF_USER then
        ASSERT (vaddr_start < 0xc0000000 - PG_SIZE) .vaddr_get_user_top
      if vaddr_start = NULL then pure (s, j.fail, [])
      else pure (s, Job.next { j with vaddr_start := vaddr_start, vaddr := vaddr_start }, [])
  | .palloc_scan pf j ret => do
    match ← bitmap_scan false (s.pool pf).pool_bitmap 1 with
    | none =>
      match ret with
      | .malloc_page => pure (s, j.fail, [])
      | .page_table_add page_phyaddr => pure (s, .new_table j page_phyaddr NULL, [])
    | some bit_idx => pure (s, .palloc_set pf bit_idx j ret, [])
  | .palloc_set pf bit_idx j ret =>
    let page_phyaddr := UInt32.ofNat bit_idx * PG_SIZE + (s.pool pf).phy_addr_start
    let s := s.setPool pf { s.pool pf with pool_bitmap := bitmap_set (s.pool pf).pool_bitmap bit_idx true }
    let pc : Pc :=
      match ret with
      | .malloc_page => if page_phyaddr = NULL then j.fail else .page_table_add j page_phyaddr
      | .page_table_add page => .new_table j page page_phyaddr
    .ok (s, pc, [.frame (page_phyaddr.toNat / 2 ^ 12)])
  | .page_table_add j page_phyaddr => do
    if (← s.load (pde_ptr j.vaddr)) &&& 1 ≠ 0 then do
      ASSERT (¬ (← s.load (pte_ptr j.vaddr)) &&& 1 ≠ 0) .page_table_add_pte
      if (← s.load (pte_ptr j.vaddr)) &&& 1 ≠ 0 then PANIC .page_table_add_pte_repeat
      else pure (s, .store_pte j page_phyaddr, [])
    else pure (s, .palloc_scan .PF_KERNEL j (.page_table_add page_phyaddr), [])
  | .new_table j page_phyaddr pde_phyaddr => do
    let s ← s.store (pde_ptr j.vaddr) (pde_phyaddr ||| PG_ATTR)
    let s ← s.memset_zero (pte_ptr j.vaddr &&& 0xfffff000) 1
    ASSERT (¬ (← s.load (pte_ptr j.vaddr)) &&& 1 ≠ 0) .page_table_add_new_pte
    pure (s, .store_pte j page_phyaddr, [])
  | .store_pte j page_phyaddr => do
    let s ← s.store (pte_ptr j.vaddr) (page_phyaddr ||| PG_ATTR)
    pure (s, Job.next { j with vaddr := j.vaddr + PG_SIZE, cnt := j.cnt - 1 }, [])
  | .memset j => do
    let s ← s.memset_zero j.vaddr_start j.pg_cnt
    match j.pf with
    | .PF_KERNEL => pure (s, .idle, [.kernel_pages (j.vaddr_start.toNat / 2 ^ 12) j.pg_cnt])
    | .PF_USER => pure (s, .lock_release, [])
  | .lock_release => do
    let s ← pool_release false s .PF_USER
    pure (s, .idle, [])

structure Threads (n : Nat) where
  mem : Mm
  pc : Fin n → Pc

inductive AllocAct (n : Nat) where
  | get_kernel_pages (t : Fin n) (pg_cnt : Nat)
  | get_user_pages (t : Fin n) (pg_cnt : Nat)
  -- The timer lets thread `t` run, for one step.
  | run (t : Fin n)

section

variable {n : Nat}

def alloc_step (st : Threads n) : AllocAct n → Except Stop (Threads n × List AllocEvent)
  | .get_kernel_pages t pg_cnt =>
    match st.pc t with
    | .idle => do
      ASSERT (pg_cnt > 0 ∧ pg_cnt < 3840) .malloc_page_pg_cnt
      pure ({ st with pc := Function.update st.pc t (.vaddr_scan (.new .PF_KERNEL pg_cnt)) }, [])
    | _ => throw .notNow
  | .get_user_pages t pg_cnt =>
    match st.pc t with
    | .idle => do
      ASSERT (pg_cnt > 0 ∧ pg_cnt < 3840) .malloc_page_pg_cnt
      pure ({ st with pc := Function.update st.pc t (.lock_acquire pg_cnt) }, [])
    | _ => throw .notNow
  | .run t => do
    let (mem, pc, evs) ← pc_step { st.mem with cur := t } (st.pc t)
    pure ({ mem := mem, pc := Function.update st.pc t pc }, evs)

end

/-- `n` threads after `mem_init`. A task has no bitmap for user addresses, or one like that of
`create_user_vaddr_bitmap`. -/
def allocSystem (n : Nat) : Run.System (Threads n) (AllocAct n) AllocEvent Stop where
  init st := (∃ ram all_mem bits main pgdir userprog_vaddr,
      (∀ t : Tid, (userprog_vaddr t).vaddr_bitmap.btmp_bytes_len = 0 ∨
        (userprog_vaddr t).vaddr_start = USER_VADDR_START ∧
          (userprog_vaddr t).vaddr_bitmap.btmp_bytes_len = user_bytes_len) ∧
      st.mem = { mem_init ram all_mem bits main with pgdir := pgdir, userprog_vaddr := userprog_vaddr }) ∧
    ∀ t, st.pc t = .idle
  step := alloc_step

/-! ## What the calls should keep apart -/

def framesOf (log : List AllocEvent) : List Nat :=
  log.filterMap fun
    | .frame p => some p
    | .kernel_pages _ _ => none

def rangesOf (log : List AllocEvent) : List (Nat × Nat) :=
  log.filterMap fun
    | .frame _ => none
    | .kernel_pages page n => some (page, n)

def Apart (a b : Nat × Nat) : Prop := ∀ k < a.2, ∀ j < b.2, a.1 + k ≠ b.1 + j

instance (a b : Nat × Nat) : Decidable (Apart a b) :=
  inferInstanceAs (Decidable (∀ k < a.2, ∀ j < b.2, a.1 + k ≠ b.1 + j))

/-- No frame is handed out twice, and no two calls return the same page of the kernel. -/
def Separate (log : List AllocEvent) : Prop := (framesOf log).Nodup ∧ (rangesOf log).Pairwise Apart

instance (log : List AllocEvent) : Decidable (Separate log) := inferInstanceAs (Decidable (_ ∧ _))

inductive Shared where
  | kernel_vaddr
  | pool (pf : PoolFlags)
  deriving DecidableEq

def Pc.scans : Pc → Option Shared
  | .vaddr_scan j => if j.pf = .PF_KERNEL then some .kernel_vaddr else none
  | .palloc_scan pf _ _ => some (.pool pf)
  | _ => none

/-- The bitmap that has been scanned, and in which bits are yet to be set. -/
def Pc.marks : Pc → Option Shared
  | .vaddr_set j _ _ => if j.pf = .PF_KERNEL then some .kernel_vaddr else none
  | .palloc_set pf _ _ _ => some (.pool pf)
  | _ => none

/-- A thread scans a bitmap only when no other thread is between its scan of it and its last set. -/
def scansAlone {n : Nat} (_ : List AllocEvent) (st : Threads n) : AllocAct n → Prop
  | .run t => ∀ u, u ≠ t → (st.pc t).scans = none ∨ (st.pc u).marks ≠ (st.pc t).scans
  | _ => True

instance {n : Nat} (log : List AllocEvent) (st : Threads n) : (a : AllocAct n) → Decidable (scansAlone log st a)
  | .run t => inferInstanceAs (Decidable (∀ u, u ≠ t → (st.pc t).scans = none ∨ (st.pc u).marks ≠ (st.pc t).scans))
  | .get_kernel_pages _ _ => inferInstanceAs (Decidable True)
  | .get_user_pages _ _ => inferInstanceAs (Decidable True)

end OsLearn
