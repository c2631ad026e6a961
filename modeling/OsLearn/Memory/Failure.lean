import OsLearn.Memory.Isolation

/-!
# Failure: what a call that gets no memory leaves behind

Here `NDEBUG` is defined and ASSERT is empty, so that `bitmap_scan` can return -1.
-/

namespace OsLearn

/-- A call, with the locks of the pools. -/
def locked_call (ndebug : Bool) (s : Mm) : MemCall → Except Stop (UInt32 × Mm)
  | .get_kernel_pages pg_cnt => get_kernel_pages ndebug s pg_cnt
  | .get_user_pages pg_cnt => get_user_pages ndebug s pg_cnt
  | .get_a_page pf vaddr => get_a_page ndebug s pf vaddr

/-! ## Not enough memory -/

def NoFrame (s : Mm) (pf : PoolFlags) : Prop := bitmap_scan true (s.pool pf).pool_bitmap 1 = .ok none

/-- `page_table_add` needs a frame for a table, and finds none. -/
def NoTable (s : Mm) (vaddr : UInt32) : Prop :=
  (∃ pde, s.load (pde_ptr vaddr) = .ok pde ∧ ¬ pde &&& 1 ≠ 0) ∧ NoFrame s .PF_KERNEL

/-- The loop of `malloc_page` comes to a page for which there is no frame, or no frame for its table. -/
def NoPages (pf : PoolFlags) (s : Mm) (vaddr : UInt32) : Nat → Prop
  | 0 => False
  | cnt + 1 => NoFrame s pf ∨ ∃ page_phyaddr s₁, palloc true s pf = .ok (page_phyaddr, s₁) ∧
      (NoTable s₁ vaddr ∨ ∃ s₂, page_table_add true s₁ vaddr page_phyaddr = .ok s₂ ∧
        NoPages pf s₂ (vaddr + PG_SIZE) cnt)

/-- A call that cannot get all the virtual pages or all the frames that it needs. -/
def Starved (s : Mm) : MemCall → Prop
  | .get_kernel_pages pg_cnt => malloc_starved s .PF_KERNEL pg_cnt
  | .get_user_pages pg_cnt => malloc_starved s .PF_USER pg_cnt
  | .get_a_page pf vaddr => NoPages pf s vaddr 1
where
  malloc_starved (s : Mm) (pf : PoolFlags) (pg_cnt : Nat) : Prop :=
    bitmap_scan true (s.vaddrs pf).vaddr_bitmap pg_cnt = .ok none ∨
      ∃ vaddr s₁, vaddr_get true s pf pg_cnt = .ok (vaddr, s₁) ∧ NoPages pf s₁ vaddr pg_cnt

/-- The call returns `NULL`, and nothing has changed: no bitmap, no table, no lock. -/
def AllOrNothing (s : Mm) (c : MemCall) : Prop := locked_call true s c = .ok (NULL, s)

/-! ## The locks -/

section

variable {booted : Nat → Prop} {dirs : List Nat}

theorem setLock_pool (s : Mm) (pf : PoolFlags) (lock : Lock) (sem : Semaphore) (pf' : PoolFlags) :
    (s.setLock pf lock sem).pool pf' =
      if pf' = pf then { s.pool pf with lock := lock, semaphore := sem } else s.pool pf' := by
  cases pf <;> cases pf' <;> rfl

theorem setLock_used (s : Mm) (pf : PoolFlags) (lock : Lock) (sem : Semaphore) (pf' : PoolFlags) :
    ((s.setLock pf lock sem).pool pf').phy_addr_start = (s.pool pf').phy_addr_start ∧
      ((s.setLock pf lock sem).pool pf').pool_bitmap = (s.pool pf').pool_bitmap := by
  rw [setLock_pool]
  split
  · rename_i heq
    rw [heq]
    exact ⟨rfl, rfl⟩
  · exact ⟨rfl, rfl⟩

structure SameMemory (s s' : Mm) : Prop where
  ram : s'.ram = s.ram
  cr3 : s'.cr3 = s.cr3
  cur : s'.cur = s.cur
  pgdir : s'.pgdir = s.pgdir
  kernel_vaddr : s'.kernel_vaddr = s.kernel_vaddr
  userprog_vaddr : s'.userprog_vaddr = s.userprog_vaddr
  start : ∀ pf, (s'.pool pf).phy_addr_start = (s.pool pf).phy_addr_start
  bitmap : ∀ pf, (s'.pool pf).pool_bitmap = (s.pool pf).pool_bitmap

theorem SameMemory.setLock (s : Mm) (pf : PoolFlags) (lock : Lock) (sem : Semaphore) :
    SameMemory s (s.setLock pf lock sem) := by
  refine ⟨?_, ?_, ?_, ?_, ?_, ?_, fun pf' => (setLock_used s pf lock sem pf').1,
    fun pf' => (setLock_used s pf lock sem pf').2⟩
  all_goals cases pf <;> rfl

theorem SameMemory.dir (s s' : Mm) (h : SameMemory s s') : s'.dir = s.dir := by
  unfold Mm.dir
  rw [h.cr3]

theorem SameMemory.vaddrs (s s' : Mm) (h : SameMemory s s') (pf : PoolFlags) : s'.vaddrs pf = s.vaddrs pf := by
  cases pf
  · exact h.kernel_vaddr
  · simp only [Mm.vaddrs, h.userprog_vaddr, h.cur]

theorem SameMemory.first (s s' : Mm) (h : SameMemory s s') (pf : PoolFlags) : (s'.pool pf).first = (s.pool pf).first := by
  unfold Pool.first
  rw [h.start]

theorem SameMemory.layout (s s' : Mm) (h : SameMemory s s') (hl : Layout s) : Layout s' :=
  hl.congr s s' h.start (fun pf => by rw [h.bitmap]) h.kernel_vaddr (h.userprog_vaddr ▸ hl.user)

theorem SameMemory.frames (s s' : Mm) (h : SameMemory s s') (hf : Frames booted dirs [] s) :
    Frames booted dirs [] s' := by
  have hused : ∀ pf p, (s'.pool pf).Used p ↔ (s.pool pf).Used p := fun pf p => by
    unfold Pool.Used
    rw [h.bitmap, h.first]
  refine { spaces := h.ram ▸ hf.spaces, layout := h.layout s s' hf.layout, active := ?_, pgdir := ?_, used := ?_,
           role := ?_, held := by simp }
  · rw [h.dir]
    exact hf.active
  · rw [h.pgdir, h.ram]
    exact hf.pgdir
  · intro p r hr
    rw [h.ram] at hr
    exact (hused _ p).mpr (hf.used p r hr)
  · intro pf p hu
    rw [h.ram]
    exact hf.role pf p ((hused pf p).mp hu)

theorem SameMemory.request (ndebug : Bool) (s s₁ s₂ s₃ : Mm) (pf : PoolFlags) (n : Nat) (v : UInt32)
    (h : SameMemory s s₁) (hreq : Request booted dirs ndebug pf s₁ n (v, s₂)) (h' : SameMemory s₂ s₃)
    (hnd : v = NULL → ndebug = true) : Request booted dirs ndebug pf s n (v, s₃) := by
  obtain ⟨hfr, lo, hg, hres⟩ := hreq
  dsimp only at hfr hg hres
  refine ⟨h'.frames s₂ s₃ hfr, lo, ⟨?_, ?_, ?_, ?_, ?_⟩, ?_⟩
  · exact h'.cr3.trans (hg.cr3.trans h.cr3)
  · exact h'.cur.trans (hg.cur.trans h.cur)
  · exact h'.pgdir.trans (hg.pgdir.trans h.pgdir)
  · dsimp only
    rw [h'.ram, ← h.ram]
    exact hg.old
  · dsimp only
    rw [h'.ram, ← h.ram, ← h.dir]
    exact hg.new
  · rcases hres with ⟨hnull, -⟩ | ⟨hlo, hge, hret⟩
    · exact .inl ⟨hnull, .inr (hnd hnull)⟩
    · refine .inr ⟨hlo, hge, hret.range, ?_, ?_⟩
      · rw [← h.ram, ← h.dir]
        exact hret.before
      · dsimp only
        rw [h'.ram, ← h.dir]
        exact hret.after

/-- `lock_acquire` never leaves the lock as it was. -/
theorem lock_acquire_changes (ndebug : Bool) (cur : Tid) (lock : Lock) (sem : Semaphore) :
    Spec (lock_acquire ndebug cur lock sem) (fun r => r.1 ≠ lock) fun _ => True := by
  unfold lock_acquire
  split
  · rw [spec_pure]
    intro heq
    have hnr : lock.holder_repeat_nr + 1 = lock.holder_repeat_nr := congrArg Lock.holder_repeat_nr heq
    rw [← UInt32.toNat_inj, UInt32.toNat_add] at hnr
    have := lock.holder_repeat_nr.toNat_lt
    change (lock.holder_repeat_nr.toNat + 1) % 2 ^ 32 = _ at hnr
    omega
  · rename_i hne
    dsimp only
    split
    · trivial
    · simp only [spec_bind, spec_pure, spec_ASSERT_in]
      refine ⟨fun _ => ⟨fun _ heq => ?_, fun _ _ => trivial⟩, fun _ _ => trivial⟩
      exact hne (congrArg Lock.holder heq).symm

theorem pool_acquire_spec (ndebug : Bool) (s : Mm) (pf : PoolFlags) :
    Spec (pool_acquire ndebug s pf)
      (fun s' => SameMemory s s' ∧ (s'.pool pf).lock ≠ (s.pool pf).lock) fun _ => True := by
  unfold pool_acquire
  rw [spec_bind]
  refine spec_mono _ _ _ _ _ (lock_acquire_changes ndebug _ _ _) ?_ fun _ _ => trivial
  rintro ⟨lock, sem⟩ hne
  refine ⟨SameMemory.setLock s pf lock sem, ?_⟩
  rw [setLock_pool, if_pos rfl]
  exact hne

theorem pool_release_spec (ndebug : Bool) (s : Mm) (pf : PoolFlags) :
    Spec (pool_release ndebug s pf) (SameMemory s) fun _ => True := by
  unfold pool_release
  rw [spec_bind]
  cases lock_release ndebug s.cur (s.pool pf).lock (s.pool pf).semaphore with
  | error e => trivial
  | ok r => exact SameMemory.setLock s pf r.1 r.2.1

/-! ## The calls -/

/-- `get_user_pages` never returns `NULL`: it would have to zero the pages at `NULL` first. -/
theorem get_user_pages_spec (ndebug : Bool) (s : Mm) (n : Nat) (hn : 0 < n) (h : Frames booted dirs [] s) :
    Spec (get_user_pages ndebug s n) (fun r => r.1 ≠ NULL ∧ Request booted dirs ndebug .PF_USER s n r)
      fun _ => True := by
  unfold get_user_pages
  rw [spec_bind]
  refine spec_mono _ _ _ _ _ (pool_acquire_spec ndebug s .PF_USER) ?_ fun _ _ => trivial
  rintro s₁ ⟨hsame, -⟩
  rw [spec_bind]
  refine spec_mono _ _ _ _ _ (user_pages_spec ndebug s₁ n hn (hsame.frames s s₁ h)) ?_ fun _ _ => trivial
  rintro ⟨v, s₂⟩ ⟨hne, hreq⟩
  dsimp only
  rw [spec_bind]
  refine spec_mono _ _ _ _ _ (pool_release_spec ndebug s₂ .PF_USER) ?_ fun _ _ => trivial
  exact fun s₃ hsame' => ⟨hne, hsame.request ndebug s s₁ s₂ s₃ .PF_USER n v hreq hsame' fun hnull => absurd hnull hne⟩

/-- `get_a_page` that returns `NULL` has not released the lock. -/
theorem get_a_page_spec (ndebug : Bool) (s : Mm) (pf : PoolFlags) (v : UInt32) (hc : (s.vaddrs pf).covers v)
    (h : Frames booted dirs [] s) :
    Spec (get_a_page ndebug s pf v)
      (fun r => Request booted dirs ndebug pf s 1 r ∧ (r.1 = NULL → (r.2.pool pf).lock ≠ (s.pool pf).lock))
      fun _ => True := by
  unfold get_a_page
  rw [spec_bind]
  refine spec_mono _ _ _ _ _ (pool_acquire_spec ndebug s pf) ?_ fun _ _ => trivial
  rintro s₁ ⟨hsame, hlock⟩
  rw [← hsame.vaddrs] at hc
  rw [spec_bind]
  refine spec_mono _ _ _ _ _ (a_page_spec ndebug s₁ pf v hc (hsame.frames s s₁ h)) ?_ fun _ _ => trivial
  rintro ⟨page, done, s₂⟩ ⟨hreq, hdone, hkeep, hnd⟩
  dsimp only at hreq hdone hkeep hnd ⊢
  cases done with
  | true =>
    have hne := hdone.mp rfl
    rw [if_pos rfl, spec_bind]
    refine spec_mono _ _ _ _ _ (pool_release_spec ndebug s₂ pf) ?_ fun _ _ => trivial
    exact fun s₃ hsame' => ⟨hsame.request ndebug s s₁ s₂ s₃ pf 1 page hreq hsame' hnd, fun hnull => absurd hnull hne⟩
  | false =>
    have hrefl : SameMemory s₂ s₂ := ⟨rfl, rfl, rfl, rfl, rfl, rfl, fun _ => rfl, fun _ => rfl⟩
    refine ⟨hsame.request ndebug s s₁ s₂ s₂ pf 1 page hreq hrefl hnd, fun _ => ?_⟩
    rw [hkeep]
    exact hlock

theorem locked_call_keeps (ndebug : Bool) : KeepsFrames (locked_call ndebug) ndebug := by
  intro booted dirs s c h hc
  cases c with
  | get_kernel_pages n =>
    exact spec_mono _ _ _ _ _ (get_kernel_pages_spec ndebug s n hc.1 h) (fun _ hr => hr.1) fun _ _ => trivial
  | get_user_pages n =>
    exact spec_mono _ _ _ _ _ (get_user_pages_spec ndebug s n hc.1 h) (fun _ hr => hr.2) fun _ _ => trivial
  | get_a_page pf v =>
    exact spec_mono _ _ _ _ _ (get_a_page_spec ndebug s pf v hc h) (fun _ hr => hr.1) fun _ _ => trivial

theorem get_kernel_pages_null (s : Mm) (n : Nat) (hn : 0 < n) (h : Frames booted dirs [] s)
    (hnull : get_kernel_pages true s n = .ok (NULL, s)) :
    bitmap_scan true s.kernel_vaddr.vaddr_bitmap n = .ok none := by
  have hspec := malloc_page_spec true s .PF_KERNEL n hn h
  unfold get_kernel_pages at hnull
  cases hmal : malloc_page true s .PF_KERNEL n with
  | error e =>
    rw [hmal] at hnull
    cases hnull
  | ok r =>
    obtain ⟨v, s₁⟩ := r
    rw [hmal] at hnull hspec
    obtain ⟨-, -, hres⟩ := hspec
    change (if v ≠ NULL then _ else _) = _ at hnull
    by_cases hv : v = NULL
    · rw [if_neg (fun hne => hne hv)] at hnull
      obtain ⟨-, hs⟩ := Prod.mk.inj (Except.ok.inj hnull)
      dsimp only at hs hres
      rcases hres hv with hscan | hne
      · exact hscan
      · exact absurd (by rw [hs]) hne
    · rw [if_pos hv] at hnull
      cases hmem : s₁.memset_zero v n with
      | error e =>
        rw [hmem] at hnull
        cases hnull
      | ok s₂ =>
        rw [hmem] at hnull
        exact absurd (Prod.mk.inj (Except.ok.inj hnull)).1 hv

theorem get_kernel_pages_full (s : Mm) (n : Nat)
    (hscan : bitmap_scan true s.kernel_vaddr.vaddr_bitmap n = .ok none) :
    get_kernel_pages true s n = .ok (NULL, s) := by
  have hget : vaddr_get true s .PF_KERNEL n = .ok (NULL, s) := by
    unfold vaddr_get
    dsimp only [Mm.vaddrs]
    rw [hscan]
    rfl
  unfold get_kernel_pages malloc_page
  rw [ASSERT_in_true, hget]
  rfl

end

/-- **A failed allocation is undone in one case only.** A call that does not get the memory it needs
returns `NULL` with everything as it was if and only if it is `get_kernel_pages` and finds no virtual
pages. -/
theorem failed_allocation (log : List MemEvent) (s : Mm)
    (hr : Run.Reach (memSystem (locked_call true) true fun _ => True) inContract log s) (c : MemCall)
    (hc : c.InContract s) (_hs : Starved s c) :
    AllOrNothing s c ↔
      ∃ pg_cnt, c = .get_kernel_pages pg_cnt ∧ bitmap_scan true s.kernel_vaddr.vaddr_bitmap pg_cnt = .ok none := by
  obtain ⟨ram, -, dirs, hinv⟩ := mem_reach _ true (locked_call_keeps true) _ log s hr
  have hfr := hinv.frames
  constructor
  · intro hall
    unfold AllOrNothing at hall
    cases c with
    | get_kernel_pages n => exact ⟨n, rfl, get_kernel_pages_null s n hc.1 hfr hall⟩
    | get_user_pages n =>
      exact absurd rfl (spec_of_ok _ _ _ (get_user_pages_spec true s n hc.1 hfr) _ hall).1
    | get_a_page pf v =>
      exact absurd rfl ((spec_of_ok _ _ _ (get_a_page_spec true s pf v hc hfr) _ hall).2 rfl)
  · rintro ⟨n, rfl, hscan⟩
    exact get_kernel_pages_full s n hscan

theorem reach_full : ∃ log s, Run.Reach (memSystem (locked_call true) true fun _ => True) inContract log s ∧
    NoFrame s .PF_KERNEL ∧ bitmap_scan true s.kernel_vaddr.vaddr_bitmap 1 = .ok none ∧
    (s.vaddrs .PF_KERNEL).covers 0xc0107000 := by
  have hplay : (Run.play (memSystem (locked_call true) true fun _ => True) inContract []
      ((zeroMemory 0x210000).withRam (bootTables fun _ _ => 0)) [.call (.get_kernel_pages 8)]).map
        (fun r => ((bitmap_scan true r.2.kernel_pool.pool_bitmap 1).toOption,
          (bitmap_scan true r.2.kernel_vaddr.vaddr_bitmap 1).toOption,
          decide (r.2.kernel_vaddr.covers 0xc0107000))) = some (some none, some none, true) := by
    decide +kernel
  rw [← zeroMemory_eq] at hplay
  obtain ⟨⟨log, s⟩, hp, hres⟩ := Option.map_eq_some_iff.mp hplay
  simp only [Prod.mk.injEq, decide_eq_true_iff] at hres
  have hok : ∀ x : Except Stop (Option Nat), x.toOption = some none → x = .ok none := by
    rintro (_ | r) hx
    · cases hx
    · rw [Option.some.inj hx]
  exact ⟨log, s, Run.reach_play _ _ _ _ _ _ _ (reach_zeroMemory _ true _ trivial _) hp, hok _ hres.1, hok _ hres.2.1,
    hres.2.2⟩

theorem failed_allocation_kernel : ∃ log s,
    Run.Reach (memSystem (locked_call true) true fun _ => True) inContract log s ∧
      Starved s (.get_kernel_pages 1) ∧ AllOrNothing s (.get_kernel_pages 1) := by
  obtain ⟨log, s, hr, -, hscan, -⟩ := reach_full
  have hs : Starved s (.get_kernel_pages 1) := .inl hscan
  exact ⟨log, s, hr, hs, (failed_allocation log s hr (.get_kernel_pages 1) ⟨by omega, by omega⟩ hs).mpr ⟨1, rfl, hscan⟩⟩

/-- `get_a_page` finds no frame, and returns without `lock_release`. -/
theorem failed_allocation_kept : ∃ log s c,
    Run.Reach (memSystem (locked_call true) true fun _ => True) inContract log s ∧ c.InContract s ∧ Starved s c ∧
      ¬ AllOrNothing s c := by
  obtain ⟨log, s, hr, hframe, -, hc⟩ := reach_full
  obtain ⟨ram, -, dirs, hinv⟩ := mem_reach _ true (locked_call_keeps true) _ log s hr
  refine ⟨log, s, .get_a_page .PF_KERNEL 0xc0107000, hr, hc, .inl hframe, fun hall => ?_⟩
  exact (spec_of_ok _ _ _ (get_a_page_spec true s .PF_KERNEL _ hc hinv.frames) _ hall).2 rfl rfl

end OsLearn
