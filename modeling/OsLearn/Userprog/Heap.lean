import OsLearn.Memory.Ranges
import OsLearn.Memory.Supply
import OsLearn.Userprog.Process

/-!
# The heap of a process and its stack

The bitmap of the process ends at 0xc0000000. `USER_STACK3_VADDR` lacks a digit: the stack page is at
0xbfff000, in the middle of it.
-/

namespace OsLearn

/-- The same range with no mark less. -/
structure VirtualAddr.Extends (va va' : VirtualAddr) : Prop where
  start : va'.vaddr_start = va.vaddr_start
  len : va'.vaddr_bitmap.btmp_bytes_len = va.vaddr_bitmap.btmp_bytes_len
  bits : ∀ i, bitmap_scan_test va.vaddr_bitmap i = true → bitmap_scan_test va'.vaddr_bitmap i = true

/-- Process `t` from `start_process` on, with the ranges that `get_user_pages` has given it. Other calls
come in between: those of other tasks, and those of the process that do not clear its bits. -/
inductive HeapRun (ndebug : Bool) (t : Tid) : List (UInt32 × Nat) → Mm → Prop
  | start_process (log : List MemEvent) (s : Mm) (page : UInt32) (s' : Mm) :
      Run.Reach (memSystem (locked_call ndebug) ndebug fun _ => True) inContract log s →
      s.cur = t → s.pgdir t ≠ NULL → s.userprog_vaddr t = newRange →
      get_a_page ndebug s .PF_USER USER_STACK3_VADDR = .ok (page, s') → page ≠ NULL → HeapRun ndebug t [] s'
  | other (ranges : List (UInt32 × Nat)) (s : Mm) (a : MemAct) (s' : Mm) (evs : List MemEvent) :
      HeapRun ndebug t ranges s → inContract [] s a → mem_step (locked_call ndebug) ndebug s a = .ok (s', evs) →
      (s.userprog_vaddr t).Extends (s'.userprog_vaddr t) → HeapRun ndebug t ranges s'
  | get_user_pages (ranges : List (UInt32 × Nat)) (s : Mm) (n : Nat) (v : UInt32) (s' : Mm) :
      HeapRun ndebug t ranges s → s.cur = t → 0 < n → n < 3840 → get_user_pages ndebug s n = .ok (v, s') →
      HeapRun ndebug t (ranges ++ [(v, n)]) s'

/-- The bit of the stack page: `(USER_STACK3_VADDR - USER_VADDR_START) / PG_SIZE`. -/
def stackBit : Nat := 0x3fb7

/-- What a process keeps in its range: the bit of the stack page. -/
structure HasStack (va : VirtualAddr) : Prop where
  start : va.vaddr_start = USER_VADDR_START
  len : va.vaddr_bitmap.btmp_bytes_len = user_bytes_len
  stack : bitmap_scan_test va.vaddr_bitmap stackBit = true

theorem HasStack.extends (va va' : VirtualAddr) (h : HasStack va) (he : va.Extends va') : HasStack va' :=
  ⟨he.start.trans h.start, he.len.trans h.len, he.bits _ h.stack⟩

/-- The range lies between the program and the kernel, and has no page in common with the stack. -/
structure MissesStack (v : UInt32) (n : Nat) : Prop where
  bottom : USER_VADDR_START.toNat ≤ v.toNat
  top : v.toNat + n * 4096 ≤ 0xc0000000
  stack : v.toNat + n * 4096 ≤ USER_STACK3_VADDR.toNat ∨ USER_STACK3_VADDR.toNat + 4096 ≤ v.toNat

theorem mem_step_call (exec : Mm → MemCall → Except Stop (UInt32 × Mm)) (ndebug : Bool) (s : Mm) (c : MemCall)
    (v : UInt32) (s' : Mm) (h : exec s c = .ok (v, s')) :
    mem_step exec ndebug s (.call c) = .ok (s', gave s v c.pg_cnt) := by
  unfold mem_step
  dsimp only
  rw [h]
  rfl

section

variable (ndebug : Bool) (t : Tid)

theorem heapRun_reach (ranges : List (UInt32 × Nat)) (s : Mm) (h : HeapRun ndebug t ranges s) :
    ∃ log, Run.Reach (memSystem (locked_call ndebug) ndebug fun _ => True) inContract log s := by
  induction h with
  | start_process log s page s' hr hcur _ hrange hget _ =>
    have hin : inContract log s (.call (.get_a_page .PF_USER USER_STACK3_VADDR)) := by
      change (s.userprog_vaddr s.cur).covers USER_STACK3_VADDR
      rw [hcur, hrange]
      decide
    have hstep := mem_step_call (locked_call ndebug) ndebug s (.get_a_page .PF_USER USER_STACK3_VADDR) page s' hget
    exact ⟨_, .step log s _ s' _ hr hin hstep⟩
  | other ranges s a s' evs _ hin hstep _ ih =>
    obtain ⟨log, hr⟩ := ih
    exact ⟨_, .step log s a s' evs hr hin hstep⟩
  | get_user_pages ranges s n v s' _ _ h1 h2 hget ih =>
    obtain ⟨log, hr⟩ := ih
    have hin : inContract log s (.call (.get_user_pages n)) := And.intro h1 h2
    have hstep := mem_step_call (locked_call ndebug) ndebug s (.get_user_pages n) v s' hget
    exact ⟨_, .step log s _ s' _ hr hin hstep⟩

theorem heapRun_frames (ranges : List (UInt32 × Nat)) (s : Mm) (h : HeapRun ndebug t ranges s) :
    ∃ booted dirs, Frames booted dirs [] s := by
  obtain ⟨log, hr⟩ := heapRun_reach ndebug t ranges s h
  obtain ⟨ram, -, dirs, hinv⟩ := mem_reach _ ndebug (locked_call_keeps ndebug) _ log s hr
  exact ⟨_, dirs, hinv.frames⟩

/-! ## One call -/

/-- What a successful call gives: the first run of `n` free pages. -/
structure FirstRange (va : VirtualAddr) (n : Nat) (v : UInt32) (i : Nat) : Prop where
  addr : v.toNat = USER_VADDR_START.toNat + i * 4096
  inside : USER_VADDR_START.toNat + (i + n) * 4096 ≤ 0xc0000000
  free : va.vaddr_bitmap.FreeRun n i
  least : ∀ j, va.vaddr_bitmap.FreeRun n j → i ≤ j

theorem get_user_pages_first (s : Mm) (n : Nat) (v : UInt32) (s' : Mm) (booted : Nat → Prop) (dirs : List Nat)
    (hf : Frames booted dirs [] s) (hn : 0 < n) (hst : HasStack (s.userprog_vaddr s.cur))
    (hget : get_user_pages ndebug s n = .ok (v, s')) :
    ∃ i, FirstRange (s.userprog_vaddr s.cur) n v i ∧ SameRanges (s.markRun .PF_USER i n) s' := by
  obtain ⟨hne, -, lo, -, hres⟩ := spec_of_ok _ _ _ (get_user_pages_spec ndebug s n hn hf) _ hget
  dsimp only at hne hres
  obtain ⟨hlo, -, hret⟩ : v.toNat / 2 ^ 12 = lo ∧ 0x8048 ≤ lo ∧ Returned s .PF_USER lo n s' :=
    hres.resolve_left fun h => hne h.1
  obtain ⟨i, hscan, hv, hsame⟩ :=
    (spec_of_ok _ _ _ (get_user_pages_ranges ndebug s n) _ hget).resolve_left hne
  dsimp only at hv hsame
  change bitmap_scan ndebug (s.userprog_vaddr s.cur).vaddr_bitmap n = _ at hscan
  change v = (s.userprog_vaddr s.cur).vaddr_start + _ at hv
  have hrun := (spec_of_ok _ _ _ (bitmap_scan_spec ndebug _ n) _ hscan).1 i rfl
  have hin := hrun.inside
  rw [hst.len] at hin
  unfold user_bytes_len at hin
  have hstart : USER_VADDR_START.toNat = 0x8048000 := by decide
  have haddr : v.toNat = 0x8048000 + i * 4096 := by
    rw [hv, hst.start, UInt32.toNat_add, UInt32.toNat_mul, hstart,
      UInt32.toNat_ofNat_of_lt' (by change i < 2 ^ 32; omega)]
    change (0x8048000 + i * 4096 % 2 ^ 32) % 2 ^ 32 = _
    omega
  have hlast : lo + (n - 1) < 0xc0000 := (hret.range (n - 1) (by omega)).2
  refine ⟨i, ⟨?_, ?_, hrun.clear, bitmap_scan_least ndebug _ n i hn hscan⟩, hsame⟩
  · rw [hstart, haddr]
  · rw [hstart]
    omega

theorem FirstRange.missesStack (va : VirtualAddr) (n : Nat) (v : UInt32) (i : Nat) (h : FirstRange va n v i)
    (hst : HasStack va) : MissesStack v n := by
  obtain ⟨haddr, hin, hfree, -⟩ := h
  have hstack : USER_STACK3_VADDR.toNat = USER_VADDR_START.toNat + stackBit * 4096 := by decide
  refine ⟨by omega, by omega, ?_⟩
  rw [haddr, hstack]
  by_contra hover
  have hset := hst.stack
  have hclear := hfree (stackBit - i) (by omega)
  rw [show i + (stackBit - i) = stackBit from by omega, hset] at hclear
  cases hclear

/-- The range is below the stack if there is room below the stack. -/
theorem FirstRange.below_iff (va : VirtualAddr) (n : Nat) (v : UInt32) (i : Nat) (h : FirstRange va n v i) :
    v.toNat + n * 4096 ≤ USER_STACK3_VADDR.toNat ↔ ∃ j, j + n ≤ stackBit ∧ va.vaddr_bitmap.FreeRun n j := by
  have hstack : USER_STACK3_VADDR.toNat = USER_VADDR_START.toNat + stackBit * 4096 := by decide
  rw [h.addr, hstack]
  constructor
  · exact fun hle => ⟨i, by omega, h.free⟩
  · rintro ⟨j, hj, hfree⟩
    have := h.least j hfree
    omega

/-! ## Runs -/

theorem set_run_extends (va : VirtualAddr) (i n : Nat) :
    va.Extends { va with vaddr_bitmap := set_run va.vaddr_bitmap i n } := by
  refine ⟨rfl, set_run_len _ i n, fun j hj => ?_⟩
  rw [set_run_test, hj, Bool.true_or]

theorem get_user_pages_extends (s : Mm) (i n : Nat) (s' : Mm) (h : SameRanges (s.markRun .PF_USER i n) s') :
    (s.userprog_vaddr s.cur).Extends (s'.userprog_vaddr s.cur) := by
  rw [h.userprog_vaddr]
  unfold Mm.markRun Mm.setVaddrs
  dsimp only
  rw [Function.update_self]
  exact set_run_extends _ i n

theorem heapRun_hasStack (ranges : List (UInt32 × Nat)) (s : Mm) (h : HeapRun ndebug t ranges s) :
    HasStack (s.userprog_vaddr t) := by
  induction h with
  | start_process log s page s' _ hcur hpgdir hrange hget _ =>
    obtain ⟨s₀, hacq⟩ := get_a_page_acquires ndebug s .PF_USER _ _ hget
    subst hcur
    have hsame := spec_of_ok _ _ _ (get_a_page_ranges ndebug s s₀ .PF_USER _ hacq (.inl ⟨hpgdir, rfl⟩)) _ hget
    have hidx : (newRange.bitIdx USER_STACK3_VADDR).toNat = stackBit := by decide
    change SameRanges (s.mark .PF_USER ((s.userprog_vaddr s.cur).bitIdx USER_STACK3_VADDR).toNat) s' at hsame
    rw [hrange, hidx] at hsame
    rw [hsame.userprog_vaddr]
    unfold Mm.mark Mm.setVaddrs Mm.vaddrs
    dsimp only
    rw [Function.update_self, hrange]
    refine ⟨rfl, rfl, ?_⟩
    dsimp only
    rw [bitmap_set_test, decide_eq_true rfl, Bool.or_true]
  | other ranges s a s' evs _ _ _ hext ih => exact ih.extends _ _ hext
  | get_user_pages ranges s n v s' hrun hcur h1 _ hget ih =>
    obtain ⟨booted, dirs, hf⟩ := heapRun_frames ndebug t ranges s hrun
    subst hcur
    obtain ⟨i, -, hsame⟩ := get_user_pages_first ndebug s n v s' booted dirs hf h1 ih hget
    exact ih.extends _ _ (get_user_pages_extends s i n s' hsame)

theorem heapRun_missesStack (ranges : List (UInt32 × Nat)) (s : Mm) (h : HeapRun ndebug t ranges s) :
    ∀ r ∈ ranges, MissesStack r.1 r.2 := by
  induction h with
  | start_process => exact nofun
  | other ranges s a s' evs _ _ _ _ ih => exact ih
  | get_user_pages ranges s n v s' hrun hcur h1 _ hget ih =>
    intro r hr
    rcases List.mem_append.mp hr with hr | hr
    · exact ih r hr
    · have hst := heapRun_hasStack ndebug t ranges s hrun
      obtain ⟨booted, dirs, hf⟩ := heapRun_frames ndebug t ranges s hrun
      subst hcur
      obtain ⟨i, hfirst, -⟩ := get_user_pages_first ndebug s n v s' booted dirs hf h1 hst hget
      rw [List.mem_singleton.mp hr]
      exact hfirst.missesStack _ n v i hst

/-- The heap is below the stack, and the stack is the last page below the kernel. -/
structure HeapBelowStack (ranges : List (UInt32 × Nat)) : Prop where
  ranges : ∀ r ∈ ranges, USER_VADDR_START.toNat ≤ r.1.toNat ∧ r.1.toNat + r.2 * 4096 ≤ 0xc0000000 ∧
    r.1.toNat + r.2 * 4096 ≤ USER_STACK3_VADDR.toNat
  stack : USER_STACK3_VADDR = 0xc0000000 - PG_SIZE

/-- **The heap is not kept below the stack.** The stack page is in the middle of the range. Every range that
a process gets misses it, and is above it once there is no room left below. -/
theorem heap_not_below_stack (ranges : List (UInt32 × Nat)) (s : Mm) (h : HeapRun ndebug t ranges s) :
    ¬ HeapBelowStack ranges ∧ (∀ r ∈ ranges, MissesStack r.1 r.2) ∧
    ∀ n v s', s.cur = t → 0 < n → get_user_pages ndebug s n = .ok (v, s') →
      (v.toNat + n * 4096 ≤ USER_STACK3_VADDR.toNat ↔
        ∃ j, j + n ≤ stackBit ∧ (s.userprog_vaddr t).vaddr_bitmap.FreeRun n j) := by
  refine ⟨fun hb => absurd hb.stack (by decide), heapRun_missesStack ndebug t ranges s h, fun n v s' hcur hn hget => ?_⟩
  have hst := heapRun_hasStack ndebug t ranges s h
  obtain ⟨booted, dirs, hf⟩ := heapRun_frames ndebug t ranges s h
  subst hcur
  obtain ⟨i, hfirst, -⟩ := get_user_pages_first ndebug s n v s' booted dirs hf hn hst hget
  exact hfirst.below_iff _ n v i

end

/-! ## A process -/

theorem page_dir_activate_eq (s : Mm) (t : Tid) (dir a : UInt32) (hdir : s.pgdir t = dir) (hne : dir ≠ NULL)
    (hv2p : addr_v2p s dir = .ok a) : page_dir_activate s t = .ok { s with cr3 := a } := by
  unfold page_dir_activate
  rw [hdir, if_pos hne, hv2p]
  rfl

/-- Task `t` runs as a process that has no page yet. -/
structure NewProcess (booted : Nat → Prop) (dirs : List Nat) (t : Tid) (s : Mm) : Prop where
  frames : Frames booted dirs [] s
  cur : s.cur = t
  pgdir : s.pgdir t ≠ NULL
  range : s.userprog_vaddr t = newRange
  empty : ∀ page, 0x8048 ≤ page → page < 0xc0000 → frameAt s.ram s.dir page = none

theorem newProcess_gives (ndebug : Bool) (booted : Nat → Prop) (dirs : List Nat) (log : List MemEvent) (s : Mm)
    (k u h : Nat) (t : Tid) (hr : Run.Reach (memSystem (locked_call ndebug) ndebug fun _ => True) inContract log s)
    (hf : Frames booted dirs [] s) (hst : Stock s (23 + (1 + k)) u (23 + (1 + h))) :
    ∃ log' s' dirs', Run.Reach (memSystem (locked_call ndebug) ndebug fun _ => True) inContract log' s' ∧
      NewProcess booted dirs' t s' ∧ Stock s' k u h := by
  -- 1: the range
  obtain ⟨bits, s₁, hrange, hst₁, hva₁⟩ := create_user_vaddr_bitmap_gives ndebug s (1 + k) u (1 + h) t hf hst
  obtain ⟨-, hf₁, -⟩ := spec_of_ok _ _ _ (create_user_vaddr_bitmap_spec ndebug s t hf) _ hrange
  have hstep₁ : mem_step (locked_call ndebug) ndebug s (.create_user_vaddr_bitmap t) = .ok (s₁, gave s bits 23) := by
    unfold mem_step
    dsimp only
    rw [hrange]
    rfl
  have hr₁ := Run.Reach.step _ _ (MemAct.create_user_vaddr_bitmap t) _ _ hr trivial hstep₁
  -- 2: the directory
  obtain ⟨dir, s₂, f, hdir, hne, hnew, hnd, hst₂, hva₂⟩ := create_page_dir_gives ndebug s₁ k u h hf₁ hst₁
  have hstep₂ : mem_step (locked_call ndebug) ndebug s₁ (.create_page_dir t) = .ok
      ({ s₂ with pgdir := Function.update s₂.pgdir t dir }, gave s₁ dir 1 ++ if dir = NULL then [] else [.page_dir dir]) := by
    unfold mem_step
    dsimp only
    rw [hdir]
    rfl
  have hr₂ := Run.Reach.step _ _ (MemAct.create_page_dir t) _ _ hr₁ trivial hstep₂
  have hrole := (hnew.roles _ _).mpr hnew.role
  have hal : dir.toNat % 2 ^ 12 = 0 := hnew.aligned
  have hf₂ := hnew.frames.set_pgdir s₂ t dir fun _ => ⟨f, List.mem_cons_self, dir.toNat / 2 ^ 12, by omega, hrole⟩
  -- 3: the process runs
  obtain ⟨a, hv2p, ha⟩ := hf₂.v2p_kernel _ dir f (dir.toNat / 2 ^ 12) (by omega) hrole
  have hpgdir : Function.update s₂.pgdir t dir t = dir := Function.update_self _ _ _
  have hact := page_dir_activate_eq _ t dir a hpgdir hne hv2p
  have hdir₃ : frameOf a = f := by
    unfold frameOf
    omega
  have hstep₃ : mem_step (locked_call ndebug) ndebug { s₂ with pgdir := Function.update s₂.pgdir t dir } (.activate t) =
      .ok ({ s₂ with pgdir := Function.update s₂.pgdir t dir, cr3 := a, cur := t }, []) := by
    unfold mem_step
    dsimp only
    rw [hact]
    rfl
  have hr₃ := Run.Reach.step _ _ (MemAct.activate t) _ _ hr₂ trivial hstep₃
  refine ⟨_, _, f :: dirs, hr₃, ⟨?_, rfl, fun hn => hne (hpgdir.symm.trans hn), ?_, fun page h1 h2 => ?_⟩,
    hst₂.congr _ _ _ _ _ rfl rfl rfl rfl⟩
  · exact hf₂.activate _ a t (hdir₃ ▸ List.mem_cons_self)
  · dsimp only
    rw [hva₂, hva₁, Function.update_self]
  · change frameAt s₂.ram (frameOf a) page = none
    rw [hdir₃]
    exact hnew.unmapped s₁ _ f page hnd h1 h2

/-- The calls of `process_execute` and `start_process`, with 32 frames in each pool. -/
theorem heapRun_first : ∃ t s, HeapRun false t [] s := by
  have hf₀ : Frames (bootPages fun _ _ => 0) [PAGE_DIR_FRAME] [] (zeroMemory 0x240000) := mem_init_frames _ _ _ _
  have hr₀ := reach_zeroMemory (locked_call false) false (fun _ => True) trivial 0x240000
  have hst₀ := stock_zeroMemory
  generalize zeroMemory 0x240000 = s₀ at hf₀ hr₀ hst₀
  -- the page of the PCB is the task
  obtain ⟨pcb, s₁, hpcb, hgives⟩ := get_kernel_pages_gives false s₀ 31 32 31 1 hf₀ hst₀ (by omega) (by omega)
  obtain ⟨⟨hf₁, -⟩, -⟩ := spec_of_ok _ _ _ (get_kernel_pages_spec false s₀ 1 (by omega) hf₀) _ hpcb
  have hin : inContract [] s₀ (.call (.get_kernel_pages 1)) := And.intro (by omega) (by omega)
  have hr₁ := Run.Reach.step _ _ _ _ _ hr₀ hin
    (mem_step_call (locked_call false) false s₀ (.get_kernel_pages 1) pcb s₁ hpcb)
  obtain ⟨log, s₂, dirs, hr₂, hp, hst₂⟩ := newProcess_gives false _ _ _ s₁ 7 32 7 pcb.toNat hr₁ hf₁ hgives.stock
  obtain ⟨s₃, hget⟩ := get_a_page_gives false s₂ 6 31 7 USER_STACK3_VADDR hp.frames hst₂ (by rw [hp.cur]; exact hp.pgdir)
    (by rw [hp.cur, hp.range]; decide) ⟨by decide, by decide⟩ (hp.empty _ (by decide) (by decide))
  exact ⟨_, s₃, .start_process log s₂ _ s₃ hr₂ hp.cur hp.pgdir hp.range hget (by decide)⟩

/-- The heap of a process that has its stack. -/
theorem heap_not_below_stack_first : ∃ t s, ¬ HeapBelowStack [] ∧ ∀ n v s', s.cur = t → 0 < n →
    get_user_pages false s n = .ok (v, s') →
      (v.toNat + n * 4096 ≤ USER_STACK3_VADDR.toNat ↔
        ∃ j, j + n ≤ stackBit ∧ (s.userprog_vaddr t).vaddr_bitmap.FreeRun n j) := by
  obtain ⟨t, s, h⟩ := heapRun_first
  obtain ⟨hnot, -, hiff⟩ := heap_not_below_stack false t [] s h
  exact ⟨t, s, hnot, hiff⟩

/-- The stack page of a process is not the last one below the kernel. -/
theorem stack_in_heap : ∃ t s, HeapRun false t [] s ∧ ¬ HeapBelowStack [] := by
  obtain ⟨t, s, h⟩ := heapRun_first
  exact ⟨t, s, h, fun hb => absurd hb.stack (by decide)⟩

end OsLearn
