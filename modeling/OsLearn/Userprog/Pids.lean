import OsLearn.Thread.Tasks
import OsLearn.Userprog.Process
import Mathlib.Data.List.Perm.Subperm

/-!
# Process identifiers

`next_pid` has 16 bits, and nothing in `allocate_pid` stops it. A new task has its PCB in a page of its
own, and the heap of the kernel has fewer pages than a `pid_t` has positive values.
-/

open OsLearn.Queues

namespace OsLearn

/-! ## The page of a PCB -/

/-- Page `i` of the heap of the kernel. Its bitmap has less than 4096 bytes. -/
def HeapPage (t : Tid) : Prop := ∃ i < 8 * 4095, t = 0xc0100000 + 4096 * i

structure KernelHeap (s : Mm) : Prop where
  start : s.kernel_vaddr.vaddr_start = K_HEAP_START
  len : s.kernel_vaddr.vaddr_bitmap.btmp_bytes_len < 4096

theorem vaddr_get_heap (s : Mm) (h : KernelHeap s) :
    Spec (vaddr_get false s .PF_KERNEL 1) (fun r => HeapPage r.1.toNat) fun _ => True := by
  unfold vaddr_get
  rw [spec_bind]
  refine spec_mono _ _ _ _ _ (bitmap_scan_spec false _ 1) ?_ fun _ _ => trivial
  rintro r ⟨hsome, hnone⟩
  cases r with
  | none => exact absurd (hnone rfl rfl) (by decide)
  | some i =>
    have hin : i < 8 * s.kernel_vaddr.vaddr_bitmap.btmp_bytes_len := (hsome i rfl).one rfl
    have hi : i < 8 * 4095 := by
      have := h.len
      omega
    refine ⟨i, hi, ?_⟩
    show (s.kernel_vaddr.vaddr_start + UInt32.ofNat i * PG_SIZE).toNat = _
    rw [h.start, UInt32.toNat_add, UInt32.toNat_mul, UInt32.toNat_ofNat_of_lt' (by show i < 2 ^ 32; omega)]
    show (0xc0100000 + i * 4096 % 2 ^ 32) % 2 ^ 32 = _
    omega

/-- Where the page is, whatever becomes of the frames. -/
theorem get_kernel_pages_heap (s : Mm) (h : KernelHeap s) :
    Spec (get_kernel_pages false s 1) (fun r => r.1 = NULL ∨ HeapPage r.1.toNat) fun _ => True := by
  have hmalloc : Spec (malloc_page false s .PF_KERNEL 1) (fun r => r.1 = NULL ∨ HeapPage r.1.toNat) fun _ => True := by
    unfold malloc_page
    simp only [ASSERT_in_false, spec_bind, spec_ASSERT]
    refine ⟨fun _ => ?_, fun _ => trivial⟩
    refine spec_mono _ _ _ _ _ (vaddr_get_heap s h) (fun r hr => ?_) fun _ _ => trivial
    split
    · exact .inl rfl
    · rw [spec_bind]
      cases map_pages false .PF_KERNEL r.2 r.1 1 with
      | error e => trivial
      | ok r' =>
        rw [spec_ok]
        split
        · exact .inr hr
        · exact .inl rfl
  unfold get_kernel_pages
  rw [spec_bind]
  refine spec_mono _ _ _ _ _ hmalloc ?_ fun _ _ => trivial
  rintro ⟨v, s'⟩ hr
  dsimp only
  split
  · rw [spec_bind]
    cases s'.memset_zero v 1 with
    | error e => trivial
    | ok s'' => exact hr
  · exact hr

/-! ## New tasks -/

/-- The machine has one more task, in a page of the heap or at `NULL`. -/
def TaskCreated (m m' : Machine) : Prop :=
  ∃ t prio lock sem, (t = 0 ∨ HeapPage t) ∧ t ∉ m.sched.thread_all_list ∧
    sem.waiters = (m.sema (.lock .pid_lock)).waiters ∧
    m' = (m.takePid lock sem).addTask t prio (m.sched.next_pid + 1)

theorem thread_start_created (os : Os) (prio : Int32) (h : KernelHeap os.mm) :
    Spec (os.thread_start prio) (fun r => TaskCreated os.machine r.1.machine) fun _ => True := by
  unfold Os.thread_start
  rw [spec_bind]
  refine spec_mono _ _ _ _ _ (get_kernel_pages_heap os.mm h) ?_ fun _ _ => trivial
  rintro ⟨thread, mm⟩ hpage
  have ht : thread.toNat = 0 ∨ HeapPage thread.toNat := hpage.imp_left (congrArg UInt32.toNat)
  unfold thread_start
  simp only [spec_bind, spec_ASSERT, spec_pure]
  apply allocate_pid_spec
  · intro lock sem hs
    exact ⟨fun _ => ⟨fun hall => ⟨_, prio, lock, sem, ht, hall, hs, rfl⟩, fun _ => trivial⟩, fun _ => trivial⟩
  · exact fun _ _ => trivial

theorem process_execute_created (os : Os) (h : KernelHeap os.mm) :
    Spec os.process_execute (fun r => TaskCreated os.machine r.1.machine) fun _ => True := by
  unfold Os.process_execute
  rw [spec_bind]
  refine spec_mono _ _ _ _ _ (get_kernel_pages_heap os.mm h) ?_ fun _ _ => trivial
  rintro ⟨thread, mm⟩ hpage
  have ht : thread.toNat = 0 ∨ HeapPage thread.toNat := hpage.imp_left (congrArg UInt32.toNat)
  dsimp only
  rw [spec_bind]
  apply allocate_pid_spec
  · intro lock sem hs
    dsimp only
    rw [spec_bind]
    cases create_user_vaddr_bitmap false (mm.clearPcb thread.toNat) thread.toNat with
    | error e => trivial
    | ok r =>
      rw [spec_ok, spec_bind]
      cases create_page_dir false r.2 with
      | error e => trivial
      | ok r' =>
        simp only [spec_ok, spec_bind, spec_ASSERT, spec_pure]
        exact ⟨fun _ => ⟨fun hall => ⟨_, default_prip, lock, sem, ht, hall, hs, rfl⟩, fun _ => trivial⟩, fun _ => trivial⟩
  · exact fun _ _ => trivial

/-! ## The numbers -/

/-- The tasks have the numbers from 1 on, in the order of the list. -/
structure Numbered (m : Machine) : Prop where
  pids : m.sched.thread_all_list.map (fun t => (m.sched.task t).pid) =
    (List.range m.sched.thread_all_list.length).map fun i => Int16.ofNat (i + 1)
  next : m.sched.next_pid = Int16.ofNat m.sched.thread_all_list.length

/-- A PCB is that of the main thread or in a page of the heap. One may be at `NULL`. -/
def Placed (m : Machine) : Prop :=
  ∀ t ∈ m.sched.thread_all_list, t = m.sched.main_thread ∨ t = 0 ∨ HeapPage t

structure PidInv (m : Machine) : Prop where
  queues : QueueInv m
  numbered : Numbered m
  placed : Placed m

theorem started_pids (main : Tid) (intr : Bool) (task : Tid → TaskStruct) (value : Nat → UInt8)
    (buf : Nat → Nat → UInt8) : PidInv (started main intr task value buf) := by
  have hall : (started main intr task value buf).sched.thread_all_list = [main] := rfl
  have hpid : ((started main intr task value buf).sched.task main).pid = 1 := by
    simp [started, init_thread, Machine.takePid, Machine.setSema, Machine.setLock, boot]
  refine ⟨started_inv main intr task value buf, ⟨?_, ?_⟩, fun t ht => .inl ?_⟩
  · rw [hall, List.map_singleton, hpid]
    rfl
  · rfl
  · exact List.mem_singleton.mp ht

theorem TaskCreated.pids (m m' : Machine) (h : PidInv m) (hc : TaskCreated m m') : PidInv m' := by
  obtain ⟨t, prio, lock, sem, hpage, hnew, hs, rfl⟩ := hc
  have hall : ((m.takePid lock sem).addTask t prio (m.sched.next_pid + 1)).sched.thread_all_list =
      m.sched.thread_all_list ++ [t] := rfl
  have hnext : m.sched.next_pid + 1 = Int16.ofNat (m.sched.thread_all_list.length + 1) := by
    rw [h.numbered.next, Int16.ofNat_add]
    rfl
  refine ⟨addTask_inv _ t prio _ (takePid_inv m lock sem h.queues hs) hnew, ⟨?_, ?_⟩, fun u hu => ?_⟩
  · rw [hall, List.map_append, List.length_append, List.length_singleton, List.range_succ, List.map_append]
    congr 1
    · rw [← h.numbered.pids]
      apply List.map_congr_left
      intro u hu
      have hne : u ≠ t := fun he => hnew (he ▸ hu)
      show (Function.update m.sched.task t _ u).pid = _
      rw [Function.update_of_ne hne]
    · rw [List.map_singleton, List.map_singleton, ← hnext]
      show [(Function.update m.sched.task t _ t).pid] = _
      rw [Function.update_self]
  · rw [hall, List.length_append]
    exact hnext
  · rw [hall, List.mem_append, List.mem_singleton] at hu
    rcases hu with hu | rfl
    · exact h.placed u hu
    · exact .inr hpage

/-- The same tasks with the same numbers. -/
structure SamePids (m m' : Machine) : Prop where
  pid : ∀ t, (m'.sched.task t).pid = (m.sched.task t).pid
  all : m'.sched.thread_all_list = m.sched.thread_all_list
  main : m'.sched.main_thread = m.sched.main_thread
  next_pid : m'.sched.next_pid = m.sched.next_pid

theorem OnTasks.samePids (m m' : Machine) (a : Act) (h : OnTasks m a m') (ha : ∀ t prio, a ≠ .thread_start t prio) :
    SamePids m m' := by
  cases h with
  | same _ _ _ hs => exact ⟨hs.keeps m m' TaskStruct.pid fun _ _ => rfl, hs.all, hs.main, hs.next_pid⟩
  | tick =>
    refine ⟨fun t => ?_, rfl, rfl, rfl⟩
    rw [useTick_task]
    by_cases hc : t = m.cur
    · rw [hc, Function.update_self]
    · rw [Function.update_of_ne hc]
  | preempt next rest =>
    refine ⟨fun t => ?_, rfl, rfl, rfl⟩
    rw [preempt_keeps TaskStruct.pid fun _ _ => rfl]
    by_cases hc : t = m.cur
    · rw [hc, Function.update_self]
    · rw [Function.update_of_ne hc]
  | create t prio => exact absurd rfl (ha t prio)

theorem step_pids (m : Machine) (a : Act) (h : PidInv m) (ha : ∀ t prio, a ≠ .thread_start t prio) :
    Spec (step m a) (fun r => PidInv r.1) fun _ => True := by
  rw [spec_iff_ok]
  rintro ⟨m', evs⟩ hs
  have hmv := spec_of_ok _ _ _ (step_moves m a h.queues) _ hs
  have hsame := (moves_onTasks m m' a evs hmv).samePids m m' a ha
  refine ⟨spec_of_ok _ _ _ (step_inv m a h.queues) _ hs, ⟨?_, ?_⟩, fun t ht => ?_⟩
  · simp only [hsame.all, hsame.pid]
    exact h.numbered.pids
  · rw [hsame.next_pid, hsame.all]
    exact h.numbered.next
  · rw [hsame.main]
    exact h.placed t (hsame.all ▸ ht)

/-! ## Runs -/

theorem machineStep_pids (os : Os) (a : Act) (h : PidInv os.machine) (ha : ∀ t prio, a ≠ .thread_start t prio) :
    Spec (os.machineStep a) (fun r => PidInv r.1.machine) fun _ => True := by
  unfold Os.machineStep
  rw [spec_bind]
  exact spec_mono _ _ _ _ _ (step_pids os.machine a h ha) (fun _ hr => hr) fun _ _ => trivial

theorem osStep_pids (os : Os) (a : OsAct) (hheap : KernelHeap os.mm) (h : PidInv os.machine) :
    Spec (osStep os a) (fun r => PidInv r.1.machine) fun _ => True := by
  cases a with
  | run => exact machineStep_pids os .run h nofun
  | timer => exact machineStep_pids os .timer h nofun
  | keyboard q byte => exact machineStep_pids os (.keyboard q byte) h nofun
  | call c => exact spec_guard _ _ _ (machineStep_pids os (.call c) h nofun)
  | thread_start prio =>
    apply spec_guard
    exact spec_mono _ _ _ _ _ (thread_start_created os prio hheap) (fun _ hr => hr.pids _ _ h) fun _ _ => trivial
  | process_execute =>
    apply spec_guard
    exact spec_mono _ _ _ _ _ (process_execute_created os hheap) (fun _ hr => hr.pids _ _ h) fun _ _ => trivial
  | start_process =>
    apply spec_guard
    unfold Os.start_process
    rw [spec_bind]
    cases get_a_page false os.mm .PF_USER USER_STACK3_VADDR with
    | error e => trivial
    | ok r => exact h

theorem reach_pids (log : List OsEvent) (os : Os) (hr : Run.Reach osSystem Run.anyStep log os) : PidInv os.machine := by
  refine Run.reach_invariant_with osSystem Run.anyStep (fun _ os => KernelHeap os.mm) (fun _ os => PidInv os.machine)
    ?_ ?_ ?_ log os hr
  · intro log os hr
    obtain ⟨booted, dirs, h⟩ := os_reach log os hr
    exact ⟨h.frames.layout.heap.1, h.frames.layout.heap.2⟩
  · rintro os ⟨main, intr, task, value, buf, m, ram, all_mem, bits, hm, rfl⟩
    rw [thread_init_eq] at hm
    cases hm
    exact started_pids main intr task value buf
  · intro log os a os' evs hheap h _ hs
    exact spec_of_ok _ _ _ (osStep_pids os a hheap h) _ hs

/-! ## There are enough numbers -/

/-- The PCBs are apart, so there are no more of them than pages, and two. -/
theorem tasks_le (m : Machine) (h : PidInv m) : m.sched.thread_all_list.length ≤ 8 * 4095 + 2 := by
  have hsub : m.sched.thread_all_list ⊆
      m.sched.main_thread :: 0 :: (List.range (8 * 4095)).map fun i => 0xc0100000 + 4096 * i := by
    intro t ht
    rcases h.placed t ht with rfl | rfl | ⟨i, hi, rfl⟩
    · exact List.mem_cons_self
    · exact List.mem_cons_of_mem _ List.mem_cons_self
    · exact List.mem_cons_of_mem _ (List.mem_cons_of_mem _ (List.mem_map_of_mem (List.mem_range.mpr hi)))
  have hnodup : m.sched.thread_all_list.Nodup := h.queues.queue.all_nodup
  have hle := (List.subperm_of_subset hnodup hsub).length_le
  rw [List.length_cons, List.length_cons, List.length_map, List.length_range] at hle
  exact hle

/-- **The pids are unique.** In every state that a run reaches from `mem_init` and `thread_init`, for
whatever memory there is, the tasks of `thread_all_list` have different positive pids. The counter
has not wrapped: it is the number of tasks. -/
theorem pids_unique (log : List OsEvent) (os : Os) (hr : Run.Reach osSystem Run.anyStep log os) :
    (os.machine.sched.thread_all_list.map fun t => (os.machine.sched.task t).pid).Nodup ∧
    (∀ t ∈ os.machine.sched.thread_all_list, 0 < (os.machine.sched.task t).pid) ∧
    os.machine.sched.next_pid.toInt = os.machine.sched.thread_all_list.length := by
  have h := reach_pids log os hr
  have hle := tasks_le os.machine h
  have htoInt : ∀ k ≤ os.machine.sched.thread_all_list.length, (Int16.ofNat k).toInt = k := by
    intro k hk
    apply Int16.toInt_ofNat_of_lt
    omega
  refine ⟨?_, fun t ht => ?_, ?_⟩
  · rw [h.numbered.pids]
    apply List.Nodup.map_on _ List.nodup_range
    intro i hi j hj heq
    have := congrArg Int16.toInt heq
    rw [htoInt _ (List.mem_range.mp hi), htoInt _ (List.mem_range.mp hj)] at this
    omega
  · have hmem : (os.machine.sched.task t).pid ∈ os.machine.sched.thread_all_list.map
        fun t => (os.machine.sched.task t).pid := List.mem_map_of_mem ht
    rw [h.numbered.pids, List.mem_map] at hmem
    obtain ⟨i, hi, heq⟩ := hmem
    rw [← heq, Int16.lt_iff_toInt_lt, htoInt _ (List.mem_range.mp hi)]
    show 0 < ((i + 1 : Nat) : Int)
    omega
  · rw [h.numbered.next, htoInt _ (Nat.le_refl _)]

/-- The main thread and one more. -/
theorem pids_unique_two : ∃ log os, Run.Reach osSystem Run.anyStep log os ∧
    os.machine.sched.thread_all_list = [0, 0xc0100000] ∧
    (os.machine.sched.task 0).pid ≠ (os.machine.sched.task 0xc0100000).pid := by
  obtain ⟨mm, hstep, -⟩ := zeroOs_thread
  have hr := Run.Reach.step _ _ (OsAct.thread_start 31) _ _ reach_zeroOs trivial hstep
  obtain ⟨hnodup, -, -⟩ := pids_unique _ _ hr
  have hall : withTask.sched.thread_all_list = [0, 0xc0100000] := rfl
  refine ⟨_, _, hr, hall, fun heq => ?_⟩
  rw [hall, List.map_cons, List.map_singleton, heq] at hnodup
  simp at hnodup

end OsLearn
