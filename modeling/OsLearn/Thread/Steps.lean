import OsLearn.Thread.Machine

/-!
# What each piece of the code does

One spec per function, with the state that comes out of each branch. The proofs about runs use
these and do not unfold the code.
-/

namespace OsLearn

/-! ## `thread.c` -/

namespace Sched

@[simp] theorem setTask_cur (s : Sched) (t : Tid) (f : TaskStruct → TaskStruct) : (s.setTask t f).cur = s.cur := rfl
@[simp] theorem setTask_intr (s : Sched) (t : Tid) (f : TaskStruct → TaskStruct) :
    (s.setTask t f).intr = s.intr := rfl
@[simp] theorem setTask_ready (s : Sched) (t : Tid) (f : TaskStruct → TaskStruct) :
    (s.setTask t f).thread_ready_list = s.thread_ready_list := rfl
@[simp] theorem setTask_all (s : Sched) (t : Tid) (f : TaskStruct → TaskStruct) :
    (s.setTask t f).thread_all_list = s.thread_all_list := rfl
@[simp] theorem setTask_main (s : Sched) (t : Tid) (f : TaskStruct → TaskStruct) :
    (s.setTask t f).main_thread = s.main_thread := rfl
@[simp] theorem setTask_task (s : Sched) (t : Tid) (f : TaskStruct → TaskStruct) :
    (s.setTask t f).task = Function.update s.task t (f (s.task t)) := rfl

@[simp] theorem setStatus_status (s : Sched) (t u : Tid) (stat : TaskStatus) :
    ((s.setStatus t stat).task u).status = if u = t then stat else (s.task u).status := by
  unfold setStatus setTask
  by_cases h : u = t
  · subst h; simp
  · simp [h]

@[simp] theorem setStatus_cur (s : Sched) (t : Tid) (stat : TaskStatus) : (s.setStatus t stat).cur = s.cur := rfl
@[simp] theorem setStatus_intr (s : Sched) (t : Tid) (stat : TaskStatus) : (s.setStatus t stat).intr = s.intr := rfl
@[simp] theorem setStatus_ready (s : Sched) (t : Tid) (stat : TaskStatus) :
    (s.setStatus t stat).thread_ready_list = s.thread_ready_list := rfl
@[simp] theorem setStatus_all (s : Sched) (t : Tid) (stat : TaskStatus) :
    (s.setStatus t stat).thread_all_list = s.thread_all_list := rfl
@[simp] theorem setStatus_main (s : Sched) (t : Tid) (stat : TaskStatus) :
    (s.setStatus t stat).main_thread = s.main_thread := rfl

def requeue (s : Sched) : Sched :=
  (({ s with thread_ready_list := s.thread_ready_list ++ [s.cur] }).setTask s.cur fun p =>
    { p with ticks := p.priority }).setStatus s.cur .TASK_READY

def dispatch (s : Sched) (next : Tid) (rest : List Tid) : Sched :=
  { ({ s with thread_ready_list := rest }).setStatus next .TASK_RUNNING with cur := next }

@[simp] theorem requeue_ready (s : Sched) : s.requeue.thread_ready_list = s.thread_ready_list ++ [s.cur] := rfl
@[simp] theorem requeue_all (s : Sched) : s.requeue.thread_all_list = s.thread_all_list := rfl
@[simp] theorem requeue_intr (s : Sched) : s.requeue.intr = s.intr := rfl
@[simp] theorem requeue_main (s : Sched) : s.requeue.main_thread = s.main_thread := rfl
@[simp] theorem requeue_cur (s : Sched) : s.requeue.cur = s.cur := rfl
@[simp] theorem requeue_status (s : Sched) (u : Tid) :
    (s.requeue.task u).status = if u = s.cur then .TASK_READY else (s.task u).status := by
  by_cases h : u = s.cur <;> simp [requeue, h]

@[simp] theorem dispatch_cur (s : Sched) (next : Tid) (rest : List Tid) : (s.dispatch next rest).cur = next := rfl
@[simp] theorem dispatch_ready (s : Sched) (next : Tid) (rest : List Tid) :
    (s.dispatch next rest).thread_ready_list = rest := rfl
@[simp] theorem dispatch_all (s : Sched) (next : Tid) (rest : List Tid) :
    (s.dispatch next rest).thread_all_list = s.thread_all_list := rfl
@[simp] theorem dispatch_intr (s : Sched) (next : Tid) (rest : List Tid) :
    (s.dispatch next rest).intr = s.intr := rfl
@[simp] theorem dispatch_main (s : Sched) (next : Tid) (rest : List Tid) :
    (s.dispatch next rest).main_thread = s.main_thread := rfl
@[simp] theorem dispatch_status (s : Sched) (next : Tid) (rest : List Tid) (u : Tid) :
    ((s.dispatch next rest).task u).status = if u = next then .TASK_RUNNING else (s.task u).status :=
  setStatus_status _ next u _

end Sched

/-- What `schedule` does once its first ASSERT has passed, as one match. -/
theorem schedule_eq (s : Sched) (hi : s.intr = false) :
    schedule s =
      if (s.task s.cur).status = .TASK_RUNNING then
        if s.cur ∈ s.thread_ready_list then .error (.panic .schedule_ready_elem_find)
        else match s.thread_ready_list ++ [s.cur] with
          | [] => .error (.panic .schedule_list_empty)
          | next :: rest => .ok (s.requeue.dispatch next rest)
      else match s.thread_ready_list with
        | [] => .error (.panic .schedule_list_empty)
        | next :: rest => .ok (s.dispatch next rest) := by
  unfold schedule
  by_cases hr : (s.task s.cur).status = .TASK_RUNNING
  · by_cases hm : s.cur ∈ s.thread_ready_list
    · simp [ASSERT, hi, hr, hm, bind, Except.bind]
    · cases hl : s.thread_ready_list with
      | nil => simp [ASSERT, hi, hr, hl, bind, Except.bind, pure, Except.pure, Sched.requeue, Sched.dispatch]
      | cons a l =>
        rw [hl] at hm
        simp [ASSERT, hi, hr, hl, hm, bind, Except.bind, pure, Except.pure, Sched.requeue, Sched.dispatch]
  · cases hl : s.thread_ready_list with
    | nil => simp [ASSERT, hi, hr, hl, bind, Except.bind, pure, Except.pure]
    | cons a l => simp [ASSERT, hi, hr, hl, bind, Except.bind, pure, Except.pure, Sched.dispatch]

theorem schedule_yield_spec (s : Sched) (P : Sched → Prop) (E : Stop → Prop) (hi : s.intr = false)
    (hrun : (s.task s.cur).status = .TASK_RUNNING) (hcur : s.cur ∉ s.thread_ready_list)
    (h : ∀ next rest, s.thread_ready_list ++ [s.cur] = next :: rest → P (s.requeue.dispatch next rest)) :
    Spec (schedule s) P E := by
  rw [schedule_eq s hi, if_pos hrun, if_neg hcur]
  cases hl : s.thread_ready_list ++ [s.cur] with
  | nil => simp at hl
  | cons next rest => exact h next rest hl

theorem schedule_leave_spec (s : Sched) (P : Sched → Prop) (E : Stop → Prop) (hi : s.intr = false)
    (hrun : (s.task s.cur).status ≠ .TASK_RUNNING)
    (h : ∀ next rest, s.thread_ready_list = next :: rest → P (s.dispatch next rest))
    (he : s.thread_ready_list = [] → E (.panic .schedule_list_empty)) :
    Spec (schedule s) P E := by
  rw [schedule_eq s hi, if_neg hrun]
  cases hl : s.thread_ready_list with
  | nil => exact he hl
  | cons next rest => exact h next rest hl

def Sched.wakeTask (s : Sched) (t : Tid) : Sched :=
  ({ s with thread_ready_list := t :: s.thread_ready_list }).setStatus t .TASK_READY

theorem thread_unblock_eq (s : Sched) (t : Tid) (h : (s.task t).status = .TASK_BLOCKED)
    (hr : t ∉ s.thread_ready_list) : thread_unblock s t = .ok (s.wakeTask t) := by
  unfold thread_unblock
  simp [ASSERT, h, hr, bind, Except.bind, pure, Except.pure, Sched.wakeTask]

/-! ## Blocking and waking -/

def Machine.switchOut (m : Machine) (rest : List Frame) (next : Tid) (tl : List Tid) : Machine :=
  { m with
    stack := Function.update m.stack m.cur (.thread_block m.sched.intr :: rest)
    sched := (({ m.sched with intr := false }).setStatus m.cur .TASK_BLOCKED).dispatch next tl }

theorem thread_block_spec (m : Machine) (rest : List Frame) (P : Machine → Prop) (E : Stop → Prop)
    (h : ∀ next tl, m.sched.thread_ready_list = next :: tl → P (m.switchOut rest next tl))
    (he : m.sched.thread_ready_list = [] → E (.panic .schedule_list_empty)) :
    Spec (thread_block m .TASK_BLOCKED rest) P E := by
  unfold thread_block
  simp only [spec_bind, spec_ASSERT, spec_pure]
  refine ⟨fun _ => ?_, by simp⟩
  apply schedule_leave_spec
  · rfl
  · simp [Machine.cur, Machine.setIntr, Machine.setStack]
  · intro next tl hl
    exact h next tl hl
  · intro hl
    exact he hl

theorem sema_down_loop_spec (m : Machine) (s : SemRef) (old : Bool) (rest : List Frame)
    (P : Machine × List Event → Prop) (E : Stop → Prop)
    (hblock : (m.sema s).value = 0 → m.cur ∉ (m.sema s).waiters →
      ∀ next tl, m.sched.thread_ready_list = next :: tl →
        P ((m.setSema s { m.sema s with waiters := (m.sema s).waiters ++ [m.cur] }).switchOut
          (.sema_down s (some old) :: rest) next tl, []))
    (htake : (m.sema s).value - 1 = 0 →
      P (((m.setSema s { m.sema s with value := (m.sema s).value - 1 }).setIntr old).setStack rest,
        [.down m.cur s]))
    (hfind : (m.sema s).value = 0 → m.cur ∈ (m.sema s).waiters → E (.panic .sema_down_waiters_elem_find))
    (hempty : E (.panic .schedule_list_empty)) (hvalue : E (.panic .sema_down_value)) :
    Spec (sema_down_loop m s old rest) P E := by
  unfold sema_down_loop
  by_cases hv : (m.sema s).value = 0
  · rw [if_pos hv]
    by_cases hm : m.cur ∈ (m.sema s).waiters
    · simpa [hm] using hfind hv hm
    · simp only [hm, not_false_eq_true, if_false, spec_bind, spec_ASSERT, spec_pure, not_true_eq_false,
        IsEmpty.forall_iff, and_true, true_imp_iff]
      apply thread_block_spec
      · intro next tl hl
        exact hblock hv hm next tl hl
      · intro _
        exact hempty
  · rw [if_neg hv]
    simp only [spec_bind, spec_ASSERT, spec_pure]
    exact ⟨htake, fun _ => hvalue⟩

theorem sema_up_spec (m : Machine) (s : SemRef) (P : Machine → Prop) (E : Stop → Prop)
    (hw : ∀ t ∈ (m.sema s).waiters,
      (m.sched.task t).status = .TASK_BLOCKED ∧ t ∉ m.sched.thread_ready_list)
    (hnil : (m.sema s).value = 0 → (m.sema s).waiters = [] → P (m.setSema s { value := 1, waiters := [] }))
    (hcons : (m.sema s).value = 0 → ∀ t ts, (m.sema s).waiters = t :: ts →
      P { m.setSema s { value := 1, waiters := ts } with sched := m.sched.wakeTask t })
    (he : (m.sema s).value ≠ 0 → E (.panic .sema_up_value)) :
    Spec (sema_up m s) P E := by
  unfold sema_up
  simp only [spec_bind, spec_ASSERT]
  refine ⟨fun hv => ?_, he⟩
  cases hl : (m.sema s).waiters with
  | nil =>
    simp only [spec_pure, spec_bind, spec_ASSERT, hv, hl]
    exact ⟨fun _ => hnil hv hl, by simp⟩
  | cons t ts =>
    have ht := hw t (by rw [hl]; exact List.mem_cons_self)
    have hu := thread_unblock_eq m.sched t ht.1 ht.2
    have := hcons hv t ts hl
    simp only [Machine.setSema, hu, spec_bind, spec_ok, spec_pure, Function.update_self,
      Function.update_idem, spec_ASSERT, hv] at this ⊢
    exact ⟨fun _ => this, by simp⟩

/-! ## `ioqueue.c` -/

theorem ioq_take_spec (m : Machine) (q : Nat) (P : Machine × UInt8 → Prop) (E : Stop → Prop)
    (hw : ∀ t, (m.ioq q).producer = some t →
      (m.sched.task t).status = .TASK_BLOCKED ∧ t ∉ m.sched.thread_ready_list)
    (hnone : (m.ioq q).producer = none →
      P (m.setIoq q { m.ioq q with tail := next_pos (m.ioq q).tail }, (m.ioq q).buf (m.ioq q).tail))
    (hsome : ∀ t, (m.ioq q).producer = some t →
      P ({ m.setIoq q { m.ioq q with tail := next_pos (m.ioq q).tail, producer := none } with
          sched := m.sched.wakeTask t }, (m.ioq q).buf (m.ioq q).tail)) :
    Spec (ioq_take m q) P E := by
  unfold ioq_take wakeup
  cases hp : (m.ioq q).producer with
  | none => simpa [Machine.setIoq, hp] using hnone hp
  | some t =>
    have hu := thread_unblock_eq m.sched t (hw t hp).1 (hw t hp).2
    simpa [Machine.setIoq, hp, hu] using hsome t hp

theorem ioq_store_spec (m : Machine) (q : Nat) (byte : UInt8) (P : Machine → Prop) (E : Stop → Prop)
    (hw : ∀ t, (m.ioq q).consumer = some t →
      (m.sched.task t).status = .TASK_BLOCKED ∧ t ∉ m.sched.thread_ready_list)
    (hnone : (m.ioq q).consumer = none →
      P (m.setIoq q { m.ioq q with
        buf := Function.update (m.ioq q).buf (m.ioq q).head byte
        head := next_pos (m.ioq q).head }))
    (hsome : ∀ t, (m.ioq q).consumer = some t →
      P { m.setIoq q { m.ioq q with
          buf := Function.update (m.ioq q).buf (m.ioq q).head byte
          head := next_pos (m.ioq q).head
          consumer := none } with sched := m.sched.wakeTask t }) :
    Spec (ioq_store m q byte) P E := by
  unfold ioq_store wakeup
  cases hp : (m.ioq q).consumer with
  | none => simpa [Machine.setIoq, hp] using hnone hp
  | some t =>
    have hu := thread_unblock_eq m.sched t (hw t hp).1 (hw t hp).2
    simpa [Machine.setIoq, hp, hu] using hsome t hp

/-! ## The timer -/

def Machine.tick (m : Machine) : Machine :=
  { m with
    sched := m.sched.setTask m.cur fun p => { p with elapsed_ticks := p.elapsed_ticks + 1 }
    ticks := m.ticks + 1 }

def Machine.useTick (m : Machine) : Machine :=
  { m.tick with sched := m.tick.sched.setTask m.cur fun p => { p with ticks := p.ticks - 1 } }

def Machine.preempt (m : Machine) (next : Tid) (rest : List Tid) : Machine :=
  { m.tick with
    stack := Function.update m.stack m.cur (.intr_exit :: m.stack m.cur)
    sched := ({ m.tick.sched with intr := false }).requeue.dispatch next rest }

@[simp] theorem Machine.tick_status (m : Machine) (u : Tid) :
    (m.tick.sched.task u).status = (m.sched.task u).status := by
  by_cases h : u = m.cur
  · subst h; simp [Machine.tick]
  · simp [Machine.tick, h]

@[simp] theorem Machine.useTick_status (m : Machine) (u : Tid) :
    (m.useTick.sched.task u).status = (m.sched.task u).status := by
  by_cases h : u = m.cur
  · subst h; simp [Machine.useTick, Machine.tick]
  · simp [Machine.useTick, Machine.tick, h]

theorem intr_timer_handler_spec (m : Machine) (P : Machine → Prop) (E : Stop → Prop)
    (hrun : (m.sched.task m.cur).status = .TASK_RUNNING) (hcur : m.cur ∉ m.sched.thread_ready_list)
    (huse : (m.sched.task m.cur).ticks ≠ 0 → P m.useTick)
    (hover : (m.sched.task m.cur).ticks = 0 →
      ∀ next rest, m.sched.thread_ready_list ++ [m.cur] = next :: rest → P (m.preempt next rest))
    (he : (m.sched.task m.cur).stack_magic ≠ 0x19851122 → E (.panic .timer_stack_magic)) :
    Spec (intr_timer_handler m) P E := by
  unfold intr_timer_handler
  simp only [spec_bind, spec_ASSERT]
  refine ⟨fun _ => ?_, he⟩
  by_cases ht : (m.sched.task m.cur).ticks = 0
  · have ht' : (m.tick.sched.task m.cur).ticks = 0 := by simpa [Machine.tick] using ht
    rw [if_pos (by exact ht')]
    simp only [spec_bind, spec_pure]
    apply schedule_yield_spec
    · rfl
    · exact (Machine.tick_status m m.cur).trans hrun
    · exact hcur
    · intro next rest hl
      exact hover ht next rest hl
  · have ht' : ¬ (m.tick.sched.task m.cur).ticks = 0 := by simpa [Machine.tick] using ht
    rw [if_neg (by exact ht')]
    exact huse ht

/-! ## New threads -/

def PidLockStop (e : Stop) : Prop :=
  e = .notNow ∨ e = .panic .sema_down_value ∨ e = .panic .lock_acquire_repeat_nr ∨
    e = .panic .lock_release_holder ∨ e = .panic .lock_release_repeat_nr

theorem lock_acquire_spec (cur : Tid) (lock : Lock) (sem : Semaphore) (P : Lock × Semaphore → Prop)
    (E : Stop → Prop)
    (hagain : lock.holder = some cur →
      P ({ lock with holder_repeat_nr := lock.holder_repeat_nr + 1 }, sem))
    (hfirst : lock.holder ≠ some cur → sem.value ≠ 0 → sem.value - 1 = 0 → lock.holder_repeat_nr = 0 →
      P ({ holder := some cur, holder_repeat_nr := 1 }, { sem with value := 0 }))
    (he : ∀ e, PidLockStop e → E e) : Spec (lock_acquire false cur lock sem) P E := by
  unfold lock_acquire
  by_cases hh : lock.holder = some cur
  · simpa [hh] using hagain hh
  · by_cases hv : sem.value = 0
    · simpa [hh, hv] using he _ (Or.inl rfl)
    · simp only [hh, hv, if_false, spec_bind, spec_pure, ASSERT_in_false, spec_ASSERT]
      refine ⟨fun h1 => ⟨fun h2 => ?_, fun _ => ?_⟩, fun _ => ?_⟩
      · rw [h1]
        exact hfirst hh hv h1 h2
      · exact he _ (by simp [PidLockStop])
      · exact he _ (by simp [PidLockStop])

/-- The last branch of `lock_release` is never passed: it is entered with the counter at 0, and its
first ASSERT wants 1. -/
theorem lock_release_spec (cur : Tid) (lock : Lock) (sem : Semaphore)
    (P : Lock × Semaphore × Option Tid → Prop) (E : Stop → Prop)
    (hagain : lock.holder = some cur → lock.holder_repeat_nr ≠ 0 →
      P ({ lock with holder_repeat_nr := lock.holder_repeat_nr - 1 }, sem, none))
    (he : ∀ e, PidLockStop e → E e) : Spec (lock_release false cur lock sem) P E := by
  unfold lock_release
  simp only [spec_bind, ASSERT_in_false, spec_ASSERT]
  refine ⟨fun hh => ?_, fun _ => he _ (by simp [PidLockStop])⟩
  by_cases hn : lock.holder_repeat_nr = 0
  · simpa [hn, ASSERT] using he _ (by simp [PidLockStop])
  · have hpos : lock.holder_repeat_nr > 0 := UInt32.pos_iff_ne_zero.mpr hn
    simpa [hpos] using hagain hh hn

/-- The machine after `allocate_pid`: only `pid_lock` and the counter have changed. -/
def Machine.takePid (m : Machine) (lock : Lock) (sem : Semaphore) : Machine :=
  ({ m with sched := { m.sched with next_pid := m.sched.next_pid + 1 } }.setLock .pid_lock lock).setSema
    (.lock .pid_lock) sem

theorem allocate_pid_spec (m : Machine) (P : Machine × Int16 → Prop) (E : Stop → Prop)
    (h : ∀ lock sem, sem.waiters = (m.sema (.lock .pid_lock)).waiters →
      P (m.takePid lock sem, m.sched.next_pid + 1))
    (he : ∀ e, PidLockStop e → E e) : Spec (allocate_pid m) P E := by
  unfold allocate_pid
  simp only [spec_bind]
  apply lock_acquire_spec
  · intro hh
    apply lock_release_spec
    · intro _ _
      exact h _ _ rfl
    · exact he
  · intro _ _ _ _
    apply lock_release_spec
    · intro _ _
      exact h _ _ rfl
    · exact he
  · exact he

def Machine.addTask (m : Machine) (t : Tid) (prio : Int32) (pid : Int16) : Machine :=
  { m with
    sched := { init_thread m.sched t prio pid with
      thread_ready_list := m.sched.thread_ready_list ++ [t]
      thread_all_list := m.sched.thread_all_list ++ [t] }
    stack := Function.update m.stack t [.kernel_thread] }

theorem thread_start_spec (m : Machine) (t : Tid) (prio : Int32) (P : Machine → Prop) (E : Stop → Prop)
    (hready : t ∉ m.sched.thread_ready_list) (hall : t ∉ m.sched.thread_all_list)
    (h : ∀ lock sem, sem.waiters = (m.sema (.lock .pid_lock)).waiters →
      P ((m.takePid lock sem).addTask t prio (m.sched.next_pid + 1)))
    (he : ∀ e, PidLockStop e → E e) : Spec (thread_start m t prio) P E := by
  unfold thread_start
  simp only [spec_bind, spec_ASSERT, spec_pure]
  apply allocate_pid_spec
  · intro lock sem hs
    exact ⟨fun _ => ⟨fun _ => h lock sem hs, fun hn => absurd hall hn⟩, fun hn => absurd hready hn⟩
  · exact he

/-- The machine after `thread_init`: the main thread runs, and has had `pid_lock` once. -/
def started (main : Tid) (intr : Bool) (task : Tid → TaskStruct) (value : Nat → UInt8)
    (buf : Nat → Nat → UInt8) : Machine :=
  let m := (boot main intr task value buf).takePid { holder := some main, holder_repeat_nr := 0 }
    { value := 0, waiters := [] }
  { m with sched := { init_thread m.sched main 31 1 with thread_all_list := [main] } }

theorem thread_init_eq (main : Tid) (intr : Bool) (task : Tid → TaskStruct) (value : Nat → UInt8)
    (buf : Nat → Nat → UInt8) :
    thread_init main intr task value buf = .ok (started main intr task value buf) := by
  simp [thread_init, started, allocate_pid, lock_acquire, lock_release, boot, lock_init, sema_init, ASSERT,
    init_thread, Machine.takePid, Machine.cur, Machine.setLock, Machine.setSema, bind, Except.bind, pure,
    Except.pure]

theorem kernel_init_iff (m : Machine) :
    kernel.init m ↔ ∃ main intr task value buf, m = started main intr task value buf := by
  simp only [kernel, thread_init_eq, Except.ok.injEq, eq_comm]

def zeroPcb : TaskStruct where
  pid := 0
  status := .TASK_RUNNING
  priority := 0
  ticks := 0
  elapsed_ticks := 0
  pgdir := 0
  stack_magic := 0

/-- The machine after `thread_init` with its memory zeroed and every semaphore at 1. -/
def zeroed : Machine := started 0 false (fun _ => zeroPcb) (fun _ => 1) (fun _ _ => 0)

theorem reach_zeroed (ok : List Event → Machine → Act → Prop) [∀ log m a, Decidable (ok log m a)]
    (acts : List Act) (log : List Event) (m : Machine) (h : Run.play kernel ok [] zeroed acts = some (log, m)) :
    Run.Reach kernel ok log m :=
  Run.reach_play kernel ok [] zeroed acts log m (.init _ ((kernel_init_iff _).mpr ⟨_, _, _, _, _, rfl⟩)) h

theorem started_waiters (main : Tid) (intr : Bool) (task : Tid → TaskStruct) (value : Nat → UInt8)
    (buf : Nat → Nat → UInt8) (s : SemRef) : ((started main intr task value buf).sema s).waiters = [] := by
  cases s with
  | sema i => simp [started, Machine.takePid, Machine.setSema, Machine.setLock, boot, sema_init]
  | lock l =>
    by_cases h : l = .pid_lock
    · subst h; simp [started, Machine.takePid, Machine.setSema, Machine.setLock]
    · simp [started, Machine.takePid, Machine.setSema, Machine.setLock, boot, lock_init, sema_init, h]

end OsLearn
