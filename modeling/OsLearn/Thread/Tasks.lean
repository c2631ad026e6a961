import OsLearn.Thread.Calls

/-!
# What a step does to the PCBs

The timer charges the running task, `thread_start` fills a new PCB, and every other step changes
nothing in a PCB but the status.
-/

open OsLearn.Queues

namespace OsLearn

/-! ## Fields that the scheduler leaves alone -/

section

variable {α : Type} (g : TaskStruct → α) (hstat : ∀ p stat, g { p with status := stat } = g p)
include hstat

theorem setStatus_keeps (s : Sched) (t u : Tid) (stat : TaskStatus) :
    g ((s.setStatus t stat).task u) = g (s.task u) := by
  unfold Sched.setStatus
  rw [Sched.setTask_task]
  by_cases h : u = t
  · subst h
    rw [Function.update_self, hstat]
  · rw [Function.update_of_ne h]

theorem dispatch_keeps (s : Sched) (next : Tid) (rest : List Tid) (u : Tid) :
    g ((s.dispatch next rest).task u) = g (s.task u) :=
  setStatus_keeps g hstat { s with thread_ready_list := rest } next u .TASK_RUNNING

theorem wakeTask_keeps (s : Sched) (t u : Tid) : g ((s.wakeTask t).task u) = g (s.task u) :=
  setStatus_keeps g hstat { s with thread_ready_list := t :: s.thread_ready_list } t u .TASK_READY

theorem switchOut_keeps (m : Machine) (rest : List Frame) (next : Tid) (tl : List Tid) (u : Tid) :
    g ((m.switchOut rest next tl).sched.task u) = g (m.sched.task u) := by
  show g ((Sched.dispatch _ next tl).task u) = _
  rw [dispatch_keeps g hstat, setStatus_keeps g hstat]

/-- The running task has used its slice: it gets a new one. -/
theorem preempt_keeps (m : Machine) (next : Tid) (rest : List Tid) (u : Tid) :
    g ((m.preempt next rest).sched.task u) = g (Function.update m.sched.task m.cur
      { m.sched.task m.cur with
        elapsed_ticks := (m.sched.task m.cur).elapsed_ticks + 1
        ticks := (m.sched.task m.cur).priority } u) := by
  show g ((Sched.dispatch _ next rest).task u) = _
  rw [dispatch_keeps g hstat]
  unfold Sched.requeue
  rw [setStatus_keeps g hstat]
  by_cases h : u = m.cur
  · subst h
    simp [Machine.tick, Machine.cur]
  · have h' : u ≠ m.sched.cur := h
    simp [Machine.tick, Machine.cur, h']

end

theorem useTick_task (m : Machine) : m.useTick.sched.task = Function.update m.sched.task m.cur
    { m.sched.task m.cur with
      elapsed_ticks := (m.sched.task m.cur).elapsed_ticks + 1
      ticks := (m.sched.task m.cur).ticks - 1 } := by
  simp [Machine.useTick, Machine.tick]

theorem ticks_pred (k : UInt8) (h : k ≠ 0) : (k - 1).toNat = k.toNat - 1 := by
  have : k.toNat ≠ 0 := fun h0 => h (UInt8.toNat_inj.mp h0)
  have hle : (1 : UInt8) ≤ k := by
    rw [UInt8.le_iff_toNat_le]
    exact Nat.one_le_iff_ne_zero.mpr this
  rw [UInt8.toNat_sub_of_le _ _ hle]
  rfl

/-! ## The other steps -/

/-- A PCB up to its status. -/
def TaskStruct.asReady (p : TaskStruct) : TaskStruct := { p with status := .TASK_READY }

/-- The PCBs, the list of all tasks and the counters are the same, whatever the statuses are. -/
structure SameTasks (m m' : Machine) : Prop where
  task : ∀ t, (m'.sched.task t).asReady = (m.sched.task t).asReady
  all : m'.sched.thread_all_list = m.sched.thread_all_list
  main : m'.sched.main_thread = m.sched.main_thread
  next_pid : m'.sched.next_pid = m.sched.next_pid
  ticks : m'.ticks = m.ticks

theorem SameTasks.keeps {α : Type} (m m' : Machine) (h : SameTasks m m') (g : TaskStruct → α)
    (hstat : ∀ p stat, g { p with status := stat } = g p) (t : Tid) :
    g (m'.sched.task t) = g (m.sched.task t) := by
  calc g (m'.sched.task t) = g (m'.sched.task t).asReady := (hstat _ _).symm
    _ = g (m.sched.task t).asReady := congrArg g (h.task t)
    _ = g (m.sched.task t) := hstat _ _

/-- What a step can do to the PCBs. -/
inductive OnTasks (m : Machine) : Act → Machine → Prop
  | same (a : Act) (m' : Machine) : a ≠ .timer → SameTasks m m' → OnTasks m a m'
  | tick : (m.sched.task m.cur).ticks ≠ 0 → OnTasks m .timer m.useTick
  | preempt (next : Tid) (rest : List Tid) :
      (m.sched.task m.cur).ticks = 0 → OnTasks m .timer (m.preempt next rest)
  | create (t : Tid) (prio : Int32) (lock : Lock) (sem : Semaphore) : t ∉ m.sched.thread_all_list →
      OnTasks m (.thread_start t prio) ((m.takePid lock sem).addTask t prio (m.sched.next_pid + 1))

theorem moves_onTasks (m m' : Machine) (a : Act) (evs : List Event) (hmv : Moves m a m' evs) : OnTasks m a m' := by
  have hstat (p : TaskStruct) (stat : TaskStatus) : { p with status := stat }.asReady = p.asReady := rfl
  cases hmv with
  | call c => exact .same _ _ (by simp) (by cases c <;> exact ⟨fun _ => rfl, rfl, rfl, rfl, rfl⟩)
  | down_wait s o rest next tl =>
    refine .same _ _ (by simp) ⟨fun t => ?_, ?_, ?_, ?_, ?_⟩
    · rw [switchOut_keeps _ hstat]
      cases o <;> rfl
    all_goals cases o <;> rfl
  | get_wait q rest next tl | put_wait q byte rest next tl =>
    refine .same _ _ (by simp) ⟨fun t => ?_, rfl, rfl, rfl, rfl⟩
    rw [switchOut_keeps _ hstat]
    rfl
  | up_wake s rest t | release_up_wake l rest t | get_wake q rest t | put_wake q byte rest t | key_wake q byte t =>
    exact .same _ _ (by simp) ⟨fun u => wakeTask_keeps _ hstat m.sched t u, rfl, rfl, rfl, rfl⟩
  | tick _ ht => exact .tick ht
  | preempt next rest _ ht => exact .preempt next rest ht
  | create t prio lock sem _ _ ht => exact .create t prio lock sem ht
  | _ => exact .same _ _ (by simp) ⟨fun _ => rfl, rfl, rfl, rfl, rfl⟩

/-! ## The magic number below the stack -/

/-- `init_thread` has stamped every task. -/
def Stamped (m : Machine) : Prop := ∀ t ∈ m.sched.thread_all_list, (m.sched.task t).stack_magic = 0x19851122

theorem moves_stamped (m m' : Machine) (a : Act) (evs : List Event) (h : Stamped m) (hmv : Moves m a m' evs) :
    Stamped m' := by
  have hstat (p : TaskStruct) (stat : TaskStatus) : { p with status := stat }.stack_magic = p.stack_magic := rfl
  cases moves_onTasks m m' a evs hmv with
  | same _ _ _ hs =>
    intro t ht
    rw [hs.keeps m m' _ hstat]
    exact h t (hs.all ▸ ht)
  | tick =>
    intro t ht
    rw [useTick_task]
    by_cases hc : t = m.cur
    · subst hc
      simpa using h _ ht
    · simpa [hc] using h t ht
  | preempt next rest =>
    intro t ht
    rw [preempt_keeps _ hstat]
    by_cases hc : t = m.cur
    · subst hc
      simpa using h _ ht
    · simpa [hc] using h t ht
  | create t prio lock sem =>
    intro u hu
    have hu : u ∈ m.sched.thread_all_list ++ [t] := hu
    show (Function.update m.sched.task t _ u).stack_magic = _
    by_cases hut : u = t
    · subst hut
      rw [Function.update_self]
    · rw [Function.update_of_ne hut]
      exact h u (by simpa [hut] using hu)

theorem reach_stamped (log : List Event) (m : Machine) (h : Run.Reach kernel Run.anyStep log m) : Stamped m := by
  refine reach_moves Run.anyStep (fun _ => Stamped) ?_ ?_ log m h
  · intro main intr task value buf t ht
    have ht : t ∈ [main] := ht
    obtain rfl := List.mem_singleton.mp ht
    simp [started, init_thread, Machine.takePid, Machine.setSema, Machine.setLock, boot]
  · intro log m a m' evs _ hs _ hmv
    exact moves_stamped m m' a evs hs hmv

end OsLearn
