import OsLearn.Thread.Steps
import OsLearn.Lib.TaskQueue

/-!
# Every task is where its status says

The machine, seen as a task queue: the wakers are the wait lists of the semaphores and the slots
of the io queues.
-/

open OsLearn.TaskQueue (Mode Queue)

namespace OsLearn.Queues

inductive Waker where
  | waiters (s : SemRef)
  | producer (q : Nat)
  | consumer (q : Nat)
  deriving DecidableEq, Repr

def modeOf : TaskStatus → Mode
  | .TASK_RUNNING => .running
  | .TASK_READY => .ready
  | _ => .blocked

def heldBy (m : Machine) : Waker → List Tid
  | .waiters s => (m.sema s).waiters
  | .producer q => (m.ioq q).producer.toList
  | .consumer q => (m.ioq q).consumer.toList

def view (m : Machine) : Queue Tid Waker where
  cur := m.cur
  mode t := modeOf (m.sched.task t).status
  ready := m.sched.thread_ready_list
  all := m.sched.thread_all_list
  held := heldBy m

def Live (stat : TaskStatus) : Prop :=
  stat = .TASK_RUNNING ∨ stat = .TASK_READY ∨ stat = .TASK_BLOCKED

structure QueueInv (m : Machine) : Prop where
  queue : TaskQueue.Inv (view m)
  live : ∀ t ∈ m.sched.thread_all_list, Live (m.sched.task t).status
  main : m.sched.main_thread ∈ m.sched.thread_all_list

/-- No check that looks a tag up has failed. -/
def NoFind (e : Stop) : Prop := ∀ site, e = .panic site → site.elemFind = false

theorem mode_running (stat : TaskStatus) (h : modeOf stat = .running) : stat = .TASK_RUNNING := by
  cases stat <;> simp_all [modeOf]

theorem mode_ready (stat : TaskStatus) (h : modeOf stat = .ready) : stat = .TASK_READY := by
  cases stat <;> simp_all [modeOf]

theorem mode_blocked (stat : TaskStatus) (hl : Live stat) (h : modeOf stat = .blocked) :
    stat = .TASK_BLOCKED := by
  rcases hl with rfl | rfl | rfl <;> simp_all [modeOf]

/-! ## What the invariant gives the code -/

theorem cur_running (m : Machine) (h : QueueInv m) : (m.sched.task m.cur).status = .TASK_RUNNING :=
  mode_running _ h.queue.cur_running

theorem cur_not_ready (m : Machine) (h : QueueInv m) : m.cur ∉ m.sched.thread_ready_list :=
  TaskQueue.cur_not_ready (view m) h.queue

theorem cur_not_held (m : Machine) (h : QueueInv m) (w : Waker) : m.cur ∉ heldBy m w :=
  TaskQueue.cur_not_held (view m) h.queue w

theorem held_blocked (m : Machine) (h : QueueInv m) (w : Waker) (t : Tid) (ht : t ∈ heldBy m w) :
    (m.sched.task t).status = .TASK_BLOCKED ∧ t ∉ m.sched.thread_ready_list := by
  obtain ⟨ha, hb⟩ := h.queue.held_blocked w t ht
  exact ⟨mode_blocked _ (h.live t ha) hb, TaskQueue.held_not_ready (view m) h.queue w t ht⟩

theorem same_inv (m m' : Machine) (h : QueueInv m) (hcur : m'.cur = m.cur)
    (hs : ∀ t, (m'.sched.task t).status = (m.sched.task t).status)
    (hready : m'.sched.thread_ready_list = m.sched.thread_ready_list)
    (hall : m'.sched.thread_all_list = m.sched.thread_all_list)
    (hmain : m'.sched.main_thread = m.sched.main_thread) (hheld : heldBy m' = heldBy m) : QueueInv m' := by
  have hv : view m' = view m := by
    simp only [view, Queue.mk.injEq]
    exact ⟨hcur, by simp only [hs], hready, hall, hheld⟩
  refine ⟨hv ▸ h.queue, ?_, by rw [hmain, hall]; exact h.main⟩
  intro t ht
  rw [hs]
  exact h.live t (hall ▸ ht)

/-! ## Blocking, waking, preempting, creating -/

theorem switchOut_inv (m m' : Machine) (w : Waker) (rest : List Frame) (next : Tid) (tl : List Tid)
    (h : QueueInv m) (hcur : m'.cur = m.cur) (htask : m'.sched.task = m.sched.task)
    (hready : m.sched.thread_ready_list = next :: tl)
    (hall : m'.sched.thread_all_list = m.sched.thread_all_list)
    (hmain : m'.sched.main_thread = m.sched.main_thread)
    (hheld : heldBy m' = Function.update (heldBy m) w (heldBy m w ++ [m.cur])) :
    QueueInv (m'.switchOut rest next tl) := by
  have hst : ∀ u, ((m'.switchOut rest next tl).sched.task u).status =
      if u = next then .TASK_RUNNING else if u = m.cur then .TASK_BLOCKED else (m.sched.task u).status := by
    intro u
    simp [Machine.switchOut, hcur, htask]
  have hv : view (m'.switchOut rest next tl) = TaskQueue.block (view m) w next tl := by
    simp only [view, TaskQueue.block, Queue.mk.injEq]
    refine ⟨rfl, ?_, rfl, hall, hheld⟩
    funext u
    rw [hst, Function.update_apply, Function.update_apply]
    split
    · rfl
    · split <;> rfl
  refine ⟨hv ▸ TaskQueue.block_inv (view m) w next tl h.queue hready, ?_, ?_⟩
  case refine_2 =>
    simp only [Machine.switchOut, Sched.dispatch_main, Sched.dispatch_all, Sched.setStatus_main,
      Sched.setStatus_all, hall, hmain]
    exact h.main
  intro t ht
  rw [hst]
  split
  · exact Or.inl rfl
  · split
    · exact Or.inr (Or.inr rfl)
    · exact h.live t (hall ▸ ht)

theorem wakeTask_inv (m m' : Machine) (w : Waker) (t : Tid) (ts : List Tid) (h : QueueInv m)
    (hsched : m'.sched = m.sched.wakeTask t) (hw : heldBy m w = t :: ts)
    (hheld : heldBy m' = Function.update (heldBy m) w ts) : QueueInv m' := by
  have hst : ∀ u, (m'.sched.task u).status = if u = t then .TASK_READY else (m.sched.task u).status := by
    intro u
    simp [hsched, Sched.wakeTask]
  have hv : view m' = TaskQueue.wake (view m) w t ts := by
    simp only [view, TaskQueue.wake, Queue.mk.injEq]
    refine ⟨by simp [Machine.cur, hsched, Sched.wakeTask], ?_, by simp [hsched, Sched.wakeTask],
      by simp [hsched, Sched.wakeTask], hheld⟩
    funext u
    rw [hst, Function.update_apply]
    split <;> rfl
  have hall : m'.sched.thread_all_list = m.sched.thread_all_list := by simp [hsched, Sched.wakeTask]
  have hmain : m'.sched.main_thread = m.sched.main_thread := by simp [hsched, Sched.wakeTask]
  refine ⟨hv ▸ TaskQueue.wake_inv (view m) w t ts h.queue hw, ?_, by rw [hmain, hall]; exact h.main⟩
  intro u hu
  rw [hst]
  split
  · exact Or.inr (Or.inl rfl)
  · exact h.live u (hall ▸ hu)

theorem preempt_inv (m : Machine) (next : Tid) (rest : List Tid) (h : QueueInv m)
    (hl : m.sched.thread_ready_list ++ [m.cur] = next :: rest) : QueueInv (m.preempt next rest) := by
  have hst : ∀ u, ((m.preempt next rest).sched.task u).status =
      if u = next then .TASK_RUNNING else if u = m.cur then .TASK_READY else (m.sched.task u).status := by
    intro u
    have := Machine.tick_status m u
    simp only [Machine.preempt, Sched.dispatch_status, Sched.requeue_status]
    rw [this]
    rfl
  have hv : view (m.preempt next rest) = TaskQueue.yield (view m) next rest := by
    simp only [view, TaskQueue.yield, Queue.mk.injEq]
    refine ⟨rfl, ?_, rfl, rfl, ?_⟩
    · funext u
      rw [hst, Function.update_apply, Function.update_apply]
      split
      · rfl
      · split <;> rfl
    · funext w
      cases w <;> rfl
  refine ⟨hv ▸ TaskQueue.yield_inv (view m) next rest h.queue hl, ?_, h.main⟩
  intro t ht
  rw [hst]
  split
  · exact Or.inl rfl
  · split
    · exact Or.inr (Or.inl rfl)
    · exact h.live t ht

theorem addTask_inv (m : Machine) (t : Tid) (prio : Int32) (pid : Int16) (h : QueueInv m)
    (ht : t ∉ m.sched.thread_all_list) : QueueInv (m.addTask t prio pid) := by
  have hne : t ≠ m.sched.main_thread := fun e => ht (e ▸ h.main)
  have hst : ∀ u, ((m.addTask t prio pid).sched.task u).status =
      if u = t then .TASK_READY else (m.sched.task u).status := by
    intro u
    by_cases hu : u = t
    · subst hu
      simp [Machine.addTask, init_thread, hne]
    · simp [Machine.addTask, init_thread, hu]
  have hv : view (m.addTask t prio pid) = TaskQueue.spawn (view m) t := by
    simp only [view, TaskQueue.spawn, Queue.mk.injEq]
    refine ⟨rfl, ?_, rfl, rfl, ?_⟩
    · funext u
      rw [hst, Function.update_apply]
      split <;> rfl
    · funext w
      cases w <;> rfl
  refine ⟨hv ▸ TaskQueue.spawn_inv (view m) t h.queue ht, ?_, List.mem_append_left _ h.main⟩
  intro u hu
  rw [hst]
  split
  · exact Or.inr (Or.inl rfl)
  · rename_i hut
    have hu' : u ∈ m.sched.thread_all_list ++ [t] := hu
    simp only [List.mem_append, List.mem_singleton] at hu'
    exact h.live u (hu'.resolve_right hut)

/-! ## The pieces keep the invariant -/

theorem held_setSema (m : Machine) (s : SemRef) (v : Semaphore) :
    heldBy (m.setSema s v) = Function.update (heldBy m) (.waiters s) v.waiters := by
  funext w
  cases w with
  | waiters s' =>
    by_cases h : s' = s
    · subst h; simp [heldBy, Machine.setSema]
    · simp [heldBy, Machine.setSema, h]
  | producer q => simp [heldBy, Machine.setSema]
  | consumer q => simp [heldBy, Machine.setSema]

theorem held_setSema_same (m : Machine) (s : SemRef) (v : Semaphore) (h : v.waiters = (m.sema s).waiters) :
    heldBy (m.setSema s v) = heldBy m := by
  rw [held_setSema, h]
  exact Function.update_eq_self (Waker.waiters s) (heldBy m)

theorem held_setIoq (m : Machine) (q : Nat) (v : IoQueue) :
    heldBy (m.setIoq q v) =
      Function.update (Function.update (heldBy m) (.producer q) v.producer.toList) (.consumer q) v.consumer.toList := by
  funext w
  cases w with
  | waiters s => simp [heldBy, Machine.setIoq]
  | producer q' =>
    by_cases h : q' = q
    · subst h; simp [heldBy, Machine.setIoq]
    · simp [heldBy, Machine.setIoq, h]
  | consumer q' =>
    by_cases h : q' = q
    · subst h; simp [heldBy, Machine.setIoq]
    · simp [heldBy, Machine.setIoq, h]

theorem held_setIoq_same (m : Machine) (q : Nat) (v : IoQueue) (hp : v.producer = (m.ioq q).producer)
    (hc : v.consumer = (m.ioq q).consumer) : heldBy (m.setIoq q v) = heldBy m := by
  rw [held_setIoq, hp, hc]
  exact (congrArg (Function.update · _ _) (Function.update_eq_self (Waker.producer q) (heldBy m))).trans
    (Function.update_eq_self (Waker.consumer q) (heldBy m))

theorem setStack_inv (m : Machine) (h : QueueInv m) (st : List Frame) : QueueInv (m.setStack st) :=
  same_inv m _ h rfl (fun _ => rfl) rfl rfl rfl rfl

theorem setIntr_inv (m : Machine) (h : QueueInv m) (on : Bool) : QueueInv (m.setIntr on) :=
  same_inv m _ h rfl (fun _ => rfl) rfl rfl rfl rfl

theorem setLock_inv (m : Machine) (h : QueueInv m) (l : LockRef) (v : Lock) : QueueInv (m.setLock l v) :=
  same_inv m _ h rfl (fun _ => rfl) rfl rfl rfl rfl

theorem setSema_inv (m : Machine) (h : QueueInv m) (s : SemRef) (v : Semaphore)
    (hv : v.waiters = (m.sema s).waiters) : QueueInv (m.setSema s v) :=
  same_inv m _ h rfl (fun _ => rfl) rfl rfl rfl (held_setSema_same m s v hv)

theorem sema_down_loop_inv (m : Machine) (s : SemRef) (old : Bool) (rest : List Frame) (h : QueueInv m) :
    Spec (sema_down_loop m s old rest) (fun r => QueueInv r.1) NoFind := by
  apply sema_down_loop_spec
  · intro _ _ next tl hl
    exact switchOut_inv m _ (.waiters s) _ next tl h rfl rfl hl rfl rfl (held_setSema m s _)
  · intro _
    refine setStack_inv _ (setIntr_inv _ (setSema_inv m h s _ ?_) old) rest
    rfl
  · intro _ hm
    exact absurd hm (cur_not_held m h (.waiters s))
  · simp [NoFind, Site.elemFind]
  · simp [NoFind, Site.elemFind]

theorem sema_up_inv (m : Machine) (s : SemRef) (h : QueueInv m) : Spec (sema_up m s) QueueInv NoFind := by
  apply sema_up_spec
  · exact held_blocked m h (.waiters s)
  · intro _ hl
    exact setSema_inv m h s _ hl.symm
  · intro _ t ts hl
    exact wakeTask_inv m _ (.waiters s) t ts h rfl hl (held_setSema m s _)
  · simp [NoFind, Site.elemFind]

theorem lock_acquire_piece_inv (m : Machine) (l : LockRef) (rest : List Frame) (pc : AcquirePc) (h : QueueInv m) :
    Spec (lock_acquire_piece m l rest pc) (fun r => QueueInv r.1) NoFind := by
  cases pc with
  | entry =>
    simp only [lock_acquire_piece]
    split
    · exact setStack_inv m h _
    · exact setStack_inv m h _
  | again => exact setStack_inv _ (setLock_inv m h l _) rest
  | taken => exact setStack_inv _ (setLock_inv m h l _) _
  | check =>
    simp only [lock_acquire_piece, spec_bind, spec_ASSERT, spec_pure]
    exact ⟨fun _ => setStack_inv m h _, fun _ => by simp [NoFind, Site.elemFind]⟩
  | first => exact setStack_inv _ (setLock_inv m h l _) rest

theorem lock_release_piece_inv (m : Machine) (l : LockRef) (rest : List Frame) (pc : ReleasePc) (h : QueueInv m) :
    Spec (lock_release_piece m l rest pc) (fun r => QueueInv r.1) NoFind := by
  cases pc with
  | entry =>
    simp only [lock_release_piece, spec_bind, spec_ASSERT, spec_pure]
    exact ⟨fun _ => setStack_inv m h _, fun _ => by simp [NoFind, Site.elemFind]⟩
  | test =>
    simp only [lock_release_piece]
    split
    · exact setStack_inv m h _
    · exact setStack_inv m h _
  | again => exact setStack_inv _ (setLock_inv m h l _) rest
  | last =>
    simp only [lock_release_piece, spec_bind, spec_ASSERT, spec_pure]
    exact ⟨fun _ => setStack_inv m h _, fun _ => by simp [NoFind, Site.elemFind]⟩
  | clear => exact setStack_inv _ (setLock_inv m h l _) _
  | zero => exact setStack_inv _ (setLock_inv m h l _) _
  | up =>
    simp only [lock_release_piece, spec_bind, spec_pure]
    exact spec_mono _ _ _ _ _ (sema_up_inv m _ h) (fun m' h' => setStack_inv m' h' rest) (fun _ he => he)

theorem toList_some {α : Type} (o : Option α) (a : α) (h : o = some a) : o.toList = a :: [] := by
  subst h; rfl

theorem ioq_take_inv (m : Machine) (q : Nat) (h : QueueInv m) :
    Spec (ioq_take m q) (fun r => QueueInv r.1) NoFind := by
  apply ioq_take_spec
  · intro t ht
    exact held_blocked m h (.producer q) t (by simp [heldBy, ht])
  · intro _
    exact same_inv m _ h rfl (fun _ => rfl) rfl rfl rfl (held_setIoq_same m q _ rfl rfl)
  · intro t ht
    refine wakeTask_inv m _ (.producer q) t [] h rfl (toList_some _ t ht) ?_
    show heldBy (m.setIoq q _) = _
    rw [held_setIoq, Function.update_eq_iff]
    exact ⟨by simp [heldBy], fun _ _ => rfl⟩

theorem ioq_store_inv (m : Machine) (q : Nat) (byte : UInt8) (h : QueueInv m) :
    Spec (ioq_store m q byte) QueueInv NoFind := by
  apply ioq_store_spec
  · intro t ht
    exact held_blocked m h (.consumer q) t (by simp [heldBy, ht])
  · intro _
    exact same_inv m _ h rfl (fun _ => rfl) rfl rfl rfl (held_setIoq_same m q _ rfl rfl)
  · intro t ht
    refine wakeTask_inv m _ (.consumer q) t [] h rfl (toList_some _ t ht) ?_
    show heldBy (m.setIoq q _) = _
    rw [held_setIoq]
    exact congrArg (Function.update · _ _) (Function.update_eq_self (Waker.producer q) (heldBy m))

theorem ioq_getchar_piece_inv (m : Machine) (q : Nat) (rest : List Frame) (pc : IoqPc) (h : QueueInv m) :
    Spec (ioq_getchar_piece m q rest pc) (fun r => QueueInv r.1) NoFind := by
  cases pc with
  | loop =>
    simp only [ioq_getchar_piece, spec_bind, spec_ASSERT]
    refine ⟨fun _ => ?_, fun _ => by simp [NoFind, Site.elemFind]⟩
    split
    · exact setStack_inv m h _
    · rw [spec_bind]
      exact spec_mono _ _ _ _ _ (ioq_take_inv m q h) (fun r h' => setStack_inv r.1 h' rest) (fun _ he => he)
  | wait =>
    simp only [ioq_getchar_piece, spec_bind, spec_ASSERT, spec_pure]
    refine ⟨fun hn => ?_, fun _ => by simp [NoFind, Site.elemFind]⟩
    apply thread_block_spec
    · intro next tl hl
      refine switchOut_inv m _ (.consumer q) _ next tl h rfl rfl hl rfl rfl ?_
      rw [held_setIoq]
      refine (congrArg (Function.update · _ _) (Function.update_eq_self (Waker.producer q) (heldBy m))).trans ?_
      simp [heldBy, hn]
    · intro _
      simp [NoFind, Site.elemFind]
  | release => exact setStack_inv m h _

theorem ioq_putchar_piece_inv (m : Machine) (q : Nat) (byte : UInt8) (rest : List Frame) (pc : IoqPc)
    (h : QueueInv m) : Spec (ioq_putchar_piece m q byte rest pc) (fun r => QueueInv r.1) NoFind := by
  cases pc with
  | loop =>
    simp only [ioq_putchar_piece, spec_bind, spec_ASSERT]
    refine ⟨fun _ => ?_, fun _ => by simp [NoFind, Site.elemFind]⟩
    split
    · exact setStack_inv m h _
    · rw [spec_bind]
      exact spec_mono _ _ _ _ _ (ioq_store_inv m q byte h) (fun m' h' => setStack_inv m' h' rest)
        (fun _ he => he)
  | wait =>
    simp only [ioq_putchar_piece, spec_bind, spec_ASSERT, spec_pure]
    refine ⟨fun hn => ?_, fun _ => by simp [NoFind, Site.elemFind]⟩
    apply thread_block_spec
    · intro next tl hl
      refine switchOut_inv m _ (.producer q) _ next tl h rfl rfl hl rfl rfl ?_
      rw [held_setIoq, Function.update_eq_iff]
      refine ⟨by simp [heldBy], fun w _ => ?_⟩
      simp [heldBy, hn]
    · intro _
      simp [NoFind, Site.elemFind]
  | release => exact setStack_inv m h _

theorem runFrame_inv (m : Machine) (rest : List Frame) (f : Frame) (h : QueueInv m) :
    Spec (runFrame m rest f) (fun r => QueueInv r.1) NoFind := by
  cases f with
  | sema_down s old =>
    cases old with
    | none => exact sema_down_loop_inv _ s _ rest (setIntr_inv m h false)
    | some old => exact sema_down_loop_inv m s old rest h
  | sema_up s =>
    simp only [runFrame, spec_bind, spec_pure]
    exact spec_mono _ _ _ _ _ (sema_up_inv m s h) (fun m' h' => setStack_inv m' h' rest) (fun _ he => he)
  | lock_acquire l pc => exact lock_acquire_piece_inv m l rest pc h
  | lock_release l pc => exact lock_release_piece_inv m l rest pc h
  | thread_block old => exact setStack_inv _ (setIntr_inv m h old) rest
  | ioq_getchar q pc => exact ioq_getchar_piece_inv m q rest pc h
  | ioq_putchar q byte pc => exact ioq_putchar_piece_inv m q byte rest pc h
  | kernel_thread => exact setStack_inv _ (setIntr_inv m h true) rest
  | intr_exit => exact setStack_inv _ (setIntr_inv m h true) rest

theorem intr_timer_handler_inv (m : Machine) (h : QueueInv m) : Spec (intr_timer_handler m) QueueInv NoFind := by
  apply intr_timer_handler_spec m _ _ (cur_running m h) (cur_not_ready m h)
  · intro _
    exact same_inv m _ h rfl (Machine.useTick_status m) rfl rfl rfl rfl
  · intro _ next rest hl
    exact preempt_inv m next rest h hl
  · simp [NoFind, Site.elemFind]

theorem noFind_pid (e : Stop) (h : PidLockStop e) : NoFind e := by
  rcases h with rfl | rfl | rfl | rfl | rfl <;> simp [NoFind, Site.elemFind]

theorem takePid_inv (m : Machine) (lock : Lock) (sem : Semaphore) (h : QueueInv m)
    (hs : sem.waiters = (m.sema (.lock .pid_lock)).waiters) : QueueInv (m.takePid lock sem) := by
  refine setSema_inv _ (setLock_inv _ ?_ .pid_lock lock) _ _ hs
  exact same_inv m _ h rfl (fun _ => rfl) rfl rfl rfl rfl

theorem thread_start_inv (m : Machine) (t : Tid) (prio : Int32) (h : QueueInv m)
    (ht : t ∉ m.sched.thread_all_list) : Spec (thread_start m t prio) QueueInv NoFind := by
  apply thread_start_spec
  · intro hr
    exact ht ((h.queue.ready_iff t).mp hr).1
  · exact ht
  · intro lock sem hs
    exact addTask_inv _ t prio _ (takePid_inv m lock sem h hs) ht
  · exact noFind_pid

theorem startCall_inv (m : Machine) (c : Call) (h : QueueInv m) : QueueInv (startCall m c) := by
  cases c with
  | intr_enable => exact setIntr_inv m h true
  | intr_disable => exact setIntr_inv m h false
  | _ => exact setStack_inv m h _

theorem step_inv (m : Machine) (a : Act) (h : QueueInv m) : Spec (step m a) (fun r => QueueInv r.1) NoFind := by
  have hnot : NoFind .notNow := by simp [NoFind]
  cases a with
  | call c =>
    simp only [step]
    split
    · exact startCall_inv m c h
    · exact hnot
  | run =>
    simp only [step]
    split
    · exact hnot
    · exact runFrame_inv m _ _ h
  | timer =>
    simp only [step]
    split
    · rw [spec_bind]
      exact intr_timer_handler_inv m h
    · exact hnot
  | keyboard q byte =>
    simp only [step, keyboard_char]
    split
    · split
      · exact h
      · rw [spec_bind]
        exact ioq_store_inv m q byte h
    · exact hnot
  | thread_start t prio =>
    simp only [step]
    split
    · rename_i hc
      rw [spec_bind]
      exact thread_start_inv m t prio h hc.2.2
    · exact hnot

/-! ## The start -/

theorem started_inv (main : Tid) (intr : Bool) (task : Tid → TaskStruct) (value : Nat → UInt8)
    (buf : Nat → Nat → UInt8) : QueueInv (started main intr task value buf) := by
  have hall : (started main intr task value buf).sched.thread_all_list = [main] := rfl
  have hready : (started main intr task value buf).sched.thread_ready_list = [] := rfl
  have hcur : (started main intr task value buf).cur = main := rfl
  have hst : ((started main intr task value buf).sched.task main).status = .TASK_RUNNING := by
    simp [started, init_thread, Machine.takePid, Machine.setSema, Machine.setLock, boot]
  have hheld : ∀ w, heldBy (started main intr task value buf) w = [] := by
    intro w
    cases w with
    | waiters s => exact started_waiters main intr task value buf s
    | producer q => rfl
    | consumer q => rfl
  constructor
  case queue =>
    constructor <;> simp only [view, hall, hready, hcur, hheld, hst, modeOf]
    all_goals simp_all
  case live =>
    intro t ht
    rw [hall, List.mem_singleton] at ht
    subst ht
    exact Or.inl hst
  case main => exact List.mem_singleton.mpr rfl

theorem reach_inv (log : List Event) (m : Machine) (h : Run.Reach kernel Run.anyStep log m) : QueueInv m := by
  refine Run.reach_invariant kernel Run.anyStep (fun _ m => QueueInv m) ?_ ?_ log m h
  · intro m hm
    obtain ⟨main, intr, task, value, buf, rfl⟩ := (kernel_init_iff m).mp hm
    exact started_inv main intr task value buf
  · intro _ m a m' evs hi _ hs
    exact spec_of_ok _ _ _ (step_inv m a hi) (m', evs) hs

end OsLearn.Queues
