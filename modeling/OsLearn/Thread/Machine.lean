import OsLearn.Thread.Sync
import OsLearn.Lib.Run

/-!
# The tasks run: every call cut at its context switches

`run` is the next piece of the running task's code. A piece with interrupts off ends at the latest
at a context switch. With interrupts on, a piece is one access to a shared variable, and the timer
or the keyboard can come before the next one.
-/

namespace OsLearn

/-- A lock: one of the kernel's own, the lock inside an `ioqueue`, or `pid_lock`. -/
inductive LockRef where
  | lock (i : Nat)
  | ioq (q : Nat)
  | pid_lock
  deriving DecidableEq, Repr

/-- A semaphore on its own, or the one inside a lock. -/
inductive SemRef where
  | sema (i : Nat)
  | lock (l : LockRef)
  deriving DecidableEq, Repr

/-! ## Where a task is in the code -/

inductive AcquirePc where
  -- `if (running_thread() == plock->holder)`
  | entry
  -- `++plock->holder_repeat_nr`
  | again
  -- `plock->holder = running_thread()`, after `sema_down`
  | taken
  -- `ASSERT(0 == plock->holder_repeat_nr)`
  | check
  -- `plock->holder_repeat_nr = 1`
  | first
  deriving DecidableEq, Repr

inductive ReleasePc where
  -- `ASSERT(running_thread() == plock->holder)`
  | entry
  -- `if(plock->holder_repeat_nr > 0)`
  | test
  -- `--plock->holder_repeat_nr; return`
  | again
  -- `ASSERT(1 == plock->holder_repeat_nr)`
  | last
  -- `plock->holder = NULL`
  | clear
  -- `plock->holder_repeat_nr = 0`
  | zero
  -- `sema_up(&plock->semaphore)`
  | up
  deriving DecidableEq, Repr

inductive IoqPc where
  -- `while (ioq_empty(ioq))`, or `ioq_full`
  | loop
  -- `ioq_wait`, after `lock_acquire`
  | wait
  -- `lock_release`, after `ioq_wait`
  | release
  deriving DecidableEq, Repr

/-- One call on a task's stack, with its saved flag. -/
inductive Frame where
  -- Before `intr_disable` (`none`), or at the loop's test with the old flag saved.
  | sema_down (s : SemRef) (old_status : Option Bool)
  | sema_up (s : SemRef)
  | lock_acquire (l : LockRef) (pc : AcquirePc)
  | lock_release (l : LockRef) (pc : ReleasePc)
  -- After `schedule`: `intr_set_status(old_status)`.
  | thread_block (old_status : Bool)
  | ioq_getchar (q : Nat) (pc : IoqPc)
  | ioq_putchar (q : Nat) (byte : UInt8) (pc : IoqPc)
  -- The start of a new thread: `intr_enable`.
  | kernel_thread
  -- The way back from the timer interrupt: `iret` turns interrupts on again.
  | intr_exit
  deriving DecidableEq, Repr

structure Machine where
  sched : Sched
  -- The calls of each task, the innermost first.
  stack : Tid → List Frame
  sema : SemRef → Semaphore
  lock : LockRef → Lock
  ioq : Nat → IoQueue
  ticks : UInt32

inductive Event where
  | created (t : Tid)
  | down (t : Tid) (s : SemRef)
  | up (t : Tid) (s : SemRef)
  | acquired (t : Tid) (l : LockRef)
  | released (t : Tid) (l : LockRef)
  | put (q : Nat) (byte : UInt8)
  | got (q : Nat) (byte : UInt8)
  deriving DecidableEq, Repr

namespace Machine

def cur (m : Machine) : Tid := m.sched.cur

def setStack (m : Machine) (st : List Frame) : Machine :=
  { m with stack := Function.update m.stack m.cur st }

def setIntr (m : Machine) (on : Bool) : Machine := { m with sched := { m.sched with intr := on } }

def setSema (m : Machine) (s : SemRef) (v : Semaphore) : Machine :=
  { m with sema := Function.update m.sema s v }

def setLock (m : Machine) (l : LockRef) (v : Lock) : Machine :=
  { m with lock := Function.update m.lock l v }

def setIoq (m : Machine) (q : Nat) (v : IoQueue) : Machine :=
  { m with ioq := Function.update m.ioq q v }

end Machine

/-! ## The pieces of the code -/

/-- `thread_block`, up to the switch. -/
def thread_block (m : Machine) (stat : TaskStatus) (rest : List Frame) : Except Stop Machine := do
  ASSERT (stat = .TASK_BLOCKED ∨ stat = .TASK_WAITING ∨ stat = .TASK_HANDGING) .thread_block_stat
  let m := m.setStack (.thread_block m.sched.intr :: rest)
  let m := m.setIntr false
  let sched ← schedule (m.sched.setStatus m.cur stat)
  pure { m with sched := sched }

/-- `sema_down` from the test of its loop. -/
def sema_down_loop (m : Machine) (s : SemRef) (old_status : Bool) (rest : List Frame) :
    Except Stop (Machine × List Event) :=
  let sem := m.sema s
  if sem.value = 0 then do
    ASSERT (m.cur ∉ sem.waiters) .sema_down_waiters_elem_find
    if m.cur ∈ sem.waiters then PANIC .sema_down_waiters_elem_find
    let m := m.setSema s { sem with waiters := sem.waiters ++ [m.cur] }
    let m ← thread_block m .TASK_BLOCKED (.sema_down s (some old_status) :: rest)
    pure (m, [])
  else do
    let sem := { sem with value := sem.value - 1 }
    ASSERT (sem.value = 0) .sema_down_value
    pure (((m.setSema s sem).setIntr old_status).setStack rest, [.down m.cur s])

/-- `sema_up`: interrupts are off from its first line to its last. -/
def sema_up (m : Machine) (s : SemRef) : Except Stop Machine := do
  let sem := m.sema s
  ASSERT (sem.value = 0) .sema_up_value
  let m ← match sem.waiters with
    | [] => pure m
    | t :: ts => do
      let m := m.setSema s { sem with waiters := ts }
      let sched ← thread_unblock m.sched t
      pure { m with sched := sched }
  let sem := m.sema s
  let sem := { sem with value := sem.value + 1 }
  ASSERT (sem.value = 1) .sema_up_value_one
  pure (m.setSema s sem)

def lock_acquire_piece (m : Machine) (l : LockRef) (rest : List Frame) :
    AcquirePc → Except Stop (Machine × List Event)
  | .entry =>
    if (m.lock l).holder = some m.cur then .ok (m.setStack (.lock_acquire l .again :: rest), [])
    else .ok (m.setStack (.sema_down (.lock l) none :: .lock_acquire l .taken :: rest), [])
  | .again =>
    let lock := m.lock l
    .ok ((m.setLock l { lock with holder_repeat_nr := lock.holder_repeat_nr + 1 }).setStack rest,
      [.acquired m.cur l])
  | .taken =>
    .ok ((m.setLock l { m.lock l with holder := some m.cur }).setStack (.lock_acquire l .check :: rest), [])
  | .check => do
    ASSERT ((m.lock l).holder_repeat_nr = 0) .lock_acquire_repeat_nr
    pure (m.setStack (.lock_acquire l .first :: rest), [])
  | .first =>
    .ok ((m.setLock l { m.lock l with holder_repeat_nr := 1 }).setStack rest, [.acquired m.cur l])

def lock_release_piece (m : Machine) (l : LockRef) (rest : List Frame) :
    ReleasePc → Except Stop (Machine × List Event)
  | .entry => do
    ASSERT ((m.lock l).holder = some m.cur) .lock_release_holder
    pure (m.setStack (.lock_release l .test :: rest), [])
  | .test =>
    if (m.lock l).holder_repeat_nr > 0 then .ok (m.setStack (.lock_release l .again :: rest), [])
    else .ok (m.setStack (.lock_release l .last :: rest), [])
  | .again =>
    let lock := m.lock l
    .ok ((m.setLock l { lock with holder_repeat_nr := lock.holder_repeat_nr - 1 }).setStack rest,
      [.released m.cur l])
  | .last => do
    ASSERT ((m.lock l).holder_repeat_nr = 1) .lock_release_repeat_nr
    pure (m.setStack (.lock_release l .clear :: rest), [])
  | .clear =>
    .ok ((m.setLock l { m.lock l with holder := none }).setStack (.lock_release l .zero :: rest), [])
  | .zero =>
    .ok ((m.setLock l { m.lock l with holder_repeat_nr := 0 }).setStack (.lock_release l .up :: rest), [])
  | .up => do
    let m ← sema_up m (.lock l)
    pure (m.setStack rest, [.up m.cur (.lock l), .released m.cur l])

/-- `wakeup(&ioq->consumer)`, or the producer: `slot` reads and `clear` empties the slot. -/
def wakeup (m : Machine) (q : Nat) (slot : IoQueue → Option Tid) (clear : IoQueue → IoQueue) :
    Except Stop Machine :=
  match slot (m.ioq q) with
  | none => PANIC .wakeup_waiter
  | some t => do
    let sched ← thread_unblock m.sched t
    let m := { m with sched := sched }
    pure (m.setIoq q (clear (m.ioq q)))

/-- `ioq_getchar` once the queue is not empty. -/
def ioq_take (m : Machine) (q : Nat) : Except Stop (Machine × UInt8) := do
  let ioq := m.ioq q
  let byte := ioq.buf ioq.tail
  let m := m.setIoq q { ioq with tail := next_pos ioq.tail }
  let m ← if (m.ioq q).producer.isSome then
      wakeup m q IoQueue.producer fun i => { i with producer := none }
    else pure m
  pure (m, byte)

/-- `ioq_putchar` once the queue is not full. -/
def ioq_store (m : Machine) (q : Nat) (byte : UInt8) : Except Stop Machine := do
  let ioq := m.ioq q
  let m := m.setIoq q { ioq with
    buf := Function.update ioq.buf ioq.head byte
    head := next_pos ioq.head }
  if (m.ioq q).consumer.isSome then
    wakeup m q IoQueue.consumer fun i => { i with consumer := none }
  else pure m

def ioq_getchar_piece (m : Machine) (q : Nat) (rest : List Frame) :
    IoqPc → Except Stop (Machine × List Event)
  | .loop => do
    ASSERT (m.sched.intr = false) .ioq_intr_off
    if ioq_empty (m.ioq q) then
      pure (m.setStack (.lock_acquire (.ioq q) .entry :: .ioq_getchar q .wait :: rest), [])
    else do
      let (m, byte) ← ioq_take m q
      pure (m.setStack rest, [.got q byte])
  | .wait => do
    ASSERT ((m.ioq q).consumer = none) .ioq_wait_waiter
    let m := m.setIoq q { m.ioq q with consumer := some m.cur }
    let m ← thread_block m .TASK_BLOCKED (.ioq_getchar q .release :: rest)
    pure (m, [])
  | .release => .ok (m.setStack (.lock_release (.ioq q) .entry :: .ioq_getchar q .loop :: rest), [])

def ioq_putchar_piece (m : Machine) (q : Nat) (byte : UInt8) (rest : List Frame) :
    IoqPc → Except Stop (Machine × List Event)
  | .loop => do
    ASSERT (m.sched.intr = false) .ioq_intr_off
    if ioq_full (m.ioq q) then
      pure (m.setStack (.lock_acquire (.ioq q) .entry :: .ioq_putchar q byte .wait :: rest), [])
    else do
      let m ← ioq_store m q byte
      pure (m.setStack rest, [.put q byte])
  | .wait => do
    ASSERT ((m.ioq q).producer = none) .ioq_wait_waiter
    let m := m.setIoq q { m.ioq q with producer := some m.cur }
    let m ← thread_block m .TASK_BLOCKED (.ioq_putchar q byte .release :: rest)
    pure (m, [])
  | .release => .ok (m.setStack (.lock_release (.ioq q) .entry :: .ioq_putchar q byte .loop :: rest), [])

def runFrame (m : Machine) (rest : List Frame) : Frame → Except Stop (Machine × List Event)
  | .sema_down s none => sema_down_loop (m.setIntr false) s m.sched.intr rest
  | .sema_down s (some old_status) => sema_down_loop m s old_status rest
  | .sema_up s => do
    let m ← sema_up m s
    pure (m.setStack rest, [.up m.cur s])
  | .lock_acquire l pc => lock_acquire_piece m l rest pc
  | .lock_release l pc => lock_release_piece m l rest pc
  | .thread_block old_status => .ok ((m.setIntr old_status).setStack rest, [])
  | .ioq_getchar q pc => ioq_getchar_piece m q rest pc
  | .ioq_putchar q byte pc => ioq_putchar_piece m q byte rest pc
  | .kernel_thread => .ok ((m.setIntr true).setStack rest, [])
  | .intr_exit => .ok ((m.setIntr true).setStack rest, [])

/-! ## Interrupts -/

/-- `intr_timer_handler`. A task that is switched out here comes back through `intr_exit`. -/
def intr_timer_handler (m : Machine) : Except Stop Machine := do
  let cur := m.cur
  ASSERT ((m.sched.task cur).stack_magic = 0x19851122) .timer_stack_magic
  let m := { m with
    sched := m.sched.setTask cur fun p => { p with elapsed_ticks := p.elapsed_ticks + 1 }
    ticks := m.ticks + 1 }
  if (m.sched.task cur).ticks = 0 then do
    let m := (m.setIntr false).setStack (.intr_exit :: m.stack cur)
    let sched ← schedule m.sched
    pure { m with sched := sched }
  else
    pure { m with sched := m.sched.setTask cur fun p => { p with ticks := p.ticks - 1 } }

/-- What the keyboard handler does with a character: it is dropped when the queue is full. -/
def keyboard_char (m : Machine) (q : Nat) (byte : UInt8) : Except Stop (Machine × List Event) :=
  if ioq_full (m.ioq q) then .ok (m, [])
  else do
    let m ← ioq_store m q byte
    pure (m, [.put q byte])

/-! ## New threads -/

/-- `allocate_pid`, by a task that finds `pid_lock` free or its own. -/
def allocate_pid (m : Machine) : Except Stop (Machine × Int16) := do
  let (lock, sem) ← lock_acquire false m.cur (m.lock .pid_lock) (m.sema (.lock .pid_lock))
  let pid := m.sched.next_pid + 1
  let (lock, sem, _) ← lock_release false m.cur lock sem
  let m := { m with sched := { m.sched with next_pid := pid } }
  pure ((m.setLock .pid_lock lock).setSema (.lock .pid_lock) sem, pid)

/-- `thread_start`, in the page `t` that `get_kernel_pages` gave for the PCB. -/
def thread_start (m : Machine) (t : Tid) (prio : Int32) : Except Stop Machine := do
  let (m, pid) ← allocate_pid m
  let sched := init_thread m.sched t prio pid
  ASSERT (t ∉ sched.thread_ready_list) .thread_start_ready_elem_find
  let sched := { sched with thread_ready_list := sched.thread_ready_list ++ [t] }
  ASSERT (t ∉ sched.thread_all_list) .thread_start_all_elem_find
  let sched := { sched with thread_all_list := sched.thread_all_list ++ [t] }
  -- thread_create: the first switch to the task enters kernel_thread
  pure { m with sched := sched, stack := Function.update m.stack t [.kernel_thread] }

/-! ## The system -/

inductive Call where
  | sema_down (i : Nat)
  | sema_up (i : Nat)
  | lock_acquire (i : Nat)
  | lock_release (i : Nat)
  | ioq_getchar (q : Nat)
  | ioq_putchar (q : Nat) (byte : UInt8)
  | intr_enable
  | intr_disable
  deriving DecidableEq, Repr

inductive Act where
  -- The running task's own code makes a call.
  | call (c : Call)
  -- The running task goes on inside its call.
  | run
  | timer
  | keyboard (q : Nat) (byte : UInt8)
  | thread_start (t : Tid) (prio : Int32)
  deriving DecidableEq, Repr

def startCall (m : Machine) : Call → Machine
  | .sema_down i => m.setStack [.sema_down (.sema i) none]
  | .sema_up i => m.setStack [.sema_up (.sema i)]
  | .lock_acquire i => m.setStack [.lock_acquire (.lock i) .entry]
  | .lock_release i => m.setStack [.lock_release (.lock i) .entry]
  | .ioq_getchar q => m.setStack [.ioq_getchar q .loop]
  | .ioq_putchar q byte => m.setStack [.ioq_putchar q byte .loop]
  | .intr_enable => m.setIntr true
  | .intr_disable => m.setIntr false

def step (m : Machine) : Act → Except Stop (Machine × List Event)
  | .call c => if m.stack m.cur = [] then .ok (startCall m c, []) else .error .notNow
  | .run =>
    match m.stack m.cur with
    | [] => .error .notNow
    | f :: rest => runFrame m rest f
  | .timer =>
    if m.sched.intr then do
      let m ← intr_timer_handler m
      pure (m, [])
    else .error .notNow
  | .keyboard q byte => if m.sched.intr then keyboard_char m q byte else .error .notNow
  | .thread_start t prio =>
    -- The page is a new one, and the main thread makes the call.
    if m.cur = m.sched.main_thread ∧ m.stack m.cur = [] ∧ t ∉ m.sched.thread_all_list then do
      let m ← thread_start m t prio
      pure (m, [.created t])
    else .error .notNow

/-- The machine that `thread_init` finds, with its lists and `pid_lock` initialised: the semaphores
hold `value` and the buffers of the queues `buf`. -/
def boot (main : Tid) (intr : Bool) (task : Tid → TaskStruct) (value : Nat → UInt8)
    (buf : Nat → Nat → UInt8) : Machine where
  sched := {
    cur := main
    intr := intr
    task := task
    thread_ready_list := []
    thread_all_list := []
    main_thread := main
    next_pid := 0 }
  stack := fun _ => []
  sema := fun s => match s with
    | .sema i => sema_init (value i)
    | .lock _ => lock_init.2
  lock := fun _ => lock_init.1
  ioq := fun q => ioqueue_init (buf q)
  ticks := 0

/-- `thread_init`: the code that runs becomes the main thread. -/
def thread_init (main : Tid) (intr : Bool) (task : Tid → TaskStruct) (value : Nat → UInt8)
    (buf : Nat → Nat → UInt8) : Except Stop Machine := do
  let (m, pid) ← allocate_pid (boot main intr task value buf)
  let sched := init_thread m.sched main 31 pid
  ASSERT (main ∉ sched.thread_all_list) .make_main_thread_all_elem_find
  pure { m with sched := { sched with thread_all_list := sched.thread_all_list ++ [main] } }

/-- The kernel from `thread_init` on. -/
def kernel : Run.System Machine Act Event Stop where
  init m := ∃ main intr task value buf, thread_init main intr task value buf = .ok m
  step := step

end OsLearn
