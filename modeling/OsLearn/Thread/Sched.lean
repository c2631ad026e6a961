import OsLearn.Kernel.Debug
import Mathlib.Logic.Function.Basic

/-!
# `thread/thread.c`: the tasks, the two lists and `schedule`

A `struct task_struct*` is a `Tid`. The tags that thread a task through a list are not modelled:
a list is the sequence of the tasks whose tag is on it.
-/

namespace OsLearn

/-- A `struct task_struct*`: the address of the PCB. -/
abbrev Tid := Nat

inductive TaskStatus where
  | TASK_RUNNING
  | TASK_READY
  | TASK_BLOCKED
  | TASK_WAITING
  | TASK_HANDGING
  | TASK_DIED
  deriving DecidableEq, Repr

/-- `struct task_struct`, without the name, the kernel stack and the user address bitmap. -/
structure TaskStruct where
  pid : Int16
  status : TaskStatus
  priority : UInt8
  ticks : UInt8
  elapsed_ticks : UInt32
  -- The virtual address of the page directory. A thread has none: `NULL` is 0.
  pgdir : Nat
  stack_magic : UInt32

/-- The processor and the globals of `thread.c`: the running task, the interrupt flag, the PCBs,
the lists. -/
structure Sched where
  cur : Tid
  -- The interrupt flag of the processor: `true` is `INTR_ON`.
  intr : Bool
  task : Tid → TaskStruct
  thread_ready_list : List Tid
  thread_all_list : List Tid
  main_thread : Tid
  next_pid : Int16

namespace Sched

def setTask (s : Sched) (t : Tid) (f : TaskStruct → TaskStruct) : Sched :=
  { s with task := Function.update s.task t (f (s.task t)) }

def setStatus (s : Sched) (t : Tid) (stat : TaskStatus) : Sched :=
  s.setTask t fun p => { p with status := stat }

end Sched

/-- `schedule`: a task whose slice is over goes to the end of the ready list, then the first ready
task runs. -/
def schedule (s : Sched) : Except Stop Sched := do
  ASSERT (s.intr = false) .schedule_intr_off
  let s ← if (s.task s.cur).status = .TASK_RUNNING then do
      ASSERT (s.cur ∉ s.thread_ready_list) .schedule_ready_elem_find
      let s := { s with thread_ready_list := s.thread_ready_list ++ [s.cur] }
      let s := s.setTask s.cur fun p => { p with ticks := p.priority }
      pure (s.setStatus s.cur .TASK_READY)
    else pure s
  ASSERT (s.thread_ready_list ≠ []) .schedule_list_empty
  match s.thread_ready_list with
  | [] => PANIC .schedule_list_empty
  | next :: rest =>
    let s := { s with thread_ready_list := rest }
    let s := s.setStatus next .TASK_RUNNING
    -- switch_to(cur, next)
    pure { s with cur := next }

/-- `thread_unblock`: a woken task goes to the front of the ready list. -/
def thread_unblock (s : Sched) (t : Tid) : Except Stop Sched := do
  ASSERT ((s.task t).status = .TASK_BLOCKED ∨ (s.task t).status = .TASK_WAITING ∨
    (s.task t).status = .TASK_HANDGING) .thread_unblock_stat
  if (s.task t).status ≠ .TASK_READY then
    if t ∈ s.thread_ready_list then PANIC .thread_unblock_ready_elem_find
    else
      let s := { s with thread_ready_list := t :: s.thread_ready_list }
      pure (s.setStatus t .TASK_READY)
  else pure s

/-- `init_thread`, with the pid that `allocate_pid` gave. `prio` is stored in a `uint8_t`. -/
def init_thread (s : Sched) (t : Tid) (prio : Int32) (pid : Int16) : Sched :=
  s.setTask t fun _ => {
    pid := pid
    status := if t = s.main_thread then .TASK_RUNNING else .TASK_READY
    priority := prio.toUInt32.toUInt8
    ticks := prio.toUInt32.toUInt8
    elapsed_ticks := 0
    pgdir := 0
    stack_magic := 0x19851122 }

end OsLearn
