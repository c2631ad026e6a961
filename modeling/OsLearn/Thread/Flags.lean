import OsLearn.Kernel.List
import OsLearn.Thread.Calls

/-!
# The interrupt flag, written out

The pieces of `Machine.lean` leave the flag alone where the code turns it off and puts it back. Here
is the same code with every `intr_disable` and `intr_set_status`, down to the list functions, and
each piece comes out the same.
-/

open OsLearn.Queues

namespace OsLearn.Flagged

/-! ## `list.c` and `thread.c` -/

/-- `intr_disable()` by the running task: the old status, and the processor. -/
def disable (s : Sched) : Bool × Sched := ((intr_disable s.intr).1, { s with intr := (intr_disable s.intr).2 })

def set_status (s : Sched) (status : Bool) : Sched := { s with intr := (intr_set_status s.intr status).2 }

/-- A change of the ready list by `list_insert_before` or `list_remove`. -/
def editReady (s : Sched) (f : List Tid → List Tid) : Sched :=
  let (old_status, s) := disable s
  let s := { s with thread_ready_list := f s.thread_ready_list }
  set_status s old_status

def schedule (s : Sched) : Except Stop Sched := do
  ASSERT (intr_get_status s.intr = false) .schedule_intr_off
  let s ← if (s.task s.cur).status = .TASK_RUNNING then do
      ASSERT (s.cur ∉ s.thread_ready_list) .schedule_ready_elem_find
      let s := editReady s (· ++ [s.cur])
      let s := s.setTask s.cur fun p => { p with ticks := p.priority }
      pure (s.setStatus s.cur .TASK_READY)
    else pure s
  ASSERT (s.thread_ready_list ≠ []) .schedule_list_empty
  match s.thread_ready_list with
  | [] => PANIC .schedule_list_empty
  | next :: _ =>
    let s := editReady s List.tail
    let s := s.setStatus next .TASK_RUNNING
    pure { s with cur := next }

def thread_unblock (s : Sched) (t : Tid) : Except Stop Sched := do
  let (old_status, s) := disable s
  ASSERT ((s.task t).status = .TASK_BLOCKED ∨ (s.task t).status = .TASK_WAITING ∨
    (s.task t).status = .TASK_HANDGING) .thread_unblock_stat
  let s ← if (s.task t).status ≠ .TASK_READY then
      if t ∈ s.thread_ready_list then PANIC .thread_unblock_ready_elem_find
      else pure ((editReady s (t :: ·)).setStatus t .TASK_READY)
    else pure s
  pure (set_status s old_status)

/-- `thread_block`, up to the switch. -/
def thread_block (m : Machine) (stat : TaskStatus) (rest : List Frame) : Except Stop Machine := do
  ASSERT (stat = .TASK_BLOCKED ∨ stat = .TASK_WAITING ∨ stat = .TASK_HANDGING) .thread_block_stat
  let (old_status, sched) := disable m.sched
  let m := ({ m with sched := sched } : Machine).setStack (.thread_block old_status :: rest)
  let sched ← schedule (m.sched.setStatus m.cur stat)
  pure { m with sched := sched }

/-! ## `sync.c` -/

/-- A change of the wait list of a semaphore by `list_insert_before` or `list_remove`. -/
def editWaiters (m : Machine) (s : SemRef) (f : List Tid → List Tid) : Machine :=
  let (old_status, sched) := disable m.sched
  let m : Machine := { m with sched := sched }
  let m := m.setSema s { m.sema s with waiters := f (m.sema s).waiters }
  { m with sched := set_status m.sched old_status }

/-- `sema_down` from the test of its loop. -/
def sema_down_loop (m : Machine) (s : SemRef) (old_status : Bool) (rest : List Frame) :
    Except Stop (Machine × List Event) :=
  if (m.sema s).value = 0 then do
    ASSERT (m.cur ∉ (m.sema s).waiters) .sema_down_waiters_elem_find
    if m.cur ∈ (m.sema s).waiters then PANIC .sema_down_waiters_elem_find
    let m := editWaiters m s (· ++ [m.cur])
    let m ← thread_block m .TASK_BLOCKED (.sema_down s (some old_status) :: rest)
    pure (m, [])
  else do
    let m : Machine := m.setSema s { m.sema s with value := (m.sema s).value - 1 }
    ASSERT ((m.sema s).value = 0) .sema_down_value
    pure (({ m with sched := set_status m.sched old_status } : Machine).setStack rest, [.down m.cur s])

def sema_down (m : Machine) (s : SemRef) (rest : List Frame) : Except Stop (Machine × List Event) :=
  let (old_status, sched) := disable m.sched
  sema_down_loop { m with sched := sched } s old_status rest

def sema_up (m : Machine) (s : SemRef) : Except Stop Machine := do
  let (old_status, sched) := disable m.sched
  let m : Machine := { m with sched := sched }
  ASSERT ((m.sema s).value = 0) .sema_up_value
  let m ← match (m.sema s).waiters with
    | [] => pure m
    | t :: _ => do
      let m := editWaiters m s List.tail
      let sched ← thread_unblock m.sched t
      pure { m with sched := sched }
  let m : Machine := m.setSema s { m.sema s with value := (m.sema s).value + 1 }
  ASSERT ((m.sema s).value = 1) .sema_up_value_one
  pure { m with sched := set_status m.sched old_status }

/-! ## The pieces are the same -/

@[simp] theorem disable_status (s : Sched) : (disable s).1 = s.intr := by simp [disable]

@[simp] theorem disable_sched (s : Sched) : (disable s).2 = { s with intr := false } := by simp [disable]

@[simp] theorem set_status_sched (s : Sched) (status : Bool) : set_status s status = { s with intr := status } := by
  simp [set_status]

theorem editReady_eq (s : Sched) (f : List Tid → List Tid) :
    editReady s f = { s with thread_ready_list := f s.thread_ready_list } := by
  simp [editReady]

theorem editWaiters_eq (m : Machine) (s : SemRef) (f : List Tid → List Tid) :
    editWaiters m s f = m.setSema s { m.sema s with waiters := f (m.sema s).waiters } := by
  simp [editWaiters, Machine.setSema]

theorem schedule_same (s : Sched) : schedule s = OsLearn.schedule s := by
  by_cases hi : s.intr = false
  · rw [schedule_eq s hi]
    unfold schedule
    by_cases hr : (s.task s.cur).status = .TASK_RUNNING
    · by_cases hm : s.cur ∈ s.thread_ready_list
      · simp [ASSERT, intr_get_status, hi, hr, hm, bind, Except.bind]
      · cases hl : s.thread_ready_list with
        | nil =>
          simp [ASSERT, intr_get_status, editReady_eq, hi, hr, hl, bind, Except.bind, pure, Except.pure,
            Sched.requeue, Sched.dispatch]
        | cons a l =>
          rw [hl] at hm
          simp [ASSERT, intr_get_status, editReady_eq, hi, hr, hl, hm, bind, Except.bind, pure, Except.pure,
            Sched.requeue, Sched.dispatch]
    · cases hl : s.thread_ready_list with
      | nil => simp [ASSERT, intr_get_status, hi, hr, hl, bind, Except.bind, pure, Except.pure]
      | cons a l =>
        simp [ASSERT, intr_get_status, editReady_eq, hi, hr, hl, bind, Except.bind, pure, Except.pure,
          Sched.dispatch]
  · simp [schedule, OsLearn.schedule, ASSERT, intr_get_status, hi, bind, Except.bind]

theorem thread_unblock_same (s : Sched) (t : Tid) : thread_unblock s t = OsLearn.thread_unblock s t := by
  unfold thread_unblock OsLearn.thread_unblock
  simp only [editReady_eq, disable_status, disable_sched, set_status_sched]
  split
  · split
    · rfl
    · rfl
  · rfl

theorem thread_block_same (m : Machine) (stat : TaskStatus) (rest : List Frame) :
    thread_block m stat rest = OsLearn.thread_block m stat rest := by
  unfold thread_block OsLearn.thread_block
  simp only [schedule_same, disable_status, disable_sched]
  rfl

theorem sema_down_loop_same (m : Machine) (s : SemRef) (old_status : Bool) (rest : List Frame) :
    sema_down_loop m s old_status rest = OsLearn.sema_down_loop m s old_status rest := by
  unfold sema_down_loop OsLearn.sema_down_loop
  simp only [thread_block_same, editWaiters_eq, set_status_sched]
  split
  · rfl
  · simp [Machine.setSema, Machine.setIntr, Machine.cur]

theorem sema_down_same (m : Machine) (s : SemRef) (rest : List Frame) :
    sema_down m s rest = runFrame m rest (.sema_down s none) := by
  unfold sema_down runFrame
  simp only [sema_down_loop_same, disable_status, disable_sched]
  rfl

/-- `thread_unblock` does not look at the flag. -/
theorem thread_unblock_intr (s : Sched) (t : Tid) (intr : Bool) :
    OsLearn.thread_unblock { s with intr := intr } t =
      (OsLearn.thread_unblock s t).map fun s => { s with intr := intr } := by
  unfold OsLearn.thread_unblock ASSERT
  by_cases hb : (s.task t).status = .TASK_BLOCKED ∨ (s.task t).status = .TASK_WAITING ∨
      (s.task t).status = .TASK_HANDGING
  · simp only [hb, if_true, bind, Except.bind]
    split
    · split
      · rfl
      · rfl
    · rfl
  · simp only [hb, if_false, bind, Except.bind]
    rfl

theorem thread_unblock_flag (s s' : Sched) (t : Tid) (h : OsLearn.thread_unblock s t = .ok s') :
    s'.intr = s.intr := by
  have heq := thread_unblock_intr s t s.intr
  simp only [h, Except.map, Except.ok.injEq] at heq
  rw [heq]

theorem sema_up_same (m : Machine) (s : SemRef) : sema_up m s = OsLearn.sema_up m s := by
  unfold sema_up OsLearn.sema_up
  simp only [editWaiters_eq, thread_unblock_same, set_status_sched, disable_status, disable_sched]
  by_cases hv : (m.sema s).value = 0
  · cases hl : (m.sema s).waiters with
    | nil => simp [ASSERT, hv, Machine.setSema, bind, Except.bind, pure, Except.pure]
    | cons t ts =>
      have hu := thread_unblock_intr m.sched t false
      cases h : OsLearn.thread_unblock m.sched t with
      | error e =>
        rw [h] at hu
        simp [ASSERT, hv, h, hu, Machine.setSema, bind, Except.bind, Except.map]
      | ok s' =>
        have hf := thread_unblock_flag m.sched s' t h
        rw [h] at hu
        simp [ASSERT, hv, h, hu, ← hf, Machine.setSema, bind, Except.bind, pure, Except.pure, Except.map]
  · simp [ASSERT, hv, bind, Except.bind]

end OsLearn.Flagged
