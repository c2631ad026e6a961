import OsLearn.Thread.Moves

/-!
# The calls of a task

A task is in at most one call, and the frames of a call come in a fixed order. `Shape` lists the
stacks there are.
-/

open OsLearn.Queues

namespace OsLearn

/-- What is below a call on a lock: nothing, or the loop of the queue that the lock is inside of. -/
inductive CalledBy : LockRef → IoqPc → List Frame → Prop
  | own (i : Nat) (pc : IoqPc) : CalledBy (.lock i) pc []
  | get (q : Nat) (pc : IoqPc) : CalledBy (.ioq q) pc [.ioq_getchar q pc]
  | put (q : Nat) (byte : UInt8) (pc : IoqPc) : CalledBy (.ioq q) pc [.ioq_putchar q byte pc]

inductive Shape : List Frame → Prop
  | idle : Shape []
  | kernel_thread : Shape [.kernel_thread]
  | sema_down (i : Nat) (o : Option Bool) : Shape [.sema_down (.sema i) o]
  | sema_up (i : Nat) : Shape [.sema_up (.sema i)]
  | lock_acquire (l : LockRef) (pc : AcquirePc) (rest : List Frame) :
      CalledBy l .wait rest → Shape (.lock_acquire l pc :: rest)
  | lock_down (l : LockRef) (o : Option Bool) (rest : List Frame) :
      CalledBy l .wait rest → Shape (.sema_down (.lock l) o :: .lock_acquire l .taken :: rest)
  | lock_release (l : LockRef) (pc : ReleasePc) (rest : List Frame) :
      CalledBy l .loop rest → Shape (.lock_release l pc :: rest)
  | ioq_getchar (q : Nat) (pc : IoqPc) : Shape [.ioq_getchar q pc]
  | ioq_putchar (q : Nat) (byte : UInt8) (pc : IoqPc) : Shape [.ioq_putchar q byte pc]
  | thread_block (old_status : Bool) (st : List Frame) : Shape st → Shape (.thread_block old_status :: st)
  | intr_exit (st : List Frame) : Shape st → Shape (.intr_exit :: st)

theorem calledBy_shape (l : LockRef) (pc : IoqPc) (rest : List Frame) (h : CalledBy l pc rest) : Shape rest := by
  cases h with
  | own => exact .idle
  | get q => exact .ioq_getchar q _
  | put q byte => exact .ioq_putchar q byte _

/-- Every stack has a shape, and only tasks have calls. -/
structure Calls (m : Machine) : Prop where
  shape : ∀ t, Shape (m.stack t)
  new : ∀ t, t ∉ m.sched.thread_all_list → m.stack t = []

theorem calls_update (m m' : Machine) (st : List Frame) (hi : QueueInv m) (h : Calls m) (hs : Shape st)
    (hst : m'.stack = Function.update m.stack m.cur st)
    (hall : m'.sched.thread_all_list = m.sched.thread_all_list) : Calls m' := by
  constructor
  · intro t
    rw [hst]
    by_cases ht : t = m.cur
    · subst ht
      simpa using hs
    · simpa [ht] using h.shape t
  · intro t ht
    rw [hall] at ht
    have hne : t ≠ m.cur := by
      rintro rfl
      exact ht hi.queue.cur_mem
    rw [hst, Function.update_of_ne hne]
    exact h.new t ht

theorem calls_same (m m' : Machine) (h : Calls m) (hst : m'.stack = m.stack)
    (hall : m'.sched.thread_all_list = m.sched.thread_all_list) : Calls m' := by
  constructor
  · rw [hst]
    exact h.shape
  · rw [hst, hall]
    exact h.new

/-- What a piece shows of the stacks, when it puts `st'` for the calls `st` of the running task. -/
theorem view_update {α : Type} (g : List Frame → α) (m : Machine) (st st' : List Frame) (hst : m.stack m.cur = st)
    (h : g st' = g st) (t : Tid) : g (Function.update m.stack m.cur st' t) = g (m.stack t) := by
  by_cases ht : t = m.cur
  · subst ht
    rw [Function.update_self, hst, h]
  · rw [Function.update_of_ne ht]

theorem view_create {α : Type} (g : List Frame → α) (m : Machine) (hc : Calls m) (t : Tid)
    (hnew : t ∉ m.sched.thread_all_list) (h : g [.kernel_thread] = g []) (u : Tid) :
    g (Function.update m.stack t [.kernel_thread] u) = g (m.stack u) := by
  by_cases hu : u = t
  · subst hu
    rw [Function.update_self, hc.new u hnew, h]
  · rw [Function.update_of_ne hu]

theorem startCall_calls (m : Machine) (c : Call) (hi : QueueInv m) (h : Calls m) : Calls (startCall m c) := by
  cases c with
  | sema_down i => exact calls_update m _ _ hi h (.sema_down i none) rfl rfl
  | sema_up i => exact calls_update m _ _ hi h (.sema_up i) rfl rfl
  | lock_acquire i => exact calls_update m _ _ hi h (.lock_acquire _ _ _ (.own i _)) rfl rfl
  | lock_release i => exact calls_update m _ _ hi h (.lock_release _ _ _ (.own i _)) rfl rfl
  | ioq_getchar q => exact calls_update m _ _ hi h (.ioq_getchar q _) rfl rfl
  | ioq_putchar q byte => exact calls_update m _ _ hi h (.ioq_putchar q byte _) rfl rfl
  | intr_enable => exact calls_same m _ h rfl rfl
  | intr_disable => exact calls_same m _ h rfl rfl

theorem acquire_calledBy (l : LockRef) (pc : AcquirePc) (rest : List Frame)
    (h : Shape (.lock_acquire l pc :: rest)) : CalledBy l .wait rest := by
  cases h
  assumption

theorem release_calledBy (l : LockRef) (pc : ReleasePc) (rest : List Frame)
    (h : Shape (.lock_release l pc :: rest)) : CalledBy l .loop rest := by
  cases h
  assumption

theorem down_shape (s : SemRef) (o o' : Option Bool) (rest : List Frame) (h : Shape (.sema_down s o :: rest)) :
    Shape (.sema_down s o' :: rest) ∧ Shape rest := by
  cases h with
  | sema_down i => exact ⟨.sema_down i o', .idle⟩
  | lock_down l o rest hr => exact ⟨.lock_down l o' rest hr, .lock_acquire l _ rest hr⟩

theorem up_rest (s : SemRef) (rest : List Frame) (h : Shape (.sema_up s :: rest)) : Shape rest := by
  cases h
  exact .idle

theorem up_sema (s : SemRef) (rest : List Frame) (h : Shape (.sema_up s :: rest)) : ∃ i, s = .sema i := by
  cases h with
  | sema_up i => exact ⟨i, rfl⟩

theorem get_rest (q : Nat) (pc : IoqPc) (rest : List Frame) (h : Shape (.ioq_getchar q pc :: rest)) : rest = [] := by
  cases h
  rfl

theorem put_rest (q : Nat) (byte : UInt8) (pc : IoqPc) (rest : List Frame)
    (h : Shape (.ioq_putchar q byte pc :: rest)) : rest = [] := by
  cases h
  rfl

theorem moves_calls (m m' : Machine) (a : Act) (evs : List Event) (hi : QueueInv m) (h : Calls m)
    (hmv : Moves m a m' evs) : Calls m' := by
  have hcur (st : List Frame) (hst : m.stack m.cur = st) : Shape st := hst ▸ h.shape m.cur
  cases hmv with
  | call c hst => exact startCall_calls m c hi h
  | down_wait s o rest next tl hst _ _ =>
    have hs := (down_shape s o (some (atLoop m o).2) rest (hcur _ hst)).1
    cases o <;> exact calls_update m _ _ hi h (.thread_block _ _ hs) rfl rfl
  | down_take s o rest hst _ => exact calls_update m _ rest hi h (down_shape s o none rest (hcur _ hst)).2 rfl rfl
  | up_none s rest hst _ _ => exact calls_update m _ rest hi h (up_rest s rest (hcur _ hst)) rfl rfl
  | up_wake s rest t ts hst _ _ => exact calls_update m _ rest hi h (up_rest s rest (hcur _ hst)) rfl rfl
  | acquire_own l rest hst _ =>
    exact calls_update m _ _ hi h (.lock_acquire l _ rest (acquire_calledBy l _ rest (hcur _ hst))) rfl rfl
  | acquire_down l rest hst _ =>
    exact calls_update m _ _ hi h (.lock_down l none rest (acquire_calledBy l _ rest (hcur _ hst))) rfl rfl
  | acquire_again l rest hst =>
    exact calls_update m _ _ hi h (calledBy_shape l _ rest (acquire_calledBy l _ rest (hcur _ hst))) rfl rfl
  | acquire_taken l rest hst =>
    exact calls_update m _ _ hi h (.lock_acquire l _ rest (acquire_calledBy l _ rest (hcur _ hst))) rfl rfl
  | acquire_check l rest hst _ =>
    exact calls_update m _ _ hi h (.lock_acquire l _ rest (acquire_calledBy l _ rest (hcur _ hst))) rfl rfl
  | acquire_first l rest hst =>
    exact calls_update m _ _ hi h (calledBy_shape l _ rest (acquire_calledBy l _ rest (hcur _ hst))) rfl rfl
  | release_entry l rest hst _ | release_more l rest hst _ | release_zero l rest hst _
  | release_last l rest hst _ | release_clear l rest hst | release_reset l rest hst =>
    exact calls_update m _ _ hi h (.lock_release l _ rest (release_calledBy l _ rest (hcur _ hst))) rfl rfl
  | release_again l rest hst =>
    exact calls_update m _ _ hi h (calledBy_shape l _ rest (release_calledBy l _ rest (hcur _ hst))) rfl rfl
  | release_up_none l rest hst _ _ | release_up_wake l rest _ _ hst _ _ =>
    exact calls_update m _ _ hi h (calledBy_shape l _ rest (release_calledBy l _ rest (hcur _ hst))) rfl rfl
  | block_end old rest hst =>
    have hs : Shape rest := by cases hcur _ hst; assumption
    exact calls_update m _ _ hi h hs rfl rfl
  | get_empty q rest hst _ _ =>
    rw [get_rest q _ rest (hcur _ hst)]
    exact calls_update m _ _ hi h (.lock_acquire _ _ _ (.get q _)) rfl rfl
  | get_take q rest hst _ _ _ | get_wake q rest _ hst _ _ _ =>
    rw [get_rest q _ rest (hcur _ hst)]
    exact calls_update m _ _ hi h .idle rfl rfl
  | get_wait q rest next tl hst _ _ =>
    rw [get_rest q _ rest (hcur _ hst)]
    exact calls_update m _ _ hi h (.thread_block _ _ (.ioq_getchar q _)) rfl rfl
  | get_release q rest hst =>
    rw [get_rest q _ rest (hcur _ hst)]
    exact calls_update m _ _ hi h (.lock_release _ _ _ (.get q _)) rfl rfl
  | put_full q byte rest hst _ _ =>
    rw [put_rest q byte _ rest (hcur _ hst)]
    exact calls_update m _ _ hi h (.lock_acquire _ _ _ (.put q byte _)) rfl rfl
  | put_store q byte rest hst _ _ _ | put_wake q byte rest _ hst _ _ _ =>
    rw [put_rest q byte _ rest (hcur _ hst)]
    exact calls_update m _ _ hi h .idle rfl rfl
  | put_wait q byte rest next tl hst _ _ =>
    rw [put_rest q byte _ rest (hcur _ hst)]
    exact calls_update m _ _ hi h (.thread_block _ _ (.ioq_putchar q byte _)) rfl rfl
  | put_release q byte rest hst =>
    rw [put_rest q byte _ rest (hcur _ hst)]
    exact calls_update m _ _ hi h (.lock_release _ _ _ (.put q byte _)) rfl rfl
  | thread_entry rest hst =>
    have hs : Shape rest := by cases hcur _ hst; exact .idle
    exact calls_update m _ _ hi h hs rfl rfl
  | timer_end rest hst =>
    have hs : Shape rest := by cases hcur _ hst; assumption
    exact calls_update m _ _ hi h hs rfl rfl
  | tick => exact calls_same m _ h rfl rfl
  | preempt next rest => exact calls_update m _ _ hi h (.intr_exit _ (h.shape m.cur)) rfl rfl
  | key_drop => exact h
  | key_store => exact calls_same m _ h rfl rfl
  | key_wake => exact calls_same m _ h rfl rfl
  | create t prio lock sem _ _ hnew _ =>
    constructor
    · intro u
      show Shape (Function.update m.stack t [.kernel_thread] u)
      by_cases hu : u = t
      · subst hu
        simpa using Shape.kernel_thread
      · simpa [hu] using h.shape u
    · intro u hu
      change u ∉ m.sched.thread_all_list ++ [t] at hu
      simp only [List.mem_append, List.mem_singleton, not_or] at hu
      show Function.update m.stack t [.kernel_thread] u = []
      rw [Function.update_of_ne hu.2]
      exact h.new u hu.1

theorem reach_calls (ok : List Event → Machine → Act → Prop) (log : List Event) (m : Machine)
    (h : Run.Reach kernel ok log m) : Calls m := by
  refine reach_moves ok (fun _ => Calls) ?_ ?_ log m h
  · intro main intr task value buf
    exact ⟨fun _ => .idle, fun _ _ => rfl⟩
  · intro log m a m' evs hi hc _ hmv
    exact moves_calls m m' a evs hi hc hmv

end OsLearn
