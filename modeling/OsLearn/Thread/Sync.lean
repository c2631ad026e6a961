import OsLearn.Thread.Sched

/-!
# `thread/sync.c` and `device/ioqueue.c`: the structs, and the locks without contention

A call that another task cannot cut into is a plain function here. `Machine.lean` has the same
code cut at the places where a context switch can happen.
-/

namespace OsLearn

structure Semaphore where
  value : UInt8
  waiters : List Tid

/-- `struct lock` without its semaphore. -/
structure Lock where
  holder : Option Tid
  holder_repeat_nr : UInt32

def sema_init (value : UInt8) : Semaphore := { value := value, waiters := [] }

def lock_init : Lock × Semaphore := ({ holder := none, holder_repeat_nr := 0 }, sema_init 1)

/-- `lock_acquire` by `cur` when no other task runs in between. A task that has to wait does not
get through: `notNow`. -/
def lock_acquire (ndebug : Bool) (cur : Tid) (lock : Lock) (sem : Semaphore) : Except Stop (Lock × Semaphore) := do
  if lock.holder = some cur then
    pure ({ lock with holder_repeat_nr := lock.holder_repeat_nr + 1 }, sem)
  else
    if sem.value = 0 then throw .notNow
    let sem := { sem with value := sem.value - 1 }
    ASSERT_in ndebug (sem.value = 0) .sema_down_value
    let lock := { lock with holder := some cur }
    ASSERT_in ndebug (lock.holder_repeat_nr = 0) .lock_acquire_repeat_nr
    pure ({ lock with holder_repeat_nr := 1 }, sem)

/-- `lock_release` by `cur`, with the task that its `sema_up` wakes. -/
def lock_release (ndebug : Bool) (cur : Tid) (lock : Lock) (sem : Semaphore) :
    Except Stop (Lock × Semaphore × Option Tid) := do
  ASSERT_in ndebug (lock.holder = some cur) .lock_release_holder
  if lock.holder_repeat_nr > 0 then
    pure ({ lock with holder_repeat_nr := lock.holder_repeat_nr - 1 }, sem, none)
  else
    ASSERT_in ndebug (lock.holder_repeat_nr = 1) .lock_release_repeat_nr
    ASSERT_in ndebug (sem.value = 0) .sema_up_value
    let next : Semaphore := { value := sem.value + 1, waiters := sem.waiters.tail }
    ASSERT_in ndebug (next.value = 1) .sema_up_value_one
    pure ({ holder := none, holder_repeat_nr := 0 }, next, sem.waiters.head?)

/-! ## `device/ioqueue.h` -/

def bufsize : Nat := 64

/-- `struct ioqueue` without its lock. -/
structure IoQueue where
  producer : Option Tid
  consumer : Option Tid
  buf : Nat → UInt8
  head : Nat
  tail : Nat

/-- `ioqueue_init` leaves the buffer as it was. -/
def ioqueue_init (buf : Nat → UInt8) : IoQueue :=
  { producer := none, consumer := none, buf := buf, head := 0, tail := 0 }

def next_pos (pos : Nat) : Nat := (pos + 1) % bufsize

def ioq_full (q : IoQueue) : Bool := next_pos q.head = q.tail

def ioq_empty (q : IoQueue) : Bool := q.head = q.tail

end OsLearn
