import OsLearn.Thread.Queues

/-!
# Every move of the machine

`Moves m a m' evs` has one constructor for each branch of the code, with the checks on the way and
the state at its end. The invariants of the locks and the queues are proved over these.
-/

open OsLearn.Queues

namespace OsLearn

def atLoop (m : Machine) : Option Bool → Machine × Bool
  | none => (m.setIntr false, m.sched.intr)
  | some old_status => (m, old_status)

def IoQueue.taken (q : IoQueue) : IoQueue := { q with tail := next_pos q.tail }

def IoQueue.stored (q : IoQueue) (byte : UInt8) : IoQueue :=
  { q with buf := Function.update q.buf q.head byte, head := next_pos q.head }

def Machine.woken (m : Machine) (t : Tid) : Machine := { m with sched := m.sched.wakeTask t }

inductive Moves (m : Machine) : Act → Machine → List Event → Prop
  | call (c : Call) : m.stack m.cur = [] → Moves m (.call c) (startCall m c) []
  | down_wait (s : SemRef) (o : Option Bool) (rest : List Frame) (next : Tid) (tl : List Tid) :
      m.stack m.cur = .sema_down s o :: rest → (m.sema s).value = 0 →
      m.sched.thread_ready_list = next :: tl →
      Moves m .run (((atLoop m o).1.setSema s
        { m.sema s with waiters := (m.sema s).waiters ++ [m.cur] }).switchOut
          (.sema_down s (some (atLoop m o).2) :: rest) next tl) []
  | down_take (s : SemRef) (o : Option Bool) (rest : List Frame) :
      m.stack m.cur = .sema_down s o :: rest → (m.sema s).value = 1 →
      Moves m .run (((m.setSema s { m.sema s with value := 0 }).setIntr (atLoop m o).2).setStack rest)
        [.down m.cur s]
  | up_none (s : SemRef) (rest : List Frame) :
      m.stack m.cur = .sema_up s :: rest → (m.sema s).value = 0 → (m.sema s).waiters = [] →
      Moves m .run ((m.setSema s { value := 1, waiters := [] }).setStack rest) [.up m.cur s]
  | up_wake (s : SemRef) (rest : List Frame) (t : Tid) (ts : List Tid) :
      m.stack m.cur = .sema_up s :: rest → (m.sema s).value = 0 → (m.sema s).waiters = t :: ts →
      Moves m .run (((m.setSema s { value := 1, waiters := ts }).woken t).setStack rest) [.up m.cur s]
  | acquire_own (l : LockRef) (rest : List Frame) :
      m.stack m.cur = .lock_acquire l .entry :: rest → (m.lock l).holder = some m.cur →
      Moves m .run (m.setStack (.lock_acquire l .again :: rest)) []
  | acquire_down (l : LockRef) (rest : List Frame) :
      m.stack m.cur = .lock_acquire l .entry :: rest → (m.lock l).holder ≠ some m.cur →
      Moves m .run (m.setStack (.sema_down (.lock l) none :: .lock_acquire l .taken :: rest)) []
  | acquire_again (l : LockRef) (rest : List Frame) :
      m.stack m.cur = .lock_acquire l .again :: rest →
      Moves m .run ((m.setLock l { m.lock l with
        holder_repeat_nr := (m.lock l).holder_repeat_nr + 1 }).setStack rest) [.acquired m.cur l]
  | acquire_taken (l : LockRef) (rest : List Frame) :
      m.stack m.cur = .lock_acquire l .taken :: rest →
      Moves m .run ((m.setLock l { m.lock l with holder := some m.cur }).setStack
        (.lock_acquire l .check :: rest)) []
  | acquire_check (l : LockRef) (rest : List Frame) :
      m.stack m.cur = .lock_acquire l .check :: rest → (m.lock l).holder_repeat_nr = 0 →
      Moves m .run (m.setStack (.lock_acquire l .first :: rest)) []
  | acquire_first (l : LockRef) (rest : List Frame) :
      m.stack m.cur = .lock_acquire l .first :: rest →
      Moves m .run ((m.setLock l { m.lock l with holder_repeat_nr := 1 }).setStack rest) [.acquired m.cur l]
  | release_entry (l : LockRef) (rest : List Frame) :
      m.stack m.cur = .lock_release l .entry :: rest → (m.lock l).holder = some m.cur →
      Moves m .run (m.setStack (.lock_release l .test :: rest)) []
  | release_more (l : LockRef) (rest : List Frame) :
      m.stack m.cur = .lock_release l .test :: rest → (m.lock l).holder_repeat_nr ≠ 0 →
      Moves m .run (m.setStack (.lock_release l .again :: rest)) []
  | release_zero (l : LockRef) (rest : List Frame) :
      m.stack m.cur = .lock_release l .test :: rest → (m.lock l).holder_repeat_nr = 0 →
      Moves m .run (m.setStack (.lock_release l .last :: rest)) []
  | release_again (l : LockRef) (rest : List Frame) :
      m.stack m.cur = .lock_release l .again :: rest →
      Moves m .run ((m.setLock l { m.lock l with
        holder_repeat_nr := (m.lock l).holder_repeat_nr - 1 }).setStack rest) [.released m.cur l]
  | release_last (l : LockRef) (rest : List Frame) :
      m.stack m.cur = .lock_release l .last :: rest → (m.lock l).holder_repeat_nr = 1 →
      Moves m .run (m.setStack (.lock_release l .clear :: rest)) []
  | release_clear (l : LockRef) (rest : List Frame) :
      m.stack m.cur = .lock_release l .clear :: rest →
      Moves m .run ((m.setLock l { m.lock l with holder := none }).setStack (.lock_release l .zero :: rest)) []
  | release_reset (l : LockRef) (rest : List Frame) :
      m.stack m.cur = .lock_release l .zero :: rest →
      Moves m .run ((m.setLock l { m.lock l with holder_repeat_nr := 0 }).setStack
        (.lock_release l .up :: rest)) []
  | release_up_none (l : LockRef) (rest : List Frame) :
      m.stack m.cur = .lock_release l .up :: rest → (m.sema (.lock l)).value = 0 →
      (m.sema (.lock l)).waiters = [] →
      Moves m .run ((m.setSema (.lock l) { value := 1, waiters := [] }).setStack rest)
        [.up m.cur (.lock l), .released m.cur l]
  | release_up_wake (l : LockRef) (rest : List Frame) (t : Tid) (ts : List Tid) :
      m.stack m.cur = .lock_release l .up :: rest → (m.sema (.lock l)).value = 0 →
      (m.sema (.lock l)).waiters = t :: ts →
      Moves m .run (((m.setSema (.lock l) { value := 1, waiters := ts }).woken t).setStack rest)
        [.up m.cur (.lock l), .released m.cur l]
  | block_end (old : Bool) (rest : List Frame) :
      m.stack m.cur = .thread_block old :: rest → Moves m .run ((m.setIntr old).setStack rest) []
  | get_empty (q : Nat) (rest : List Frame) :
      m.stack m.cur = .ioq_getchar q .loop :: rest → m.sched.intr = false → ioq_empty (m.ioq q) = true →
      Moves m .run (m.setStack (.lock_acquire (.ioq q) .entry :: .ioq_getchar q .wait :: rest)) []
  | get_take (q : Nat) (rest : List Frame) :
      m.stack m.cur = .ioq_getchar q .loop :: rest → m.sched.intr = false → ioq_empty (m.ioq q) = false →
      (m.ioq q).producer = none →
      Moves m .run ((m.setIoq q (m.ioq q).taken).setStack rest) [.got q ((m.ioq q).buf (m.ioq q).tail)]
  | get_wake (q : Nat) (rest : List Frame) (t : Tid) :
      m.stack m.cur = .ioq_getchar q .loop :: rest → m.sched.intr = false → ioq_empty (m.ioq q) = false →
      (m.ioq q).producer = some t →
      Moves m .run (((m.setIoq q { (m.ioq q).taken with producer := none }).woken t).setStack rest)
        [.got q ((m.ioq q).buf (m.ioq q).tail)]
  | get_wait (q : Nat) (rest : List Frame) (next : Tid) (tl : List Tid) :
      m.stack m.cur = .ioq_getchar q .wait :: rest → (m.ioq q).consumer = none →
      m.sched.thread_ready_list = next :: tl →
      Moves m .run ((m.setIoq q { m.ioq q with consumer := some m.cur }).switchOut
        (.ioq_getchar q .release :: rest) next tl) []
  | get_release (q : Nat) (rest : List Frame) :
      m.stack m.cur = .ioq_getchar q .release :: rest →
      Moves m .run (m.setStack (.lock_release (.ioq q) .entry :: .ioq_getchar q .loop :: rest)) []
  | put_full (q : Nat) (byte : UInt8) (rest : List Frame) :
      m.stack m.cur = .ioq_putchar q byte .loop :: rest → m.sched.intr = false → ioq_full (m.ioq q) = true →
      Moves m .run (m.setStack (.lock_acquire (.ioq q) .entry :: .ioq_putchar q byte .wait :: rest)) []
  | put_store (q : Nat) (byte : UInt8) (rest : List Frame) :
      m.stack m.cur = .ioq_putchar q byte .loop :: rest → m.sched.intr = false → ioq_full (m.ioq q) = false →
      (m.ioq q).consumer = none →
      Moves m .run ((m.setIoq q ((m.ioq q).stored byte)).setStack rest) [.put q byte]
  | put_wake (q : Nat) (byte : UInt8) (rest : List Frame) (t : Tid) :
      m.stack m.cur = .ioq_putchar q byte .loop :: rest → m.sched.intr = false → ioq_full (m.ioq q) = false →
      (m.ioq q).consumer = some t →
      Moves m .run (((m.setIoq q { (m.ioq q).stored byte with consumer := none }).woken t).setStack rest)
        [.put q byte]
  | put_wait (q : Nat) (byte : UInt8) (rest : List Frame) (next : Tid) (tl : List Tid) :
      m.stack m.cur = .ioq_putchar q byte .wait :: rest → (m.ioq q).producer = none →
      m.sched.thread_ready_list = next :: tl →
      Moves m .run ((m.setIoq q { m.ioq q with producer := some m.cur }).switchOut
        (.ioq_putchar q byte .release :: rest) next tl) []
  | put_release (q : Nat) (byte : UInt8) (rest : List Frame) :
      m.stack m.cur = .ioq_putchar q byte .release :: rest →
      Moves m .run (m.setStack (.lock_release (.ioq q) .entry :: .ioq_putchar q byte .loop :: rest)) []
  | thread_entry (rest : List Frame) :
      m.stack m.cur = .kernel_thread :: rest → Moves m .run ((m.setIntr true).setStack rest) []
  | timer_end (rest : List Frame) :
      m.stack m.cur = .intr_exit :: rest → Moves m .run ((m.setIntr true).setStack rest) []
  | tick : m.sched.intr = true → (m.sched.task m.cur).ticks ≠ 0 → Moves m .timer m.useTick []
  | preempt (next : Tid) (rest : List Tid) :
      m.sched.intr = true → (m.sched.task m.cur).ticks = 0 →
      m.sched.thread_ready_list ++ [m.cur] = next :: rest → Moves m .timer (m.preempt next rest) []
  | key_drop (q : Nat) (byte : UInt8) :
      m.sched.intr = true → ioq_full (m.ioq q) = true → Moves m (.keyboard q byte) m []
  | key_store (q : Nat) (byte : UInt8) :
      m.sched.intr = true → ioq_full (m.ioq q) = false → (m.ioq q).consumer = none →
      Moves m (.keyboard q byte) (m.setIoq q ((m.ioq q).stored byte)) [.put q byte]
  | key_wake (q : Nat) (byte : UInt8) (t : Tid) :
      m.sched.intr = true → ioq_full (m.ioq q) = false → (m.ioq q).consumer = some t →
      Moves m (.keyboard q byte) ((m.setIoq q { (m.ioq q).stored byte with consumer := none }).woken t)
        [.put q byte]
  | create (t : Tid) (prio : Int32) (lock : Lock) (sem : Semaphore) :
      m.cur = m.sched.main_thread → m.stack m.cur = [] → t ∉ m.sched.thread_all_list →
      sem.waiters = (m.sema (.lock .pid_lock)).waiters →
      Moves m (.thread_start t prio) ((m.takePid lock sem).addTask t prio (m.sched.next_pid + 1)) [.created t]

/-- The stops there are: no check that looks a tag up fails, none of `wakeup` or `thread_unblock`, and
that of `ioq_wait` only where the slot is taken. -/
inductive Stops (m : Machine) : Stop → Prop
  | notNow : Stops m .notNow
  | list_empty : Stops m (.panic .schedule_list_empty)
  | down_value : Stops m (.panic .sema_down_value)
  | up_value : Stops m (.panic .sema_up_value)
  | repeat_nr : Stops m (.panic .lock_acquire_repeat_nr)
  | release_holder : Stops m (.panic .lock_release_holder)
  | release_repeat_nr : Stops m (.panic .lock_release_repeat_nr)
  | stack_magic : (m.sched.task m.cur).stack_magic ≠ 0x19851122 → Stops m (.panic .timer_stack_magic)
  | get_intr (q : Nat) (rest : List Frame) :
      m.stack m.cur = .ioq_getchar q .loop :: rest → m.sched.intr = true → Stops m (.panic .ioq_intr_off)
  | put_intr (q : Nat) (byte : UInt8) (rest : List Frame) :
      m.stack m.cur = .ioq_putchar q byte .loop :: rest → m.sched.intr = true → Stops m (.panic .ioq_intr_off)
  | get_waiter (q : Nat) (rest : List Frame) :
      m.stack m.cur = .ioq_getchar q .wait :: rest → (m.ioq q).consumer ≠ none → Stops m (.panic .ioq_wait_waiter)
  | put_waiter (q : Nat) (byte : UInt8) (rest : List Frame) :
      m.stack m.cur = .ioq_putchar q byte .wait :: rest → (m.ioq q).producer ≠ none →
      Stops m (.panic .ioq_wait_waiter)

/-! ## The code makes no other move -/

theorem sema_down_loop_moves (m : Machine) (s : SemRef) (o : Option Bool) (rest : List Frame) (h : QueueInv m)
    (hst : m.stack m.cur = .sema_down s o :: rest) :
    Spec (sema_down_loop (atLoop m o).1 s (atLoop m o).2 rest) (fun r => Moves m .run r.1 r.2) (Stops m) := by
  have hsema : (atLoop m o).1.sema = m.sema := by cases o <;> rfl
  have hcur : (atLoop m o).1.cur = m.cur := by cases o <;> rfl
  have hready : (atLoop m o).1.sched.thread_ready_list = m.sched.thread_ready_list := by cases o <;> rfl
  apply sema_down_loop_spec
  · intro hv _ next tl hl
    rw [hsema, hcur] at *
    exact .down_wait s o rest next tl hst hv (hready ▸ hl)
  · intro hv
    rw [hsema] at hv
    have h1 : (m.sema s).value = 1 := by
      have := congrArg (· + 1) hv
      simpa using this
    have := Moves.down_take (m := m) s o rest hst h1
    rw [hsema, hcur, hv]
    cases o <;> exact this
  · intro _ hm
    rw [hsema, hcur] at hm
    exact absurd hm (cur_not_held m h (.waiters s))
  · exact .list_empty
  · exact .down_value

theorem sema_up_moves (m : Machine) (s : SemRef) (h : QueueInv m) (P : Machine → Prop)
    (hnone : (m.sema s).value = 0 → (m.sema s).waiters = [] → P (m.setSema s { value := 1, waiters := [] }))
    (hwake : (m.sema s).value = 0 → ∀ t ts, (m.sema s).waiters = t :: ts →
      P ((m.setSema s { value := 1, waiters := ts }).woken t)) :
    Spec (sema_up m s) P (Stops m) := by
  apply sema_up_spec
  · exact held_blocked m h (.waiters s)
  · exact hnone
  · exact hwake
  · exact fun _ => .up_value

theorem lock_acquire_moves (m : Machine) (l : LockRef) (rest : List Frame) (pc : AcquirePc)
    (hst : m.stack m.cur = .lock_acquire l pc :: rest) :
    Spec (lock_acquire_piece m l rest pc) (fun r => Moves m .run r.1 r.2) (Stops m) := by
  cases pc with
  | entry =>
    unfold lock_acquire_piece
    dsimp only
    split
    · rename_i hh
      exact .acquire_own l rest hst hh
    · rename_i hh
      exact .acquire_down l rest hst hh
  | again => exact .acquire_again l rest hst
  | taken => exact .acquire_taken l rest hst
  | check =>
    simp only [lock_acquire_piece, spec_bind, spec_ASSERT, spec_pure]
    exact ⟨fun hn => .acquire_check l rest hst hn, fun _ => .repeat_nr⟩
  | first => exact .acquire_first l rest hst

theorem lock_release_moves (m : Machine) (l : LockRef) (rest : List Frame) (pc : ReleasePc) (h : QueueInv m)
    (hst : m.stack m.cur = .lock_release l pc :: rest) :
    Spec (lock_release_piece m l rest pc) (fun r => Moves m .run r.1 r.2) (Stops m) := by
  cases pc with
  | entry =>
    simp only [lock_release_piece, spec_bind, spec_ASSERT, spec_pure]
    exact ⟨fun hh => .release_entry l rest hst hh, fun _ => .release_holder⟩
  | test =>
    unfold lock_release_piece
    dsimp only
    split
    · rename_i hn
      exact .release_more l rest hst (UInt32.pos_iff_ne_zero.mp hn)
    · rename_i hn
      exact .release_zero l rest hst (by simpa [UInt32.pos_iff_ne_zero] using hn)
  | again => exact .release_again l rest hst
  | last =>
    simp only [lock_release_piece, spec_bind, spec_ASSERT, spec_pure]
    exact ⟨fun hn => .release_last l rest hst hn, fun _ => .release_repeat_nr⟩
  | clear => exact .release_clear l rest hst
  | zero => exact .release_reset l rest hst
  | up =>
    simp only [lock_release_piece, spec_bind, spec_pure]
    apply sema_up_moves m _ h
    · exact fun hv hl => .release_up_none l rest hst hv hl
    · exact fun hv t ts hl => .release_up_wake l rest t ts hst hv hl

theorem ioq_getchar_moves (m : Machine) (q : Nat) (rest : List Frame) (pc : IoqPc) (h : QueueInv m)
    (hst : m.stack m.cur = .ioq_getchar q pc :: rest) :
    Spec (ioq_getchar_piece m q rest pc) (fun r => Moves m .run r.1 r.2) (Stops m) := by
  cases pc with
  | loop =>
    simp only [ioq_getchar_piece, spec_bind, spec_ASSERT]
    refine ⟨fun hi => ?_, fun hi => .get_intr q rest hst (by simpa using hi)⟩
    split
    · rename_i he
      exact .get_empty q rest hst hi he
    · rename_i he
      rw [spec_bind]
      have he' : ioq_empty (m.ioq q) = false := by simpa using he
      apply ioq_take_spec
      · exact fun t ht => held_blocked m h (.producer q) t (by simp [heldBy, ht])
      · exact fun hp => .get_take q rest hst hi he' hp
      · exact fun t ht => .get_wake q rest t hst hi he' ht
  | wait =>
    simp only [ioq_getchar_piece, spec_bind, spec_ASSERT, spec_pure]
    refine ⟨fun hn => ?_, fun hn => .get_waiter q rest hst hn⟩
    apply thread_block_spec
    · exact fun next tl hl => .get_wait q rest next tl hst hn hl
    · exact fun _ => .list_empty
  | release => exact .get_release q rest hst

theorem ioq_putchar_moves (m : Machine) (q : Nat) (byte : UInt8) (rest : List Frame) (pc : IoqPc) (h : QueueInv m)
    (hst : m.stack m.cur = .ioq_putchar q byte pc :: rest) :
    Spec (ioq_putchar_piece m q byte rest pc) (fun r => Moves m .run r.1 r.2) (Stops m) := by
  cases pc with
  | loop =>
    simp only [ioq_putchar_piece, spec_bind, spec_ASSERT]
    refine ⟨fun hi => ?_, fun hi => .put_intr q byte rest hst (by simpa using hi)⟩
    split
    · rename_i hf
      exact .put_full q byte rest hst hi hf
    · rename_i hf
      rw [spec_bind]
      have hf' : ioq_full (m.ioq q) = false := by simpa using hf
      apply ioq_store_spec
      · exact fun t ht => held_blocked m h (.consumer q) t (by simp [heldBy, ht])
      · exact fun hc => .put_store q byte rest hst hi hf' hc
      · exact fun t ht => .put_wake q byte rest t hst hi hf' ht
  | wait =>
    simp only [ioq_putchar_piece, spec_bind, spec_ASSERT, spec_pure]
    refine ⟨fun hn => ?_, fun hn => .put_waiter q byte rest hst hn⟩
    apply thread_block_spec
    · exact fun next tl hl => .put_wait q byte rest next tl hst hn hl
    · exact fun _ => .list_empty
  | release => exact .put_release q byte rest hst

theorem runFrame_moves (m : Machine) (f : Frame) (rest : List Frame) (h : QueueInv m)
    (hst : m.stack m.cur = f :: rest) :
    Spec (runFrame m rest f) (fun r => Moves m .run r.1 r.2) (Stops m) := by
  cases f with
  | sema_down s o =>
    have := sema_down_loop_moves m s o rest h hst
    cases o <;> exact this
  | sema_up s =>
    simp only [runFrame, spec_bind, spec_pure]
    apply sema_up_moves m s h
    · exact fun hv hl => .up_none s rest hst hv hl
    · exact fun hv t ts hl => .up_wake s rest t ts hst hv hl
  | lock_acquire l pc => exact lock_acquire_moves m l rest pc hst
  | lock_release l pc => exact lock_release_moves m l rest pc h hst
  | thread_block old => exact .block_end old rest hst
  | ioq_getchar q pc => exact ioq_getchar_moves m q rest pc h hst
  | ioq_putchar q byte pc => exact ioq_putchar_moves m q byte rest pc h hst
  | kernel_thread => exact .thread_entry rest hst
  | intr_exit => exact .timer_end rest hst

theorem step_moves (m : Machine) (a : Act) (h : QueueInv m) :
    Spec (step m a) (fun r => Moves m a r.1 r.2) (Stops m) := by
  cases a with
  | call c =>
    simp only [step]
    split
    · rename_i hst
      exact .call c hst
    · exact .notNow
  | run =>
    simp only [step]
    split
    · exact .notNow
    · rename_i f rest hst
      exact runFrame_moves m f rest h hst
  | timer =>
    simp only [step]
    split
    · rename_i hi
      rw [spec_bind]
      apply intr_timer_handler_spec m _ _ (cur_running m h) (cur_not_ready m h)
      · exact fun ht => .tick hi ht
      · exact fun ht next rest hl => .preempt next rest hi ht hl
      · exact .stack_magic
    · exact .notNow
  | keyboard q byte =>
    simp only [step, keyboard_char]
    split
    · rename_i hi
      split
      · rename_i hf
        exact .key_drop q byte hi hf
      · rename_i hf
        rw [spec_bind]
        have hf' : ioq_full (m.ioq q) = false := by simpa using hf
        apply ioq_store_spec
        · exact fun t ht => held_blocked m h (.consumer q) t (by simp [heldBy, ht])
        · exact fun hc => .key_store q byte hi hf' hc
        · exact fun t ht => .key_wake q byte t hi hf' ht
    · exact .notNow
  | thread_start t prio =>
    simp only [step]
    split
    · rename_i hn
      rw [spec_bind]
      apply thread_start_spec
      · exact fun hr => hn.2.2 ((h.queue.ready_iff t).mp hr).1
      · exact hn.2.2
      · exact fun lock sem hs => .create t prio lock sem hn.1 hn.2.1 hn.2.2 hs
      · intro e he
        rcases he with rfl | rfl | rfl | rfl | rfl <;> constructor
    · exact .notNow

/-- An invariant of the kernel, move by move. -/
theorem reach_moves (ok : List Event → Machine → Act → Prop) (I : List Event → Machine → Prop)
    (h0 : ∀ main intr task value buf, I [] (started main intr task value buf))
    (hmove : ∀ log m a m' evs, QueueInv m → I log m → ok log m a → Moves m a m' evs → I (log ++ evs) m')
    (log : List Event) (m : Machine) (h : Run.Reach kernel ok log m) : I log m := by
  refine Run.reach_invariant_with kernel ok (fun _ m => QueueInv m) I
    (fun log m h => reach_inv log m (Run.reach_any kernel ok log m h)) ?_ ?_ log m h
  · intro m hm
    obtain ⟨main, intr, task, value, buf, rfl⟩ := (kernel_init_iff m).mp hm
    exact h0 main intr task value buf
  · intro log m a m' evs hi hI hok hs
    exact hmove log m a m' evs hi hI hok (spec_of_ok _ _ _ (step_moves m a hi) (m', evs) hs)

/-! ## The task queues -/

/-- `thread_all_list` has the main thread and the tasks that were created. -/
def AllCreated (log : List Event) (m : Machine) : Prop :=
  ∀ t, t ∈ m.sched.thread_all_list ↔ t = m.sched.main_thread ∨ Event.created t ∈ log

theorem reach_created (log : List Event) (m : Machine) (h : Run.Reach kernel Run.anyStep log m) :
    AllCreated log m := by
  refine reach_moves Run.anyStep AllCreated ?_ ?_ log m h
  · intro main intr task value buf t
    show t ∈ [main] ↔ t = main ∨ Event.created t ∈ []
    simp
  · intro log m a m' evs _ hc _ hmv t
    have ht := hc t
    cases hmv with
    | create u prio lock sem _ _ _ _ =>
      show t ∈ m.sched.thread_all_list ++ [u] ↔ t = m.sched.main_thread ∨ Event.created t ∈ log ++ [.created u]
      rw [List.mem_append, ht]
      simp [or_assoc]
    | call c => cases c <;> exact (List.append_nil log).symm ▸ ht
    | down_wait s o => cases o <;> exact (List.append_nil log).symm ▸ ht
    | _ =>
      show t ∈ m.sched.thread_all_list ↔ t = m.sched.main_thread ∨ _
      rw [ht]
      simp

/-- **The task queues.** In every state that the kernel reaches, the running task is on no list, the
ready list holds the ready tasks once each, every blocked task is with exactly one waker, and
`thread_all_list` has every task once. No check that looks a tag up fails, in any next step. -/
theorem task_queues (log : List Event) (m : Machine) (h : Run.Reach kernel Run.anyStep log m) :
    (∀ t ∈ m.sched.thread_all_list, (m.sched.task t).status = .TASK_RUNNING ↔ t = m.cur) ∧
    m.cur ∈ m.sched.thread_all_list ∧ m.cur ∉ m.sched.thread_ready_list ∧ (∀ w, m.cur ∉ heldBy m w) ∧
    (∀ t, t ∈ m.sched.thread_ready_list ↔
      t ∈ m.sched.thread_all_list ∧ (m.sched.task t).status = .TASK_READY) ∧
    m.sched.thread_ready_list.Nodup ∧
    (∀ t ∈ m.sched.thread_all_list, (m.sched.task t).status = .TASK_BLOCKED →
      t ∉ m.sched.thread_ready_list ∧ ∃! w, t ∈ heldBy m w) ∧
    (∀ w, (heldBy m w).Nodup ∧ ∀ t ∈ heldBy m w,
      t ∈ m.sched.thread_all_list ∧ (m.sched.task t).status = .TASK_BLOCKED) ∧
    (∀ t ∈ m.sched.thread_all_list, Live (m.sched.task t).status) ∧
    m.sched.thread_all_list.Nodup ∧
    (∀ t, t ∈ m.sched.thread_all_list ↔ t = m.sched.main_thread ∨ Event.created t ∈ log) ∧
    ∀ a site, step m a = .error (.panic site) → site.elemFind = false := by
  have hi := reach_inv log m h
  have hq := hi.queue
  refine ⟨?_, hq.cur_mem, cur_not_ready m hi, cur_not_held m hi, ?_, hq.ready_nodup, ?_, ?_, hi.live,
    hq.all_nodup, reach_created log m h, ?_⟩
  · intro t ht
    constructor
    · intro hr
      exact hq.running_eq t ht (by simp [view, hr, modeOf])
    · rintro rfl
      exact cur_running m hi
  · intro t
    constructor
    · intro hr
      obtain ⟨ha, hm⟩ := (hq.ready_iff t).mp hr
      exact ⟨ha, mode_ready _ hm⟩
    · rintro ⟨ha, hm⟩
      exact (hq.ready_iff t).mpr ⟨ha, by simp [view, hm, modeOf]⟩
  · intro t ha hb
    obtain ⟨w, hw⟩ := hq.blocked_held t ha (by simp [view, hb, modeOf])
    exact ⟨(held_blocked m hi w t hw).2, w, hw, fun w' hw' => hq.held_unique w' w t hw' hw⟩
  · intro w
    exact ⟨hq.held_nodup w, fun t ht => ⟨(hq.held_blocked w t ht).1, (held_blocked m hi w t ht).1⟩⟩
  · intro a site hs
    exact spec_of_error _ _ _ (step_inv m a hi) _ hs site rfl

def takeTwice : List Act := [.thread_start 1 31, .call (.sema_down 0), .run, .call (.sema_down 0), .run]

theorem task_queues_blocked : ∃ log m, Run.play kernel Run.anyStep [] zeroed takeTwice = some (log, m) ∧
    m.cur = 1 ∧ (m.sched.task 0).status = .TASK_BLOCKED ∧ ∃! w, 0 ∈ heldBy m w := by
  refine ⟨_, _, rfl, rfl, rfl, ?_⟩
  obtain ⟨-, -, -, -, -, -, hblocked, -⟩ := task_queues _ _ (reach_zeroed Run.anyStep takeTwice _ _ rfl)
  exact (hblocked 0 (by decide) rfl).2

end OsLearn
