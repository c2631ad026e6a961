import OsLearn.Device.Slots
import OsLearn.Thread.Kinds
import OsLearn.Thread.Tasks
import OsLearn.Thread.Transparent

/-!
# No check of the kernel fails

An ASSERT that fails spins for ever. There is no idle task either: `schedule` asserts that some task is ready. So
the tasks keep to `Orderly`, and the main thread, which never waits, is the one that is always there.
-/

open OsLearn.Queues

namespace OsLearn

/-! ## The rules -/

/-- The semaphores are those of the locks, a task gives back what it has got, the calls of `ioqueue.c` are made with
interrupts off, and the main thread makes no call in which it could wait. -/
def Orderly (log : List Event) (m : Machine) : Act → Prop
  | .call (.sema_down _) | .call (.sema_up _) => False
  | .call (.lock_acquire _) => m.cur ≠ m.sched.main_thread
  -- The counter of the lock has 32 bits.
  | .call (.lock_release i) => 0 < depth log m.cur (.lock i) ∧ depth log m.cur (.lock i) < 2 ^ 32
  | .call (.ioq_getchar _) | .call (.ioq_putchar _ _) => m.sched.intr = false ∧ m.cur ≠ m.sched.main_thread
  | _ => True

instance (log : List Event) (m : Machine) : (a : Act) → Decidable (Orderly log m a)
  | .call (.sema_down _) | .call (.sema_up _) => inferInstanceAs (Decidable False)
  | .call (.lock_acquire _) => inferInstanceAs (Decidable (_ ≠ _))
  | .call (.lock_release _) => inferInstanceAs (Decidable (_ ∧ _))
  | .call (.ioq_getchar _) | .call (.ioq_putchar _ _) => inferInstanceAs (Decidable (_ ∧ _))
  | .call .intr_enable | .call .intr_disable => inferInstanceAs (Decidable True)
  | .run | .timer | .keyboard _ _ | .thread_start _ _ => inferInstanceAs (Decidable True)

/-- The calls in which a task can wait. -/
def Blocking : Frame → Prop
  | .sema_down (.sema _) _ | .sema_down (.lock (.lock _)) _ | .lock_acquire (.lock _) _ => True
  | .ioq_getchar _ _ | .ioq_putchar _ _ _ => True
  | _ => False

theorem blocking_kind : Kind Blocking where
  thread_block _ h := h
  kernel_thread h := h
  intr_exit h := h
  sema_down s _ _ h := by
    cases s with
    | sema i => trivial
    | lock l => cases l <;> exact h
  down l _ _ h := by
    cases l <;> exact h
  acquire l _ _ h := by
    cases l <;> exact h
  release _ _ _ h := h
  getchar _ _ _ h := h
  putchar _ _ _ _ h := h
  queue _ _ _ := ⟨id, id⟩

/-- The calls on a semaphore that is in no lock. -/
def OnSema : Frame → Prop
  | .sema_down (.sema _) _ | .sema_up (.sema _) => True
  | _ => False

theorem onSema_kind : Kind OnSema where
  thread_block _ h := h
  kernel_thread h := h
  intr_exit h := h
  sema_down s _ _ h := by
    cases s <;> exact h
  down _ _ _ h := h
  acquire _ _ _ h := h
  release _ _ _ h := h
  getchar _ _ _ h := h
  putchar _ _ _ _ h := h
  queue _ _ _ := ⟨id, id⟩

/-! ## What each piece of the code relies on -/

def Frame.Needs (m : Machine) : Frame → Prop
  | .sema_down s _ => ((m.sema s).value = 0 ∨ (m.sema s).value = 1) ∧ m.sched.thread_ready_list ≠ []
  | .sema_up s => (m.sema s).value = 0
  | .lock_acquire l .check => (m.lock l).holder_repeat_nr = 0
  | .lock_release l .entry => (m.lock l).holder = some m.cur
  | .lock_release l .last => (m.lock l).holder_repeat_nr = 1
  | .lock_release l .up => (m.sema (.lock l)).value = 0
  | .ioq_getchar _ .loop | .ioq_putchar _ _ .loop => m.sched.intr = false
  | .ioq_getchar q .wait => (m.ioq q).consumer = none ∧ m.sched.thread_ready_list ≠ []
  | .ioq_putchar q _ .wait => (m.ioq q).producer = none ∧ m.sched.thread_ready_list ≠ []
  | _ => True

/-- The computation gives a value. -/
abbrev Passes {α : Type} (x : Except Stop α) : Prop := Spec x (fun _ => True) fun _ => False

theorem passes_bind {α β : Type} (x : Except Stop α) (f : α → Except Stop β) (hx : Passes x)
    (hf : ∀ a, Passes (f a)) : Passes (x >>= f) := by
  rw [Passes, spec_bind]
  exact spec_mono _ _ _ _ _ hx (fun a _ => hf a) fun _ => id

theorem passes_check {β : Type} (cond : Prop) [Decidable cond] (site : Site) (f : Unit → Except Stop β) (h : cond)
    (hf : Passes (f ())) : Passes (ASSERT cond site >>= f) := by
  unfold ASSERT
  rwa [if_pos h]

theorem thread_block_passes (m : Machine) (rest : List Frame) (hready : m.sched.thread_ready_list ≠ []) :
    Passes (thread_block m .TASK_BLOCKED rest) := by
  apply thread_block_spec
  · exact fun _ _ _ => trivial
  · exact hready

theorem sema_down_passes (m : Machine) (s : SemRef) (old : Bool) (rest : List Frame)
    (hcur : m.cur ∉ (m.sema s).waiters) (hvalue : (m.sema s).value = 0 ∨ (m.sema s).value = 1)
    (hready : m.sched.thread_ready_list ≠ []) : Passes (sema_down_loop m s old rest) := by
  unfold sema_down_loop
  rcases hvalue with h0 | h1
  · rw [if_pos h0]
    apply passes_check _ _ _ hcur
    rw [if_neg hcur]
    exact passes_bind _ _ (thread_block_passes _ _ hready) fun _ => trivial
  · rw [if_neg (by simp [h1])]
    apply passes_check
    · simp [h1]
    · trivial

theorem sema_up_passes (m : Machine) (s : SemRef) (hi : QueueInv m) (h0 : (m.sema s).value = 0) :
    Passes (sema_up m s) := by
  apply sema_up_spec
  · exact held_blocked m hi (.waiters s)
  · exact fun _ _ => trivial
  · exact fun _ _ _ _ => trivial
  · exact fun hne => hne h0

theorem lock_acquire_passes (m : Machine) (l : LockRef) (rest : List Frame) (pc : AcquirePc)
    (h : (Frame.lock_acquire l pc).Needs m) : Passes (lock_acquire_piece m l rest pc) := by
  cases pc with
  | entry =>
    simp only [lock_acquire_piece]
    split <;> trivial
  | check => exact passes_check _ _ _ h trivial
  | again | taken | first => trivial

theorem lock_release_passes (m : Machine) (l : LockRef) (rest : List Frame) (pc : ReleasePc) (hi : QueueInv m)
    (h : (Frame.lock_release l pc).Needs m) : Passes (lock_release_piece m l rest pc) := by
  cases pc with
  | entry | last => exact passes_check _ _ _ h trivial
  | test =>
    simp only [lock_release_piece]
    split <;> trivial
  | up => exact passes_bind _ _ (sema_up_passes m _ hi h) fun _ => trivial
  | again | clear | zero => trivial

theorem ioq_take_passes (m : Machine) (q : Nat) (hi : QueueInv m) : Passes (ioq_take m q) := by
  apply ioq_take_spec
  · exact fun t ht => held_blocked m hi (.producer q) t (by simp [heldBy, ht])
  · exact fun _ => trivial
  · exact fun _ _ => trivial

theorem ioq_store_passes (m : Machine) (q : Nat) (byte : UInt8) (hi : QueueInv m) : Passes (ioq_store m q byte) := by
  apply ioq_store_spec
  · exact fun t ht => held_blocked m hi (.consumer q) t (by simp [heldBy, ht])
  · exact fun _ => trivial
  · exact fun _ _ => trivial

theorem ioq_getchar_passes (m : Machine) (q : Nat) (rest : List Frame) (pc : IoqPc) (hi : QueueInv m)
    (h : (Frame.ioq_getchar q pc).Needs m) : Passes (ioq_getchar_piece m q rest pc) := by
  cases pc with
  | loop =>
    have hoff : m.sched.intr = false := h
    apply passes_check _ _ _ hoff
    split
    · trivial
    · exact passes_bind _ _ (ioq_take_passes m q hi) fun _ => trivial
  | wait =>
    apply passes_check _ _ _ h.1
    exact passes_bind _ _ (thread_block_passes _ _ h.2) fun _ => trivial
  | release => trivial

theorem ioq_putchar_passes (m : Machine) (q : Nat) (byte : UInt8) (rest : List Frame) (pc : IoqPc) (hi : QueueInv m)
    (h : (Frame.ioq_putchar q byte pc).Needs m) : Passes (ioq_putchar_piece m q byte rest pc) := by
  cases pc with
  | loop =>
    have hoff : m.sched.intr = false := h
    apply passes_check _ _ _ hoff
    split
    · trivial
    · exact passes_bind _ _ (ioq_store_passes m q byte hi) fun _ => trivial
  | wait =>
    apply passes_check _ _ _ h.1
    exact passes_bind _ _ (thread_block_passes _ _ h.2) fun _ => trivial
  | release => trivial

theorem runFrame_passes (m : Machine) (f : Frame) (rest : List Frame) (hi : QueueInv m) (h : f.Needs m) :
    Passes (runFrame m rest f) := by
  cases f with
  | sema_down s o =>
    have hcur := cur_not_held m hi (.waiters s)
    cases o with
    | none => exact sema_down_passes (m.setIntr false) s _ rest hcur h.1 h.2
    | some old => exact sema_down_passes m s old rest hcur h.1 h.2
  | sema_up s => exact passes_bind _ _ (sema_up_passes m s hi h) fun _ => trivial
  | lock_acquire l pc => exact lock_acquire_passes m l rest pc h
  | lock_release l pc => exact lock_release_passes m l rest pc hi h
  | ioq_getchar q pc => exact ioq_getchar_passes m q rest pc hi h
  | ioq_putchar q byte pc => exact ioq_putchar_passes m q byte rest pc hi h
  | thread_block | kernel_thread | intr_exit => trivial

/-! ## What every orderly run keeps -/

/-- The main thread has had `pid_lock` since `thread_init`. -/
def PidOwned (m : Machine) : Prop :=
  (m.lock .pid_lock).holder = some m.sched.main_thread ∧ (m.lock .pid_lock).holder_repeat_nr = 0

theorem thread_start_own (m : Machine) (t : Tid) (prio : Int32) (hown : PidOwned m)
    (hcur : m.cur = m.sched.main_thread) (hready : t ∉ m.sched.thread_ready_list)
    (hall : t ∉ m.sched.thread_all_list) :
    thread_start m t prio = .ok ((m.takePid (m.lock .pid_lock) (m.sema (.lock .pid_lock))).addTask t prio
      (m.sched.next_pid + 1)) := by
  obtain ⟨hholder, hzero⟩ := hown
  have hlock : m.lock .pid_lock = { holder := some m.cur, holder_repeat_nr := 0 } := by
    rw [hcur, ← hholder, ← hzero]
  have hpid : allocate_pid m =
      .ok (m.takePid (m.lock .pid_lock) (m.sema (.lock .pid_lock)), m.sched.next_pid + 1) := by
    rw [hlock]
    simp [allocate_pid, lock_acquire, lock_release, hlock, ASSERT, Machine.takePid, Machine.cur, Machine.setLock,
      Machine.setSema, bind, Except.bind, pure, Except.pure]
  have hready : t ∉ (m.takePid (m.lock .pid_lock) (m.sema (.lock .pid_lock))).sched.thread_ready_list := hready
  have hall : t ∉ (m.takePid (m.lock .pid_lock) (m.sema (.lock .pid_lock))).sched.thread_all_list := hall
  simp [thread_start, hpid, ASSERT, hready, hall, init_thread, Machine.addTask, bind, Except.bind, pure, Except.pure]

theorem calledBy_not_pid (pc : IoqPc) (rest : List Frame) (h : CalledBy .pid_lock pc rest) : False := by
  cases h

/-- No call of the model is on `pid_lock`. -/
theorem moves_pid_lock (m m' : Machine) (a : Act) (evs : List Event) (hc : Calls m)
    (ha : ∀ t prio, a ≠ .thread_start t prio) (hmv : Moves m a m' evs) : m'.lock .pid_lock = m.lock .pid_lock := by
  have hset (l : LockRef) (v : Lock) (hl : l ≠ .pid_lock) : (m.setLock l v).lock .pid_lock = m.lock .pid_lock :=
    Function.update_of_ne (Ne.symm hl) _ _
  have hacquire (l : LockRef) (pc : AcquirePc) (rest : List Frame)
      (hst : m.stack m.cur = .lock_acquire l pc :: rest) : l ≠ .pid_lock := by
    rintro rfl
    exact calledBy_not_pid _ rest (acquire_calledBy _ pc rest (hst ▸ hc.shape m.cur))
  have hrelease (l : LockRef) (pc : ReleasePc) (rest : List Frame)
      (hst : m.stack m.cur = .lock_release l pc :: rest) : l ≠ .pid_lock := by
    rintro rfl
    exact calledBy_not_pid _ rest (release_calledBy _ pc rest (hst ▸ hc.shape m.cur))
  cases hmv with
  | acquire_again l rest hst | acquire_taken l rest hst | acquire_first l rest hst =>
    exact hset l _ (hacquire l _ rest hst)
  | release_again l rest hst | release_clear l rest hst | release_reset l rest hst =>
    exact hset l _ (hrelease l _ rest hst)
  | create t prio => exact absurd rfl (ha t prio)
  | call c => cases c <;> rfl
  | down_wait s o => cases o <;> rfl
  | _ => rfl

theorem moves_main (m m' : Machine) (a : Act) (evs : List Event) (hmv : Moves m a m' evs) :
    m'.sched.main_thread = m.sched.main_thread := by
  cases moves_onTasks m m' a evs hmv with
  | same _ _ _ hs => exact hs.main
  | tick | preempt | create => rfl

theorem step_pid (m m' : Machine) (a : Act) (evs : List Event) (hi : QueueInv m) (hc : Calls m) (h : PidOwned m)
    (hs : step m a = .ok (m', evs)) : PidOwned m' := by
  by_cases ha : ∃ t prio, a = .thread_start t prio
  · obtain ⟨t, prio, rfl⟩ := ha
    simp only [step] at hs
    split at hs
    · next hnow =>
      have hready : t ∉ m.sched.thread_ready_list := fun hr => hnow.2.2 ((hi.queue.ready_iff t).mp hr).1
      rw [thread_start_own m t prio h hnow.1 hready hnow.2.2] at hs
      obtain ⟨rfl, -⟩ := Prod.mk.inj (Except.ok.inj hs)
      have hlock : (m.takePid (m.lock .pid_lock) (m.sema (.lock .pid_lock))).lock .pid_lock = m.lock .pid_lock := by
        simp [Machine.takePid, Machine.setLock, Machine.setSema]
      unfold PidOwned
      exact hlock.symm ▸ h
    · cases hs
  · have hmv := spec_of_ok _ _ _ (step_moves m a hi) (m', evs) hs
    unfold PidOwned
    rw [moves_main m m' a evs hmv, moves_pid_lock m m' a evs hc (fun t prio heq => ha ⟨t, prio, heq⟩) hmv]
    exact h

structure Sound (m : Machine) : Prop where
  pid : PidOwned m
  semas : ∀ t, FreeOf OnSema (m.stack t)
  main : FreeOf Blocking (m.stack m.sched.main_thread)

theorem orderly_semas (log : List Event) (m : Machine) (c : Call) (h : Orderly log m (.call c))
    (hst : m.stack m.cur = []) : FreeOf OnSema ((startCall m c).stack m.cur) := by
  cases c with
  | sema_down | sema_up => exact h.elim
  | intr_enable | intr_disable => simp [startCall, Machine.setIntr, hst]
  | _ => simp [startCall, Machine.setStack, OnSema]

theorem orderly_main (log : List Event) (m : Machine) (c : Call) (h : Orderly log m (.call c))
    (hst : m.stack m.cur = []) (hcur : m.cur = m.sched.main_thread) : FreeOf Blocking ((startCall m c).stack m.cur) := by
  cases c with
  | sema_down | sema_up => exact h.elim
  | lock_acquire => exact absurd hcur h
  | ioq_getchar | ioq_putchar => exact absurd hcur h.2
  | lock_release => simp [startCall, Machine.setStack, Blocking]
  | intr_enable | intr_disable => simp [startCall, Machine.setIntr, hst]

theorem step_sound (log : List Event) (m m' : Machine) (a : Act) (evs : List Event) (hi : QueueInv m) (hc : Calls m)
    (h : Sound m) (hok : Orderly log m a) (hs : step m a = .ok (m', evs)) : Sound m' := by
  have hmv := spec_of_ok _ _ _ (step_moves m a hi) (m', evs) hs
  have hcall (c : Call) (ha : a = .call c) : m.stack m.cur = [] := by
    subst ha
    cases hmv with
    | call c hst => exact hst
  refine ⟨step_pid m m' a evs hi hc h.pid hs, fun t => ?_, ?_⟩
  · apply moves_freeOf _ onSema_kind m m' a evs _ hmv t (h.semas t)
    rintro c rfl
    exact orderly_semas log m c hok (hcall c rfl)
  · rw [moves_main m m' a evs hmv]
    by_cases hcur : m.cur = m.sched.main_thread
    · apply moves_freeOf _ blocking_kind m m' a evs _ hmv _ h.main
      rintro c rfl
      exact orderly_main log m c hok (hcall c rfl) hcur
    · have hother := moves_other m m' a evs hmv m.sched.main_thread hi.main (Ne.symm hcur)
      rw [hother]
      exact h.main

theorem reach_sound (log : List Event) (m : Machine) (h : Run.Reach kernel Orderly log m) : Sound m := by
  refine Run.reach_invariant_with kernel Orderly (fun _ m => QueueInv m ∧ Calls m) (fun _ => Sound) ?_ ?_ ?_ log m h
  · intro log m h
    exact ⟨reach_inv log m (Run.reach_any kernel _ log m h), reach_calls _ log m h⟩
  · intro m hm
    obtain ⟨main, intr, task, value, buf, rfl⟩ := (kernel_init_iff m).mp hm
    have hidle (t : Tid) : (started main intr task value buf).stack t = [] := rfl
    refine ⟨⟨?_, ?_⟩, fun t => ?_, ?_⟩
    · simp [started, Machine.takePid, Machine.setSema, Machine.setLock, init_thread, boot]
    · simp [started, Machine.takePid, Machine.setSema, Machine.setLock]
    · simp [hidle]
    · simp [hidle]
  · rintro log m a m' evs ⟨hi, hc⟩ hsound hok hs
    exact step_sound log m m' a evs hi hc hsound hok hs

/-! ## The main thread is always there -/

theorem not_blocking_waits (st : List Frame) (h : Shape st) (hfree : FreeOf Blocking st) : waitsOn st = none := by
  induction h with
  | idle | kernel_thread | sema_up | lock_acquire | lock_release => rfl
  | sema_down | ioq_getchar | ioq_putchar => simp [Blocking] at hfree
  | lock_down l o rest hcall => cases hcall <;> simp [Blocking] at hfree
  | thread_block old st _ ih => exact ih ((freeOf_cons _ _ _).mp hfree).2
  | intr_exit st _ ih => exact ih ((freeOf_cons _ _ _).mp hfree).2

theorem main_runnable (m : Machine) (hi : QueueInv m) (hc : Calls m) (hheld : HeldWaits m) (h : Sound m) :
    m.cur = m.sched.main_thread ∨ m.sched.main_thread ∈ m.sched.thread_ready_list := by
  rcases hi.live _ hi.main with hs | hs | hs
  · exact .inl (hi.queue.running_eq _ hi.main (by simp [view, hs, modeOf])).symm
  · exact .inr ((hi.queue.ready_iff _).mpr ⟨hi.main, by simp [view, hs, modeOf]⟩)
  · obtain ⟨w, hw⟩ := hi.queue.blocked_held _ hi.main (by simp [view, hs, modeOf])
    have hwaits := hheld w _ hw
    rw [not_blocking_waits _ (hc.shape _) h.main] at hwaits
    cases hwaits

/-! ## No check fails -/

theorem lockInv_value (R : Nat → Prop) (l : LockRef) (log : List Event) (m : Machine) (h : LockInv R l log m) :
    (m.sema (.lock l)).value = 0 ∨ (m.sema (.lock l)).value = 1 := by
  rcases h with h | ⟨_, h⟩
  · exact .inr h.1
  · exact .inl h.1

/-- The depths at which the counter of a lock is not 0. -/
def Counted (d : Nat) : Prop := 0 < d ∧ d < 2 ^ 32

theorem release_needs (R : Nat → Prop) (hR : ∀ d, R d → Counted d) (l : LockRef) (log : List Event) (m : Machine)
    (pc : ReleasePc) (rest : List Frame) (h : LockInv R l log m) (hst : m.stack m.cur = .lock_release l pc :: rest) :
    (Frame.lock_release l pc).Needs m := by
  have howner := lockInv_release R l log m pc rest h hst
  simp only [OwnerInv, lockState, hst, lockPhase, if_true] at howner
  cases pc with
  | entry => exact howner.1
  | last =>
    obtain ⟨-, ⟨-, hn⟩, hd, hzero⟩ := howner
    obtain ⟨hpos, hlt⟩ := hR _ hd
    have hmod := (ofNat_eq_zero _).mp (hn.symm.trans hzero)
    rw [Nat.mod_eq_of_lt hlt] at hmod
    omega
  | clear | zero | up => exact howner.elim
  | test | again => trivial

theorem orderly_ioq (log : List Event) (m : Machine) (a : Act) (h : Orderly log m a) : IoqCalledOff log m a := by
  intro q
  refine ⟨?_, fun byte => ?_⟩
  · rintro rfl
    exact h.1
  · rintro rfl
    exact h.1

/-- In an orderly run, every lock that a task can be in a call of is in order. -/
theorem reach_locks (log : List Event) (m : Machine) (h : Run.Reach kernel Orderly log m) (l : LockRef)
    (hl : l ≠ .pid_lock) : LockInv Counted l log m := by
  cases l with
  | lock i => exact reach_lockInv Orderly Counted (fun _ hd => hd.1) i (fun _ _ hok => hok) log m h
  | ioq q =>
    have hone := (reach_owner q _ log m h).1
    refine hone.imp id fun ⟨u, hvalue, howner, hothers⟩ => ⟨u, hvalue, ?_, hothers⟩
    have hcount (d : Nat) (hd : d = 1) : Counted d := hd ▸ ⟨Nat.one_pos, by decide⟩
    unfold OwnerInv at howner ⊢
    split <;> simp_all
  | pid_lock => exact absurd rfl hl

/-- Only a task that can wait is at a place where a call waits, so some other task is ready there. -/
theorem others_ready (log : List Event) (m : Machine) (h : Run.Reach kernel Orderly log m)
    (hwaits : ¬ FreeOf Blocking (m.stack m.cur)) : m.sched.thread_ready_list ≠ [] := by
  have hi := reach_inv log m (Run.reach_any kernel _ log m h)
  have hs := reach_sound log m h
  have hmain := main_runnable m hi (reach_calls _ log m h) (reach_heldWaits _ log m h) hs
  rcases hmain with hcur | hready
  · exact absurd (hcur ▸ hs.main) hwaits
  · exact List.ne_nil_of_mem hready

theorem down_waits_there (s : SemRef) (o : Option Bool) (rest : List Frame) (h : Shape (.sema_down s o :: rest)) :
    ¬ FreeOf Blocking (.sema_down s o :: rest) := by
  cases h with
  | sema_down i o => simp [Blocking]
  | lock_down l o rest hcall => cases hcall <;> simp [Blocking]

theorem frame_needs (log : List Event) (m : Machine) (h : Run.Reach kernel Orderly log m) (f : Frame)
    (rest : List Frame) (hst : m.stack m.cur = f :: rest) : f.Needs m := by
  have hany := Run.reach_any kernel _ log m h
  have hs := reach_sound log m h
  have hshape : Shape (f :: rest) := hst ▸ (reach_calls _ log m h).shape m.cur
  have hsema : ¬ OnSema f := ((freeOf_cons _ _ _).mp (hst ▸ hs.semas m.cur)).1
  have hready (hw : ¬ FreeOf Blocking (f :: rest)) : m.sched.thread_ready_list ≠ [] :=
    others_ready log m h (hst.symm ▸ hw)
  have hoff (hioq : f.isIoq = true) (hnow : ∀ now, f.restores now = now) (hrest : rest = []) : m.sched.intr = false := by
    subst hrest
    have hflag := reach_ioqOff log m (Run.reach_mono kernel _ _ orderly_ioq log m h) m.cur
      (reach_inv log m hany).queue.cur_mem (by simp [hst, endsIoq, hioq])
    rw [hst] at hflag
    exact (hnow m.sched.intr).symm.trans hflag
  cases f with
  | sema_down s o =>
    refine ⟨?_, hready (down_waits_there s o rest hshape)⟩
    cases s with
    | sema i => exact absurd trivial hsema
    | lock l =>
      apply lockInv_value Counted l log m
      apply reach_locks log m h
      rintro rfl
      cases hshape with
      | lock_down _ _ rest hcall => exact calledBy_not_pid _ rest hcall
  | sema_up s =>
    obtain ⟨i, rfl⟩ := up_sema s rest hshape
    exact absurd trivial hsema
  | lock_acquire l pc =>
    have hl : l ≠ .pid_lock := by
      rintro rfl
      exact calledBy_not_pid _ rest (acquire_calledBy _ pc rest hshape)
    cases pc with
    | check => exact lockInv_check _ l log m rest (reach_locks log m h l hl) hst
    | _ => trivial
  | lock_release l pc =>
    have hl : l ≠ .pid_lock := by
      rintro rfl
      exact calledBy_not_pid _ rest (release_calledBy _ pc rest hshape)
    exact release_needs Counted (fun _ => id) l log m pc rest (reach_locks log m h l hl) hst
  | ioq_getchar q pc =>
    cases pc with
    | loop => exact hoff rfl (fun _ => rfl) (get_rest q _ rest hshape)
    | wait => exact ⟨(slot_free q log m hany (by simp [hst, nested])).1, hready (by simp [Blocking])⟩
    | release => trivial
  | ioq_putchar q byte pc =>
    cases pc with
    | loop => exact hoff rfl (fun _ => rfl) (put_rest q byte _ rest hshape)
    | wait => exact ⟨(slot_free q log m hany (by simp [hst, nested])).2, hready (by simp [Blocking])⟩
    | release => trivial
  | thread_block | kernel_thread | intr_exit => trivial

theorem run_passes (log : List Event) (m : Machine) (h : Run.Reach kernel Orderly log m)
    (hne : m.stack m.cur ≠ []) : Passes (step m .run) := by
  obtain ⟨f, rest, hst⟩ := List.exists_cons_of_ne_nil hne
  have hi := reach_inv log m (Run.reach_any kernel _ log m h)
  have hpass := runFrame_passes m f rest hi (frame_needs log m h f rest hst)
  simp only [step, hst]
  exact hpass

theorem passes_ok {α : Type} (x : Except Stop α) (h : Passes x) : ∃ a, x = .ok a := by
  cases x with
  | ok a => exact ⟨a, rfl⟩
  | error e => exact h.elim

/-- A step is one that cannot happen now, or it happens. -/
theorem step_passes (log : List Event) (m : Machine) (h : Run.Reach kernel Orderly log m) (a : Act) :
    Spec (step m a) (fun _ => True) fun e => e = .notNow := by
  have hany := Run.reach_any kernel _ log m h
  have hi := reach_inv log m hany
  have hpass {α : Type} (x : Except Stop α) (hx : Passes x) : Spec x (fun _ => True) fun e => e = .notNow :=
    spec_mono _ _ _ _ _ hx (fun _ => id) fun _ hno => hno.elim
  cases a with
  | call c =>
    simp only [step]
    split <;> trivial
  | run =>
    simp only [step]
    split
    · rfl
    · next f rest hst => exact hpass _ (runFrame_passes m f rest hi (frame_needs log m h f rest hst))
  | timer =>
    simp only [step]
    split
    · apply hpass
      apply passes_bind
      · have hmagic := reach_stamped log m hany m.cur hi.queue.cur_mem
        apply intr_timer_handler_spec m _ _ (cur_running m hi) (cur_not_ready m hi)
        · exact fun _ => trivial
        · exact fun _ _ _ _ => trivial
        · exact fun hne => hne hmagic
      · exact fun _ => trivial
    · rfl
  | keyboard q byte =>
    simp only [step, keyboard_char]
    split
    · split
      · trivial
      · exact hpass _ (passes_bind _ _ (ioq_store_passes m q byte hi) fun _ => trivial)
    · rfl
  | thread_start t prio =>
    simp only [step]
    split
    · next hnow =>
      have hready : t ∉ m.sched.thread_ready_list := fun hr => hnow.2.2 ((hi.queue.ready_iff t).mp hr).1
      rw [thread_start_own m t prio (reach_sound log m h).pid hnow.1 hready hnow.2.2]
      trivial
    · rfl

def startOne : List Act := [.thread_start 1 31, .call .intr_enable, .keyboard 0 0x61, .timer]

end OsLearn
