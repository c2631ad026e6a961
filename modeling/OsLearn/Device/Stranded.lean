import OsLearn.Thread.Ownership
import OsLearn.Thread.Transparent

/-!
# Waiting in an ioqueue

A task that has to wait takes `ioq->lock` and puts itself into the slot of the queue. The lock stays
with the first task that waited, so a second one that has to wait does so for ever.
-/

open OsLearn.Queues

namespace OsLearn

/-! ## Stranded tasks -/

def insideGet (q : Nat) (st : List Frame) : Bool :=
  st.any fun f => match f with
    | .ioq_getchar p _ => p == q
    | _ => false

def insidePut (q : Nat) (st : List Frame) : Bool :=
  st.any fun f => match f with
    | .ioq_putchar p _ _ => p == q
    | _ => false

/-- A task that could still do something is in a call on the queue. -/
def Attended (q : Nat) (m : Machine) : Prop :=
  ∃ t ∈ m.sched.thread_all_list,
    ((m.sched.task t).status = .TASK_RUNNING ∨ (m.sched.task t).status = .TASK_READY) ∧
    (insideGet q (m.stack t) = true ∨ insidePut q (m.stack t) = true)

/-- A task is blocked in `ioq_getchar`, in the slot or at the lock, with bytes in the queue and
nobody about it. -/
def StrandedGet (q : Nat) (m : Machine) : Prop :=
  (∃ t ∈ m.sched.thread_all_list, t ∈ heldBy m (.consumer q) ∨
    (t ∈ heldBy m (.waiters (.lock (.ioq q))) ∧ insideGet q (m.stack t) = true)) ∧
  ioq_empty (m.ioq q) = false ∧ ¬ Attended q m

/-- The same for `ioq_putchar` and a queue with room. -/
def StrandedPut (q : Nat) (m : Machine) : Prop :=
  (∃ t ∈ m.sched.thread_all_list, t ∈ heldBy m (.producer q) ∨
    (t ∈ heldBy m (.waiters (.lock (.ioq q))) ∧ insidePut q (m.stack t) = true)) ∧
  ioq_full (m.ioq q) = false ∧ ¬ Attended q m

instance (q : Nat) (m : Machine) : Decidable (Attended q m) := inferInstanceAs (Decidable (∃ _ ∈ _, _ ∧ _))

instance (q : Nat) (m : Machine) : Decidable (StrandedGet q m) := inferInstanceAs (Decidable ((∃ _ ∈ _, _) ∧ _ ∧ _))

/-- A task that has to wait in the queue finds the lock free, or its own. -/
def LockFree (q : Nat) (_ : List Event) (m : Machine) (a : Act) : Prop :=
  a = .run ∧ (m.stack m.cur).head? = some (.lock_acquire (.ioq q) .entry) →
    (m.lock (.ioq q)).holder = some m.cur ∨ (m.sema (.lock (.ioq q))).value = 1

instance (q : Nat) (log : List Event) (m : Machine) (a : Act) : Decidable (LockFree q log m a) :=
  inferInstanceAs (Decidable (_ ∧ _ → _ ∨ _))

/-! ## The invariant -/

/-- The frame of a task that has seen the queue empty, or full, and goes to wait. -/
def isWait (q : Nat) : Frame → Bool
  | .ioq_getchar p .wait => p == q
  | .ioq_putchar p _ .wait => p == q
  | _ => false

def waiting (q : Nat) (st : List Frame) : Bool := st.any (isWait q)

/-- The frame and the test that sent the task to wait. -/
inductive WaitFrame (q : Nat) : Frame → (IoQueue → Bool) → Prop
  | get : WaitFrame q (.ioq_getchar q .wait) ioq_empty
  | put (byte : UInt8) : WaitFrame q (.ioq_putchar q byte .wait) ioq_full

/-- How far the running task is on its way to the slot. -/
inductive Going (q : Nat) (w : Frame) (m : Machine) : Prop
  | acquire (pc : AcquirePc) : m.stack m.cur = [.lock_acquire (.ioq q) pc, w] → Going q w m
  | down : m.stack m.cur = [.sema_down (.lock (.ioq q)) none, .lock_acquire (.ioq q) .taken, w] →
      (m.sema (.lock (.ioq q))).value = 1 → Going q w m
  | wait : m.stack m.cur = [w] → Going q w m

/-- The running task goes to wait, and its test still holds. -/
def Entering (q : Nat) (m : Machine) : Prop :=
  ∃ w cond, WaitFrame q w cond ∧ Going q w m ∧ m.sched.intr = false ∧ cond (m.ioq q) = true

/-- A slot is taken only in a queue that is empty, or full. -/
structure Slots (ioq : IoQueue) : Prop where
  consumer : ioq.consumer ≠ none → ioq_empty ioq = true
  producer : ioq.producer ≠ none → ioq_full ioq = true

structure SlotInv (q : Nat) (m : Machine) : Prop where
  waiters : (m.sema (.lock (.ioq q))).waiters = []
  slots : Slots (m.ioq q)
  others : ∀ t, t ≠ m.cur → waiting q (m.stack t) = false
  cur : waiting q (m.stack m.cur) = false ∨ Entering q m

theorem slotInv_calm (q : Nat) (m : Machine) (hw : (m.sema (.lock (.ioq q))).waiters = [])
    (hs : Slots (m.ioq q)) (h : ∀ t, waiting q (m.stack t) = false) : SlotInv q m :=
  ⟨hw, hs, fun t _ => h t, .inl (h m.cur)⟩

/-! ## The parts of a move -/

/-- A task joins the waiters of a lock in `sema_down`, and leaves them in the `sema_up` of `lock_release`. -/
theorem moves_waiters (l : LockRef) (m m' : Machine) (a : Act) (evs : List Event) (hc : Calls m)
    (hl : l ≠ .pid_lock) (hmv : Moves m a m' evs) :
    (m'.sema (.lock l)).waiters = (m.sema (.lock l)).waiters ∨
    (∃ o rest, m.stack m.cur = .sema_down (.lock l) o :: rest ∧ (m.sema (.lock l)).value = 0 ∧
      (m'.sema (.lock l)).waiters = (m.sema (.lock l)).waiters ++ [m.cur]) ∨
    ∃ rest, m.stack m.cur = .lock_release l .up :: rest ∧
      (m'.sema (.lock l)).waiters = (m.sema (.lock l)).waiters.tail := by
  have hother (s : SemRef) (v : Semaphore) (h : s ≠ .lock l) :
      ((m.setSema s v).sema (.lock l)).waiters = (m.sema (.lock l)).waiters := by
    simp [Machine.setSema, Ne.symm h]
  have hup (s : SemRef) (rest : List Frame) (hst : m.stack m.cur = .sema_up s :: rest) : s ≠ .lock l := by
    obtain ⟨i, rfl⟩ := up_sema s rest (hst ▸ hc.shape m.cur)
    simp
  cases hmv with
  | call c => cases c <;> exact .inl rfl
  | down_wait s o rest next tl hst hz _ =>
    rw [show (((atLoop m o).1.setSema s _).switchOut _ next tl).sema = _ from atLoop_setSema m o s _]
    by_cases hs : s = .lock l
    · subst hs
      exact .inr (.inl ⟨o, rest, hst, hz, by simp [Machine.setSema]⟩)
    · exact .inl (hother s _ hs)
  | down_take s o rest hst _ =>
    refine .inl ?_
    by_cases hs : s = .lock l
    · subst hs
      simp [Machine.setSema, Machine.setIntr, Machine.setStack]
    · exact hother s _ hs
  | up_none s rest hst _ _ => exact .inl (hother s _ (hup s rest hst))
  | up_wake s rest t ts hst _ _ => exact .inl (hother s _ (hup s rest hst))
  | release_up_none l' rest hst _ hw =>
    by_cases hs : l' = l
    · subst hs
      exact .inr (.inr ⟨rest, hst, by simp [Machine.setSema, Machine.setStack, hw]⟩)
    · exact .inl (hother (.lock l') _ (by simpa using hs))
  | release_up_wake l' rest t ts hst _ hw =>
    by_cases hs : l' = l
    · subst hs
      exact .inr (.inr ⟨rest, hst, by simp [Machine.setSema, Machine.setStack, Machine.woken, hw]⟩)
    · exact .inl (hother (.lock l') _ (by simpa using hs))
  | create t prio lock sem _ _ _ _ => exact .inl (hother (.lock .pid_lock) sem (by simpa using Ne.symm hl))
  | _ => exact .inl rfl

theorem slots_none (ioq : IoQueue) (hc : ioq.consumer = none) (hp : ioq.producer = none) : Slots ioq :=
  ⟨fun h => absurd hc h, fun h => absurd hp h⟩

theorem slots_consumer (ioq : IoQueue) (h : Slots ioq) (he : ioq_empty ioq = false) : ioq.consumer = none := by
  by_contra hc
  simp [h.consumer hc] at he

theorem slots_producer (ioq : IoQueue) (h : Slots ioq) (hf : ioq_full ioq = false) : ioq.producer = none := by
  by_contra hp
  simp [h.producer hp] at hf

theorem moves_slots (q : Nat) (m m' : Machine) (a : Act) (evs : List Event) (h : Slots (m.ioq q))
    (hget : ∀ rest, m.stack m.cur = .ioq_getchar q .wait :: rest → ioq_empty (m.ioq q) = true)
    (hput : ∀ byte rest, m.stack m.cur = .ioq_putchar q byte .wait :: rest → ioq_full (m.ioq q) = true)
    (hmv : Moves m a m' evs) : Slots (m'.ioq q) := by
  have hset (p : Nat) (v : IoQueue) (hv : p = q → Slots v) : Slots (Function.update m.ioq p v q) := by
    by_cases hp : p = q
    · subst hp
      simpa using hv rfl
    · simpa [Ne.symm hp] using h
  cases hmv with
  | call c => cases c <;> exact h
  | down_wait s o => cases o <;> exact h
  | get_take p rest hst _ he hp =>
    apply hset p
    rintro rfl
    exact slots_none _ (slots_consumer (m.ioq p) h he) hp
  | get_wake p rest t hst _ he hp =>
    apply hset p
    rintro rfl
    exact slots_none _ (slots_consumer (m.ioq p) h he) rfl
  | put_store p byte rest hst _ hf hc | key_store p byte _ hf hc =>
    apply hset p
    rintro rfl
    exact slots_none _ hc (slots_producer (m.ioq p) h hf)
  | put_wake p byte rest t hst _ hf hc | key_wake p byte t _ hf hc =>
    apply hset p
    rintro rfl
    exact slots_none _ rfl (slots_producer (m.ioq p) h hf)
  | get_wait p rest next tl hst hn _ =>
    apply hset p
    rintro rfl
    exact ⟨fun _ => hget rest hst, h.producer⟩
  | put_wait p byte rest next tl hst hn _ =>
    apply hset p
    rintro rfl
    exact ⟨h.consumer, fun _ => hput byte rest hst⟩
  | _ => exact h

theorem waiting_cons (q : Nat) (f : Frame) (st : List Frame) (h : waiting q (f :: st) = false) :
    isWait q f = false ∧ waiting q st = false := by
  simpa [waiting] using h

/-- The calls of the others, as far as they wait, are the ones they had. -/
theorem moves_waiting (q : Nat) (m m' : Machine) (a : Act) (evs : List Event) (hi : QueueInv m) (hc : Calls m)
    (hmv : Moves m a m' evs) (t : Tid) (ht : t ≠ m.cur) (hw : waiting q (m'.stack t) = true) :
    m'.stack t = m.stack t := by
  by_cases ha : t ∈ m.sched.thread_all_list
  · exact moves_other m m' a evs hmv t ha ht
  · have hnone : m'.stack t = [] ∨ m'.stack t = [.kernel_thread] := by
      by_cases ha' : t ∈ m'.sched.thread_all_list
      · exact .inr ((moves_all m m' a evs hmv t ha').resolve_left ha)
      · exact .inl ((moves_calls m m' a evs hi hc hmv).new t ha')
    rcases hnone with h | h <;> simp [h, waiting, isWait] at hw

/-- A task that does not go to wait can only make the first step of the way. -/
theorem moves_calm (q : Nat) (m m' : Machine) (a : Act) (evs : List Event) (hi : QueueInv m) (hc : Calls m)
    (hcalm : waiting q (m.stack m.cur) = false) (hmv : Moves m a m' evs) :
    waiting q (m'.stack m.cur) = false ∨ Entering q m' ∧ m'.cur = m.cur := by
  have hset (st : List Frame) (h : waiting q st = false) :
      waiting q (Function.update m.stack m.cur st m.cur) = false := by
    rwa [Function.update_self]
  have hrest (f : Frame) (rest : List Frame) (hst : m.stack m.cur = f :: rest) : waiting q rest = false :=
    (waiting_cons q f rest (hst ▸ hcalm)).2
  cases hmv with
  | call c =>
    cases c with
    | intr_enable => exact .inl hcalm
    | intr_disable => exact .inl hcalm
    | _ => exact .inl (hset _ rfl)
  | down_wait s o rest next tl hst _ _ =>
    have hw := hrest _ _ hst
    cases o <;> exact .inl (hset _ hw)
  | get_empty p rest hst hi he =>
    by_cases hp : p = q
    · subst hp
      obtain rfl := get_rest p _ rest (hst ▸ hc.shape m.cur)
      exact .inr ⟨⟨_, _, .get, .acquire .entry (Function.update_self m.cur _ m.stack), hi, he⟩, rfl⟩
    · refine .inl (hset _ ?_)
      have := hrest _ _ hst
      simp_all [waiting, isWait]
  | put_full p byte rest hst hi hf =>
    by_cases hp : p = q
    · subst hp
      obtain rfl := put_rest p byte _ rest (hst ▸ hc.shape m.cur)
      exact .inr ⟨⟨_, _, .put byte, .acquire .entry (Function.update_self m.cur _ m.stack), hi, hf⟩, rfl⟩
    · refine .inl (hset _ ?_)
      have := hrest _ _ hst
      simp_all [waiting, isWait]
  | tick | key_drop | key_store | key_wake => exact .inl hcalm
  | preempt next rest => exact .inl (hset _ hcalm)
  | create t prio lock sem _ _ hnew _ =>
    have hne : m.cur ≠ t := by
      rintro rfl
      exact hnew hi.queue.cur_mem
    have hst : ((m.takePid lock sem).addTask t prio (m.sched.next_pid + 1)).stack m.cur = m.stack m.cur :=
      Function.update_of_ne hne _ _
    rw [hst]
    exact .inl hcalm
  | down_take s o rest hst | up_none s rest hst | up_wake s rest _ _ hst | acquire_own l rest hst
  | acquire_down l rest hst | acquire_again l rest hst | acquire_taken l rest hst | acquire_check l rest hst
  | acquire_first l rest hst | release_entry l rest hst | release_more l rest hst | release_zero l rest hst
  | release_again l rest hst | release_last l rest hst | release_clear l rest hst | release_reset l rest hst
  | release_up_none l rest hst | release_up_wake l rest _ _ hst | block_end old rest hst
  | get_take p rest hst | get_wake p rest _ hst | get_wait p rest _ _ hst | get_release p rest hst
  | put_store p byte rest hst | put_wake p byte rest _ hst | put_wait p byte rest _ _ hst
  | put_release p byte rest hst | thread_entry rest hst | timer_end rest hst =>
    have hw := hrest _ _ hst
    exact .inl (hset _ hw)

/-- The frames that a task on its way to the slot runs. -/
def isGoing (q : Nat) : Frame → Bool
  | .lock_acquire l _ => l == .ioq q
  | .sema_down s none => s == .lock (.ioq q)
  | f => isWait q f

theorem entering_top (q : Nat) (m : Machine) (h : Entering q m) (f : Frame) (rest : List Frame)
    (hst : m.stack m.cur = f :: rest) : isGoing q f = true := by
  obtain ⟨w, cond, hw, hg, -, -⟩ := h
  cases hg with
  | acquire pc h =>
    rw [h] at hst
    cases hst
    simp [isGoing]
  | down h _ =>
    rw [h] at hst
    cases hst
    simp [isGoing]
  | wait h =>
    rw [h] at hst
    cases hst
    cases hw <;> simp [isGoing, isWait]

/-- The rest of the way, for a task at a piece of `lock_acquire`. -/
theorem entering_acquire (q : Nat) (m : Machine) (h : Entering q m) (l : LockRef) (pc : AcquirePc)
    (rest : List Frame) (hst : m.stack m.cur = .lock_acquire l pc :: rest) :
    l = .ioq q ∧ ∃ w cond, WaitFrame q w cond ∧ rest = [w] ∧ m.sched.intr = false ∧ cond (m.ioq q) = true := by
  obtain ⟨w, cond, hw, hg, hi, hcond⟩ := h
  cases hg with
  | acquire pc h =>
    rw [h] at hst
    cases hst
    exact ⟨rfl, w, cond, hw, rfl, hi, hcond⟩
  | down h _ =>
    rw [h] at hst
    cases hst
  | wait h =>
    rw [h] at hst
    cases hst
    cases hw

theorem entering_down (q : Nat) (m : Machine) (h : Entering q m) (s : SemRef) (o : Option Bool)
    (rest : List Frame) (hst : m.stack m.cur = .sema_down s o :: rest) :
    s = .lock (.ioq q) ∧ o = none ∧ (m.sema s).value = 1 ∧ ∃ w cond, WaitFrame q w cond ∧
      rest = [.lock_acquire (.ioq q) .taken, w] ∧ m.sched.intr = false ∧ cond (m.ioq q) = true := by
  obtain ⟨w, cond, hw, hg, hi, hcond⟩ := h
  cases hg with
  | acquire pc h =>
    rw [h] at hst
    cases hst
  | down h hv =>
    rw [h] at hst
    cases hst
    exact ⟨rfl, rfl, hv, w, cond, hw, rfl, hi, hcond⟩
  | wait h =>
    rw [h] at hst
    cases hst
    cases hw

theorem entering_wait (q : Nat) (m : Machine) (h : Entering q m) (w : Frame) (cond : IoQueue → Bool)
    (hw : WaitFrame q w cond) (rest : List Frame) (hst : m.stack m.cur = w :: rest) :
    cond (m.ioq q) = true := by
  obtain ⟨w', cond', hw', hg, -, hcond⟩ := h
  cases hg with
  | acquire pc h =>
    rw [h] at hst
    cases hw <;> cases hst
  | down h hv =>
    rw [h] at hst
    cases hw <;> cases hst
  | wait h =>
    rw [h] at hst
    cases hst
    cases hw <;> cases hw' <;> exact hcond

/-- The running task goes to wait, and blocks at the lock first. -/
def Barred (q : Nat) (m : Machine) : Prop :=
  ∃ w cond, WaitFrame q w cond ∧ m.sched.intr = false ∧ (m.sema (.lock (.ioq q))).value ≠ 1 ∧
    m.stack m.cur = [.sema_down (.lock (.ioq q)) none, .lock_acquire (.ioq q) .taken, w]

/-- A task on its way to the slot goes on, or is in the slot, or it finds the lock taken. -/
theorem moves_entering (q : Nat) (log : List Event) (m m' : Machine) (a : Act) (evs : List Event)
    (hent : Entering q m) (hmv : Moves m a m' evs) :
    waiting q (m'.stack m.cur) = false ∨ Entering q m' ∧ m'.cur = m.cur ∨
      ¬ LockFree q log m a ∧ Barred q m' ∧ m'.cur = m.cur := by
  have htop := entering_top q m hent
  have hi : m.sched.intr = false := by
    obtain ⟨_, _, _, _, hi, _⟩ := hent
    exact hi
  have hne : m.stack m.cur ≠ [] := by
    obtain ⟨_, _, _, hg, _, _⟩ := hent
    cases hg with
    | acquire pc h | down h _ | wait h =>
      rw [h]
      exact List.cons_ne_nil _ _
  have hgo (m' : Machine) (st : List Frame) (hst : m'.stack = Function.update m.stack m.cur st)
      (hcur : m'.cur = m.cur) : m'.stack m'.cur = st := by
    rw [hcur, hst, Function.update_self]
  cases hmv with
  | down_wait s o rest next tl hst hz _ =>
    obtain ⟨-, -, hv, -⟩ := entering_down q m hent s o rest hst
    rw [hz] at hv
    exact absurd hv (by decide)
  | down_take s o rest hst _ =>
    obtain ⟨rfl, rfl, -, w, cond, hw, rfl, hi, hcond⟩ := entering_down q m hent s o rest hst
    exact .inr (.inl ⟨⟨w, cond, hw, .acquire .taken (hgo _ _ rfl rfl), hi, hcond⟩, rfl⟩)
  | acquire_own l rest hst _ =>
    obtain ⟨rfl, w, cond, hw, rfl, hi, hcond⟩ := entering_acquire q m hent l _ rest hst
    exact .inr (.inl ⟨⟨w, cond, hw, .acquire .again (hgo _ _ rfl rfl), hi, hcond⟩, rfl⟩)
  | acquire_down l rest hst hh =>
    obtain ⟨rfl, w, cond, hw, rfl, hi, hcond⟩ := entering_acquire q m hent l _ rest hst
    by_cases hv : (m.sema (.lock (.ioq q))).value = 1
    · exact .inr (.inl ⟨⟨w, cond, hw, .down (hgo _ _ rfl rfl) hv, hi, hcond⟩, rfl⟩)
    · refine .inr (.inr ⟨fun hok => ?_, ⟨w, cond, hw, hi, hv, hgo _ _ rfl rfl⟩, rfl⟩)
      exact (hok ⟨rfl, by simp [hst]⟩).elim hh hv
  | acquire_again l rest hst | acquire_first l rest hst =>
    obtain ⟨rfl, w, cond, hw, rfl, hi, hcond⟩ := entering_acquire q m hent l _ rest hst
    exact .inr (.inl ⟨⟨w, cond, hw, .wait (hgo _ _ rfl rfl), hi, hcond⟩, rfl⟩)
  | acquire_taken l rest hst =>
    obtain ⟨rfl, w, cond, hw, rfl, hi, hcond⟩ := entering_acquire q m hent l _ rest hst
    exact .inr (.inl ⟨⟨w, cond, hw, .acquire .check (hgo _ _ rfl rfl), hi, hcond⟩, rfl⟩)
  | acquire_check l rest hst _ =>
    obtain ⟨rfl, w, cond, hw, rfl, hi, hcond⟩ := entering_acquire q m hent l _ rest hst
    exact .inr (.inl ⟨⟨w, cond, hw, .acquire .first (hgo _ _ rfl rfl), hi, hcond⟩, rfl⟩)
  | get_wait p rest next tl hst _ _ | put_wait p byte rest next tl hst _ _ =>
    have hrest : waiting q rest = false := by
      obtain ⟨w, cond, hw, hg, -, -⟩ := hent
      cases hg with
      | acquire pc h | down h _ =>
        rw [h] at hst
        cases hst
      | wait h =>
        rw [h] at hst
        cases hst
        rfl
    refine .inl ?_
    simpa [Machine.switchOut, Machine.setIoq, Machine.cur, waiting, isWait] using hrest
  | call c h => exact absurd h hne
  | create t prio lock sem _ h _ _ => exact absurd h hne
  | tick h _ | preempt _ _ h _ _ | key_drop _ _ h _ | key_store _ _ h _ _ | key_wake _ _ _ h _ _ =>
    rw [hi] at h
    cases h
  | up_none s rest hst | up_wake s rest _ _ hst | release_entry l rest hst | release_more l rest hst
  | release_zero l rest hst | release_again l rest hst | release_last l rest hst | release_clear l rest hst
  | release_reset l rest hst | release_up_none l rest hst | release_up_wake l rest _ _ hst
  | block_end old rest hst | get_empty p rest hst | get_take p rest hst | get_wake p rest _ hst
  | get_release p rest hst | put_full p byte rest hst | put_store p byte rest hst | put_wake p byte rest _ hst
  | put_release p byte rest hst | thread_entry rest hst | timer_end rest hst => cases htop _ _ hst

/-- A task that is about to enter `ioq_wait` has not lost what it tested. -/
theorem wait_cond (q : Nat) (m : Machine) (h : waiting q (m.stack m.cur) = false ∨ Entering q m ∨ Barred q m)
    (w : Frame) (cond : IoQueue → Bool) (hw : WaitFrame q w cond) (rest : List Frame)
    (hst : m.stack m.cur = w :: rest) : cond (m.ioq q) = true := by
  rcases h with hcalm | hent | ⟨w', _, _, _, _, hst'⟩
  · rw [hst] at hcalm
    cases hw <;> simp [waiting, isWait] at hcalm
  · exact entering_wait q m hent w cond hw rest hst
  · rw [hst'] at hst
    cases hw <;> cases hst

theorem moves_slotInv (q : Nat) (log : List Event) (m m' : Machine) (a : Act) (evs : List Event)
    (hi : QueueInv m) (hc : Calls m) (h : SlotInv q m) (hok : LockFree q log m a) (hmv : Moves m a m' evs) :
    SlotInv q m' := by
  have hdown (o : Option Bool) (rest : List Frame) (hst : m.stack m.cur = .sema_down (.lock (.ioq q)) o :: rest) :
      (m.sema (.lock (.ioq q))).value ≠ 0 := by
    rcases h.cur with hcalm | hent
    · have hs := hc.shape m.cur
      rw [hst] at hs hcalm
      cases hs with
      | lock_down _ _ rest hr => cases hr <;> simp [waiting, isWait] at hcalm
    · rw [(entering_down q m hent _ o rest hst).2.2.1]
      decide
  have hcond (w : Frame) (cond : IoQueue → Bool) (hw : WaitFrame q w cond) (rest : List Frame)
      (hst : m.stack m.cur = w :: rest) : cond (m.ioq q) = true :=
    wait_cond q m (h.cur.imp id .inl) w cond hw rest hst
  have hw : (m'.sema (.lock (.ioq q))).waiters = [] := by
    rcases moves_waiters (.ioq q) m m' a evs hc (by simp) hmv with hw | ⟨o, rest, hst, hz, -⟩ | ⟨-, -, hw⟩
    · rw [hw, h.waiters]
    · exact absurd hz (hdown o rest hst)
    · rw [hw, h.waiters]
      rfl
  have hs := moves_slots q m m' a evs h.slots (hcond _ _ .get) (fun byte => hcond _ _ (.put byte)) hmv
  have hothers (t : Tid) (ht : t ≠ m.cur) : waiting q (m'.stack t) = false := by
    by_contra hw
    rw [Bool.not_eq_false] at hw
    rw [moves_waiting q m m' a evs hi hc hmv t ht hw, h.others t ht] at hw
    cases hw
  have hnext : waiting q (m'.stack m.cur) = false ∨ Entering q m' ∧ m'.cur = m.cur := by
    rcases h.cur with hcalm | hent
    · exact moves_calm q m m' a evs hi hc hcalm hmv
    · rcases moves_entering q log m m' a evs hent hmv with hcalm | hent | ⟨hbad, -⟩
      · exact .inl hcalm
      · exact .inr hent
      · exact absurd hok hbad
  rcases hnext with hcalm | ⟨hent, hcur⟩
  · refine slotInv_calm q m' hw hs fun t => ?_
    by_cases ht : t = m.cur
    · rw [ht]
      exact hcalm
    · exact hothers t ht
  · exact ⟨hw, hs, fun t ht => hothers t (hcur ▸ ht), .inr hent⟩

theorem reach_slotInv (q : Nat) (log : List Event) (m : Machine) (h : Run.Reach kernel (LockFree q) log m) :
    SlotInv q m := by
  suffices SlotInv q m ∧ Calls m from this.1
  refine reach_moves (LockFree q) (fun _ m => SlotInv q m ∧ Calls m) ?_ ?_ log m h
  · intro main intr task value buf
    have hslots : Slots (ioqueue_init (buf q)) := slots_none _ rfl rfl
    exact ⟨slotInv_calm q _ (started_waiters main intr task value buf _) hslots fun _ => rfl,
      fun _ => .idle, fun _ _ => rfl⟩
  · intro log m a m' evs hi ⟨hs, hc⟩ hok hmv
    exact ⟨moves_slotInv q log m m' a evs hi hc hs hok hmv, moves_calls m m' a evs hi hc hmv⟩

/-- **No stranded task.** In a run where every task that has to wait in the queue finds the lock free,
or its own, no task is left blocked in a queue that has what it waits for. -/
theorem ioqueue_not_stranded (q : Nat) (log : List Event) (m : Machine)
    (h : Run.Reach kernel (LockFree q) log m) : ¬ StrandedGet q m ∧ ¬ StrandedPut q m := by
  have hi := reach_slotInv q log m h
  constructor
  · rintro ⟨⟨t, -, ht | ⟨ht, -⟩⟩, he, -⟩
    · have := slots_consumer _ hi.slots he
      simp [heldBy, this] at ht
    · simp [heldBy, hi.waiters] at ht
  · rintro ⟨⟨t, -, ht | ⟨ht, -⟩⟩, hf, -⟩
    · have := slots_producer _ hi.slots hf
      simp [heldBy, this] at ht
    · simp [heldBy, hi.waiters] at ht

/-- The main thread starts three more and blocks. The first of them waits for a byte. -/
def oneWaits : List Act :=
  [.thread_start 1 31, .thread_start 2 31, .thread_start 3 31, .call (.sema_down 0), .run, .call (.sema_down 0), .run,
    .run, .call .intr_disable, .call (.ioq_getchar 0), .run, .run, .run, .run, .run, .run, .run]

def oneServed : List Act :=
  [.keyboard 0 7, .call (.sema_down 0), .run, .run, .run, .run, .run, .run, .run]

theorem ioqueue_not_stranded_served : ∃ log m,
    Run.play kernel (LockFree 0) [] zeroed (oneWaits ++ [.run] ++ oneServed) = some (log, m) ∧
    Event.got 0 7 ∈ log ∧ ¬ StrandedGet 0 m := by
  have h : (Run.play kernel (LockFree 0) [] zeroed (oneWaits ++ [.run] ++ oneServed)).map
      (fun r => decide (Event.got 0 7 ∈ r.1)) = some true := by decide +kernel
  obtain ⟨⟨log, m⟩, hp, hg⟩ := Option.map_eq_some_iff.mp h
  exact ⟨log, m, hp, of_decide_eq_true hg, (ioqueue_not_stranded 0 log m (reach_zeroed _ _ log m hp)).1⟩

/-- A second thread has to wait and blocks on the lock. The first one is served, and then there is a
byte that nobody comes for. -/
def secondStranded : List Act :=
  oneWaits ++ [.run, .call .intr_disable, .call (.ioq_getchar 0), .run, .run, .run, .run] ++ oneServed ++
    [.call .intr_enable, .keyboard 0 8]

theorem ioqueue_stranded : ¬ ∀ log m, Run.Reach kernel Run.anyStep log m → ¬ StrandedGet 0 m ∧ ¬ StrandedPut 0 m := by
  intro hall
  have h : (Run.play kernel Run.anyStep [] zeroed secondStranded).map (fun r => decide (StrandedGet 0 r.2)) =
      some true := by decide +kernel
  obtain ⟨⟨log, m⟩, hp, hs⟩ := Option.map_eq_some_iff.mp h
  exact (hall log m (reach_zeroed Run.anyStep _ log m hp)).1 (of_decide_eq_true hs)

end OsLearn
