import OsLearn.Thread.Calls

/-!
# One semaphore, and the tasks that it has woken

`sema_up` does not hand its unit to the task that it wakes: the task tests the value again when it
runs, and another one may have been faster. `SemaView` is one semaphore with the tasks that wait in
its loop, and every move of the machine is one `SemaStep` of the running task.
-/

open OsLearn.Queues

namespace OsLearn

/-! ## Where a blocked task goes on -/

/-- The waker that the code of a task has put it on: the task is in the call and has not gone on in it. -/
def waitsOn : List Frame → Option Waker
  | .thread_block _ :: rest => waitsOn rest
  | .intr_exit :: rest => waitsOn rest
  | .sema_down s (some _) :: _ => some (.waiters s)
  | .ioq_getchar q .release :: _ => some (.consumer q)
  | .ioq_putchar q _ .release :: _ => some (.producer q)
  | _ => none

/-- A task that a waker holds is in the call that put it there. -/
def HeldWaits (m : Machine) : Prop := ∀ w t, t ∈ heldBy m w → waitsOn (m.stack t) = some w

/-- The running task may have put itself on a waker, and the others are where they were. -/
theorem heldWaits_of (m m' : Machine) (hi : QueueInv m) (h : HeldWaits m)
    (hst : ∀ t ∈ m.sched.thread_all_list, t ≠ m.cur → m'.stack t = m.stack t)
    (hheld : ∀ w t, t ∈ heldBy m' w → t ∈ heldBy m w ∨ t = m.cur ∧ waitsOn (m'.stack m.cur) = some w) :
    HeldWaits m' := by
  intro w t ht
  rcases hheld w t ht with hw | ⟨rfl, hw⟩
  · have hne : t ≠ m.cur := by
      rintro rfl
      exact cur_not_held m hi w hw
    rw [hst t (hi.queue.held_blocked w t hw).1 hne]
    exact h w t hw
  · exact hw

theorem update_other (m : Machine) (st : List Frame) (t : Tid) (h : t ≠ m.cur) :
    Function.update m.stack m.cur st t = m.stack t := Function.update_of_ne h _ _

theorem held_setSema_sub (m : Machine) (s : SemRef) (v : Semaphore) (hv : ∀ t ∈ v.waiters, t ∈ (m.sema s).waiters)
    (w : Waker) (t : Tid) (ht : t ∈ heldBy (m.setSema s v) w) : t ∈ heldBy m w := by
  rw [held_setSema] at ht
  by_cases hw : w = .waiters s
  · subst hw
    rw [Function.update_self] at ht
    exact hv t ht
  · rwa [Function.update_of_ne hw] at ht

theorem held_setIoq_sub (m : Machine) (q : Nat) (v : IoQueue)
    (hp : v.producer = (m.ioq q).producer ∨ v.producer = none)
    (hc : v.consumer = (m.ioq q).consumer ∨ v.consumer = none)
    (w : Waker) (t : Tid) (ht : t ∈ heldBy (m.setIoq q v) w) : t ∈ heldBy m w := by
  rw [held_setIoq] at ht
  by_cases hw : w = .consumer q
  · subst hw
    rw [Function.update_self] at ht
    rcases hc with hc | hc
    · rwa [hc] at ht
    · simp [hc] at ht
  · rw [Function.update_of_ne hw] at ht
    by_cases hw : w = .producer q
    · subst hw
      rw [Function.update_self] at ht
      rcases hp with hp | hp
      · rwa [hp] at ht
      · simp [hp] at ht
    · rwa [Function.update_of_ne hw] at ht

theorem held_waiters_wait (m : Machine) (s : SemRef) (w : Waker) (t : Tid)
    (ht : t ∈ heldBy (m.setSema s { m.sema s with waiters := (m.sema s).waiters ++ [m.cur] }) w) :
    t ∈ heldBy m w ∨ t = m.cur ∧ w = .waiters s := by
  rw [held_setSema] at ht
  by_cases hw : w = .waiters s
  · subst hw
    rw [Function.update_self, List.mem_append, List.mem_singleton] at ht
    exact ht.imp id fun hc => ⟨hc, rfl⟩
  · rw [Function.update_of_ne hw] at ht
    exact .inl ht

theorem held_consumer_wait (m : Machine) (q : Nat) (w : Waker) (t : Tid)
    (ht : t ∈ heldBy (m.setIoq q { m.ioq q with consumer := some m.cur }) w) :
    t ∈ heldBy m w ∨ t = m.cur ∧ w = .consumer q := by
  rw [held_setIoq] at ht
  have hp : Function.update (heldBy m) (.producer q) (m.ioq q).producer.toList = heldBy m :=
    Function.update_eq_self (Waker.producer q) (heldBy m)
  by_cases hw : w = .consumer q
  · subst hw
    rw [Function.update_self] at ht
    exact .inr ⟨by simpa using ht, rfl⟩
  · rw [Function.update_of_ne hw] at ht
    exact .inl (by rwa [hp] at ht)

theorem held_producer_wait (m : Machine) (q : Nat) (w : Waker) (t : Tid)
    (ht : t ∈ heldBy (m.setIoq q { m.ioq q with producer := some m.cur }) w) :
    t ∈ heldBy m w ∨ t = m.cur ∧ w = .producer q := by
  rw [held_setIoq] at ht
  by_cases hw : w = .producer q
  · subst hw
    rw [Function.update_of_ne (by simp), Function.update_self] at ht
    exact .inr ⟨by simpa using ht, rfl⟩
  · left
    by_cases hw' : w = .consumer q
    · subst hw'
      rw [Function.update_self] at ht
      exact ht
    · rwa [Function.update_of_ne hw', Function.update_of_ne hw] at ht

theorem moves_heldWaits (m m' : Machine) (a : Act) (evs : List Event) (hi : QueueInv m) (h : HeldWaits m)
    (hmv : Moves m a m' evs) : HeldWaits m' := by
  have hsame (st : List Frame) (m'' : Machine) (hst : m''.stack = Function.update m.stack m.cur st)
      (hheld : ∀ w t, t ∈ heldBy m'' w → t ∈ heldBy m w) : HeldWaits m'' := by
    refine heldWaits_of m m'' hi h (fun t _ hne => ?_) (fun w t ht => .inl (hheld w t ht))
    rw [hst]
    exact update_other m st t hne
  cases hmv with
  | call c hst =>
    cases c with
    | intr_enable | intr_disable => exact h
    | _ => exact hsame _ _ rfl fun _ _ ht => ht
  | down_wait s o rest next tl hst _ _ =>
    refine heldWaits_of m _ hi h (fun t _ hne => ?_) (fun w t ht => ?_)
    · cases o <;> exact update_other m _ t hne
    · refine (held_waiters_wait m s w t (by cases o <;> exact ht)).imp id ?_
      rintro ⟨rfl, rfl⟩
      refine ⟨rfl, ?_⟩
      cases o <;> simp [Machine.switchOut, Machine.setSema, Machine.cur, atLoop, Machine.setIntr, waitsOn]
  | down_take s o rest hst _ =>
    exact hsame rest _ rfl (held_setSema_sub m s { m.sema s with value := 0 } fun _ ht => ht)
  | up_none s rest hst _ hw => exact hsame rest _ rfl (held_setSema_sub m s _ (by simp))
  | up_wake s rest t ts hst _ hw =>
    exact hsame rest _ rfl (held_setSema_sub m s _ fun u hu => hw ▸ List.mem_cons_of_mem t hu)
  | release_up_none l rest hst _ hw => exact hsame rest _ rfl (held_setSema_sub m _ _ (by simp))
  | release_up_wake l rest t ts hst _ hw =>
    exact hsame rest _ rfl (held_setSema_sub m _ _ fun u hu => hw ▸ List.mem_cons_of_mem t hu)
  | get_take q rest hst _ _ _ =>
    exact hsame rest _ rfl (held_setIoq_sub m q (m.ioq q).taken (.inl rfl) (.inl rfl))
  | get_wake q rest t hst _ _ _ => exact hsame rest _ rfl (held_setIoq_sub m q _ (.inr rfl) (.inl rfl))
  | put_store q byte rest hst _ _ _ =>
    exact hsame rest _ rfl (held_setIoq_sub m q ((m.ioq q).stored byte) (.inl rfl) (.inl rfl))
  | put_wake q byte rest t hst _ _ _ => exact hsame rest _ rfl (held_setIoq_sub m q _ (.inl rfl) (.inr rfl))
  | get_wait q rest next tl hst _ _ =>
    refine heldWaits_of m _ hi h (fun t _ hne => update_other m _ t hne) (fun w t ht => ?_)
    refine (held_consumer_wait m q w t ht).imp id ?_
    rintro ⟨rfl, rfl⟩
    exact ⟨rfl, by simp [Machine.switchOut, Machine.setIoq, Machine.cur, waitsOn]⟩
  | put_wait q byte rest next tl hst _ _ =>
    refine heldWaits_of m _ hi h (fun t _ hne => update_other m _ t hne) (fun w t ht => ?_)
    refine (held_producer_wait m q w t ht).imp id ?_
    rintro ⟨rfl, rfl⟩
    exact ⟨rfl, by simp [Machine.switchOut, Machine.setIoq, Machine.cur, waitsOn]⟩
  | tick | key_drop => exact h
  | key_store q byte =>
    exact fun w t ht => h w t (held_setIoq_sub m q ((m.ioq q).stored byte) (.inl rfl) (.inl rfl) w t ht)
  | key_wake q byte =>
    exact fun w t ht => h w t
      (held_setIoq_sub m q { (m.ioq q).stored byte with consumer := none } (.inl rfl) (.inr rfl) w t ht)
  | create t prio lock sem _ _ hnew hsem =>
    refine heldWaits_of m _ hi h (fun u hu _ => ?_) (fun w u hu => .inl ?_)
    · have hne : u ≠ t := by
        rintro rfl
        exact hnew hu
      exact Function.update_of_ne hne _ _
    · exact held_setSema_sub m (.lock .pid_lock) sem (fun _ ht => hsem ▸ ht) w u hu
  | _ => exact hsame _ _ rfl fun _ _ ht => ht

theorem reach_heldWaits (ok : List Event → Machine → Act → Prop) (log : List Event) (m : Machine)
    (h : Run.Reach kernel ok log m) : HeldWaits m := by
  refine reach_moves ok (fun _ => HeldWaits) ?_ ?_ log m h
  · intro main intr task value buf w t ht
    have := (started_inv main intr task value buf).queue.held_blocked w t ht
    cases w with
    | waiters s => simp [heldBy, started_waiters] at ht
    | producer q | consumer q => simp [heldBy, started, Machine.takePid, Machine.setSema, Machine.setLock, boot,
        ioqueue_init] at ht
  · intro log m a m' evs hi hw _ hmv
    exact moves_heldWaits m m' a evs hi hw hmv

/-- A task that is in a call that blocks, and not on the list of that call, can run. -/
theorem waits_runnable (m : Machine) (hi : QueueInv m) (h : HeldWaits m) (w : Waker) (t : Tid)
    (ha : t ∈ m.sched.thread_all_list) (hw : waitsOn (m.stack t) = some w) (hn : t ∉ heldBy m w) :
    (m.sched.task t).status = .TASK_READY ∨ (m.sched.task t).status = .TASK_RUNNING := by
  rcases hi.live t ha with hs | hs | hs
  · exact .inr hs
  · exact .inl hs
  · obtain ⟨w', hw'⟩ := hi.queue.blocked_held t ha (by simp [view, hs, modeOf])
    have := h w' t hw'
    rw [hw] at this
    cases this
    exact absurd hw' hn

/-! ## One semaphore -/

def downs (log : List Event) (s : SemRef) : Nat := log.countP fun e => match e with
  | .down _ s' => s' = s
  | _ => false

def ups (log : List Event) (s : SemRef) : Nat := log.countP fun e => match e with
  | .up _ s' => s' = s
  | _ => false

structure SemaView where
  value : UInt8
  waiters : List Tid
  -- The task has been on `waiters`, and has not tested the value again.
  waits : Tid → Bool
  downs : Nat
  ups : Nat

def waitsFor (s : SemRef) (st : List Frame) : Bool := waitsOn st = some (.waiters s)

def semaView (s : SemRef) (log : List Event) (m : Machine) : SemaView where
  value := (m.sema s).value
  waiters := (m.sema s).waiters
  waits t := waitsFor s (m.stack t)
  downs := downs log s
  ups := ups log s

/-- What the running task can do with the semaphore. -/
inductive SemaStep (cur : Tid) (v : SemaView) : SemaView → Prop
  | stay : SemaStep cur v v
  | wait : v.value = 0 → SemaStep cur v { v with
      waiters := v.waiters ++ [cur], waits := Function.update v.waits cur true }
  | take : v.value = 1 → SemaStep cur v { v with
      value := 0, waits := Function.update v.waits cur false, downs := v.downs + 1 }
  | up_none : v.value = 0 → v.waiters = [] → SemaStep cur v { v with value := 1, ups := v.ups + 1 }
  | up_wake (t : Tid) (ts : List Tid) : v.value = 0 → v.waiters = t :: ts →
      SemaStep cur v { v with value := 1, waiters := ts, ups := v.ups + 1 }

structure SemaInv (v : SemaView) : Prop where
  value : v.value = 0 ∨ v.value = 1
  waits : ∀ t ∈ v.waiters, v.waits t = true
  -- The unit that nobody has taken is awaited by a task that was woken for it.
  woken : v.value = 1 → v.waiters ≠ [] → ∃ t, v.waits t = true ∧ t ∉ v.waiters
  units : v.downs + v.value.toNat = 1 + v.ups

theorem semaStep_inv (cur : Tid) (v v' : SemaView) (hnd : v.waiters.Nodup) (hcur : cur ∉ v.waiters)
    (h : SemaInv v) (hs : SemaStep cur v v') : SemaInv v' := by
  obtain ⟨hval, hwaits, hwoken, hunits⟩ := h
  cases hs with
  | stay => exact ⟨hval, hwaits, hwoken, hunits⟩
  | wait h0 =>
    refine ⟨hval, fun t ht => ?_, fun h1 => ?_, hunits⟩
    · by_cases htc : t = cur
      · simp [htc]
      · have ht' : t ∈ v.waiters := by simpa [htc] using ht
        simpa [htc] using hwaits t ht'
    · exact absurd (h0.symm.trans h1) (by decide)
  | take h1 =>
    refine ⟨.inl rfl, fun t ht => ?_, fun h => absurd h (by simp), ?_⟩
    · have htc : t ≠ cur := by
        rintro rfl
        exact hcur ht
      simpa [htc] using hwaits t ht
    · rw [h1] at hunits
      simpa using hunits
  | up_none h0 hnil =>
    refine ⟨.inr rfl, hwaits, fun _ hne => absurd hnil hne, ?_⟩
    rw [h0] at hunits
    simp at hunits ⊢
    omega
  | up_wake t ts h0 hcons =>
    rw [hcons] at hwaits hnd
    refine ⟨.inr rfl, fun u hu => hwaits u (List.mem_cons_of_mem t hu), fun _ _ => ?_, ?_⟩
    · exact ⟨t, hwaits t List.mem_cons_self, (List.nodup_cons.mp hnd).1⟩
    · rw [h0] at hunits
      simp at hunits ⊢
      omega

/-! ## The machine's moves, semaphore by semaphore -/

theorem downs_append (log evs : List Event) (s : SemRef) : downs (log ++ evs) s = downs log s + downs evs s :=
  List.countP_append

theorem ups_append (log evs : List Event) (s : SemRef) : ups (log ++ evs) s = ups log s + ups evs s :=
  List.countP_append

theorem semaStep_same (s : SemRef) (log : List Event) (m m' : Machine) (evs : List Event)
    (hd : downs evs s = 0) (hu : ups evs s = 0) (hsem : m'.sema s = m.sema s)
    (hw : ∀ t, waitsFor s (m'.stack t) = waitsFor s (m.stack t)) :
    SemaStep m.cur (semaView s log m) (semaView s (log ++ evs) m') := by
  have : semaView s (log ++ evs) m' = semaView s log m := by
    simp only [semaView, downs_append, ups_append, hd, hu, hsem, hw, Nat.add_zero]
  rw [this]
  exact .stay

theorem semaStep_piece (s : SemRef) (log : List Event) (m m' : Machine) (evs : List Event) (st st' : List Frame)
    (hst : m.stack m.cur = st) (hst' : m'.stack = Function.update m.stack m.cur st')
    (h : waitsFor s st' = waitsFor s st) (hsem : m'.sema s = m.sema s)
    (hd : downs evs s = 0) (hu : ups evs s = 0) :
    SemaStep m.cur (semaView s log m) (semaView s (log ++ evs) m') := by
  apply semaStep_same s log m m' evs hd hu hsem
  rw [hst']
  exact view_update (waitsFor s) m st st' hst h

theorem calledBy_waits (s : SemRef) (l : LockRef) (pc : IoqPc) (rest : List Frame) (h : CalledBy l pc rest)
    (hpc : pc ≠ .release) : waitsFor s rest = false := by
  cases h with
  | own => rfl
  | get q | put q byte => cases pc <;> simp_all [waitsFor, waitsOn]

theorem acquire_waits (s : SemRef) (l : LockRef) (pc : AcquirePc) (rest : List Frame)
    (h : Shape (.lock_acquire l pc :: rest)) : waitsFor s rest = false :=
  calledBy_waits s l .wait rest (acquire_calledBy l pc rest h) (by simp)

theorem release_waits (s : SemRef) (l : LockRef) (pc : ReleasePc) (rest : List Frame)
    (h : Shape (.lock_release l pc :: rest)) : waitsFor s rest = false :=
  calledBy_waits s l .loop rest (release_calledBy l pc rest h) (by simp)

theorem down_waits (s s' : SemRef) (o : Option Bool) (rest : List Frame) (h : Shape (.sema_down s' o :: rest)) :
    waitsFor s rest = false := by
  cases h <;> rfl

theorem waits_set (s : SemRef) (m m' : Machine) (st : List Frame) (b : Bool)
    (hst : m'.stack = Function.update m.stack m.cur st) (h : waitsFor s st = b) :
    (fun t => waitsFor s (m'.stack t)) = Function.update (fun t => waitsFor s (m.stack t)) m.cur b := by
  funext t
  by_cases ht : t = m.cur
  · subst ht
    rw [hst, Function.update_self, Function.update_self, h]
  · rw [hst, Function.update_of_ne ht, Function.update_of_ne ht]

theorem semaStep_up (s s' : SemRef) (log : List Event) (m m' : Machine) (evs : List Event) (v : Semaphore)
    (st rest : List Frame) (hst : m.stack m.cur = st) (hst' : m'.stack = Function.update m.stack m.cur rest)
    (h : waitsFor s rest = waitsFor s st) (hsem : m'.sema = Function.update m.sema s' v)
    (hd : downs evs s = 0) (hu : ups evs s = if s' = s then 1 else 0)
    (hstep : SemaStep m.cur (semaView s' log m)
      { semaView s' log m with value := v.value, waiters := v.waiters, ups := ups log s' + 1 }) :
    SemaStep m.cur (semaView s log m) (semaView s (log ++ evs) m') := by
  by_cases hs : s' = s
  · subst hs
    have hw : (fun t => waitsFor s' (m'.stack t)) = fun t => waitsFor s' (m.stack t) := by
      funext t
      rw [hst']
      exact view_update (waitsFor s') m st rest hst h t
    have heq : semaView s' (log ++ evs) m' =
        { semaView s' log m with value := v.value, waiters := v.waiters, ups := ups log s' + 1 } := by
      simp only [semaView, hw, hsem, Function.update_self, downs_append, ups_append, hd, hu, if_true, Nat.add_zero]
    rw [heq]
    exact hstep
  · refine semaStep_piece s log m m' evs st rest hst hst' h ?_ hd (by rw [hu, if_neg hs])
    rw [hsem, Function.update_of_ne (Ne.symm hs)]

theorem ups_up (t : Tid) (s s' : SemRef) : ups [.up t s'] s = if s' = s then 1 else 0 := by
  by_cases h : s' = s <;> simp [ups, h]

theorem ups_up_released (t : Tid) (s s' : SemRef) (l : LockRef) :
    ups [.up t s', .released t l] s = if s' = s then 1 else 0 := by
  by_cases h : s' = s <;> simp [ups, h]

theorem down_waitsFor (s s' : SemRef) (o : Option Bool) (rest : List Frame) (h : s' ≠ s) :
    waitsFor s (.sema_down s' o :: rest) = false := by
  cases o <;> simp [waitsFor, waitsOn, h]

theorem down_wait_sema (s s' : SemRef) (o : Option Bool) (rest : List Frame) (next : Tid) (tl : List Tid)
    (log : List Event) (m : Machine) (hst : m.stack m.cur = .sema_down s' o :: rest) (hv : (m.sema s').value = 0) :
    SemaStep m.cur (semaView s log m) (semaView s (log ++ []) (((atLoop m o).1.setSema s' { m.sema s' with
      waiters := (m.sema s').waiters ++ [m.cur] }).switchOut (.sema_down s' (some (atLoop m o).2) :: rest) next tl)) := by
  generalize hm : ((atLoop m o).1.setSema s' { m.sema s' with
    waiters := (m.sema s').waiters ++ [m.cur] }).switchOut (.sema_down s' (some (atLoop m o).2) :: rest) next tl = m'
  have hst' : m'.stack = Function.update m.stack m.cur
      (.thread_block (atLoop m o).1.sched.intr :: .sema_down s' (some (atLoop m o).2) :: rest) := by
    subst hm
    cases o <;> rfl
  have hsem : m'.sema = Function.update m.sema s' { m.sema s' with waiters := (m.sema s').waiters ++ [m.cur] } := by
    subst hm
    cases o <;> rfl
  by_cases hss : s' = s
  · subst hss
    have hw := waits_set s' m m' _ true hst' (by simp [waitsFor, waitsOn])
    have heq : semaView s' (log ++ []) m' = { semaView s' log m with
        waiters := (m.sema s').waiters ++ [m.cur]
        waits := Function.update (fun t => waitsFor s' (m.stack t)) m.cur true } := by
      simp only [semaView, hw, hsem, Function.update_self, List.append_nil]
    rw [heq]
    exact .wait hv
  · refine semaStep_piece s log m m' [] _ _ hst hst' ?_ ?_ rfl rfl
    · rw [down_waitsFor s s' o rest hss]
      exact down_waitsFor s s' (some (atLoop m o).2) rest hss
    · rw [hsem, Function.update_of_ne (Ne.symm hss)]

theorem down_take_sema (s s' : SemRef) (o : Option Bool) (rest : List Frame) (log : List Event) (m : Machine)
    (hc : Calls m) (hst : m.stack m.cur = .sema_down s' o :: rest) (hv : (m.sema s').value = 1) :
    SemaStep m.cur (semaView s log m) (semaView s (log ++ [.down m.cur s'])
      (((m.setSema s' { m.sema s' with value := 0 }).setIntr (atLoop m o).2).setStack rest)) := by
  have hrest := down_waits s s' o rest (hst ▸ hc.shape m.cur)
  by_cases hss : s' = s
  · subst hss
    have hw := waits_set s' m (((m.setSema s' { m.sema s' with value := 0 }).setIntr (atLoop m o).2).setStack rest)
      rest false rfl hrest
    have heq : semaView s' (log ++ [.down m.cur s'])
        (((m.setSema s' { m.sema s' with value := 0 }).setIntr (atLoop m o).2).setStack rest) =
        { semaView s' log m with
          value := 0
          waits := Function.update (fun t => waitsFor s' (m.stack t)) m.cur false
          downs := downs log s' + 1 } := by
      simp only [semaView, hw, downs_append, ups_append, SemaView.mk.injEq, true_and]
      simp [Machine.setSema, Machine.setIntr, Machine.setStack, downs, ups]
    rw [heq]
    exact .take hv
  · refine semaStep_piece s log m _ _ _ rest hst rfl ?_ ?_ ?_ ?_
    · rw [hrest, down_waitsFor s s' o rest hss]
    · exact Function.update_of_ne (Ne.symm hss) _ _
    · simp [downs, hss]
    · simp [ups]

theorem moves_sema (s : SemRef) (log : List Event) (m m' : Machine) (a : Act) (evs : List Event) (hc : Calls m)
    (hs : s ≠ .lock .pid_lock) (hmv : Moves m a m' evs) :
    SemaStep m.cur (semaView s log m) (semaView s (log ++ evs) m') := by
  have hcur (st : List Frame) (hst : m.stack m.cur = st) : Shape st := hst ▸ hc.shape m.cur
  -- a piece of code that has no `sema_down` and no `sema_up` in it
  have hpiece (f : Frame) (rest st : List Frame) (m'' : Machine) (evs : List Event)
      (hst : m.stack m.cur = f :: rest) (hst' : m''.stack = Function.update m.stack m.cur st)
      (h : waitsFor s st = waitsFor s (f :: rest)) (hsem : m''.sema = m.sema) (hd : downs evs s = 0)
      (hu : ups evs s = 0) : SemaStep m.cur (semaView s log m) (semaView s (log ++ evs) m'') :=
    semaStep_piece s log m m'' evs _ st hst hst' h (by rw [hsem]) hd hu
  cases hmv with
  | call c hst =>
    cases c with
    | intr_enable | intr_disable => exact semaStep_same s log m _ [] rfl rfl rfl fun _ => rfl
    | _ => exact semaStep_piece s log m _ [] [] _ hst rfl rfl rfl rfl rfl
  | down_wait s' o rest next tl hst hv _ => exact down_wait_sema s s' o rest next tl log m hst hv
  | down_take s' o rest hst hv => exact down_take_sema s s' o rest log m hc hst hv
  | up_none s' rest hst hv hl =>
    have hrest : rest = [] := by cases hcur _ hst; rfl
    subst hrest
    exact semaStep_up s s' log m _ _ { value := 1, waiters := [] } _ [] hst rfl rfl rfl rfl (ups_up _ _ _)
      (hl ▸ SemaStep.up_none hv hl)
  | up_wake s' rest t ts hst hv hl =>
    have hrest : rest = [] := by cases hcur _ hst; rfl
    subst hrest
    exact semaStep_up s s' log m _ _ { value := 1, waiters := ts } _ [] hst rfl rfl rfl rfl (ups_up _ _ _)
      (.up_wake t ts hv hl)
  | release_up_none l rest hst hv hl =>
    exact semaStep_up s (.lock l) log m _ _ { value := 1, waiters := [] } _ rest hst rfl
      (release_waits s l _ rest (hcur _ hst)) rfl rfl (ups_up_released _ _ _ _) (hl ▸ SemaStep.up_none hv hl)
  | release_up_wake l rest t ts hst hv hl =>
    exact semaStep_up s (.lock l) log m _ _ { value := 1, waiters := ts } _ rest hst rfl
      (release_waits s l _ rest (hcur _ hst)) rfl rfl (ups_up_released _ _ _ _) (.up_wake t ts hv hl)
  | acquire_own l rest hst _ | acquire_down l rest hst _ | acquire_taken l rest hst | acquire_check l rest hst _ =>
    exact hpiece _ rest _ _ [] hst rfl rfl rfl rfl rfl
  | release_entry l rest hst _ | release_more l rest hst _ | release_zero l rest hst _
  | release_last l rest hst _ | release_clear l rest hst | release_reset l rest hst =>
    exact hpiece _ rest _ _ [] hst rfl rfl rfl rfl rfl
  | acquire_again l rest hst | acquire_first l rest hst =>
    exact hpiece _ rest rest _ _ hst rfl (acquire_waits s l _ rest (hcur _ hst)) rfl rfl rfl
  | release_again l rest hst =>
    exact hpiece _ rest rest _ _ hst rfl (release_waits s l _ rest (hcur _ hst)) rfl rfl rfl
  | block_end old rest hst | timer_end rest hst => exact hpiece _ rest rest _ [] hst rfl rfl rfl rfl rfl
  | thread_entry rest hst =>
    have hrest : rest = [] := by cases hcur _ hst; rfl
    subst hrest
    exact hpiece _ [] [] _ [] hst rfl rfl rfl rfl rfl
  | get_empty q rest hst _ _ | put_full q byte rest hst _ _ => exact hpiece _ rest _ _ [] hst rfl rfl rfl rfl rfl
  | get_take q rest hst _ _ _ | get_wake q rest _ hst _ _ _ =>
    obtain rfl := get_rest q _ rest (hcur _ hst)
    exact hpiece _ [] [] _ _ hst rfl rfl rfl rfl rfl
  | put_store q byte rest hst _ _ _ | put_wake q byte rest _ hst _ _ _ =>
    obtain rfl := put_rest q byte _ rest (hcur _ hst)
    exact hpiece _ [] [] _ _ hst rfl rfl rfl rfl rfl
  | get_wait q rest next tl hst _ _ | put_wait q byte rest next tl hst _ _ =>
    exact hpiece _ rest _ _ [] hst rfl (by simp [waitsFor, waitsOn]) rfl rfl rfl
  | get_release q rest hst | put_release q byte rest hst =>
    exact hpiece _ rest _ _ [] hst rfl (by simp [waitsFor, waitsOn]) rfl rfl rfl
  | tick | key_drop => exact semaStep_same s log m _ [] rfl rfl rfl fun _ => rfl
  | key_store | key_wake => exact semaStep_same s log m _ _ rfl rfl rfl fun _ => rfl
  | preempt next rest => exact semaStep_piece s log m _ [] _ (.intr_exit :: m.stack m.cur) rfl rfl rfl rfl rfl rfl
  | create t prio lock sem _ _ hnew _ =>
    exact semaStep_same s log m _ _ rfl rfl (Function.update_of_ne hs _ _) (view_create (waitsFor s) m hc t hnew rfl)

/-! ## Whole runs -/

/-- The kernel whose semaphore `s` has one unit at the start. -/
def kernelWithUnit (s : SemRef) : Run.System Machine Act Event Stop where
  init m := kernel.init m ∧ (m.sema s).value = 1
  step := step

theorem reach_unit (s : SemRef) (ok : List Event → Machine → Act → Prop) (log : List Event) (m : Machine)
    (h : Run.Reach (kernelWithUnit s) ok log m) : Run.Reach kernel ok log m :=
  Run.reach_init kernel (kernelWithUnit s) ok (fun _ hm => hm.1) rfl log m h

/-- `thread_init` leaves the semaphore of `pid_lock` without its unit. -/
theorem unit_not_pid (s : SemRef) (m : Machine) (h : (kernelWithUnit s).init m) : s ≠ .lock .pid_lock := by
  rintro rfl
  obtain ⟨hm, hv⟩ := h
  obtain ⟨main, intr, task, value, buf, rfl⟩ := (kernel_init_iff m).mp hm
  simp [started, Machine.takePid, Machine.setSema] at hv

theorem reach_sema (s : SemRef) (ok : List Event → Machine → Act → Prop) (log : List Event) (m : Machine)
    (h : Run.Reach (kernelWithUnit s) ok log m) : s ≠ .lock .pid_lock ∧ SemaInv (semaView s log m) := by
  refine Run.reach_invariant_with (kernelWithUnit s) ok (fun _ m => QueueInv m ∧ Calls m)
    (fun log m => s ≠ .lock .pid_lock ∧ SemaInv (semaView s log m)) ?_ ?_ ?_ log m h
  · intro log m h
    have hr := reach_unit s ok log m h
    exact ⟨reach_inv log m (Run.reach_any kernel ok log m hr), reach_calls ok log m hr⟩
  · intro m hm
    refine ⟨unit_not_pid s m hm, ?_⟩
    obtain ⟨hm, hv⟩ := hm
    obtain ⟨main, intr, task, value, buf, rfl⟩ := (kernel_init_iff m).mp hm
    have hw : (semaView s [] (started main intr task value buf)).waiters = [] := started_waiters _ _ _ _ _ s
    have hu : (semaView s [] (started main intr task value buf)).value = 1 := hv
    refine ⟨.inr hu, by simp [hw], fun _ hne => absurd hw hne, ?_⟩
    rw [hu]
    rfl
  · rintro log m a m' evs ⟨hi, hc⟩ ⟨hs, hI⟩ _ hstep
    have hmv := spec_of_ok _ _ _ (step_moves m a hi) (m', evs) hstep
    exact ⟨hs, semaStep_inv m.cur _ _ (hi.queue.held_nodup (.waiters s)) (cur_not_held m hi (.waiters s)) hI
      (moves_sema s log m m' a evs hc hs hmv)⟩

/-- `sema_up` has popped the task from `waiters`, and the task has not tested the value again. -/
def Woken (s : SemRef) (m : Machine) (t : Tid) : Prop :=
  t ∈ m.sched.thread_all_list ∧ t ∉ (m.sema s).waiters ∧ waitsFor s (m.stack t) = true

theorem waits_task (s : SemRef) (m : Machine) (hc : Calls m) (t : Tid) (h : waitsFor s (m.stack t) = true) :
    t ∈ m.sched.thread_all_list := by
  by_contra hn
  rw [hc.new t hn] at h
  cases h

/-- **No wake-up is lost.** A semaphore that starts with one unit has a value of 0 or 1 in every
state of every run, its waiters are on the list once and blocked, a unit that tasks wait for has a
woken task that can run and has yet to test the value, and the calls of `sema_down` that returned
and the value are together the units there have been. -/
theorem wakeups_not_lost (s : SemRef) (log : List Event) (m : Machine)
    (h : Run.Reach (kernelWithUnit s) Run.anyStep log m) :
    ((m.sema s).value = 0 ∨ (m.sema s).value = 1) ∧
    (m.sema s).waiters.Nodup ∧
    (∀ t ∈ (m.sema s).waiters, (m.sched.task t).status = .TASK_BLOCKED) ∧
    ((m.sema s).value = 1 → (m.sema s).waiters ≠ [] → ∃ t, Woken s m t ∧
      ((m.sched.task t).status = .TASK_READY ∨ (m.sched.task t).status = .TASK_RUNNING)) ∧
    downs log s + (m.sema s).value.toNat = 1 + ups log s ∧
    downs log s ≤ 1 + ups log s := by
  have hr := reach_unit s _ log m h
  have hi := reach_inv log m hr
  have hc := reach_calls _ log m hr
  obtain ⟨-, hI⟩ := reach_sema s _ log m h
  have hunits : downs log s + (m.sema s).value.toNat = 1 + ups log s := hI.units
  refine ⟨hI.value, hi.queue.held_nodup (.waiters s), ?_, ?_, hunits, by omega⟩
  · intro t ht
    exact (held_blocked m hi (.waiters s) t ht).1
  · intro hv hne
    obtain ⟨t, hw, hn⟩ := hI.woken hv hne
    have ha := waits_task s m hc t hw
    refine ⟨t, ⟨ha, hn, hw⟩, ?_⟩
    exact waits_runnable m hi (reach_heldWaits _ log m hr) (.waiters s) t ha (of_decide_eq_true hw) hn

/-- The main thread takes the unit and waits for a second one, the next thread waits too, and the
last one gives a unit. -/
def oneWoken : List Act :=
  [.thread_start 1 31, .thread_start 2 31, .call (.sema_down 0), .run, .call (.sema_down 0), .run,
    .run, .call (.sema_down 0), .run, .run, .call (.sema_up 0), .run]

theorem wakeups_not_lost_two : ∃ log m,
    Run.play (kernelWithUnit (.sema 0)) Run.anyStep [] zeroed oneWoken = some (log, m) ∧
    (m.sema (.sema 0)).value = 1 ∧ (m.sema (.sema 0)).waiters = [1] ∧ downs log (.sema 0) = 1 ∧
    ∃ t, Woken (.sema 0) m t ∧
      ((m.sched.task t).status = .TASK_READY ∨ (m.sched.task t).status = .TASK_RUNNING) := by
  have h : (Run.play (kernelWithUnit (.sema 0)) Run.anyStep [] zeroed oneWoken).map
      (fun r => ((r.2.sema (.sema 0)).value, (r.2.sema (.sema 0)).waiters, downs r.1 (.sema 0))) =
      some (1, [1], 1) := by decide +kernel
  obtain ⟨⟨log, m⟩, hp, hm⟩ := Option.map_eq_some_iff.mp h
  obtain ⟨hv, hm⟩ := Prod.mk.inj hm
  obtain ⟨hw, hd⟩ := Prod.mk.inj hm
  have hinit : (kernelWithUnit (.sema 0)).init zeroed := ⟨(kernel_init_iff _).mpr ⟨_, _, _, _, _, rfl⟩, rfl⟩
  obtain ⟨-, -, -, hwoken, -⟩ := wakeups_not_lost (.sema 0) log m
    (Run.reach_play _ _ [] zeroed oneWoken log m (.init _ hinit) hp)
  exact ⟨log, m, hp, hv, hw, hd, hwoken hv (by simp at hw; simp [hw])⟩

end OsLearn
