import OsLearn.Device.Stranded
import OsLearn.Thread.Exclusion
import OsLearn.Thread.Wakeups

/-!
# The slots of an ioqueue

`ioq_wait` asserts that its slot is free, and `ioq->lock` is held across the call that blocks. The
lock is never given back, so only its owner ever gets to `ioq_wait`, and a task that waits for the
lock stays at it.
-/

open OsLearn.Queues

namespace OsLearn

/-! ## The nest of the lock -/

/-- The task has taken `ioq->lock` to wait, and not yet called `lock_release` to its end. -/
def nested (q : Nat) : List Frame → Bool
  | .thread_block _ :: rest => nested q rest
  | .intr_exit :: rest => nested q rest
  | .ioq_getchar p pc :: _ => p = q ∧ pc ≠ .loop
  | .ioq_putchar p _ pc :: _ => p = q ∧ pc ≠ .loop
  | .lock_release l _ :: _ => l = .ioq q
  | _ => false

/-- A task is at most one level deep in the lock of a queue. -/
def Nests (q : Nat) (log : List Event) (m : Machine) : Prop :=
  ∀ t, acquires log t (.ioq q) = releases log t (.ioq q) + (nested q (m.stack t)).toNat

theorem nested_wait (q : Nat) (l : LockRef) (rest : List Frame) (h : CalledBy l .wait rest) :
    nested q rest = decide (l = .ioq q) := by
  cases h <;> simp [nested]

theorem nested_loop (q : Nat) (l : LockRef) (rest : List Frame) (h : CalledBy l .loop rest) :
    nested q rest = false := by
  cases h <;> simp [nested]

theorem nests_piece (q : Nat) (log : List Event) (m m' : Machine) (evs : List Event) (st : List Frame)
    (h : Nests q log m) (hst : m'.stack = Function.update m.stack m.cur st)
    (hev : ∀ u, u ≠ m.cur → acquires evs u (.ioq q) = 0 ∧ releases evs u (.ioq q) = 0)
    (hcur : acquires evs m.cur (.ioq q) + (nested q (m.stack m.cur)).toNat =
      releases evs m.cur (.ioq q) + (nested q st).toNat) : Nests q (log ++ evs) m' := by
  intro t
  have ht := h t
  rw [acquires_append, releases_append, hst]
  by_cases htc : t = m.cur
  · subst htc
    rw [Function.update_self]
    omega
  · rw [Function.update_of_ne htc]
    obtain ⟨ha, hr⟩ := hev t htc
    omega

theorem nests_quiet (q : Nat) (log : List Event) (m m' : Machine) (evs : List Event) (h : Nests q log m)
    (hq : Quiet (.ioq q) evs) (hst : ∀ t, nested q (m'.stack t) = nested q (m.stack t)) :
    Nests q (log ++ evs) m' := by
  intro t
  obtain ⟨ha, hr⟩ := hq t
  rw [acquires_append, releases_append, hst, ha, hr]
  exact h t

theorem moves_nests (q : Nat) (log : List Event) (m m' : Machine) (a : Act) (evs : List Event) (hc : Calls m)
    (h : Nests q log m) (hmv : Moves m a m' evs) : Nests q (log ++ evs) m' := by
  have hcur (st : List Frame) (hst : m.stack m.cur = st) : Shape st := hst ▸ hc.shape m.cur
  -- a piece that neither takes the lock nor gives it back
  have hpiece (f : Frame) (rest st : List Frame) (m'' : Machine) (evs : List Event)
      (hst : m.stack m.cur = f :: rest) (hst' : m''.stack = Function.update m.stack m.cur st)
      (hq : Quiet (.ioq q) evs) (hn : nested q st = nested q (f :: rest)) : Nests q (log ++ evs) m'' := by
    apply nests_quiet q log m m'' evs h hq
    rw [hst']
    exact view_update (nested q) m _ st hst hn
  have hnil : Quiet (.ioq q) [] := fun _ => ⟨rfl, rfl⟩
  cases hmv with
  | call c hst =>
    cases c with
    | intr_enable | intr_disable => exact nests_quiet q log m _ _ h hnil fun _ => rfl
    | _ =>
      apply nests_quiet q log m _ _ h hnil
      exact view_update (nested q) m [] _ hst (by simp [nested])
  | down_wait s o rest next tl hst _ _ => cases o <;> exact hpiece _ rest _ _ _ hst rfl hnil rfl
  | down_take s o rest hst _ =>
    refine hpiece _ rest rest _ _ hst rfl (by simp [Quiet]) ?_
    cases hcur _ hst <;> rfl
  | up_none s rest hst _ _ | up_wake s rest t ts hst _ _ =>
    refine hpiece _ rest rest _ _ hst rfl (by simp [Quiet]) ?_
    cases hcur _ hst
    rfl
  | acquire_own l rest hst _ | acquire_down l rest hst _ | acquire_taken l rest hst | acquire_check l rest hst _ =>
    exact hpiece _ rest _ _ _ hst rfl hnil rfl
  | acquire_again l rest hst | acquire_first l rest hst =>
    refine nests_piece q log m _ _ rest h rfl (fun u hu => acquired_event m.cur l u _ (.inl hu)) ?_
    rw [hst, nested_wait q l rest (acquire_calledBy l _ rest (hcur _ hst))]
    by_cases hl : l = .ioq q <;> simp [nested, hl]
  | release_entry l rest hst _ | release_more l rest hst _ | release_zero l rest hst _ | release_last l rest hst _
  | release_clear l rest hst | release_reset l rest hst => exact hpiece _ rest _ _ _ hst rfl hnil rfl
  | release_again l rest hst =>
    refine nests_piece q log m _ _ rest h rfl (fun u hu => released_event m.cur l u _ (.inl hu)) ?_
    rw [hst, nested_loop q l rest (release_calledBy l _ rest (hcur _ hst))]
    by_cases hl : l = .ioq q <;> simp [nested, hl]
  | release_up_none l rest hst _ _ | release_up_wake l rest t ts hst _ _ =>
    refine nests_piece q log m _ _ rest h rfl (fun u hu => up_event m.cur l u _ (.inl hu)) ?_
    rw [hst, nested_loop q l rest (release_calledBy l _ rest (hcur _ hst))]
    by_cases hl : l = .ioq q <;> simp [nested, hl]
  | block_end old rest hst | timer_end rest hst => exact hpiece _ rest rest _ _ hst rfl hnil rfl
  | thread_entry rest hst =>
    refine hpiece _ rest rest _ _ hst rfl hnil ?_
    cases hcur _ hst
    rfl
  | get_empty p rest hst _ _ | put_full p byte rest hst _ _ => exact hpiece _ rest _ _ _ hst rfl hnil (by simp [nested])
  | get_take p rest hst _ _ _ | get_wake p rest _ hst _ _ _ =>
    obtain rfl := get_rest p _ rest (hcur _ hst)
    exact hpiece _ [] [] _ _ hst rfl (by simp [Quiet]) (by simp [nested])
  | put_store p byte rest hst _ _ _ | put_wake p byte rest _ hst _ _ _ =>
    obtain rfl := put_rest p byte _ rest (hcur _ hst)
    exact hpiece _ [] [] _ _ hst rfl (by simp [Quiet]) (by simp [nested])
  | get_wait p rest next tl hst _ _ | put_wait p byte rest next tl hst _ _ =>
    exact hpiece _ rest _ _ _ hst rfl hnil (by simp [nested])
  | get_release p rest hst | put_release p byte rest hst =>
    exact hpiece _ rest _ _ _ hst rfl hnil (by simp [nested])
  | tick | key_drop => exact nests_quiet q log m _ _ h hnil fun _ => rfl
  | key_store | key_wake => exact nests_quiet q log m _ _ h (by simp [Quiet]) fun _ => rfl
  | preempt next rest =>
    apply nests_quiet q log m _ _ h hnil
    exact view_update (nested q) m _ (.intr_exit :: m.stack m.cur) rfl rfl
  | create t prio lock sem _ _ hnew _ =>
    exact nests_quiet q log m _ _ h (by simp [Quiet]) (view_create (nested q) m hc t hnew rfl)

/-! ## The owner of the lock -/

theorem nests_depth (q : Nat) (log : List Event) (m : Machine) (h : Nests q log m) (t : Tid)
    (ht : nested q (m.stack t) = true) : depth log t (.ioq q) = 1 := by
  have := h t
  rw [ht, Bool.toNat_true] at this
  unfold depth
  omega

theorem reach_owner (q : Nat) (ok : List Event → Machine → Act → Prop) (log : List Event) (m : Machine)
    (h : Run.Reach kernel ok log m) : LockInv (· = 1) (.ioq q) log m ∧ Nests q log m := by
  suffices (LockInv (· = 1) (.ioq q) log m ∧ Nests q log m) ∧ Calls m from this.1
  refine reach_moves ok (fun log m => (LockInv (· = 1) (.ioq q) log m ∧ Nests q log m) ∧ Calls m) ?_ ?_ log m h
  · intro main intr task value buf
    exact ⟨⟨.inl (started_lock main intr task value buf _ (by simp)), fun _ => rfl⟩, fun _ => .idle, fun _ _ => rfl⟩
  · intro log m a m' evs hi ⟨⟨hl, hn⟩, hc⟩ _ hmv
    refine ⟨⟨lockInv_step _ (by rintro d rfl; exact Nat.one_pos) _ log m m' evs hl ?_,
      moves_nests q log m m' a evs hc hn hmv⟩, moves_calls m m' a evs hi hc hmv⟩
    apply moves_lock _ _ log m m' a evs hc (by simp) _ hmv
    rintro (⟨i, hq, -⟩ | ⟨p, hq, -, hst⟩)
    · cases hq
    · cases hq
      apply nests_depth q log m hn
      rcases hst with hst | ⟨byte, hst⟩ <;> simp [hst, nested]

theorem nested_unique (q : Nat) (log : List Event) (m : Machine) (hl : LockInv (· = 1) (.ioq q) log m)
    (hn : Nests q log m) (t u : Tid) (ht : nested q (m.stack t) = true) (hu : nested q (m.stack u) = true) :
    t = u := by
  have hholder (t : Tid) (ht : nested q (m.stack t) = true) : (m.lock (.ioq q)).holder = some t := by
    have hd := nests_depth q log m hn t ht
    exact (lockInv_depth _ (.ioq q) log m t hl (by omega)).1
  exact Option.some.inj ((hholder t ht).symm.trans (hholder u hu))

/-- Nobody gets to the `sema_up` of the lock. -/
theorem lockInv_up (l : LockRef) (R : Nat → Prop) (log : List Event) (m : Machine) (h : LockInv R l log m)
    (rest : List Frame) : m.stack m.cur ≠ .lock_release l .up :: rest := by
  intro hst
  have ho := lockInv_release R l log m .up rest h hst
  simp [OwnerInv, lockState, hst, lockPhase] at ho

/-! ## The way to the slot -/

structure WaiterInv (q : Nat) (m : Machine) : Prop where
  cur : waiting q (m.stack m.cur) = false ∨ Entering q m ∨ Barred q m
  -- Whoever else goes to wait is at the lock.
  others : ∀ t, t ≠ m.cur → waiting q (m.stack t) = true → t ∈ (m.sema (.lock (.ioq q))).waiters
  slots : Slots (m.ioq q)

/-- A task that finds the lock taken blocks. -/
theorem moves_barred (q : Nat) (m m' : Machine) (a : Act) (evs : List Event) (hbar : Barred q m)
    (hmv : Moves m a m' evs) : m.cur ∈ (m'.sema (.lock (.ioq q))).waiters := by
  obtain ⟨w, cond, -, hoff, hv, htop⟩ := hbar
  have hne : m.stack m.cur ≠ [] := by
    rw [htop]
    exact List.cons_ne_nil _ _
  cases hmv with
  | down_wait s o rest next tl hst _ _ =>
    rw [htop] at hst
    cases hst
    show m.cur ∈ (((atLoop m none).1.setSema _ _).sema _).waiters
    simp [Machine.setSema]
  | down_take s o rest hst h1 =>
    rw [htop] at hst
    cases hst
    exact absurd h1 hv
  | call c h => exact absurd h hne
  | create t prio lock sem _ h _ _ => exact absurd h hne
  | tick h _ | preempt _ _ h _ _ | key_drop _ _ h _ | key_store _ _ h _ _ | key_wake _ _ _ h _ _ =>
    rw [hoff] at h
    cases h
  | up_none s rest hst | up_wake s rest _ _ hst | acquire_own l rest hst | acquire_down l rest hst
  | acquire_again l rest hst | acquire_taken l rest hst | acquire_check l rest hst | acquire_first l rest hst
  | release_entry l rest hst | release_more l rest hst | release_zero l rest hst | release_again l rest hst
  | release_last l rest hst | release_clear l rest hst | release_reset l rest hst | release_up_none l rest hst
  | release_up_wake l rest _ _ hst | block_end old rest hst | get_empty p rest hst | get_take p rest hst
  | get_wake p rest _ hst | get_wait p rest _ _ hst | get_release p rest hst | put_full p byte rest hst
  | put_store p byte rest hst | put_wake p byte rest _ hst | put_wait p byte rest _ _ hst
  | put_release p byte rest hst | thread_entry rest hst | timer_end rest hst =>
    rw [htop] at hst
    cases hst

theorem moves_waiterInv (q : Nat) (log : List Event) (m m' : Machine) (a : Act) (evs : List Event)
    (hi : QueueInv m) (hi' : QueueInv m') (hc : Calls m)
    (hup : ∀ rest, m.stack m.cur ≠ .lock_release (.ioq q) .up :: rest) (h : WaiterInv q m)
    (hmv : Moves m a m' evs) : WaiterInv q m' := by
  have hcond := wait_cond q m h.cur
  have hs := moves_slots q m m' a evs h.slots (hcond _ _ .get) (fun byte => hcond _ _ (.put byte)) hmv
  -- the running task: calm, on its way, or at the lock by now
  have hcur : waiting q (m'.stack m.cur) = false ∨ (Entering q m' ∨ Barred q m') ∧ m'.cur = m.cur ∨
      m.cur ∈ (m'.sema (.lock (.ioq q))).waiters := by
    rcases h.cur with hcalm | hent | hbar
    · rcases moves_calm q m m' a evs hi hc hcalm hmv with hcalm | ⟨hent, hcur⟩
      · exact .inl hcalm
      · exact .inr (.inl ⟨.inl hent, hcur⟩)
    · rcases moves_entering q log m m' a evs hent hmv with hcalm | ⟨hent, hcur⟩ | ⟨-, hbar, hcur⟩
      · exact .inl hcalm
      · exact .inr (.inl ⟨.inl hent, hcur⟩)
      · exact .inr (.inl ⟨.inr hbar, hcur⟩)
    · exact .inr (.inr (moves_barred q m m' a evs hbar hmv))
  have hothers (t : Tid) (ht : t ≠ m.cur) (hw : waiting q (m'.stack t) = true) :
      t ∈ (m'.sema (.lock (.ioq q))).waiters := by
    rw [moves_waiting q m m' a evs hi hc hmv t ht hw] at hw
    have hmem := h.others t ht hw
    rcases moves_waiters (.ioq q) m m' a evs hc (by simp) hmv with heq | ⟨-, -, -, -, heq⟩ | ⟨rest, hst, -⟩
    · rwa [heq]
    · rw [heq]
      exact List.mem_append_left _ hmem
    · exact absurd hst (hup rest)
  have hfree : m'.cur ∉ (m'.sema (.lock (.ioq q))).waiters := cur_not_held m' hi' (.waiters (.lock (.ioq q)))
  refine ⟨?_, fun t ht hw => ?_, hs⟩
  · by_cases heq : m'.cur = m.cur
    · rw [← heq] at hcur
      rcases hcur with hcalm | ⟨hway, -⟩ | hmem
      · exact .inl hcalm
      · exact .inr hway
      · exact absurd hmem hfree
    · left
      by_contra hw
      rw [Bool.not_eq_false] at hw
      exact hfree (hothers m'.cur heq hw)
  · by_cases heq : t = m.cur
    · subst heq
      rcases hcur with hcalm | ⟨-, hsame⟩ | hmem
      · rw [hcalm] at hw
        cases hw
      · exact absurd hsame.symm ht
      · exact hmem
    · exact hothers t heq hw

theorem reach_waiterInv (q : Nat) (log : List Event) (m : Machine) (h : Run.Reach kernel Run.anyStep log m) :
    WaiterInv q m := by
  refine Run.reach_invariant_with kernel Run.anyStep (fun log m => Run.Reach kernel Run.anyStep log m)
    (fun _ m => WaiterInv q m) (fun _ _ h => h) ?_ ?_ log m h
  · intro m hm
    obtain ⟨main, intr, task, value, buf, rfl⟩ := (kernel_init_iff m).mp hm
    exact ⟨.inl rfl, fun t _ hw => (by cases hw), slots_none _ rfl rfl⟩
  · intro log m a m' evs hr hw _ hs
    have hi := reach_inv log m hr
    have hmv := spec_of_ok _ _ _ (step_moves m a hi) (m', evs) hs
    have hup := lockInv_up (.ioq q) _ log m (reach_owner q _ log m hr).1
    exact moves_waiterInv q log m m' a evs hi (reach_inv _ m' (.step log m a m' evs hr trivial hs))
      (reach_calls _ log m hr) hup hw hmv

/-! ## What is in the slots -/

theorem waitsOn_slot (q : Nat) (st : List Frame) :
    (waitsOn st = some (.consumer q) → nested q st = true ∧ insideGet q st = true) ∧
    (waitsOn st = some (.producer q) → nested q st = true ∧ insidePut q st = true) := by
  induction st with
  | nil => simp [waitsOn]
  | cons f rest ih =>
    cases f with
    | thread_block | intr_exit => exact ih
    | sema_down s o => cases o <;> simp [waitsOn]
    | ioq_getchar p pc | ioq_putchar p byte pc =>
      cases pc <;> simp +contextual [waitsOn, nested, insideGet, insidePut]
    | _ => simp [waitsOn]

theorem full_not_empty (ioq : IoQueue) (h : ioq_full ioq = true) : ioq_empty ioq = false := by
  have h : (ioq.head + 1) % 64 = ioq.tail := of_decide_eq_true h
  apply decide_eq_false
  omega

/-- A task in a slot is the owner of the lock, and so is a task that is about to enter `ioq_wait`. -/
theorem slot_free (q : Nat) (log : List Event) (m : Machine) (h : Run.Reach kernel Run.anyStep log m)
    (hn : nested q (m.stack m.cur) = true) : (m.ioq q).consumer = none ∧ (m.ioq q).producer = none := by
  obtain ⟨hl, hnest⟩ := reach_owner q _ log m h
  have hheld := reach_heldWaits _ log m h
  have hfree (w : Waker) (t : Tid) (ht : t ∈ heldBy m w) (hslot : nested q (m.stack t) = true) : False := by
    obtain rfl := nested_unique q log m hl hnest t m.cur hslot hn
    exact cur_not_held m (reach_inv log m h) w ht
  constructor
  · refine Option.eq_none_iff_forall_ne_some.mpr fun t ht => ?_
    have hmem : t ∈ heldBy m (.consumer q) := by simp [heldBy, ht]
    exact hfree _ t hmem ((waitsOn_slot q _).1 (hheld _ t hmem)).1
  · refine Option.eq_none_iff_forall_ne_some.mpr fun t ht => ?_
    have hmem : t ∈ heldBy m (.producer q) := by simp [heldBy, ht]
    exact hfree _ t hmem ((waitsOn_slot q _).2 (hheld _ t hmem)).1

/-- **The waiter slots.** In every state that the kernel reaches, a slot of a queue is taken only while
the queue is empty, or full, by a task that is blocked in the call, and the two are never both taken.
A task enters `ioq_wait` with its slot free, and no check of `ioq_wait`, `wakeup`, `thread_block` or
`thread_unblock` fails. -/
theorem waiter_slots (q : Nat) (log : List Event) (m : Machine) (h : Run.Reach kernel Run.anyStep log m) :
    (∀ t, (m.ioq q).consumer = some t → ioq_empty (m.ioq q) = true ∧
      (m.sched.task t).status = .TASK_BLOCKED ∧ insideGet q (m.stack t) = true) ∧
    (∀ t, (m.ioq q).producer = some t → ioq_full (m.ioq q) = true ∧
      (m.sched.task t).status = .TASK_BLOCKED ∧ insidePut q (m.stack t) = true) ∧
    ((m.ioq q).consumer = none ∨ (m.ioq q).producer = none) ∧
    (∀ rest, m.stack m.cur = .ioq_getchar q .wait :: rest → (m.ioq q).consumer = none) ∧
    (∀ byte rest, m.stack m.cur = .ioq_putchar q byte .wait :: rest → (m.ioq q).producer = none) ∧
    ∀ a site, step m a = .error (.panic site) → site ≠ .ioq_wait_waiter ∧ site ≠ .wakeup_waiter ∧
      site ≠ .thread_block_stat ∧ site ≠ .thread_unblock_stat ∧ site ≠ .thread_unblock_ready_elem_find := by
  have hi := reach_inv log m h
  have hs := (reach_waiterInv q log m h).slots
  have hheld := reach_heldWaits _ log m h
  have hget (p : Nat) (rest : List Frame) (hst : m.stack m.cur = .ioq_getchar p .wait :: rest) :
      (m.ioq p).consumer = none := (slot_free p log m h (by simp [hst, nested])).1
  have hput (p : Nat) (byte : UInt8) (rest : List Frame) (hst : m.stack m.cur = .ioq_putchar p byte .wait :: rest) :
      (m.ioq p).producer = none := (slot_free p log m h (by simp [hst, nested])).2
  refine ⟨fun t ht => ?_, fun t ht => ?_, ?_, hget q, hput q, fun a site hstep => ?_⟩
  · have hmem : t ∈ heldBy m (.consumer q) := by simp [heldBy, ht]
    exact ⟨hs.consumer (by simp [ht]), (held_blocked m hi _ t hmem).1, ((waitsOn_slot q _).1 (hheld _ t hmem)).2⟩
  · have hmem : t ∈ heldBy m (.producer q) := by simp [heldBy, ht]
    exact ⟨hs.producer (by simp [ht]), (held_blocked m hi _ t hmem).1, ((waitsOn_slot q _).2 (hheld _ t hmem)).2⟩
  · by_cases hp : (m.ioq q).producer = none
    · exact .inr hp
    · exact .inl (slots_consumer _ hs (full_not_empty _ (hs.producer hp)))
  · have hstop := spec_of_error _ _ _ (step_moves m a hi) _ hstep
    cases hstop with
    | get_waiter p rest hst hne => exact absurd (hget p rest hst) hne
    | put_waiter p byte rest hst hne => exact absurd (hput p byte rest hst) hne
    | _ => simp

/-- The first task that had to wait is in the slot. -/
theorem waiter_slots_one : ∃ log m, Run.play kernel Run.anyStep [] zeroed (oneWaits ++ [.run]) = some (log, m) ∧
    (m.ioq 0).consumer = some 1 ∧ (m.sched.task 1).status = .TASK_BLOCKED ∧ insideGet 0 (m.stack 1) = true := by
  have hrun : (Run.play kernel Run.anyStep [] zeroed (oneWaits ++ [.run])).map (fun r => (r.2.ioq 0).consumer) =
      some (some 1) := by decide +kernel
  obtain ⟨⟨log, m⟩, hp, hc⟩ := Option.map_eq_some_iff.mp hrun
  exact ⟨log, m, hp, hc, ((waiter_slots 0 log m (reach_zeroed _ _ log m hp)).1 1 hc).2⟩

end OsLearn
