import OsLearn.Lib.Rota
import OsLearn.Thread.Tasks

/-!
# Time slices

The timer handler and `schedule` give every task its slice in turn. A machine on which nothing but the
timer changes the tasks is a `Rota`, with the running task at the head of the queue.
-/

open OsLearn.Queues

namespace OsLearn

/-! ## The handler, call by call -/

/-- The task that a call of `intr_timer_handler` has switched to, if it called `schedule`. -/
def dispatched (m m' : Machine) : List Tid := if (m.sched.task m.cur).ticks = 0 then [m'.cur] else []

/-- A part of a run with `n` calls of `intr_timer_handler`, which have dispatched the tasks `ds`, with
interrupts on or off. The other steps are any that block, wake and create nobody. -/
inductive TimerRun (m : Machine) : List Tid → Nat → Machine → Prop
  | start : TimerRun m [] 0 m
  | call (ds : List Tid) (n : Nat) (m₁ m₂ : Machine) :
      TimerRun m ds n m₁ → intr_timer_handler m₁ = .ok m₂ → TimerRun m (ds ++ dispatched m₁ m₂) (n + 1) m₂
  | other (ds : List Tid) (n : Nat) (m₁ m₂ : Machine) (a : Act) (evs : List Event) :
      TimerRun m ds n m₁ → a ≠ .timer → step m₁ a = .ok (m₂, evs) →
      m₂.sched = { m₁.sched with intr := m₂.sched.intr } → TimerRun m ds n m₂

theorem timer_call (m : Machine) (hi : QueueInv m) (hm : (m.sched.task m.cur).stack_magic = 0x19851122) :
    ((m.sched.task m.cur).ticks ≠ 0 ∧ intr_timer_handler m = .ok m.useTick) ∨
    ((m.sched.task m.cur).ticks = 0 ∧ ∃ next rest, m.sched.thread_ready_list ++ [m.cur] = next :: rest ∧
      intr_timer_handler m = .ok (m.preempt next rest)) := by
  have hspec : Spec (intr_timer_handler m)
      (fun m' => ((m.sched.task m.cur).ticks ≠ 0 ∧ m' = m.useTick) ∨ ((m.sched.task m.cur).ticks = 0 ∧
        ∃ next rest, m.sched.thread_ready_list ++ [m.cur] = next :: rest ∧ m' = m.preempt next rest))
      (fun _ => False) := by
    apply intr_timer_handler_spec m _ _ (cur_running m hi) (cur_not_ready m hi)
    · exact fun ht => .inl ⟨ht, rfl⟩
    · exact fun ht next rest hl => .inr ⟨ht, next, rest, hl, rfl⟩
    · exact fun hne => hne hm
  cases hx : intr_timer_handler m with
  | error e => exact (spec_of_error _ _ _ hspec e hx).elim
  | ok m' =>
    rcases spec_of_ok _ _ _ hspec m' hx with ⟨ht, rfl⟩ | ⟨ht, next, rest, hl, rfl⟩
    · exact .inl ⟨ht, rfl⟩
    · exact .inr ⟨ht, next, rest, hl, rfl⟩

/-! ## The machine as a rota -/

def prioritySlice (m : Machine) (t : Tid) : Nat := (m.sched.task t).priority.toNat

def rota (m : Machine) : Rota Tid where
  queue := m.cur :: m.sched.thread_ready_list
  left t := (m.sched.task t).ticks.toNat
  used _ := 0

/-- The rota `r` shows what has become of the machine `m`. -/
structure Shows (m : Machine) (r : Rota Tid) (m' : Machine) : Prop where
  queue : m'.cur :: m'.sched.thread_ready_list = r.queue
  left : ∀ t, (m'.sched.task t).ticks.toNat = r.left t
  used : ∀ t, (m'.sched.task t).elapsed_ticks = (m.sched.task t).elapsed_ticks + UInt32.ofNat (r.used t)
  priority : ∀ t, (m'.sched.task t).priority = (m.sched.task t).priority
  magic : ∀ t ∈ r.queue, (m'.sched.task t).stack_magic = 0x19851122
  others : ∀ t, t ∉ r.queue → (m'.sched.task t).status = (m.sched.task t).status

theorem shows_rota (m : Machine) (hi : QueueInv m) (hm : Stamped m) : Shows m (rota m) m := by
  refine ⟨rfl, fun _ => rfl, fun _ => ?_, fun _ => rfl, fun t ht => hm t ?_, fun _ _ => rfl⟩
  · simp [rota]
  · rcases List.mem_cons.mp ht with rfl | ht
    · exact hi.queue.cur_mem
    · exact ((hi.queue.ready_iff t).mp ht).1

theorem ofNat_succ (a : UInt32) (n : Nat) : a + UInt32.ofNat n + 1 = a + UInt32.ofNat (n + 1) := by
  rw [UInt32.ofNat_add, UInt32.add_assoc]
  rfl

/-- One tick, whatever the handler does about it: the running task has been charged and has `k` left. -/
theorem shows_tick (m m₁ m₂ : Machine) (r : Rota Tid) (k : UInt8) (queue : List Tid) (h : Shows m r m₁)
    (htask : ∀ t, { m₂.sched.task t with status := .TASK_READY } =
      { Function.update m₁.sched.task m₁.cur
        { m₁.sched.task m₁.cur with
          elapsed_ticks := (m₁.sched.task m₁.cur).elapsed_ticks + 1
          ticks := k } t with status := .TASK_READY })
    (hqueue : m₂.cur :: m₂.sched.thread_ready_list = queue) (hmem : ∀ t, t ∈ queue ↔ t ∈ r.queue)
    (hothers : ∀ t, t ∉ r.queue → (m₂.sched.task t).status = (m₁.sched.task t).status) :
    Shows m {
      queue := queue
      left := Function.update r.left m₁.cur k.toNat
      used := Function.update r.used m₁.cur (r.used m₁.cur + 1) } m₂ := by
  refine ⟨hqueue, fun t => ?_, fun t => ?_, fun t => ?_, fun t ht => ?_, fun t ht => ?_⟩
  · refine (congrArg (fun p => (TaskStruct.ticks p).toNat) (htask t)).trans ?_
    dsimp only
    by_cases hc : t = m₁.cur
    · rw [hc, Function.update_self, Function.update_self]
    · rw [Function.update_of_ne hc, Function.update_of_ne hc, h.left]
  · refine (congrArg TaskStruct.elapsed_ticks (htask t)).trans ?_
    dsimp only
    by_cases hc : t = m₁.cur
    · rw [hc, Function.update_self, Function.update_self, ← ofNat_succ, ← h.used]
    · rw [Function.update_of_ne hc, Function.update_of_ne hc, h.used]
  · refine (congrArg TaskStruct.priority (htask t)).trans ?_
    rw [← h.priority t]
    by_cases hc : t = m₁.cur
    · rw [hc, Function.update_self]
    · rw [Function.update_of_ne hc]
  · refine (congrArg TaskStruct.stack_magic (htask t)).trans ?_
    rw [← h.magic t ((hmem t).mp ht)]
    by_cases hc : t = m₁.cur
    · rw [hc, Function.update_self]
    · rw [Function.update_of_ne hc]
  · have hq : t ∉ r.queue := fun hq => ht ((hmem t).mpr hq)
    rw [hothers t hq, h.others t hq]

theorem shows_useTick (m m₁ : Machine) (r : Rota Tid) (h : Shows m r m₁) (ht : (m₁.sched.task m₁.cur).ticks ≠ 0) :
    Shows m (r.tick (prioritySlice m)) m₁.useTick ∧ r.turn (prioritySlice m) = [] := by
  have hleft : r.left m₁.cur ≠ 0 := by
    rw [← h.left]
    exact fun h0 => ht (UInt8.toNat_inj.mp h0)
  obtain ⟨hr, hturn⟩ := Rota.tick_use (prioritySlice m) r m₁.cur _ h.queue.symm hleft
  refine ⟨?_, hturn⟩
  rw [hr, ← h.left, ← ticks_pred _ ht]
  apply shows_tick m m₁ m₁.useTick r _ r.queue h
  · intro t
    rw [useTick_task]
  · exact h.queue
  · exact fun _ => Iff.rfl
  · exact fun t _ => Machine.useTick_status m₁ t

theorem shows_preempt (m m₁ : Machine) (r : Rota Tid) (next : Tid) (rest : List Tid) (h : Shows m r m₁)
    (ht : (m₁.sched.task m₁.cur).ticks = 0) (hl : m₁.sched.thread_ready_list ++ [m₁.cur] = next :: rest) :
    Shows m (r.tick (prioritySlice m)) (m₁.preempt next rest) ∧ r.turn (prioritySlice m) = [next] := by
  have hleft : r.left m₁.cur = 0 := by
    rw [← h.left, ht]
    rfl
  obtain ⟨hr, hturn⟩ := Rota.tick_end (prioritySlice m) r m₁.cur _ h.queue.symm hleft
  rw [hl] at hr hturn
  refine ⟨?_, hturn⟩
  have hmem (t : Tid) : t ∈ next :: rest ↔ t ∈ r.queue := by
    rw [← hl, ← h.queue, List.mem_append, List.mem_singleton, List.mem_cons, or_comm]
  rw [hr, prioritySlice, ← h.priority]
  apply shows_tick m m₁ (m₁.preempt next rest) r _ (next :: rest) h
  · exact preempt_keeps (fun p => { p with status := .TASK_READY }) (fun _ _ => rfl) m₁ next rest
  · rfl
  · exact hmem
  · intro t hq
    have hnext : t ≠ next := by
      rintro rfl
      exact hq ((hmem t).mp List.mem_cons_self)
    have hc : t ≠ m₁.cur := by
      rintro rfl
      exact hq (h.queue ▸ List.mem_cons_self)
    have hc' : t ≠ m₁.sched.cur := hc
    simp [Machine.preempt, hnext, hc, hc', Machine.tick]

/-! ## Whole runs -/

/-- A call of the handler is one tick of the rota. -/
theorem timer_shows (m m₁ : Machine) (r : Rota Tid) (hi : QueueInv m₁) (h : Shows m r m₁) :
    ∃ m₂, intr_timer_handler m₁ = .ok m₂ ∧ QueueInv m₂ ∧ Shows m (r.tick (prioritySlice m)) m₂ ∧
      dispatched m₁ m₂ = r.turn (prioritySlice m) := by
  have hm := h.magic m₁.cur (h.queue ▸ List.mem_cons_self)
  rcases timer_call m₁ hi hm with ⟨ht, hok⟩ | ⟨ht, next, rest, hl, hok⟩
  · obtain ⟨hs, hturn⟩ := shows_useTick m m₁ r h ht
    refine ⟨_, hok, spec_of_ok _ _ _ (intr_timer_handler_inv m₁ hi) _ hok, hs, ?_⟩
    rw [dispatched, if_neg ht, hturn]
  · obtain ⟨hs, hturn⟩ := shows_preempt m m₁ r next rest h ht hl
    refine ⟨_, hok, spec_of_ok _ _ _ (intr_timer_handler_inv m₁ hi) _ hok, hs, ?_⟩
    rw [dispatched, if_pos ht, hturn]
    rfl

theorem timerRun_shows (m : Machine) (hi : QueueInv m) (hm : Stamped m) (ds : List Tid) (n : Nat) (m' : Machine)
    (h : TimerRun m ds n m') :
    QueueInv m' ∧ Shows m ((Rota.tick (prioritySlice m))^[n] (rota m)) m' ∧
      ds = (rota m).turns (prioritySlice m) n := by
  induction h with
  | start => exact ⟨hi, shows_rota m hi hm, rfl⟩
  | call ds n m₁ m₂ _ hok ih =>
    obtain ⟨hi₁, hs, rfl⟩ := ih
    obtain ⟨m', hok', hi₂, hs', hd⟩ := timer_shows m m₁ _ hi₁ hs
    rw [hok] at hok'
    cases hok'
    rw [Function.iterate_succ_apply', hd]
    exact ⟨hi₂, hs', rfl⟩
  | other ds n m₁ m₂ a evs _ _ hstep hsched ih =>
    obtain ⟨hi₁, hs, hd⟩ := ih
    have hcur : m₂.cur = m₁.cur := by
      unfold Machine.cur
      rw [hsched]
    have hready : m₂.sched.thread_ready_list = m₁.sched.thread_ready_list := by rw [hsched]
    have htask : m₂.sched.task = m₁.sched.task := by rw [hsched]
    refine ⟨spec_of_ok _ _ _ (step_inv m₁ a hi₁) _ hstep, ?_, hd⟩
    refine ⟨by rw [hcur, hready]; exact hs.queue, ?_, ?_, ?_, ?_, ?_⟩ <;> rw [htask]
    · exact hs.left
    · exact hs.used
    · exact hs.priority
    · exact hs.magic
    · exact hs.others

/-- The handler never fails, so a run can go on for any number of calls. -/
theorem timerRun_goes_on (m : Machine) (hi : QueueInv m) (hm : Stamped m) (n : Nat) : ∃ ds m', TimerRun m ds n m' := by
  induction n with
  | zero => exact ⟨[], m, .start⟩
  | succ n ih =>
    obtain ⟨ds, m', h⟩ := ih
    obtain ⟨hi', hs, -⟩ := timerRun_shows m hi hm ds n m' h
    obtain ⟨m'', hok, -⟩ := timer_shows m m' _ hi' hs
    exact ⟨_, m'', .call ds n m' m'' h hok⟩

/-! ## One round -/

/-- The calls of the handler in a round of the running task and the ready ones. -/
def roundTicks (m : Machine) : Nat :=
  ((m.cur :: m.sched.thread_ready_list).map fun t => (m.sched.task t).priority.toNat + 1).sum

theorem shows_status (m m' : Machine) (r : Rota Tid) (hi : QueueInv m) (hi' : QueueInv m') (h : Shows m r m')
    (hcur : m'.cur = m.cur) (hready : m'.sched.thread_ready_list = m.sched.thread_ready_list) (t : Tid) :
    (m'.sched.task t).status = (m.sched.task t).status := by
  by_cases hc : t = m.cur
  · rw [hc, cur_running m hi, ← hcur, cur_running m' hi']
  · by_cases ht : t ∈ m.sched.thread_ready_list
    · have ht' : t ∈ m'.sched.thread_ready_list := hready ▸ ht
      rw [mode_ready _ ((hi.queue.ready_iff t).mp ht).2, mode_ready _ ((hi'.queue.ready_iff t).mp ht').2]
    · apply h.others
      rw [← h.queue, hcur, hready]
      simp [hc, ht]

/-- **Round robin.** In any state that the kernel reaches, with whole slices for the running task and the
ready ones, the handler can be called for a whole round. After it every task is where it was, with a
whole slice again, each has been dispatched once, in the order of the list, and each has been charged
for its own slice. -/
theorem round_robin (log : List Event) (m : Machine) (h : Run.Reach kernel Run.anyStep log m)
    (hfull : ∀ t ∈ m.cur :: m.sched.thread_ready_list, (m.sched.task t).ticks = (m.sched.task t).priority) :
    (∃ ds m', TimerRun m ds (roundTicks m) m') ∧
    ∀ ds m', TimerRun m ds (roundTicks m) m' →
      m'.cur = m.cur ∧ m'.sched.thread_ready_list = m.sched.thread_ready_list ∧
      (∀ t, (m'.sched.task t).status = (m.sched.task t).status ∧ (m'.sched.task t).ticks = (m.sched.task t).ticks) ∧
      ds = m.sched.thread_ready_list ++ [m.cur] ∧
      ∀ t ∈ m.cur :: m.sched.thread_ready_list, (m'.sched.task t).elapsed_ticks =
        (m.sched.task t).elapsed_ticks + UInt32.ofNat ((m.sched.task t).priority.toNat + 1) := by
  have hi := reach_inv log m h
  have hm := reach_stamped log m h
  refine ⟨timerRun_goes_on m hi hm _, fun ds m' hrun => ?_⟩
  obtain ⟨hi', hs, hd⟩ := timerRun_shows m hi hm ds _ m' hrun
  have hleft (t : Tid) (ht : t ∈ (rota m).queue) : (rota m).left t = prioritySlice m t :=
    congrArg UInt8.toNat (hfull t ht)
  obtain ⟨hr, hturns⟩ := Rota.run_round (prioritySlice m) (rota m) hleft
  change (Rota.tick (prioritySlice m))^[roundTicks m] (rota m) = _ at hr
  rw [hr] at hs
  have hqueue : m'.cur :: m'.sched.thread_ready_list = m.cur :: m.sched.thread_ready_list := hs.queue
  obtain ⟨hcur, hready⟩ := List.cons.inj hqueue
  have hnodup : (m.cur :: m.sched.thread_ready_list).Nodup :=
    List.nodup_cons.mpr ⟨cur_not_ready m hi, hi.queue.ready_nodup⟩
  refine ⟨hcur, hready, fun t => ⟨shows_status m m' _ hi hi' hs hcur hready t, ?_⟩, hd.trans hturns, fun t ht => ?_⟩
  · exact UInt8.toNat_inj.mp (hs.left t)
  · have hcount : (rota m).queue.count t = 1 := List.count_eq_one_of_mem hnodup ht
    have hused := hs.used t
    dsimp only at hused
    rw [hcount, Nat.one_mul] at hused
    rw [hused]
    simp [rota, prioritySlice]

/-- A round of the main thread, a thread that has one tick and one that has three. -/
theorem round_robin_three : ∃ log m ds m',
    Run.play kernel Run.anyStep [] zeroed [.thread_start 1 0, .thread_start 2 2] = some (log, m) ∧
    roundTicks m = 36 ∧ TimerRun m ds 36 m' ∧ ds = [1, 2, 0] ∧
    (m'.sched.task 2).elapsed_ticks = (m.sched.task 2).elapsed_ticks + 3 := by
  have hrun : (Run.play kernel Run.anyStep [] zeroed [.thread_start 1 0, .thread_start 2 2]).map (fun r =>
      (r.2.cur :: r.2.sched.thread_ready_list, roundTicks r.2, (r.2.sched.task 2).priority,
        decide (∀ t ∈ r.2.cur :: r.2.sched.thread_ready_list,
          (r.2.sched.task t).ticks = (r.2.sched.task t).priority))) = some ([0, 1, 2], 36, 2, true) := by
    decide +kernel
  obtain ⟨⟨log, m⟩, hp, hm⟩ := Option.map_eq_some_iff.mp hrun
  obtain ⟨hq, hm⟩ := Prod.mk.inj hm
  obtain ⟨hn, hm⟩ := Prod.mk.inj hm
  obtain ⟨hprio, hfull⟩ := Prod.mk.inj hm
  dsimp only at hq hn hprio
  obtain ⟨hcur, hready⟩ := List.cons.inj hq
  obtain ⟨⟨ds, m', hds⟩, hround⟩ := round_robin log m (reach_zeroed _ _ log m hp) (of_decide_eq_true hfull)
  obtain ⟨-, -, -, hlist, helapsed⟩ := hround ds m' hds
  have h2 := helapsed 2 (hq ▸ by simp)
  rw [hn] at hds
  rw [hprio] at h2
  exact ⟨log, m, ds, m', hp, hn, hds, by rw [hlist, hcur, hready]; rfl, h2⟩

end OsLearn
