import OsLearn.Thread.Tasks
import Mathlib.Algebra.BigOperators.Group.List.Lemmas
import Mathlib.Data.Nat.ModEq

/-!
# Time accounting

A slice is charged tick by tick, and only the timer gives a new one. So a task that blocks and is woken
goes on with the slice it had.
-/

open OsLearn.Queues

namespace OsLearn

/-! ## Slices -/

/-- The slice of a task is the rest of its priority. -/
def SlicesFit (m : Machine) : Prop :=
  ∀ t ∈ m.sched.thread_all_list, (m.sched.task t).ticks ≤ (m.sched.task t).priority

theorem onTasks_slices (m m' : Machine) (a : Act) (h : SlicesFit m) (ht : OnTasks m a m') : SlicesFit m' := by
  cases ht with
  | same _ _ _ hs =>
    intro t ht
    rw [hs.keeps m m' TaskStruct.ticks (fun _ _ => rfl), hs.keeps m m' TaskStruct.priority (fun _ _ => rfl)]
    exact h t (hs.all ▸ ht)
  | tick h0 =>
    intro t ht
    rw [useTick_task]
    by_cases hc : t = m.cur
    · subst hc
      rw [Function.update_self, UInt8.le_iff_toNat_le, ticks_pred _ h0]
      exact Nat.le_trans (Nat.sub_le _ _) (UInt8.le_iff_toNat_le.mp (h _ ht))
    · rw [Function.update_of_ne hc]
      exact h t ht
  | preempt next rest =>
    intro t ht
    rw [preempt_keeps TaskStruct.ticks (fun _ _ => rfl), preempt_keeps TaskStruct.priority (fun _ _ => rfl)]
    by_cases hc : t = m.cur
    · subst hc
      rw [Function.update_self]
      exact UInt8.le_refl _
    · rw [Function.update_of_ne hc]
      exact h t ht
  | create t prio lock sem =>
    intro u hu
    have hu : u ∈ m.sched.thread_all_list ++ [t] := hu
    show (Function.update m.sched.task t _ u).ticks ≤ (Function.update m.sched.task t _ u).priority
    by_cases hut : u = t
    · subst hut
      rw [Function.update_self]
      exact UInt8.le_refl _
    · rw [Function.update_of_ne hut]
      exact h u (by simpa [hut] using hu)

/-! ## The clock -/

/-- The ticks that the tasks have had, all together. -/
def totalElapsed (m : Machine) : Nat :=
  (m.sched.thread_all_list.map fun t => (m.sched.task t).elapsed_ticks.toNat).sum

/-- The tasks have had as many ticks as there were. -/
def ClockAgrees (m : Machine) : Prop := totalElapsed m ≡ m.ticks.toNat [MOD 2 ^ 32]

theorem ticks_succ (k : UInt32) : (k + 1).toNat ≡ k.toNat + 1 [MOD 2 ^ 32] := by
  rw [UInt32.toNat_add]
  exact Nat.mod_modEq _ _

/-- One more on one of the tasks is one more in all. -/
theorem sum_charge (all : List Tid) (hn : all.Nodup) (c : Tid) (hc : c ∈ all) (f f' : Tid → Nat)
    (hf : f' c ≡ f c + 1 [MOD 2 ^ 32]) (hother : ∀ t, t ≠ c → f' t = f t) :
    (all.map f').sum ≡ (all.map f).sum + 1 [MOD 2 ^ 32] := by
  rw [← List.sum_map_erase f hc, ← List.sum_map_erase f' hc]
  have hrest : (all.erase c).map f' = (all.erase c).map f := by
    apply List.map_congr_left
    intro t ht
    exact hother t (List.Nodup.mem_erase_iff hn |>.mp ht).1
  rw [hrest, Nat.add_right_comm]
  exact hf.add_right _

theorem charge_clock (m m' : Machine) (hi : QueueInv m) (h : ClockAgrees m)
    (hall : m'.sched.thread_all_list = m.sched.thread_all_list) (hticks : m'.ticks = m.ticks + 1)
    (hcur : (m'.sched.task m.cur).elapsed_ticks = (m.sched.task m.cur).elapsed_ticks + 1)
    (hother : ∀ t, t ≠ m.cur → (m'.sched.task t).elapsed_ticks = (m.sched.task t).elapsed_ticks) :
    ClockAgrees m' := by
  unfold ClockAgrees totalElapsed
  rw [hall, hticks]
  calc (m.sched.thread_all_list.map fun t => (m'.sched.task t).elapsed_ticks.toNat).sum
      ≡ totalElapsed m + 1 [MOD 2 ^ 32] := by
        apply sum_charge _ hi.queue.all_nodup m.cur hi.queue.cur_mem
        · rw [hcur]
          exact ticks_succ _
        · exact fun t ht => by rw [hother t ht]
    _ ≡ m.ticks.toNat + 1 [MOD 2 ^ 32] := h.add_right 1
    _ ≡ (m.ticks + 1).toNat [MOD 2 ^ 32] := (ticks_succ _).symm

theorem onTasks_clock (m m' : Machine) (a : Act) (hi : QueueInv m) (h : ClockAgrees m) (ht : OnTasks m a m') :
    ClockAgrees m' := by
  cases ht with
  | same _ _ _ hs =>
    unfold ClockAgrees totalElapsed
    simp only [hs.keeps m m' TaskStruct.elapsed_ticks (fun _ _ => rfl), hs.all, hs.ticks]
    exact h
  | tick =>
    apply charge_clock m m.useTick hi h rfl rfl
    · rw [useTick_task, Function.update_self]
    · exact fun t ht => by rw [useTick_task, Function.update_of_ne ht]
  | preempt next rest =>
    apply charge_clock m (m.preempt next rest) hi h rfl rfl
    · rw [preempt_keeps TaskStruct.elapsed_ticks (fun _ _ => rfl), Function.update_self]
    · exact fun t ht => by
        rw [preempt_keeps TaskStruct.elapsed_ticks (fun _ _ => rfl), Function.update_of_ne ht]
  | create t prio lock sem hnew =>
    -- the new task starts with none
    unfold ClockAgrees totalElapsed
    have hold : ∀ u ∈ m.sched.thread_all_list, ((((m.takePid lock sem).addTask t prio
        (m.sched.next_pid + 1)).sched.task u).elapsed_ticks.toNat) = (m.sched.task u).elapsed_ticks.toNat := by
      intro u hu
      have hne : u ≠ t := fun he => hnew (he ▸ hu)
      show (Function.update m.sched.task t _ u).elapsed_ticks.toNat = _
      rw [Function.update_of_ne hne]
    have hnone : ((((m.takePid lock sem).addTask t prio (m.sched.next_pid + 1)).sched.task
        t).elapsed_ticks.toNat) = 0 := by
      show (Function.update m.sched.task t _ t).elapsed_ticks.toNat = 0
      rw [Function.update_self]
      rfl
    show ((m.sched.thread_all_list ++ [t]).map _).sum ≡ m.ticks.toNat [MOD 2 ^ 32]
    rw [List.map_append, List.sum_append, List.map_congr_left hold, List.map_singleton, List.sum_singleton, hnone]
    exact h

/-! ## From one preemption to the next -/

/-- The step is a timer interrupt while `t` runs. -/
def receives (t : Tid) (p : Machine × Act) : Bool := p.2 = .timer ∧ p.1.cur = t

/-- The slice of `t` is over at the interrupt: the handler calls `schedule`. -/
def preempted (t : Tid) (p : Machine × Act) : Bool := receives t p ∧ (p.1.sched.task t).ticks = 0

def left (m : Machine) (t : Tid) : Nat := (m.sched.task t).ticks.toNat

/-- A tick uses up one of the slice, and nothing else touches it. -/
theorem onTasks_left (m m' : Machine) (a : Act) (t : Tid) (hall : t ∈ m.sched.thread_all_list)
    (ht : OnTasks m a m') (hp : preempted t (m, a) = false) :
    t ∈ m'.sched.thread_all_list ∧ left m' t + (if receives t (m, a) then 1 else 0) = left m t := by
  cases ht with
  | same _ _ htimer hs =>
    refine ⟨hs.all ▸ hall, ?_⟩
    have hr : receives t (m, a) = false := by simp [receives, htimer]
    rw [hr, left, left, hs.keeps m m' TaskStruct.ticks (fun _ _ => rfl)]
    simp
  | tick h0 =>
    refine ⟨hall, ?_⟩
    unfold left
    rw [useTick_task]
    by_cases hc : t = m.cur
    · subst hc
      have hr : receives m.cur (m, .timer) = true := by simp [receives]
      have hk : (m.sched.task m.cur).ticks.toNat ≠ 0 := fun h => h0 (UInt8.toNat_inj.mp h)
      rw [hr, Function.update_self, ticks_pred _ h0, if_pos rfl]
      omega
    · have hr : receives t (m, .timer) = false := by simp [receives, Ne.symm hc]
      rw [hr, Function.update_of_ne hc]
      simp
  | preempt next rest h0 =>
    refine ⟨hall, ?_⟩
    have hc : t ≠ m.cur := by
      rintro rfl
      simp [preempted, receives, h0] at hp
    have hr : receives t (m, .timer) = false := by simp [receives, Ne.symm hc]
    rw [hr, left, left, preempt_keeps TaskStruct.ticks (fun _ _ => rfl), Function.update_of_ne hc]
    simp
  | create u prio lock sem hnew =>
    have hne : t ≠ u := fun he => hnew (he ▸ hall)
    refine ⟨List.mem_append_left _ hall, ?_⟩
    have hr : receives t (m, .thread_start u prio) = false := by simp [receives]
    rw [hr]
    show (Function.update m.sched.task u _ t).ticks.toNat + 0 = _
    rw [Function.update_of_ne hne]
    rfl

theorem part_left (log : List Event) (m m' : Machine) (t : Tid) (h : Run.Reach kernel Run.anyStep log m)
    (hall : t ∈ m.sched.thread_all_list) (steps : List (Machine × Act)) (hp : Run.Part kernel m steps m')
    (hnone : ∀ p ∈ steps, preempted t p = false) :
    t ∈ m'.sched.thread_all_list ∧ left m' t + steps.countP (receives t) = left m t := by
  induction hp with
  | nil => exact ⟨hall, rfl⟩
  | step steps m₁ a m₂ evs hpart hs ih =>
    obtain ⟨hall₁, hleft⟩ := ih fun p hp => hnone p (List.mem_append_left _ hp)
    obtain ⟨log₁, hr₁⟩ := Run.reach_part kernel log m steps m₁ h hpart
    have hmv := spec_of_ok _ _ _ (step_moves m₁ a (reach_inv log₁ m₁ hr₁)) _ hs
    have hlast := hnone (m₁, a) (List.mem_append_right _ (List.mem_singleton_self _))
    obtain ⟨hall₂, hstep⟩ := onTasks_left m₁ m₂ a t hall₁ (moves_onTasks _ _ _ _ hmv) hlast
    refine ⟨hall₂, ?_⟩
    rw [List.countP_append, List.countP_singleton]
    omega

/-! ## Every state of a run -/

theorem started_accounts (main : Tid) (intr : Bool) (task : Tid → TaskStruct) (value : Nat → UInt8)
    (buf : Nat → Nat → UInt8) :
    SlicesFit (started main intr task value buf) ∧ ClockAgrees (started main intr task value buf) := by
  have hall : (started main intr task value buf).sched.thread_all_list = [main] := rfl
  have hmain : (started main intr task value buf).sched.task main =
      { pid := 1, status := .TASK_RUNNING, priority := 31, ticks := 31, elapsed_ticks := 0, pgdir := 0,
        stack_magic := 0x19851122 } := by
    simp [started, init_thread, Machine.takePid, Machine.setSema, Machine.setLock, boot]
    decide
  constructor
  · intro t ht
    rw [hall, List.mem_singleton] at ht
    rw [ht, hmain]
    exact UInt8.le_refl _
  · unfold ClockAgrees totalElapsed
    rw [hall, List.map_singleton, hmain]
    rfl

theorem reach_accounts (log : List Event) (m : Machine) (h : Run.Reach kernel Run.anyStep log m) :
    SlicesFit m ∧ ClockAgrees m := by
  refine reach_moves Run.anyStep (fun _ m => SlicesFit m ∧ ClockAgrees m) ?_ ?_ log m h
  · exact started_accounts
  · intro log m a m' evs hi ⟨hfit, hclock⟩ _ hmv
    have ht := moves_onTasks m m' a evs hmv
    exact ⟨onTasks_slices m m' a hfit ht, onTasks_clock m m' a hi hclock ht⟩

/-- **Time accounting.** In every state that the kernel reaches no task has more of its slice left than
its priority, and from there on it gets at most one tick more than its priority before the handler
takes the processor from it, whenever it blocks and is woken. The ticks of all tasks add up to those
of the clock. -/
theorem time_accounting (log : List Event) (m : Machine) (h : Run.Reach kernel Run.anyStep log m) :
    (∀ t ∈ m.sched.thread_all_list, (m.sched.task t).ticks ≤ (m.sched.task t).priority) ∧
    (∀ t ∈ m.sched.thread_all_list, ∀ steps p m', Run.Part kernel m (steps ++ [p]) m' →
      (∀ q ∈ steps, preempted t q = false) →
      (steps ++ [p]).countP (receives t) ≤ (m.sched.task t).priority.toNat + 1) ∧
    totalElapsed m ≡ m.ticks.toNat [MOD 2 ^ 32] := by
  obtain ⟨hfit, hclock⟩ := reach_accounts log m h
  refine ⟨hfit, fun t ht steps p m' hp hnone => ?_, hclock⟩
  obtain ⟨hsteps, -⟩ := Run.part_last kernel m m' steps p hp
  obtain ⟨-, hleft⟩ := part_left log m p.1 t h ht steps hsteps hnone
  have hle : left m t ≤ (m.sched.task t).priority.toNat := UInt8.le_iff_toNat_le.mp (hfit t ht)
  have hlast : [p].countP (receives t) ≤ 1 := List.countP_le_length
  rw [List.countP_append]
  omega

/-- The main thread is interrupted once, beside a thread that has 256 stored as its priority. -/
theorem time_accounting_two : ∃ log m m',
    Run.play kernel Run.anyStep [] zeroed [.thread_start 1 256, .call .intr_enable] = some (log, m) ∧
    step m .timer = .ok (m', []) ∧ (m.sched.task 1).ticks ≤ (m.sched.task 1).priority ∧
    [(m, Act.timer)].countP (receives 0) ≤ 32 ∧ totalElapsed m' ≡ 1 [MOD 2 ^ 32] := by
  have hrun : (Run.play kernel Run.anyStep [] zeroed [.thread_start 1 256, .call .intr_enable]).map (fun r =>
      (decide (0 ∈ r.2.sched.thread_all_list), decide (1 ∈ r.2.sched.thread_all_list),
        (r.2.sched.task 0).priority, (step r.2 .timer).toOption.map fun r => (r.1.ticks, r.2.length))) =
      some (true, true, 31, some (1, 0)) := by
    decide +kernel
  obtain ⟨⟨log, m⟩, hp, hm⟩ := Option.map_eq_some_iff.mp hrun
  obtain ⟨h0, hm⟩ := Prod.mk.inj hm
  obtain ⟨h1, hm⟩ := Prod.mk.inj hm
  obtain ⟨hprio, hm⟩ := Prod.mk.inj hm
  dsimp only at h0 h1 hprio hm
  have hr := reach_zeroed _ _ log m hp
  cases hs : step m .timer with
  | error e =>
    rw [hs] at hm
    cases hm
  | ok r =>
    obtain ⟨m', evs⟩ := r
    rw [hs] at hm
    obtain ⟨hticks, hevs⟩ := Prod.mk.inj (Option.some.inj hm)
    obtain rfl := List.length_eq_zero_iff.mp hevs
    obtain ⟨hfit, hslice, -⟩ := time_accounting log m hr
    obtain ⟨-, -, hclock⟩ := time_accounting _ m' (.step log m Act.timer m' [] hr trivial hs)
    have hpart := Run.Part.step [] m Act.timer m' [] (Run.Part.nil (S := kernel)) hs
    have hbound := hslice 0 (of_decide_eq_true h0) [] (m, .timer) m' hpart (by simp)
    rw [hprio] at hbound
    dsimp only at hticks
    rw [hticks] at hclock
    exact ⟨log, m, m', hp, hs, hfit 1 (of_decide_eq_true h1), hbound, hclock⟩

end OsLearn
