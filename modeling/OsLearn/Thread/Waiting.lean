import OsLearn.Lib.Turn
import OsLearn.Thread.Tasks

/-!
# How long a ready task waits

`schedule` takes the first ready task, a task whose slice is over goes to the end, and `thread_unblock` puts the task
that it wakes in front of all the others. So a task can be overtaken, once for each task that is woken.
-/

open OsLearn.Queues

namespace OsLearn

/-! ## The ready list, step by step -/

/-- A task was put in front of the ready list. -/
def PutInFront (m m' : Machine) : Prop :=
  m'.sched.thread_ready_list ≠ [] ∧ m'.sched.thread_ready_list.tail = m.sched.thread_ready_list

instance (m m' : Machine) : Decidable (PutInFront m m') := inferInstanceAs (Decidable (_ ∧ _))

/-- What a step does to the ready list and to the slice of the running task. -/
inductive OnReady (m : Machine) : Act → Machine → Prop
  | quiet (a : Act) (m' : Machine) (more : List Tid) : a ≠ .timer → m'.cur = m.cur →
      (m'.sched.task m.cur).ticks = (m.sched.task m.cur).ticks →
      m'.sched.thread_ready_list = m.sched.thread_ready_list ++ more → OnReady m a m'
  | tick (m' : Machine) : m'.cur = m.cur → (m.sched.task m.cur).ticks ≠ 0 →
      (m'.sched.task m.cur).ticks = (m.sched.task m.cur).ticks - 1 →
      m'.sched.thread_ready_list = m.sched.thread_ready_list → OnReady m .timer m'
  | switch (a : Act) (m' : Machine) (next : Tid) (tl more : List Tid) : m'.cur = next →
      m.sched.thread_ready_list = next :: tl → m'.sched.thread_ready_list = tl ++ more → OnReady m a m'
  | front (a : Act) (m' : Machine) (t : Tid) : a ≠ .timer → m'.cur = m.cur →
      (m'.sched.task m.cur).ticks = (m.sched.task m.cur).ticks →
      m'.sched.thread_ready_list = t :: m.sched.thread_ready_list → OnReady m a m'

theorem moves_onReady (m m' : Machine) (a : Act) (evs : List Event) (hi : QueueInv m) (hmv : Moves m a m' evs)
    (hne : m.sched.thread_ready_list ≠ []) : OnReady m a m' := by
  have hwake (a : Act) (m' : Machine) (t : Tid) (ha : a ≠ .timer) (hs : m'.sched = m.sched.wakeTask t) :
      OnReady m a m' := by
    refine .front a m' t ha ?_ ?_ ?_
    · rw [Machine.cur, hs]
      rfl
    · rw [hs]
      exact wakeTask_keeps TaskStruct.ticks (fun _ _ => rfl) m.sched t m.cur
    · rw [hs]
      rfl
  cases hmv with
  | call c =>
    cases c <;> exact .quiet _ _ [] (by simp) rfl rfl (List.append_nil _).symm
  | down_wait s o rest next tl _ _ hl =>
    refine .switch _ _ next tl [] rfl hl ?_
    cases o <;> exact (List.append_nil tl).symm
  | get_wait q rest next tl _ _ hl | put_wait q byte rest next tl _ _ hl =>
    exact .switch _ _ next tl [] rfl hl (List.append_nil tl).symm
  | up_wake s rest t | release_up_wake l rest t | get_wake q rest t | put_wake q byte rest t =>
    exact hwake _ _ t (by simp) rfl
  | key_wake q byte t => exact hwake _ _ t (by simp) rfl
  | tick _ ht =>
    refine .tick _ rfl ht ?_ rfl
    rw [useTick_task, Function.update_self]
  | preempt next rest _ _ hl =>
    obtain ⟨u, tl, hready⟩ := List.exists_cons_of_ne_nil hne
    rw [hready, List.cons_append] at hl
    obtain ⟨rfl, rfl⟩ := List.cons.inj hl
    exact .switch _ _ u tl [m.cur] rfl hready rfl
  | create t prio lock sem _ _ hnew _ =>
    have hcur : m.cur ≠ t := by
      rintro rfl
      exact hnew hi.queue.cur_mem
    refine .quiet _ _ [t] (by simp) rfl ?_ rfl
    exact congrArg TaskStruct.ticks (Function.update_of_ne hcur _ _)
  | _ => exact .quiet _ _ [] (by simp) rfl rfl (List.append_nil _).symm

/-! ## The turn of a task -/

/-- How many tasks are in front of a ready task. -/
def ahead (t : Tid) (m : Machine) : Nat := m.sched.thread_ready_list.idxOf t

def turn (t : Tid) (m : Machine) : Turn where
  ahead := ahead t m
  left := (m.sched.task m.cur).ticks.toNat

/-- The steps of a run while a task stays in the ready list, with the timer interrupts, the switches, and the tasks
that were put in front of the list. -/
inductive WaitsReady (t : Tid) (m : Machine) : Nat → Nat → Nat → Machine → Prop
  | start : t ∈ m.sched.thread_ready_list → WaitsReady t m 0 0 0 m
  | step (timers switches fronts : Nat) (m₁ : Machine) (a : Act) (m₂ : Machine) (evs : List Event) :
      WaitsReady t m timers switches fronts m₁ → OsLearn.step m₁ a = .ok (m₂, evs) →
      t ∈ m₂.sched.thread_ready_list →
      WaitsReady t m (timers + (decide (a = .timer)).toNat) (switches + (decide (m₂.cur ≠ m₁.cur)).toNat)
        (fronts + (decide (PutInFront m₁ m₂)).toNat) m₂

theorem tail_append_ne (l more : List Tid) (hne : l ≠ []) (hnodup : (l ++ more).Nodup) : (l ++ more).tail ≠ l := by
  obtain ⟨x, xs, rfl⟩ := List.exists_cons_of_ne_nil hne
  rw [List.cons_append, List.nodup_cons] at hnodup
  intro htail
  have htail : xs ++ more = x :: xs := htail
  rw [htail] at hnodup
  exact hnodup.1 List.mem_cons_self

theorem step_turn (t : Tid) (m m' : Machine) (a : Act) (evs : List Event) (hi : QueueInv m) (hi' : QueueInv m')
    (hs : step m a = .ok (m', evs)) (ht : t ∈ m.sched.thread_ready_list) (ht' : t ∈ m'.sched.thread_ready_list) :
    Turn.Step 256 (turn t m) (decide (a = .timer)) (decide (m'.cur ≠ m.cur)) (decide (PutInFront m m'))
      (turn t m') := by
  have hmv := spec_of_ok _ _ _ (step_moves m a hi) (m', evs) hs
  have hne := List.ne_nil_of_mem ht
  have hnodup : m'.sched.thread_ready_list.Nodup := hi'.queue.ready_nodup
  have hbehind (more : List Tid) (hready : m'.sched.thread_ready_list = m.sched.thread_ready_list ++ more) :
      ¬ PutInFront m m' := by
    rintro ⟨-, htail⟩
    rw [hready] at htail hnodup
    exact tail_append_ne _ more hne hnodup htail
  cases moves_onReady m m' a evs hi hmv hne with
  | quiet _ _ more ha hcur hticks hready =>
    have hturn : turn t m' = turn t m := by
      unfold turn ahead
      rw [hready, hcur, hticks, List.idxOf_append_of_mem ht]
    rw [decide_eq_false ha, decide_eq_false (not_not.mpr hcur), decide_eq_false (hbehind more hready), hturn]
    exact .quiet
  | tick _ hcur hleft hticks hready =>
    have hturn : turn t m' = { turn t m with left := (turn t m).left - 1 } := by
      unfold turn ahead
      rw [hready, hcur, hticks, ticks_pred _ hleft]
    have hfront := hbehind [] (by rw [hready, List.append_nil])
    rw [decide_eq_true rfl, decide_eq_false (not_not.mpr hcur), decide_eq_false hfront, hturn]
    exact .tick fun hzero => hleft (UInt8.toNat_inj.mp hzero)
  | switch _ _ next tl more hcur hready hready' =>
    have hnew : next ∉ m'.sched.thread_ready_list := hcur ▸ cur_not_ready m' hi'
    have hswitch : m'.cur ≠ m.cur := by
      intro heq
      apply cur_not_ready m hi
      rw [← heq, hcur, hready]
      exact List.mem_cons_self
    have hfront : ¬ PutInFront m m' := by
      rintro ⟨-, htail⟩
      apply hnew
      apply List.mem_of_mem_tail
      rw [htail, hready]
      exact List.mem_cons_self
    have htl : t ∈ tl := by
      rw [hready] at ht
      refine (List.mem_cons.mp ht).resolve_left ?_
      rintro rfl
      exact hnew ht'
    have hahead : ahead t m = ahead t m' + 1 := by
      have hother : next ≠ t := by
        rintro rfl
        exact hnew ht'
      unfold ahead
      rw [hready, hready', List.idxOf_cons_ne _ hother, List.idxOf_append_of_mem htl]
    rw [decide_eq_true hswitch, decide_eq_false hfront]
    exact .serve _ _ _ hahead (UInt8.toNat_lt _)
  | front _ _ u ha hcur hticks hready =>
    have hnew : u ≠ t := by
      rintro rfl
      rw [hready] at hnodup
      exact (List.nodup_cons.mp hnodup).1 ht
    have hturn : turn t m' = { turn t m with ahead := (turn t m).ahead + 1 } := by
      unfold turn ahead
      rw [hready, hcur, hticks, List.idxOf_cons_ne _ hnew]
    have hfront : PutInFront m m' := by
      unfold PutInFront
      rw [hready]
      exact ⟨List.cons_ne_nil _ _, rfl⟩
    rw [decide_eq_false ha, decide_eq_false (not_not.mpr hcur), decide_eq_true hfront, hturn]
    exact .front

/-! ## Whole waits -/

theorem waitsReady_turn (t : Tid) (log : List Event) (m m' : Machine) (timers switches fronts : Nat)
    (h : Run.Reach kernel Run.anyStep log m) (hw : WaitsReady t m timers switches fronts m') :
    (∃ log', Run.Reach kernel Run.anyStep log' m') ∧ t ∈ m'.sched.thread_ready_list ∧
    Turn.Waits 256 (turn t m) timers switches fronts (turn t m') := by
  induction hw with
  | start ht => exact ⟨⟨log, h⟩, ht, .nil⟩
  | step timers switches fronts m₁ a m₂ evs _ hs ht' ih =>
    obtain ⟨⟨log₁, h₁⟩, ht, hturns⟩ := ih
    have h₂ : Run.Reach kernel Run.anyStep (log₁ ++ evs) m₂ := .step log₁ m₁ a m₂ evs h₁ trivial hs
    have hturn := step_turn t m₁ m₂ a evs (reach_inv log₁ m₁ h₁) (reach_inv _ m₂ h₂) hs ht ht'
    exact ⟨⟨_, h₂⟩, ht', .step timers switches fronts _ _ _ _ _ hturns hturn⟩

/-- **A ready task waits for its turn.** While a task is in the ready list its place goes down with every switch and
up with every task that is woken, and with nothing else. Each place costs at most 256 timer interrupts. The task
leaves the list only to run. -/
theorem ready_wait_bounded (t : Tid) (log : List Event) (m m' : Machine) (timers switches fronts : Nat)
    (h : Run.Reach kernel Run.anyStep log m) (hw : WaitsReady t m timers switches fronts m') :
    ahead t m' + switches = ahead t m + fronts ∧
    timers + (m'.sched.task m'.cur).ticks.toNat + 256 * ahead t m' ≤
      (m.sched.task m.cur).ticks.toNat + 256 * (ahead t m + fronts) ∧
    ∀ a m'' evs, step m' a = .ok (m'', evs) → t ∉ m''.sched.thread_ready_list → m''.cur = t := by
  obtain ⟨⟨log', h'⟩, ht, hturns⟩ := waitsReady_turn t log m m' timers switches fronts h hw
  obtain ⟨hahead, hticks⟩ := Turn.waits_counts 256 _ _ timers switches fronts hturns
  refine ⟨hahead, hticks, fun a m'' evs hs hno => ?_⟩
  have hi := reach_inv log' m' h'
  have hmv := spec_of_ok _ _ _ (step_moves m' a hi) (m'', evs) hs
  cases moves_onReady m' m'' a evs hi hmv (List.ne_nil_of_mem ht) with
  | quiet _ _ more _ _ _ hready =>
    rw [hready] at hno
    exact absurd (List.mem_append_left more ht) hno
  | tick _ _ _ _ hready => exact absurd (hready ▸ ht) hno
  | switch _ _ next tl more hcur hready hready' =>
    rw [hready', List.mem_append, not_or] at hno
    rw [hready] at ht
    exact hcur.trans ((List.mem_cons.mp ht).resolve_right hno.1).symm
  | front _ _ u _ _ _ hready =>
    rw [hready] at hno
    exact absurd (List.mem_cons_of_mem u ht) hno

/-- The wait of a list of actions. -/
def playReady (t : Tid) : Nat × Nat × Nat → Machine → List Act → Option ((Nat × Nat × Nat) × Machine)
  | counts, m, [] => some (counts, m)
  | (timers, switches, fronts), m, a :: as =>
    match step m a with
    | .ok (m', _) =>
      if t ∈ m'.sched.thread_ready_list then
        playReady t (timers + (decide (a = .timer)).toNat, switches + (decide (m'.cur ≠ m.cur)).toNat,
          fronts + (decide (PutInFront m m')).toNat) m' as
      else none
    | .error _ => none

theorem waitsReady_play (t : Tid) (m₀ : Machine) (acts : List Act) (counts counts' : Nat × Nat × Nat) (m m' : Machine)
    (h : WaitsReady t m₀ counts.1 counts.2.1 counts.2.2 m) (hp : playReady t counts m acts = some (counts', m')) :
    WaitsReady t m₀ counts'.1 counts'.2.1 counts'.2.2 m' := by
  induction acts generalizing counts m with
  | nil =>
    obtain ⟨rfl, rfl⟩ := Prod.mk.inj (Option.some.inj hp)
    exact h
  | cons a as ih =>
    obtain ⟨timers, switches, fronts⟩ := counts
    simp only [playReady] at hp
    split at hp
    · next m₁ evs hs =>
      split at hp
      · next ht => exact ih _ m₁ (.step timers switches fronts m a m₁ evs h hs ht) hp
      · cases hp
    · cases hp

def startTwo : List Act := [.thread_start 1 31, .thread_start 2 31]

/-- The main thread blocks, and the next task wakes it. -/
def overtaken : List Act :=
  [.call (.sema_down 0), .run, .call (.sema_down 0), .run, .run, .timer, .call (.sema_up 0), .run]

theorem ready_wait_bounded_two : ∃ log m m', Run.play kernel Run.anyStep [] zeroed startTwo = some (log, m) ∧
    playReady 2 (0, 0, 0) m overtaken = some ((1, 1, 1), m') ∧ ahead 2 m = 1 ∧ ahead 2 m' = 1 := by
  have h : (Run.play kernel Run.anyStep [] zeroed startTwo).bind (fun r =>
      (playReady 2 (0, 0, 0) r.2 overtaken).map fun w => (r.2.sched.thread_ready_list, w.1)) =
      some ([1, 2], (1, 1, 1)) := by decide +kernel
  obtain ⟨⟨log, m⟩, hp, hw⟩ := Option.bind_eq_some_iff.mp h
  obtain ⟨⟨counts, m'⟩, hplay, hcounts⟩ := Option.map_eq_some_iff.mp hw
  obtain ⟨hready, rfl⟩ := Prod.mk.inj hcounts
  have hstart : ahead 2 m = 1 := by
    unfold ahead
    rw [hready]
    rfl
  have ht : 2 ∈ m.sched.thread_ready_list := by
    rw [hready]
    decide
  have hwaits := waitsReady_play 2 m overtaken (0, 0, 0) (1, 1, 1) m m' (.start ht) hplay
  obtain ⟨hahead, -⟩ := ready_wait_bounded 2 log m m' 1 1 1 (reach_zeroed _ startTwo log m hp) hwaits
  exact ⟨log, m, m', hp, hplay, hstart, by omega⟩

end OsLearn
