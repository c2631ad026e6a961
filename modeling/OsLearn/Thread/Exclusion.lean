import OsLearn.Thread.Ownership

/-!
# Mutual exclusion

The semaphore of a lock lets one task through, and `lock_release` never gives the unit back. So the
task that is inside the lock is always the one that got through first, and the counter is its depth.
-/

open OsLearn.Queues

namespace OsLearn

/-- A task calls `lock_release` only inside a nest of its own. -/
def GivesBackOwn (i : Nat) (log : List Event) (m : Machine) (a : Act) : Prop :=
  a = .call (.lock_release i) → releases log m.cur (.lock i) < acquires log m.cur (.lock i)

instance (i : Nat) (log : List Event) (m : Machine) (a : Act) : Decidable (GivesBackOwn i log m a) :=
  inferInstanceAs (Decidable (_ → _))

def inRelease : LockPhase → Bool
  | .release _ => true
  | _ => false

/-- The task is between the return of its outermost `lock_acquire` and the start of the matching
`lock_release`. -/
def Inside (l : LockRef) (log : List Event) (m : Machine) (t : Tid) : Prop :=
  0 < depth log t l ∧ ¬ (depth log t l = 1 ∧ inRelease (lockPhase l (m.stack t)) = true)

theorem neverHeld_depth (l : LockRef) (log : List Event) (m : Machine) (t : Tid)
    (h : NeverHeld (lockState l log m t)) : depth log t l = 0 := by
  obtain ⟨-, ha, -⟩ := h
  have ha : acquires log t l = 0 := ha
  simp [depth, ha]

/-- A task that is in a nest is the holder, and the counter counts its depth. -/
theorem lockInv_depth (R : Nat → Prop) (l : LockRef) (log : List Event) (m : Machine) (t : Tid)
    (h : LockInv R l log m) (hd : 0 < depth log t l) :
    (m.lock l).holder = some t ∧ (m.lock l).holder_repeat_nr = UInt32.ofNat (depth log t l) := by
  have howner := lockInv_owner R l log m t h fun hn => by
    have := neverHeld_depth l log m t hn
    omega
  have hcounts (hh : (lockState l log m t).holder = some t) (hc : Counts (lockState l log m t)) :
      (m.lock l).holder = some t ∧ (m.lock l).holder_repeat_nr = UInt32.ofNat (depth log t l) := ⟨hh, hc.2⟩
  have hzero (ha : (lockState l log m t).acquired = 0) : False := by
    have ha : acquires log t l = 0 := ha
    simp [depth, ha] at hd
  unfold OwnerInv at howner
  split at howner
  · exact (hzero howner.2.2.1).elim
  · exact (hzero howner.2.2.1).elim
  · exact (hzero howner.2.2.1).elim
  · exact hcounts howner.1 howner.2
  · exact hcounts howner.1 howner.2
  · exact hcounts howner.1 howner.2
  · exact hcounts howner.1 howner.2.1
  · exact hcounts howner.1 howner.2.1
  · exact hcounts howner.1 howner.2.1
  · exact hcounts howner.1 howner.2.1
  · exact howner.elim

/-- The counter is 0 when a task that got through the semaphore looks at it. -/
theorem lockInv_check (R : Nat → Prop) (l : LockRef) (log : List Event) (m : Machine) (rest : List Frame)
    (h : LockInv R l log m) (hst : m.stack m.cur = .lock_acquire l .check :: rest) :
    (m.lock l).holder_repeat_nr = 0 := by
  have hp : (lockState l log m m.cur).phase = .acquire .check := by simp [lockState, hst, lockPhase]
  have howner := lockInv_owner R l log m m.cur h fun hn => by
    have := hn.1
    rwa [hp] at this
  simp only [OwnerInv, hp] at howner
  exact howner.2.1

theorem reach_givesBackOwn (i : Nat) (log : List Event) (m : Machine)
    (h : Run.Reach kernel (GivesBackOwn i) log m) : LockInv (0 < ·) (.lock i) log m :=
  reach_lockInv (GivesBackOwn i) (0 < ·) (fun _ hd => hd) i (fun _ _ hb => Nat.sub_pos_of_lt (hb rfl)) log m h

/-- **Mutual exclusion.** In every state of every run in which the tasks give back only what they
hold, at most one task is inside the lock. That task is the holder, and the counter is the depth of
its nest as long as 32 bits can hold it. The check in `lock_acquire` does not fail. -/
theorem lock_exclusion (i : Nat) (log : List Event) (m : Machine)
    (h : Run.Reach kernel (GivesBackOwn i) log m) :
    (∀ t u, Inside (.lock i) log m t → Inside (.lock i) log m u → t = u) ∧
    (∀ t, Inside (.lock i) log m t → (m.lock (.lock i)).holder = some t ∧
      (depth log t (.lock i) < 2 ^ 32 →
        (m.lock (.lock i)).holder_repeat_nr.toNat = depth log t (.lock i))) ∧
    ∀ rest, m.stack m.cur = .lock_acquire (.lock i) .check :: rest →
      ∀ site, step m .run ≠ .error (.panic site) := by
  have hI := reach_givesBackOwn i log m h
  have hdepth (t : Tid) (ht : Inside (.lock i) log m t) := lockInv_depth _ (.lock i) log m t hI ht.1
  refine ⟨?_, ?_, ?_⟩
  · intro t u ht hu
    have := (hdepth t ht).1.symm.trans (hdepth u hu).1
    exact Option.some.inj this
  · intro t ht
    obtain ⟨hh, hn⟩ := hdepth t ht
    refine ⟨hh, fun hlt => ?_⟩
    rw [hn, UInt32.toNat_ofNat', Nat.mod_eq_of_lt hlt]
  · intro rest hst site
    have h0 := lockInv_check _ (.lock i) log m rest hI hst
    simp [step, hst, runFrame, lock_acquire_piece, ASSERT, h0, bind, Except.bind, pure, Except.pure]

/-- The main thread takes the lock twice and blocks at a semaphore, and the next thread waits for
the lock. -/
def secondWaits : List Act :=
  [.thread_start 1 31, .thread_start 2 31] ++ acquireFree ++ [.call (.lock_acquire 0), .run, .run] ++
    [.call (.sema_down 1), .run, .call (.sema_down 1), .run, .run, .call (.lock_acquire 0), .run, .run]

theorem lock_exclusion_waits : ∃ log m, Run.play kernel (GivesBackOwn 0) [] zeroed secondWaits = some (log, m) ∧
    (m.sema (.lock (.lock 0))).waiters = [1] ∧ Inside (.lock 0) log m 0 ∧
    (m.lock (.lock 0)).holder_repeat_nr.toNat = 2 := by
  have h : (Run.play kernel (GivesBackOwn 0) [] zeroed secondWaits).map
      (fun r => ((r.2.sema (.lock (.lock 0))).waiters, depth r.1 0 (.lock 0))) = some ([1], 2) := by decide +kernel
  obtain ⟨⟨log, m⟩, hp, hm⟩ := Option.map_eq_some_iff.mp h
  simp only [Prod.mk.injEq] at hm
  obtain ⟨hw, hd⟩ := hm
  have hin : Inside (.lock 0) log m 0 := by simp [Inside, hd]
  obtain ⟨-, hcount, -⟩ := lock_exclusion 0 log m (reach_zeroed _ _ log m hp)
  refine ⟨log, m, hp, hw, hin, ?_⟩
  rw [(hcount 0 hin).2 (by rw [hd]; decide), hd]

end OsLearn
