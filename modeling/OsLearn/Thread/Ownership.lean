import OsLearn.Thread.Locks
import Mathlib.Algebra.Group.Nat.Defs

/-!
# Who owns a lock

`lock_release` takes its early return whenever the counter is not 0, also when it is 1. So the lock
stays with the first task that got it, and the counter follows the depth of that task's nest.
-/

open OsLearn.Queues

namespace OsLearn

/-! ## The invariant of a lock -/

/-- The phases of a task that is not past the semaphore of the lock. -/
def Outside : LockPhase → Prop
  | .idle | .acquire .entry | .down => True
  | _ => False

def NeverHeld (s : LockState) : Prop := Outside s.phase ∧ s.acquired = 0 ∧ s.released = 0

/-- The counter is the depth of the nest, as far as 32 bits go. -/
def Counts (s : LockState) : Prop :=
  s.released ≤ s.acquired ∧ s.holder_repeat_nr = UInt32.ofNat (s.acquired - s.released)

/-- The task that got through the semaphore. -/
def OwnerInv (R : Nat → Prop) (u : Tid) (s : LockState) : Prop :=
  match s.phase with
  | .acquire .taken => s.holder = none ∧ s.holder_repeat_nr = 0 ∧ s.acquired = 0 ∧ s.released = 0
  | .acquire .check | .acquire .first =>
    s.holder = some u ∧ s.holder_repeat_nr = 0 ∧ s.acquired = 0 ∧ s.released = 0
  | .idle | .acquire .entry | .acquire .again => s.holder = some u ∧ Counts s
  | .release .entry | .release .test => s.holder = some u ∧ Counts s ∧ R (s.acquired - s.released)
  | .release .again => s.holder = some u ∧ Counts s ∧ R (s.acquired - s.released) ∧ s.holder_repeat_nr ≠ 0
  | .release .last => s.holder = some u ∧ Counts s ∧ R (s.acquired - s.released) ∧ s.holder_repeat_nr = 0
  | _ => False

def Untouched (l : LockRef) (log : List Event) (m : Machine) : Prop :=
  (m.sema (.lock l)).value = 1 ∧ (m.lock l).holder = none ∧ (m.lock l).holder_repeat_nr = 0 ∧
  ∀ t, NeverHeld (lockState l log m t)

/-- Task `u` has the lock, and nobody else ever had it. -/
def Owned (R : Nat → Prop) (l : LockRef) (log : List Event) (m : Machine) (u : Tid) : Prop :=
  (m.sema (.lock l)).value = 0 ∧ OwnerInv R u (lockState l log m u) ∧
  ∀ t, t ≠ u → NeverHeld (lockState l log m t)

def LockInv (R : Nat → Prop) (l : LockRef) (log : List Event) (m : Machine) : Prop :=
  Untouched l log m ∨ ∃ u, Owned R l log m u

/-! ## One step -/

theorem counts_acquire (s : LockState) (p : LockPhase) (h : Counts s) :
    Counts { s with phase := p, holder_repeat_nr := s.holder_repeat_nr + 1, acquired := s.acquired + 1 } := by
  obtain ⟨hle, hn⟩ := h
  refine ⟨by simp only; omega, ?_⟩
  simp only
  rw [hn, Nat.sub_add_comm hle, UInt32.ofNat_add]
  rfl

theorem counts_release (s : LockState) (p : LockPhase) (h : Counts s) (hd : 0 < s.acquired - s.released) :
    Counts { s with phase := p, holder_repeat_nr := s.holder_repeat_nr - 1, released := s.released + 1 } := by
  obtain ⟨hle, hn⟩ := h
  refine ⟨by simp only; omega, ?_⟩
  obtain ⟨d, hd⟩ : ∃ d, s.acquired - s.released = d + 1 := ⟨s.acquired - s.released - 1, by omega⟩
  have hd' : s.acquired - (s.released + 1) = d := by omega
  simp only
  rw [hn, hd, hd', UInt32.ofNat_add]
  simp

theorem ownerInv_step (R : Nat → Prop) (hpos : ∀ d, R d → 0 < d) (u : Tid) (s s' : LockState)
    (h : OwnerInv R u s) (hv : s.value = 0) (hs : LockStep R u s s') : OwnerInv R u s' ∧ s'.value = 0 := by
  unfold OwnerInv at h
  cases hs with
  | stay => exact ⟨h, hv⟩
  | acquire_call hp => simp only [hp] at h; exact ⟨h, hv⟩
  | own hp => simp only [hp] at h; exact ⟨h, hv⟩
  | want hp hh => simp only [hp] at h; exact absurd h.1 hh
  | again hp => simp only [hp] at h; exact ⟨⟨h.1, counts_acquire s .idle h.2⟩, hv⟩
  | take hp => simp only [hp] at h
  | taken hp => simp only [hp] at h; exact ⟨⟨rfl, h.2⟩, hv⟩
  | check hp => simp only [hp] at h; exact ⟨h, hv⟩
  | first hp =>
    simp only [hp] at h
    obtain ⟨hh, -, ha, hr⟩ := h
    refine ⟨⟨hh, ?_, ?_⟩, hv⟩
    · simp [hr]
    · simp only [ha, hr]
      rfl
  | release_call hp hR => simp only [hp] at h; exact ⟨⟨h.1, h.2, hR⟩, hv⟩
  | entry hp => simp only [hp] at h; exact ⟨h, hv⟩
  | more hp hn => simp only [hp] at h; exact ⟨⟨h.1, h.2.1, h.2.2, hn⟩, hv⟩
  | zero hp hn => simp only [hp] at h; exact ⟨⟨h.1, h.2.1, h.2.2, hn⟩, hv⟩
  | less hp => simp only [hp] at h; exact ⟨⟨h.1, counts_release s .idle h.2.1 (hpos _ h.2.2.1)⟩, hv⟩
  | last hp hn =>
    simp only [hp] at h
    rw [h.2.2.2] at hn
    exact absurd hn (by decide)
  | clear hp => simp only [hp] at h
  | reset hp => simp only [hp] at h
  | up hp => simp only [hp] at h

def SameLock (s s' : LockState) : Prop :=
  s'.holder = s.holder ∧ s'.holder_repeat_nr = s.holder_repeat_nr ∧ s'.value = s.value

/-- A task that never had the lock can only start to wait for it, or take the semaphore. -/
theorem neverHeld_step (R : Nat → Prop) (hpos : ∀ d, R d → 0 < d) (t : Tid) (s s' : LockState)
    (h : NeverHeld s) (hh : s.holder ≠ some t) (hs : LockStep R t s s') :
    (NeverHeld s' ∧ SameLock s s') ∨ (s.value = 1 ∧ s' = { s with phase := .acquire .taken, value := 0 }) := by
  obtain ⟨hp, ha, hr⟩ := h
  cases hs with
  | stay => exact .inl ⟨⟨hp, ha, hr⟩, rfl, rfl, rfl⟩
  | acquire_call => exact .inl ⟨⟨trivial, ha, hr⟩, rfl, rfl, rfl⟩
  | own _ h => exact absurd h hh
  | want => exact .inl ⟨⟨trivial, ha, hr⟩, rfl, rfl, rfl⟩
  | take _ hv => exact .inr ⟨hv, rfl⟩
  | release_call _ hR =>
    have := hpos _ hR
    omega
  | again h | taken h | check h | first h | entry h | more h | zero h | less h | last h | clear h | reset h
  | up h =>
    rw [h] at hp
    exact absurd hp (by simp [Outside])

theorem ownerInv_holder (R : Nat → Prop) (u : Tid) (s : LockState) (h : OwnerInv R u s) :
    s.holder = none ∨ s.holder = some u := by
  unfold OwnerInv at h
  split at h
  · exact .inl h.1
  all_goals first | exact .inr h.1 | exact h.elim

theorem neverHeld_same (s s' : LockState) (h : NeverHeld s) (hs : SameTask s s') : NeverHeld s' := by
  unfold NeverHeld
  rw [hs.1, hs.2.1, hs.2.2]
  exact h

theorem lockState_eq (s s' : LockState) (hl : SameLock s s') (ht : SameTask s s') : s' = s := by
  obtain ⟨h1, h2, h3⟩ := hl
  obtain ⟨h4, h5, h6⟩ := ht
  cases s
  cases s'
  simp_all

theorem lockInv_step (R : Nat → Prop) (hpos : ∀ d, R d → 0 < d) (l : LockRef) (log : List Event)
    (m m' : Machine) (evs : List Event) (h : LockInv R l log m) (hmv : LockMoves R l log m m' evs) :
    LockInv R l (log ++ evs) m' := by
  obtain ⟨hcur, hother⟩ := hmv
  rcases h with ⟨hv, hh, hn, hnever⟩ | ⟨u, hv, howner, hnever⟩
  · have hne : (lockState l log m m.cur).holder ≠ some m.cur := by simp [lockState, hh]
    rcases neverHeld_step R hpos m.cur _ _ (hnever m.cur) hne hcur with ⟨hnew, h1, h2, h3⟩ | ⟨-, heq⟩
    · refine .inl ⟨h3.trans hv, h1.trans hh, h2.trans hn, fun t => ?_⟩
      by_cases ht : t = m.cur
      · rw [ht]
        exact hnew
      · exact neverHeld_same _ _ (hnever t) (hother t ht)
    · refine .inr ⟨m.cur, congrArg LockState.value heq, ?_, ?_⟩
      · rw [heq]
        exact ⟨hh, hn, (hnever m.cur).2⟩
      · exact fun t ht => neverHeld_same _ _ (hnever t) (hother t ht)
  · by_cases hu : m.cur = u
    · subst hu
      obtain ⟨hnew, hv'⟩ := ownerInv_step R hpos m.cur _ _ howner hv hcur
      exact .inr ⟨m.cur, hv', hnew, fun t ht => neverHeld_same _ _ (hnever t ht) (hother t ht)⟩
    · have hne : (lockState l log m m.cur).holder ≠ some m.cur := by
        rcases ownerInv_holder R u _ howner with h | h
        · simp [show (lockState l log m m.cur).holder = none from h]
        · simp [show (lockState l log m m.cur).holder = some u from h, Ne.symm hu]
      rcases neverHeld_step R hpos m.cur _ _ (hnever m.cur hu) hne hcur with ⟨hnew, hsame⟩ | ⟨h1, -⟩
      · have hsame' : SameLock (lockState l log m u) (lockState l (log ++ evs) m' u) := hsame
        refine .inr ⟨u, hsame.2.2.trans hv, ?_, fun t ht => ?_⟩
        · rw [lockState_eq _ _ hsame' (hother u (Ne.symm hu))]
          exact howner
        · by_cases htc : t = m.cur
          · rw [htc]
            exact hnew
          · exact neverHeld_same _ _ (hnever t ht) (hother t htc)
      · exact absurd (hv.symm.trans h1) (by decide)

/-! ## Whole runs -/

theorem started_lock (main : Tid) (intr : Bool) (task : Tid → TaskStruct) (value : Nat → UInt8)
    (buf : Nat → Nat → UInt8) (l : LockRef) (hl : l ≠ .pid_lock) :
    Untouched l [] (started main intr task value buf) := by
  refine ⟨?_, ?_, ?_, fun t => ⟨trivial, rfl, rfl⟩⟩
  · simp [started, Machine.takePid, Machine.setSema, Machine.setLock, boot, lock_init, sema_init, hl]
  · simp [started, Machine.takePid, Machine.setSema, Machine.setLock, boot, lock_init, hl]
  · simp [started, Machine.takePid, Machine.setSema, Machine.setLock, boot, lock_init, hl]

/-- A run that calls `lock_release` only at depths that `R` allows keeps the invariant of the lock. -/
theorem reach_lockInv (ok : List Event → Machine → Act → Prop) (R : Nat → Prop) (hpos : ∀ d, R d → 0 < d)
    (i : Nat) (hok : ∀ log m, ok log m (.call (.lock_release i)) → R (depth log m.cur (.lock i)))
    (log : List Event) (m : Machine) (h : Run.Reach kernel ok log m) : LockInv R (.lock i) log m := by
  suffices LockInv R (.lock i) log m ∧ Calls m from this.1
  refine reach_moves ok (fun log m => LockInv R (.lock i) log m ∧ Calls m) ?_ ?_ log m h
  · intro main intr task value buf
    exact ⟨.inl (started_lock main intr task value buf _ (by simp)), fun _ => .idle, fun _ _ => rfl⟩
  · intro log m a m' evs hi ⟨hI, hc⟩ hg hmv
    refine ⟨lockInv_step R hpos _ log m m' evs hI ?_, moves_calls m m' a evs hi hc hmv⟩
    apply moves_lock R _ log m m' a evs hc (by simp) _ hmv
    rintro (⟨j, hj, rfl⟩ | ⟨q, hq, -⟩)
    · cases hj
      exact hok log m hg
    · cases hq

/-! ## Giving the lock back -/

/-- The lock is free, and the first task that waited for it is ready. -/
def GivenBack (l : LockRef) (m m' : Machine) : Prop :=
  (m'.lock l).holder = none ∧ (m'.lock l).holder_repeat_nr = 0 ∧ (m'.sema (.lock l)).value = 1 ∧
  ∀ t ts, (m.sema (.lock l)).waiters = t :: ts → t ∈ m'.sched.thread_ready_list

/-- What a step must do: the `lock_release` that ends a nest gives the lock back, and no check in a
`lock_release` fails. -/
def ReleaseOk (l : LockRef) (log : List Event) (m : Machine) (a : Act) : Prop :=
  (∀ m' evs, step m a = .ok (m', evs) → ∀ t, Event.released t l ∈ evs →
    releases (log ++ evs) t l = acquires (log ++ evs) t l → GivenBack l m m') ∧
  ∀ pc rest site, a = .run → m.stack m.cur = .lock_release l pc :: rest → step m a ≠ .error (.panic site)

/-- A task releases only while it is the holder and in a nest. -/
def Balanced (i : Nat) (log : List Event) (m : Machine) (a : Act) : Prop :=
  a = .call (.lock_release i) →
    (m.lock (.lock i)).holder = some m.cur ∧
      releases log m.cur (.lock i) < acquires log m.cur (.lock i)

/-- Not the outermost level of a nest, and not one where the counter has wrapped to 0. -/
def Inner (d : Nat) : Prop := d ≠ 1 ∧ d % 2 ^ 32 ≠ 0

/-- A balanced run that never ends a nest. -/
def BalancedInner (i : Nat) (log : List Event) (m : Machine) (a : Act) : Prop :=
  Balanced i log m a ∧ (a = .call (.lock_release i) → Inner (depth log m.cur (.lock i)))

instance (i : Nat) (log : List Event) (m : Machine) (a : Act) : Decidable (Balanced i log m a) :=
  inferInstanceAs (Decidable (_ → _ ∧ _))

instance (d : Nat) : Decidable (Inner d) := inferInstanceAs (Decidable (_ ∧ _))

instance (i : Nat) (log : List Event) (m : Machine) (a : Act) : Decidable (BalancedInner i log m a) :=
  inferInstanceAs (Decidable (_ ∧ (_ → _)))

/-- The task that runs is at the end of `lock_release`: at the early return, or behind the test. -/
def Finishes (l : LockRef) (m : Machine) (a : Act) : Prop :=
  a = .run ∧ ∃ rest, m.stack m.cur = .lock_release l .again :: rest ∨
    m.stack m.cur = .lock_release l .last :: rest

/-- A task that ever got past the semaphore is the owner. -/
theorem lockInv_owner (R : Nat → Prop) (l : LockRef) (log : List Event) (m : Machine) (t : Tid)
    (h : LockInv R l log m) (hheld : ¬ NeverHeld (lockState l log m t)) : OwnerInv R t (lockState l log m t) := by
  rcases h with ⟨-, -, -, hnever⟩ | ⟨u, -, howner, hnever⟩
  · exact absurd (hnever t) hheld
  · by_cases hu : t = u
    · rw [hu]
      exact howner
    · exact absurd (hnever t hu) hheld

theorem lockInv_release (R : Nat → Prop) (l : LockRef) (log : List Event) (m : Machine) (pc : ReleasePc)
    (rest : List Frame) (h : LockInv R l log m) (hst : m.stack m.cur = .lock_release l pc :: rest) :
    OwnerInv R m.cur (lockState l log m m.cur) := by
  have hp : (lockState l log m m.cur).phase = .release pc := by simp [lockState, hst, lockPhase]
  apply lockInv_owner R l log m m.cur h
  intro hn
  have := hn.1
  rwa [hp] at this

theorem ofNat_eq_zero (d : Nat) : UInt32.ofNat d = 0 ↔ d % 2 ^ 32 = 0 := by
  rw [← UInt32.toNat_inj]
  simp

theorem finishes_again (R : Nat → Prop) (l : LockRef) (log : List Event) (m : Machine) (rest : List Frame)
    (h : LockInv R l log m) (hst : m.stack m.cur = .lock_release l .again :: rest)
    (hok : ReleaseOk l log m .run) : Inner (depth log m.cur l) := by
  have ho := lockInv_release R l log m _ rest h hst
  simp only [OwnerInv, lockState, hst, lockPhase, if_true] at ho
  obtain ⟨hh, ⟨hle, hn⟩, -, hnz⟩ := ho
  have hstep : step m .run = .ok ((m.setLock l { m.lock l with
      holder_repeat_nr := (m.lock l).holder_repeat_nr - 1 }).setStack rest, [.released m.cur l]) := by
    simp only [step, hst]
    rfl
  refine ⟨fun hd => ?_, ?_⟩
  · -- the last level of the nest: the holder is still there
    have heq : releases (log ++ [.released m.cur l]) m.cur l = acquires (log ++ [.released m.cur l]) m.cur l := by
      simp only [depth] at hd
      simp only [releases_append, acquires_append, releases_cons, acquires_cons, releases_nil, acquires_nil]
      simp
      omega
    have hfree := (hok.1 _ _ hstep m.cur (by simp) heq).1
    simp [Machine.setLock, Machine.setStack, hh] at hfree
  · simp only at hn hnz
    rwa [hn, ne_eq, ofNat_eq_zero] at hnz

theorem finishes_last (R : Nat → Prop) (l : LockRef) (log : List Event) (m : Machine) (rest : List Frame)
    (h : LockInv R l log m) (hst : m.stack m.cur = .lock_release l .last :: rest) :
    depth log m.cur l % 2 ^ 32 = 0 ∧ step m .run = .error (.panic .lock_release_repeat_nr) := by
  have ho := lockInv_release R l log m _ rest h hst
  simp only [OwnerInv, lockState, hst, lockPhase, if_true] at ho
  obtain ⟨-, ⟨-, hn⟩, -, hz⟩ := ho
  constructor
  · simp only at hn
    rwa [hn, ofNat_eq_zero] at hz
  · simp only [step, hst]
    simp [runFrame, lock_release_piece, ASSERT, hz, bind, Except.bind]

theorem released_moves (R : Nat → Prop) (l : LockRef) (log : List Event) (m m' : Machine) (a : Act)
    (evs : List Event) (h : LockInv R l log m) (hmv : Moves m a m' evs) (t : Tid)
    (hmem : Event.released t l ∈ evs) :
    t = m.cur ∧ a = .run ∧ evs = [.released m.cur l] ∧
      ∃ rest, m.stack m.cur = .lock_release l .again :: rest := by
  have hup (l' : LockRef) (rest : List Frame) (hst : m.stack m.cur = .lock_release l' .up :: rest)
      (hl : l' = l) : False := by
    subst hl
    have ho := lockInv_release R l' log m _ rest h hst
    simp [OwnerInv, lockState, hst, lockPhase] at ho
  cases hmv with
  | release_again l' rest hst =>
    simp only [List.mem_singleton, Event.released.injEq] at hmem
    obtain ⟨rfl, rfl⟩ := hmem
    exact ⟨rfl, rfl, rfl, rest, hst⟩
  | release_up_none l' rest hst | release_up_wake l' rest _ _ hst =>
    simp only [List.mem_cons, List.not_mem_nil, or_false, reduceCtorEq, false_or, Event.released.injEq] at hmem
    exact (hup l' rest hst hmem.2.symm).elim
  | _ => simp at hmem

/-- Exactly the calls that end a nest, or find the counter wrapped to 0, do the wrong thing. -/
theorem releaseOk_iff (R : Nat → Prop) (l : LockRef) (log : List Event) (m : Machine) (a : Act)
    (hi : QueueInv m) (h : LockInv R l log m) :
    ReleaseOk l log m a ↔ (Finishes l m a → Inner (depth log m.cur l)) := by
  constructor
  · rintro hok ⟨rfl, rest, hst | hst⟩
    · exact finishes_again R l log m rest h hst hok
    · exact absurd (finishes_last R l log m rest h hst).2 (hok.2 _ rest _ rfl hst)
  · intro hin
    constructor
    · intro m' evs hs t hmem heq
      have hmv := spec_of_ok _ _ _ (step_moves m a hi) (m', evs) hs
      obtain ⟨rfl, rfl, rfl, rest, hst⟩ := released_moves R l log m m' a evs h hmv t hmem
      have hd := (hin ⟨rfl, rest, .inl hst⟩).1
      simp only [releases_append, acquires_append, releases_cons, acquires_cons, releases_nil, acquires_nil,
        reduceCtorEq, if_true, if_false, depth] at heq hd
      omega
    · rintro pc rest site rfl hst hs
      have ho := lockInv_release R l log m pc rest h hst
      simp only [step, hst] at hs
      cases pc with
      | entry =>
        simp only [OwnerInv, lockState, hst, lockPhase, if_true] at ho
        simp [runFrame, lock_release_piece, ASSERT, ho.1, bind, Except.bind, pure, Except.pure] at hs
      | test =>
        simp only [runFrame, lock_release_piece] at hs
        split at hs <;> cases hs
      | again => cases hs
      | last => exact absurd (finishes_last R l log m rest h hst).1 (hin ⟨rfl, rest, .inr hst⟩).2
      | clear | zero | up => simp [OwnerInv, lockState, hst, lockPhase] at ho

theorem reach_balanced (i : Nat) (log : List Event) (m : Machine) (h : Run.Reach kernel (Balanced i) log m) :
    LockInv (0 < ·) (.lock i) log m :=
  reach_lockInv (Balanced i) (0 < ·) (fun _ hd => hd) i (fun _ _ hb => Nat.sub_pos_of_lt (hb rfl).2) log m h

theorem reach_balancedInner (i : Nat) (log : List Event) (m : Machine)
    (h : Run.Reach kernel (BalancedInner i) log m) :
    LockInv (fun d => 0 < d ∧ Inner d) (.lock i) log m :=
  reach_lockInv (BalancedInner i) _ (fun _ hd => hd.1) i
    (fun _ _ hb => ⟨Nat.sub_pos_of_lt (hb.1 rfl).2, hb.2 rfl⟩) log m h

/-- In a run that ends no nest, a task at the end of `lock_release` is at an inner level. -/
theorem finishes_inner (l : LockRef) (log : List Event) (m : Machine) (a : Act)
    (h : LockInv (fun d => 0 < d ∧ Inner d) l log m) (hf : Finishes l m a) : Inner (depth log m.cur l) := by
  obtain ⟨-, rest, hst | hst⟩ := hf
  all_goals
    have ho := lockInv_release _ l log m _ rest h hst
    simp only [OwnerInv, lockState, hst, lockPhase, if_true] at ho
    exact ho.2.2.1.2

/-- **Giving the lock back.** A run whose releases are all at inner levels of their nests meets the
contract of `lock_release` in every step. In any balanced run a step meets it unless it ends a
`lock_release` at the outermost level, or at one where the counter has wrapped to 0. -/
theorem lock_given_back (i : Nat) :
    (∀ log m, Run.Reach kernel (BalancedInner i) log m → ∀ a, ReleaseOk (.lock i) log m a) ∧
    ∀ log m, Run.Reach kernel (Balanced i) log m → ∀ a,
      ReleaseOk (.lock i) log m a ↔ (Finishes (.lock i) m a → Inner (depth log m.cur (.lock i))) := by
  constructor
  · intro log m h a
    have hI := reach_balancedInner i log m h
    rw [releaseOk_iff _ _ log m a (reach_inv log m (Run.reach_any kernel _ log m h)) hI]
    exact finishes_inner _ log m a hI
  · intro log m h a
    exact releaseOk_iff _ _ log m a (reach_inv log m (Run.reach_any kernel _ log m h)) (reach_balanced i log m h)

def acquireFree : List Act := [.call (.lock_acquire 0), .run, .run, .run, .run, .run]

def releaseInner : List Act :=
  acquireFree ++ [.call (.lock_acquire 0), .run, .run, .call (.lock_release 0), .run, .run]

theorem lock_given_back_inner : ∃ log m, Run.play kernel (BalancedInner 0) [] zeroed releaseInner = some (log, m) ∧
    m.stack m.cur = [.lock_release (.lock 0) .again] ∧ ReleaseOk (.lock 0) log m .run := by
  have h : (Run.play kernel (BalancedInner 0) [] zeroed releaseInner).map (fun r => r.2.stack r.2.cur) =
      some [.lock_release (.lock 0) .again] := by decide +kernel
  obtain ⟨⟨log, m⟩, hp, hst⟩ := Option.map_eq_some_iff.mp h
  exact ⟨log, m, hp, hst, (lock_given_back 0).1 log m (reach_zeroed _ _ log m hp) .run⟩

def releaseOuter : List Act := acquireFree ++ [.call (.lock_release 0), .run, .run]

/-- After a release at the outermost level the holder is still there. -/
theorem lock_not_given_back :
    ¬ ∀ log m, Run.Reach kernel (Balanced 0) log m → ∀ a, ReleaseOk (.lock 0) log m a := by
  intro hall
  have h : (Run.play kernel (Balanced 0) [] zeroed releaseOuter).map
      (fun r => (r.2.stack r.2.cur, depth r.1 r.2.cur (.lock 0))) =
      some ([.lock_release (.lock 0) .again], 1) := by decide +kernel
  obtain ⟨⟨log, m⟩, hp, hst⟩ := Option.map_eq_some_iff.mp h
  obtain ⟨hst, hd⟩ := Prod.mk.inj hst
  have hr := reach_zeroed (Balanced 0) _ log m hp
  exact (finishes_again _ _ log m [] (reach_balanced 0 log m hr) hst (hall log m hr .run)).1 hd

end OsLearn
