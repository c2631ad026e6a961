import OsLearn.Thread.Calls

/-!
# One lock of the machine

`LockState` is the lock as one task sees it: the shared fields, and how far the task is. Every move
of the machine is one `LockStep` of the running task, and the other tasks stay where they are.
-/

open OsLearn.Queues

namespace OsLearn

/-! ## Where a task is with a lock -/

inductive LockPhase where
  | idle
  | acquire (pc : AcquirePc)
  -- In `sema_down` on the semaphore of the lock.
  | down
  | release (pc : ReleasePc)
  deriving DecidableEq, Repr

def lockPhase (l : LockRef) : List Frame → LockPhase
  | [] => .idle
  | .sema_down (.lock l') _ :: rest => if l' = l then .down else lockPhase l rest
  | .lock_acquire l' pc :: rest => if l' = l then .acquire pc else lockPhase l rest
  | .lock_release l' pc :: rest => if l' = l then .release pc else lockPhase l rest
  | _ :: rest => lockPhase l rest

structure LockState where
  holder : Option Tid
  holder_repeat_nr : UInt32
  value : UInt8
  phase : LockPhase
  -- How often the task has got the lock, and how often it has given it back.
  acquired : Nat
  released : Nat

def acquires (log : List Event) (t : Tid) (l : LockRef) : Nat := log.count (.acquired t l)

def releases (log : List Event) (t : Tid) (l : LockRef) : Nat := log.count (.released t l)

def depth (log : List Event) (t : Tid) (l : LockRef) : Nat := acquires log t l - releases log t l

def lockState (l : LockRef) (log : List Event) (m : Machine) (t : Tid) : LockState where
  holder := (m.lock l).holder
  holder_repeat_nr := (m.lock l).holder_repeat_nr
  value := (m.sema (.lock l)).value
  phase := lockPhase l (m.stack t)
  acquired := acquires log t l
  released := releases log t l

/-- What task `t` can do with the lock. `R` is the depth at which it calls `lock_release`. -/
inductive LockStep (R : Nat → Prop) (t : Tid) (s : LockState) : LockState → Prop
  | stay : LockStep R t s s
  | acquire_call : s.phase = .idle → LockStep R t s { s with phase := .acquire .entry }
  | own : s.phase = .acquire .entry → s.holder = some t → LockStep R t s { s with phase := .acquire .again }
  | want : s.phase = .acquire .entry → s.holder ≠ some t → LockStep R t s { s with phase := .down }
  | again : s.phase = .acquire .again →
      LockStep R t s { s with
        phase := .idle, holder_repeat_nr := s.holder_repeat_nr + 1, acquired := s.acquired + 1 }
  | take : s.phase = .down → s.value = 1 → LockStep R t s { s with phase := .acquire .taken, value := 0 }
  | taken : s.phase = .acquire .taken → LockStep R t s { s with phase := .acquire .check, holder := some t }
  | check : s.phase = .acquire .check → s.holder_repeat_nr = 0 →
      LockStep R t s { s with phase := .acquire .first }
  | first : s.phase = .acquire .first →
      LockStep R t s { s with phase := .idle, holder_repeat_nr := 1, acquired := s.acquired + 1 }
  | release_call : s.phase = .idle → R (s.acquired - s.released) →
      LockStep R t s { s with phase := .release .entry }
  | entry : s.phase = .release .entry → s.holder = some t → LockStep R t s { s with phase := .release .test }
  | more : s.phase = .release .test → s.holder_repeat_nr ≠ 0 → LockStep R t s { s with phase := .release .again }
  | zero : s.phase = .release .test → s.holder_repeat_nr = 0 → LockStep R t s { s with phase := .release .last }
  | less : s.phase = .release .again →
      LockStep R t s { s with
        phase := .idle, holder_repeat_nr := s.holder_repeat_nr - 1, released := s.released + 1 }
  | last : s.phase = .release .last → s.holder_repeat_nr = 1 → LockStep R t s { s with phase := .release .clear }
  | clear : s.phase = .release .clear → LockStep R t s { s with phase := .release .zero, holder := none }
  | reset : s.phase = .release .zero → LockStep R t s { s with phase := .release .up, holder_repeat_nr := 0 }
  | up : s.phase = .release .up → s.value = 0 →
      LockStep R t s { s with phase := .idle, value := 1, released := s.released + 1 }

def CallsRelease (l : LockRef) (m : Machine) (a : Act) : Prop :=
  (∃ i, l = .lock i ∧ a = .call (.lock_release i)) ∨
  ∃ q, l = .ioq q ∧ a = .run ∧
    (m.stack m.cur = [.ioq_getchar q .release] ∨ ∃ byte, m.stack m.cur = [.ioq_putchar q byte .release])

/-! ## The machine's moves, lock by lock -/

theorem lockPhase_calledBy (l l' : LockRef) (pc : IoqPc) (rest : List Frame) (h : CalledBy l' pc rest) :
    lockPhase l rest = .idle := by
  cases h <;> rfl

/-- The other tasks see the shared fields change, and nothing else. -/
def SameTask (s s' : LockState) : Prop :=
  s'.phase = s.phase ∧ s'.acquired = s.acquired ∧ s'.released = s.released

/-- What a move shows of the lock: one step of the running task. -/
def LockMoves (R : Nat → Prop) (l : LockRef) (log : List Event) (m m' : Machine) (evs : List Event) : Prop :=
  LockStep R m.cur (lockState l log m m.cur) (lockState l (log ++ evs) m' m.cur) ∧
  ∀ u, u ≠ m.cur → SameTask (lockState l log m u) (lockState l (log ++ evs) m' u)

theorem acquires_append (log evs : List Event) (t : Tid) (l : LockRef) :
    acquires (log ++ evs) t l = acquires log t l + acquires evs t l := List.count_append

theorem releases_append (log evs : List Event) (t : Tid) (l : LockRef) :
    releases (log ++ evs) t l = releases log t l + releases evs t l := List.count_append

@[simp] theorem acquires_nil (t : Tid) (l : LockRef) : acquires [] t l = 0 := rfl

@[simp] theorem releases_nil (t : Tid) (l : LockRef) : releases [] t l = 0 := rfl

@[simp] theorem acquires_cons (e : Event) (evs : List Event) (t : Tid) (l : LockRef) :
    acquires (e :: evs) t l = acquires evs t l + if e = .acquired t l then 1 else 0 := by
  simp [acquires, List.count_cons]

@[simp] theorem releases_cons (e : Event) (evs : List Event) (t : Tid) (l : LockRef) :
    releases (e :: evs) t l = releases evs t l + if e = .released t l then 1 else 0 := by
  simp [releases, List.count_cons]

def Quiet (l : LockRef) (evs : List Event) : Prop := ∀ t, acquires evs t l = 0 ∧ releases evs t l = 0

theorem lockMoves_of_same (R : Nat → Prop) (l : LockRef) (log : List Event) (m m' : Machine) (evs : List Event)
    (hq : Quiet l evs) (hlock : m'.lock l = m.lock l) (hsem : (m'.sema (.lock l)).value = (m.sema (.lock l)).value)
    (hph : ∀ u, lockPhase l (m'.stack u) = lockPhase l (m.stack u)) : LockMoves R l log m m' evs := by
  have heq (u : Tid) : lockState l (log ++ evs) m' u = lockState l log m u := by
    simp only [lockState, acquires_append, releases_append, hq u, hlock, hsem, hph, Nat.add_zero]
  constructor
  · rw [heq]
    exact .stay
  · intro u _
    rw [heq]
    exact ⟨rfl, rfl, rfl⟩

/-- A piece of a call on the lock `l'`, seen from any lock: `v`, `value`, the frames `st` and the events
`evs` are what it leaves. -/
theorem lockMoves_of_piece (R : Nat → Prop) (l l' : LockRef) (log : List Event) (m m' : Machine)
    (evs : List Event) (v : Lock) (value : UInt8) (st : List Frame) (da dr : Nat)
    (hst : m'.stack = Function.update m.stack m.cur st) (hlock : m'.lock = Function.update m.lock l' v)
    (hval : (m'.sema (.lock l')).value = value)
    (hsem : ∀ l, l' ≠ l → m'.sema (.lock l) = m.sema (.lock l))
    (hidle : l' ≠ l → lockPhase l st = lockPhase l (m.stack m.cur))
    (hda : acquires evs m.cur l' = da) (hdr : releases evs m.cur l' = dr)
    (hev : ∀ u l, u ≠ m.cur ∨ l' ≠ l → acquires evs u l = 0 ∧ releases evs u l = 0)
    (h : l' = l → LockStep R m.cur (lockState l log m m.cur)
      { holder := v.holder
        holder_repeat_nr := v.holder_repeat_nr
        value := value
        phase := lockPhase l st
        acquired := acquires log m.cur l + da
        released := releases log m.cur l + dr }) : LockMoves R l log m m' evs := by
  by_cases hl : l' = l
  · subst hl
    constructor
    · have : lockState l' (log ++ evs) m' m.cur = {
          holder := v.holder
          holder_repeat_nr := v.holder_repeat_nr
          value := value
          phase := lockPhase l' st
          acquired := acquires log m.cur l' + da
          released := releases log m.cur l' + dr } := by
        simp only [lockState, acquires_append, releases_append, hst, hlock, Function.update_self, hval, hda, hdr]
      rw [this]
      exact h rfl
    · intro u hu
      simp only [SameTask, lockState, acquires_append, releases_append, hev u l' (.inl hu), hst,
        Function.update_of_ne hu, Nat.add_zero, and_self]
  · apply lockMoves_of_same
    · exact fun u => hev u l (.inr hl)
    · rw [hlock, Function.update_of_ne (Ne.symm hl)]
    · rw [hsem l hl]
    · rw [hst]
      exact view_update (lockPhase l) m _ st rfl (hidle hl)

theorem lockMoves_of_frames (R : Nat → Prop) (l l' : LockRef) (log : List Event) (m : Machine) (st : List Frame)
    (hidle : l' ≠ l → lockPhase l st = lockPhase l (m.stack m.cur))
    (h : l' = l → LockStep R m.cur (lockState l log m m.cur)
      { lockState l log m m.cur with phase := lockPhase l st }) : LockMoves R l log m (m.setStack st) [] :=
  lockMoves_of_piece R l l' log m _ [] (m.lock l') (m.sema (.lock l')).value st 0 0 rfl
    (Function.update_eq_self l' m.lock).symm rfl (fun _ _ => rfl) hidle rfl rfl (fun _ _ _ => ⟨rfl, rfl⟩)
    (by rintro rfl; exact h rfl)

theorem acquired_event (t : Tid) (l' : LockRef) (u : Tid) (l : LockRef) (h : u ≠ t ∨ l' ≠ l) :
    acquires [.acquired t l'] u l = 0 ∧ releases [.acquired t l'] u l = 0 := by
  rcases h with h | h
  · simp [Ne.symm h]
  · simp [h]

theorem released_event (t : Tid) (l' : LockRef) (u : Tid) (l : LockRef) (h : u ≠ t ∨ l' ≠ l) :
    acquires [.released t l'] u l = 0 ∧ releases [.released t l'] u l = 0 := by
  rcases h with h | h
  · simp [Ne.symm h]
  · simp [h]

theorem up_event (t : Tid) (l' : LockRef) (u : Tid) (l : LockRef) (h : u ≠ t ∨ l' ≠ l) :
    acquires [.up t (.lock l'), .released t l'] u l = 0 ∧ releases [.up t (.lock l'), .released t l'] u l = 0 := by
  rcases h with h | h
  · simp [Ne.symm h]
  · simp [h]

theorem atLoop_setSema (m : Machine) (o : Option Bool) (s : SemRef) (v : Semaphore) :
    ((atLoop m o).1.setSema s v).sema = (m.setSema s v).sema := by
  cases o <;> rfl

theorem setSema_other (m : Machine) (l' l : LockRef) (v : Semaphore) (h : l' ≠ l) :
    (m.setSema (.lock l') v).sema (.lock l) = m.sema (.lock l) :=
  Function.update_of_ne (by simpa using Ne.symm h) _ _

theorem setSema_value (m : Machine) (s : SemRef) (v : Semaphore) (hv : v.value = (m.sema s).value) (s' : SemRef) :
    ((m.setSema s v).sema s').value = (m.sema s').value := by
  by_cases h : s' = s
  · subst h
    simpa [Machine.setSema] using hv
  · simp [Machine.setSema, h]

/-! ## Pieces of a call on a lock -/

/-- The frame is one of a call on the lock `l'`, in the phase `p`. -/
def Stands (l' : LockRef) (f : Frame) (p : LockPhase) : Prop :=
  ∀ l rest, lockPhase l (f :: rest) = if l' = l then p else lockPhase l rest

theorem stands_acquire (l' : LockRef) (pc : AcquirePc) : Stands l' (.lock_acquire l' pc) (.acquire pc) := fun _ _ => rfl

theorem stands_release (l' : LockRef) (pc : ReleasePc) : Stands l' (.lock_release l' pc) (.release pc) := fun _ _ => rfl

theorem stands_down (l' : LockRef) (o : Option Bool) : Stands l' (.sema_down (.lock l') o) .down := fun _ _ => rfl

section

variable (R : Nat → Prop) (l l' : LockRef) (log : List Event) (m : Machine)

theorem Stands.phase (f : Frame) (p : LockPhase) (rest : List Frame) (hf : Stands l' f p)
    (hst : m.stack m.cur = f :: rest) : (lockState l' log m m.cur).phase = p := by
  unfold lockState
  rw [hst, hf l' rest, if_pos rfl]

theorem Stands.other (f f' : Frame) (p p' : LockPhase) (rest : List Frame) (hf : Stands l' f p)
    (hf' : Stands l' f' p') (hl : l' ≠ l) : lockPhase l (f' :: rest) = lockPhase l (f :: rest) := by
  rw [hf l rest, hf' l rest, if_neg hl, if_neg hl]

theorem lockMoves_begin (f : Frame) (p : LockPhase) (st : List Frame) (hf : Stands l' f p)
    (hidle : ∀ l, lockPhase l (m.stack m.cur) = .idle) (hrest : ∀ l, lockPhase l st = .idle)
    (h : l' = l → (lockState l log m m.cur).phase = .idle →
      LockStep R m.cur (lockState l log m m.cur) { lockState l log m m.cur with phase := p }) :
    LockMoves R l log m (m.setStack (f :: st)) [] := by
  apply lockMoves_of_frames R l l'
  · intro hl
    rw [hf l st, if_neg hl, hrest, hidle]
  · intro hl
    rw [hf l st, if_pos hl]
    exact h hl (hidle l)

theorem lockMoves_next (f f' : Frame) (p p' : LockPhase) (rest : List Frame) (hf : Stands l' f p)
    (hf' : Stands l' f' p') (hst : m.stack m.cur = f :: rest)
    (h : l' = l → (lockState l log m m.cur).phase = p →
      LockStep R m.cur (lockState l log m m.cur) { lockState l log m m.cur with phase := p' }) :
    LockMoves R l log m (m.setStack (f' :: rest)) [] := by
  apply lockMoves_of_frames R l l'
  · intro hl
    rw [hst]
    exact hf.other l l' f f' p p' rest hf' hl
  · rintro rfl
    rw [hf' l' rest, if_pos rfl]
    exact h rfl (hf.phase l' log m f p rest hst)

theorem lockMoves_store (f f' : Frame) (p p' : LockPhase) (rest : List Frame) (v : Lock) (hf : Stands l' f p)
    (hf' : Stands l' f' p') (hst : m.stack m.cur = f :: rest)
    (h : l' = l → (lockState l log m m.cur).phase = p → LockStep R m.cur (lockState l log m m.cur)
      { lockState l log m m.cur with phase := p', holder := v.holder, holder_repeat_nr := v.holder_repeat_nr }) :
    LockMoves R l log m ((m.setLock l' v).setStack (f' :: rest)) [] := by
  refine lockMoves_of_piece R l l' log m _ _ v _ _ 0 0 rfl rfl rfl (fun _ _ => rfl) ?_ rfl rfl
    (fun _ _ _ => ⟨rfl, rfl⟩) ?_
  · intro hl
    rw [hst]
    exact hf.other l l' f f' p p' rest hf' hl
  · rintro rfl
    rw [hf' l' rest, if_pos rfl]
    exact h rfl (hf.phase l' log m f p rest hst)

/-- The last piece of a call on the lock, with its event. -/
theorem lockMoves_end (f : Frame) (p : LockPhase) (rest : List Frame) (m' : Machine) (evs : List Event) (v : Lock)
    (value : UInt8) (da dr : Nat) (hf : Stands l' f p) (hst : m.stack m.cur = f :: rest)
    (hidle : ∀ l, lockPhase l rest = .idle)
    (hstack : m'.stack = Function.update m.stack m.cur rest) (hlock : m'.lock = Function.update m.lock l' v)
    (hval : (m'.sema (.lock l')).value = value) (hsem : ∀ l, l' ≠ l → m'.sema (.lock l) = m.sema (.lock l))
    (hda : acquires evs m.cur l' = da) (hdr : releases evs m.cur l' = dr)
    (hev : ∀ u l, u ≠ m.cur ∨ l' ≠ l → acquires evs u l = 0 ∧ releases evs u l = 0)
    (h : l' = l → (lockState l log m m.cur).phase = p → LockStep R m.cur (lockState l log m m.cur)
      { holder := v.holder
        holder_repeat_nr := v.holder_repeat_nr
        value := value
        phase := .idle
        acquired := acquires log m.cur l + da
        released := releases log m.cur l + dr }) : LockMoves R l log m m' evs := by
  refine lockMoves_of_piece R l l' log m m' evs v value rest da dr hstack hlock hval hsem ?_ hda hdr hev ?_
  · intro hl
    rw [hst, hf l rest, if_neg hl]
  · rintro rfl
    rw [hidle]
    exact h rfl (hf.phase l' log m f p rest hst)

end

theorem startCall_lock (R : Nat → Prop) (l : LockRef) (log : List Event) (m : Machine) (c : Call)
    (hst : m.stack m.cur = []) (hR : CallsRelease l m (.call c) → R (depth log m.cur l)) :
    LockMoves R l log m (startCall m c) [] := by
  have hidle (l : LockRef) : lockPhase l (m.stack m.cur) = .idle := by
    rw [hst]
    rfl
  have hother (st : List Frame) (h : lockPhase l st = .idle) :
      LockMoves R l log m (m.setStack st) [] := by
    refine lockMoves_of_same R l log m _ [] (fun _ => ⟨rfl, rfl⟩) rfl rfl ?_
    exact view_update (lockPhase l) m _ st rfl (h.trans (hidle l).symm)
  cases c with
  | sema_down i => exact hother _ rfl
  | sema_up i => exact hother _ rfl
  | lock_acquire i =>
    apply lockMoves_begin R l (.lock i) log m _ _ _ (stands_acquire _ _) hidle fun _ => rfl
    intro _ hp
    exact .acquire_call hp
  | lock_release i =>
    apply lockMoves_begin R l (.lock i) log m _ _ _ (stands_release _ _) hidle fun _ => rfl
    rintro rfl hp
    exact .release_call hp (hR (.inl ⟨i, rfl, rfl⟩))
  | ioq_getchar q => exact hother _ rfl
  | ioq_putchar q byte => exact hother _ rfl
  | intr_enable => exact lockMoves_of_same R l log m _ [] (fun _ => ⟨rfl, rfl⟩) rfl rfl fun _ => rfl
  | intr_disable => exact lockMoves_of_same R l log m _ [] (fun _ => ⟨rfl, rfl⟩) rfl rfl fun _ => rfl

theorem down_take_lock (R : Nat → Prop) (l l' : LockRef) (o : Option Bool) (rest : List Frame) (log : List Event)
    (m : Machine) (hc : Calls m) (hst : m.stack m.cur = .sema_down (.lock l') o :: rest)
    (hv : (m.sema (.lock l')).value = 1) :
    LockMoves R l log m (((m.setSema (.lock l') { m.sema (.lock l') with value := 0 }).setIntr (atLoop m o).2).setStack
      rest) [.down m.cur (.lock l')] := by
  -- sema_down on the semaphore of a lock is called by lock_acquire only
  have hr : ∃ r, rest = .lock_acquire l' .taken :: r ∧ CalledBy l' .wait r := by
    have hshape := hc.shape m.cur
    rw [hst] at hshape
    cases hshape with
    | lock_down _ _ r hr => exact ⟨r, rfl, hr⟩
  obtain ⟨r, rfl, hr⟩ := hr
  refine lockMoves_of_piece R l l' log m _ _ (m.lock l') 0 _ 0 0 rfl (Function.update_eq_self l' m.lock).symm
    ?_ ?_ ?_ ?_ ?_ ?_ ?_
  · simp [Machine.setSema, Machine.setIntr, Machine.setStack]
  · exact fun l h => setSema_other m l' l _ h
  · intro h
    simp [hst, lockPhase, h]
  · simp
  · simp
  · simp
  · rintro rfl
    rw [stands_acquire l' .taken l' r, if_pos rfl]
    exact .take ((stands_down l' o).phase l' log m _ _ _ hst) hv

theorem moves_lock (R : Nat → Prop) (l : LockRef) (log : List Event) (m m' : Machine) (a : Act)
    (evs : List Event) (hc : Calls m) (hl : l ≠ .pid_lock) (hR : CallsRelease l m a → R (depth log m.cur l))
    (hmv : Moves m a m' evs) : LockMoves R l log m m' evs := by
  have hcur (st : List Frame) (hst : m.stack m.cur = st) : Shape st := hst ▸ hc.shape m.cur
  have hacquire (l' : LockRef) (pc : AcquirePc) (rest : List Frame)
      (hst : m.stack m.cur = .lock_acquire l' pc :: rest) (l : LockRef) : lockPhase l rest = .idle :=
    lockPhase_calledBy _ _ _ _ (acquire_calledBy _ _ _ (hcur _ hst))
  have hrelease (l' : LockRef) (pc : ReleasePc) (rest : List Frame)
      (hst : m.stack m.cur = .lock_release l' pc :: rest) (l : LockRef) : lockPhase l rest = .idle :=
    lockPhase_calledBy _ _ _ _ (release_calledBy _ _ _ (hcur _ hst))
  cases hmv with
  | call c hst => exact startCall_lock R l log m c hst hR
  | down_wait s o rest next tl hst _ _ =>
    refine lockMoves_of_same R l log m _ [] (fun _ => ⟨rfl, rfl⟩) ?_ ?_ ?_
    · cases o <;> rfl
    · show (((atLoop m o).1.setSema s _).sema (.lock l)).value = _
      rw [atLoop_setSema]
      exact setSema_value m s { m.sema s with waiters := (m.sema s).waiters ++ [m.cur] } rfl (.lock l)
    · have hst' : lockPhase l (.thread_block ((atLoop m o).1.sched.intr) ::
          .sema_down s (some (atLoop m o).2) :: rest) = lockPhase l (.sema_down s o :: rest) := by
        cases s <;> rfl
      cases o <;> exact view_update (lockPhase l) m _ _ hst hst'
  | down_take s o rest hst hv =>
    cases s with
    | sema i => exact lockMoves_of_same R l log m _ _ (by simp [Quiet]) rfl rfl (view_update (lockPhase l) m _ rest hst rfl)
    | lock l' => exact down_take_lock R l l' o rest log m hc hst hv
  | up_none s rest hst hv _ =>
    refine lockMoves_of_same R l log m _ _ (by simp [Quiet]) rfl ?_ (view_update (lockPhase l) m _ rest hst rfl)
    obtain ⟨i, rfl⟩ := up_sema s rest (hcur _ hst)
    rfl
  | up_wake s rest t ts hst hv _ =>
    refine lockMoves_of_same R l log m _ _ (by simp [Quiet]) rfl ?_ (view_update (lockPhase l) m _ rest hst rfl)
    obtain ⟨i, rfl⟩ := up_sema s rest (hcur _ hst)
    rfl
  | acquire_own l' rest hst hh =>
    apply lockMoves_next R l l' log m _ _ _ _ rest (stands_acquire _ _) (stands_acquire _ _) hst
    rintro rfl hp
    exact .own hp hh
  | acquire_down l' rest hst hh =>
    apply lockMoves_of_frames R l l'
    · intro h
      simp [hst, lockPhase, h]
    · rintro rfl
      rw [stands_down l' none l' _, if_pos rfl]
      exact .want ((stands_acquire l' _).phase l' log m _ _ _ hst) hh
  | acquire_again l' rest hst =>
    refine lockMoves_end R l l' log m _ _ rest _ _ _ _ 1 0 (stands_acquire _ _) hst (hacquire _ _ _ hst) rfl rfl rfl
      (fun _ _ => rfl) (by simp) (by simp) (acquired_event m.cur l') ?_
    rintro rfl hp
    exact .again hp
  | acquire_taken l' rest hst =>
    apply lockMoves_store R l l' log m _ _ _ _ rest _ (stands_acquire _ _) (stands_acquire _ _) hst
    rintro rfl hp
    exact .taken hp
  | acquire_check l' rest hst hn =>
    apply lockMoves_next R l l' log m _ _ _ _ rest (stands_acquire _ _) (stands_acquire _ _) hst
    rintro rfl hp
    exact .check hp hn
  | acquire_first l' rest hst =>
    refine lockMoves_end R l l' log m _ _ rest _ _ _ _ 1 0 (stands_acquire _ _) hst (hacquire _ _ _ hst) rfl rfl rfl
      (fun _ _ => rfl) (by simp) (by simp) (acquired_event m.cur l') ?_
    rintro rfl hp
    exact .first hp
  | release_entry l' rest hst hh =>
    apply lockMoves_next R l l' log m _ _ _ _ rest (stands_release _ _) (stands_release _ _) hst
    rintro rfl hp
    exact .entry hp hh
  | release_more l' rest hst hn =>
    apply lockMoves_next R l l' log m _ _ _ _ rest (stands_release _ _) (stands_release _ _) hst
    rintro rfl hp
    exact .more hp hn
  | release_zero l' rest hst hn =>
    apply lockMoves_next R l l' log m _ _ _ _ rest (stands_release _ _) (stands_release _ _) hst
    rintro rfl hp
    exact .zero hp hn
  | release_again l' rest hst =>
    refine lockMoves_end R l l' log m _ _ rest _ _ _ _ 0 1 (stands_release _ _) hst (hrelease _ _ _ hst) rfl rfl rfl
      (fun _ _ => rfl) (by simp) (by simp) (released_event m.cur l') ?_
    rintro rfl hp
    exact .less hp
  | release_last l' rest hst hn =>
    apply lockMoves_next R l l' log m _ _ _ _ rest (stands_release _ _) (stands_release _ _) hst
    rintro rfl hp
    exact .last hp hn
  | release_clear l' rest hst =>
    apply lockMoves_store R l l' log m _ _ _ _ rest _ (stands_release _ _) (stands_release _ _) hst
    rintro rfl hp
    exact .clear hp
  | release_reset l' rest hst =>
    apply lockMoves_store R l l' log m _ _ _ _ rest _ (stands_release _ _) (stands_release _ _) hst
    rintro rfl hp
    exact .reset hp
  | release_up_none l' rest hst hv _ | release_up_wake l' rest _ _ hst hv _ =>
    refine lockMoves_end R l l' log m _ _ rest _ _ (m.lock l') 1 0 1 (stands_release _ _) hst (hrelease _ _ _ hst) rfl
      (Function.update_eq_self l' m.lock).symm ?_ (fun l h => setSema_other m l' l _ h) (by simp) (by simp)
      (up_event m.cur l') ?_
    · simp [Machine.setSema, Machine.woken, Machine.setStack]
    · rintro rfl hp
      exact .up hp hv
  | block_end old rest hst | thread_entry rest hst | timer_end rest hst =>
    exact lockMoves_of_same R l log m _ [] (fun _ => ⟨rfl, rfl⟩) rfl rfl (view_update (lockPhase l) m _ rest hst rfl)
  | get_empty q rest hst _ _ =>
    obtain rfl := get_rest q _ rest (hcur _ hst)
    apply lockMoves_begin R l (.ioq q) log m _ _ _ (stands_acquire _ _) (fun l => hst ▸ rfl) fun _ => rfl
    intro _ hp
    exact .acquire_call hp
  | put_full q byte rest hst _ _ =>
    obtain rfl := put_rest q byte _ rest (hcur _ hst)
    apply lockMoves_begin R l (.ioq q) log m _ _ _ (stands_acquire _ _) (fun l => hst ▸ rfl) fun _ => rfl
    intro _ hp
    exact .acquire_call hp
  | get_release q rest hst =>
    obtain rfl := get_rest q _ rest (hcur _ hst)
    apply lockMoves_begin R l (.ioq q) log m _ _ _ (stands_release _ _) (fun l => hst ▸ rfl) fun _ => rfl
    rintro rfl hp
    exact .release_call hp (hR (.inr ⟨q, rfl, rfl, .inl hst⟩))
  | put_release q byte rest hst =>
    obtain rfl := put_rest q byte _ rest (hcur _ hst)
    apply lockMoves_begin R l (.ioq q) log m _ _ _ (stands_release _ _) (fun l => hst ▸ rfl) fun _ => rfl
    rintro rfl hp
    exact .release_call hp (hR (.inr ⟨q, rfl, rfl, .inr ⟨byte, hst⟩⟩))
  | get_take q rest hst _ _ _ | get_wake q rest _ hst _ _ _ =>
    exact lockMoves_of_same R l log m _ _ (by simp [Quiet]) rfl rfl (view_update (lockPhase l) m _ rest hst rfl)
  | put_store q byte rest hst _ _ _ | put_wake q byte rest _ hst _ _ _ =>
    exact lockMoves_of_same R l log m _ _ (by simp [Quiet]) rfl rfl (view_update (lockPhase l) m _ rest hst rfl)
  | get_wait q rest next tl hst _ _ =>
    exact lockMoves_of_same R l log m _ [] (fun _ => ⟨rfl, rfl⟩) rfl rfl (view_update (lockPhase l) m _ _ hst rfl)
  | put_wait q byte rest next tl hst _ _ =>
    exact lockMoves_of_same R l log m _ [] (fun _ => ⟨rfl, rfl⟩) rfl rfl (view_update (lockPhase l) m _ _ hst rfl)
  | tick | key_drop => exact lockMoves_of_same R l log m _ [] (fun _ => ⟨rfl, rfl⟩) rfl rfl fun _ => rfl
  | preempt next rest =>
    exact lockMoves_of_same R l log m _ [] (fun _ => ⟨rfl, rfl⟩) rfl rfl (view_update (lockPhase l) m _ _ rfl rfl)
  | key_store | key_wake => exact lockMoves_of_same R l log m _ _ (by simp [Quiet]) rfl rfl fun _ => rfl
  | create t prio lock sem _ _ hnew _ =>
    refine lockMoves_of_same R l log m _ _ (by simp [Quiet]) ?_ ?_ ?_
    · exact Function.update_of_ne hl _ _
    · exact congrArg Semaphore.value (setSema_other m .pid_lock l sem (Ne.symm hl))
    · exact view_create (lockPhase l) m hc t hnew rfl

end OsLearn
