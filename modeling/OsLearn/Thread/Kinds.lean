import OsLearn.Thread.Locks

/-!
# Frames of a kind

A piece puts a frame on a stack only in a call that is made, or on behalf of a frame of the same kind. So a task
that is in no call of a kind gets into one only by its own code.
-/

open OsLearn.Queues

namespace OsLearn

/-- A kind has all places of a call, and a call on a lock with the `sema_down` in it. The locks inside the queues
are of no kind. -/
structure Kind (K : Frame → Prop) : Prop where
  thread_block : ∀ o, ¬ K (.thread_block o)
  kernel_thread : ¬ K .kernel_thread
  intr_exit : ¬ K .intr_exit
  sema_down : ∀ s o o', K (.sema_down s o') → K (.sema_down s o)
  down : ∀ l o pc, K (.sema_down (.lock l) o) → K (.lock_acquire l pc)
  acquire : ∀ l pc pc', K (.lock_acquire l pc') → K (.lock_acquire l pc)
  release : ∀ l pc pc', K (.lock_release l pc') → K (.lock_release l pc)
  getchar : ∀ q pc pc', K (.ioq_getchar q pc') → K (.ioq_getchar q pc)
  putchar : ∀ q byte pc pc', K (.ioq_putchar q byte pc') → K (.ioq_putchar q byte pc)
  queue : ∀ q pc pc', ¬ K (.lock_acquire (.ioq q) pc) ∧ ¬ K (.lock_release (.ioq q) pc')

/-- No call of the kind is on the stack. -/
def FreeOf (K : Frame → Prop) (st : List Frame) : Prop := ∀ f ∈ st, ¬ K f

@[simp] theorem freeOf_nil (K : Frame → Prop) : FreeOf K [] ↔ True := by simp [FreeOf]

@[simp] theorem freeOf_cons (K : Frame → Prop) (f : Frame) (st : List Frame) :
    FreeOf K (f :: st) ↔ ¬ K f ∧ FreeOf K st := by
  simp [FreeOf]

theorem freeOf_update (K : Frame → Prop) (m : Machine) (st st' : List Frame) (hst : m.stack m.cur = st)
    (h : FreeOf K st → FreeOf K st') (t : Tid) (hfree : FreeOf K (m.stack t)) :
    FreeOf K (Function.update m.stack m.cur st' t) := by
  by_cases ht : t = m.cur
  · subst ht
    rw [Function.update_self]
    exact h (hst ▸ hfree)
  · rwa [Function.update_of_ne ht]

theorem freeOf_startCall (K : Frame → Prop) (m : Machine) (c : Call)
    (hc : FreeOf K ((startCall m c).stack m.cur)) (t : Tid) (hfree : FreeOf K (m.stack t)) :
    FreeOf K ((startCall m c).stack t) := by
  by_cases ht : t = m.cur
  · rw [ht]
    exact hc
  · have hsame : (startCall m c).stack t = m.stack t := by
      cases c with
      | intr_enable | intr_disable => rfl
      | _ => exact Function.update_of_ne ht _ _
    rw [hsame]
    exact hfree

theorem moves_freeOf (K : Frame → Prop) (hK : Kind K) (m m' : Machine) (a : Act) (evs : List Event)
    (hcall : ∀ c, a = .call c → FreeOf K ((startCall m c).stack m.cur)) (hmv : Moves m a m' evs) (t : Tid)
    (hfree : FreeOf K (m.stack t)) : FreeOf K (m'.stack t) := by
  -- A piece that ends a frame, and one that goes on with another frame in its place.
  have hend (m' : Machine) (f : Frame) (rest : List Frame) (hst : m.stack m.cur = f :: rest)
      (hst' : m'.stack = Function.update m.stack m.cur rest) : FreeOf K (m'.stack t) := by
    rw [hst']
    exact freeOf_update K m _ rest hst (fun h => ((freeOf_cons K f rest).mp h).2) t hfree
  have hnext (m' : Machine) (f f' : Frame) (rest : List Frame) (hst : m.stack m.cur = f :: rest)
      (hst' : m'.stack = Function.update m.stack m.cur (f' :: rest)) (hf : K f' → K f) : FreeOf K (m'.stack t) := by
    rw [hst']
    apply freeOf_update K m _ _ hst _ t hfree
    simp only [freeOf_cons]
    exact fun h => ⟨mt hf h.1, h.2⟩
  have hpush (m' : Machine) (f g f' : Frame) (rest : List Frame) (hst : m.stack m.cur = f :: rest)
      (hst' : m'.stack = Function.update m.stack m.cur (g :: f' :: rest)) (hg : K g → K f) (hf : K f' → K f) :
      FreeOf K (m'.stack t) := by
    rw [hst']
    apply freeOf_update K m _ _ hst _ t hfree
    simp only [freeOf_cons]
    exact fun h => ⟨mt hg h.1, mt hf h.1, h.2⟩
  have hblock (o : Bool) (f : Frame) (h : K (.thread_block o)) : K f := absurd h (hK.thread_block o)
  have hacquire (q : Nat) (f : Frame) (h : K (.lock_acquire (.ioq q) .entry)) : K f := absurd h (hK.queue q _ .entry).1
  have hrelease (q : Nat) (f : Frame) (h : K (.lock_release (.ioq q) .entry)) : K f := absurd h (hK.queue q .entry _).2
  cases hmv with
  | call c => exact freeOf_startCall K m c (hcall c rfl) t hfree
  | down_wait s o rest next tl hst =>
    cases o <;> exact hpush _ _ _ _ rest hst rfl (hblock _ _) (hK.sema_down s _ _)
  | down_take s o rest hst | up_none s rest hst | up_wake s rest _ _ hst => exact hend _ _ rest hst rfl
  | acquire_own l rest hst | acquire_taken l rest hst | acquire_check l rest hst =>
    exact hnext _ _ _ rest hst rfl (hK.acquire l _ _)
  | acquire_down l rest hst => exact hpush _ _ _ _ rest hst rfl (hK.down l _ _) (hK.acquire l _ _)
  | acquire_again l rest hst | acquire_first l rest hst | release_again l rest hst => exact hend _ _ rest hst rfl
  | release_entry l rest hst | release_more l rest hst | release_zero l rest hst | release_last l rest hst
  | release_clear l rest hst | release_reset l rest hst => exact hnext _ _ _ rest hst rfl (hK.release l _ _)
  | release_up_none l rest hst | release_up_wake l rest _ _ hst => exact hend _ _ rest hst rfl
  | block_end o rest hst | thread_entry rest hst | timer_end rest hst => exact hend _ _ rest hst rfl
  | get_empty q rest hst => exact hpush _ _ _ _ rest hst rfl (hacquire q _) (hK.getchar q _ _)
  | get_take q rest hst | get_wake q rest _ hst => exact hend _ _ rest hst rfl
  | get_wait q rest _ _ hst => exact hpush _ _ _ _ rest hst rfl (hblock _ _) (hK.getchar q _ _)
  | get_release q rest hst => exact hpush _ _ _ _ rest hst rfl (hrelease q _) (hK.getchar q _ _)
  | put_full q byte rest hst => exact hpush _ _ _ _ rest hst rfl (hacquire q _) (hK.putchar q byte _ _)
  | put_store q byte rest hst | put_wake q byte rest _ hst => exact hend _ _ rest hst rfl
  | put_wait q byte rest _ _ hst => exact hpush _ _ _ _ rest hst rfl (hblock _ _) (hK.putchar q byte _ _)
  | put_release q byte rest hst => exact hpush _ _ _ _ rest hst rfl (hrelease q _) (hK.putchar q byte _ _)
  | tick | key_drop | key_store | key_wake => exact hfree
  | preempt next rest =>
    have hexit (h : FreeOf K (m.stack m.cur)) : FreeOf K (.intr_exit :: m.stack m.cur) :=
      (freeOf_cons K _ _).mpr ⟨hK.intr_exit, h⟩
    exact freeOf_update K m _ _ rfl hexit t hfree
  | create u =>
    suffices FreeOf K (Function.update m.stack u [.kernel_thread] t) from this
    by_cases ht : t = u
    · subst ht
      rw [Function.update_self]
      exact (freeOf_cons K _ _).mpr ⟨hK.kernel_thread, (freeOf_nil K).mpr trivial⟩
    · rwa [Function.update_of_ne ht]

/-! ## The two kinds -/

/-- The calls on one of the kernel's locks. -/
def OnLock (i : Nat) : Frame → Prop
  | .sema_down s _ => s = .lock (.lock i)
  | .lock_acquire l _ | .lock_release l _ => l = .lock i
  | _ => False

theorem onLock_kind (i : Nat) : Kind (OnLock i) where
  thread_block _ h := h
  kernel_thread h := h
  intr_exit h := h
  sema_down _ _ _ h := h
  down _ _ _ h := SemRef.lock.inj h
  acquire _ _ _ h := h
  release _ _ _ h := h
  getchar _ _ _ h := h
  putchar _ _ _ _ h := h
  queue _ _ _ := ⟨LockRef.noConfusion, LockRef.noConfusion⟩

def InGetchar : Frame → Prop
  | .ioq_getchar _ _ => True
  | _ => False

theorem inGetchar_kind : Kind InGetchar where
  thread_block _ h := h
  kernel_thread h := h
  intr_exit h := h
  sema_down _ _ _ h := h
  down _ _ _ h := h
  acquire _ _ _ h := h
  release _ _ _ h := h
  getchar _ _ _ h := h
  putchar _ _ _ _ h := h
  queue _ _ _ := ⟨id, id⟩

theorem freeOf_lockPhase (i : Nat) (st : List Frame) : FreeOf (OnLock i) st ↔ lockPhase (.lock i) st = .idle := by
  induction st with
  | nil => simp [lockPhase]
  | cons f st ih =>
    rw [freeOf_cons, ih]
    cases f with
    | sema_down s o =>
      cases s with
      | sema j => simp [OnLock, lockPhase]
      | lock l => by_cases hl : l = .lock i <;> simp [OnLock, lockPhase, hl]
    | lock_acquire l pc | lock_release l pc => by_cases hl : l = .lock i <;> simp [OnLock, lockPhase, hl]
    | sema_up | thread_block | ioq_getchar | ioq_putchar | kernel_thread | intr_exit => simp [OnLock, lockPhase]

end OsLearn
