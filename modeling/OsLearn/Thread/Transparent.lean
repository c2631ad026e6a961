import OsLearn.Thread.Flags

/-!
# The interrupt flag belongs to the task

`flagAfter` is the flag that a task will have once the calls on its stack are over: a call that has
saved the flag puts it back, and the others leave it as it is. No step of the machine changes it,
whatever flag the other tasks run with in between.
-/

open OsLearn.Queues

namespace OsLearn

/-! ## The flag at the end of a call -/

/-- The flag behind a call whose code goes on with the flag `now`. -/
def Frame.restores (now : Bool) : Frame → Bool
  | .sema_down _ (some old_status) => old_status
  | .thread_block old_status => old_status
  | .kernel_thread => true
  | .intr_exit => true
  | _ => now

def flagAfter (now : Bool) (calls : List Frame) : Bool := calls.foldl Frame.restores now

/-- The frames of a task that was switched out, or has not run yet. -/
def parked : List Frame → Bool
  | .thread_block _ :: _ | .kernel_thread :: _ | .intr_exit :: _ => true
  | _ => false

def Frame.isIoq : Frame → Bool
  | .ioq_getchar _ _ | .ioq_putchar _ _ _ => true
  | _ => false

def endsIoq (st : List Frame) : Bool := (st.getLast?.map Frame.isIoq).getD false

theorem flagAfter_append (now : Bool) (calls calls' : List Frame) :
    flagAfter now (calls ++ calls') = flagAfter (flagAfter now calls) calls' := List.foldl_append

/-- A task that is parked has its flag on its stack. -/
theorem flagAfter_parked (now now' : Bool) (calls : List Frame) (h : parked calls = true) :
    flagAfter now calls = flagAfter now' calls := by
  match calls, h with
  | .thread_block _ :: _, _ | .kernel_thread :: _, _ | .intr_exit :: _, _ => rfl

theorem endsIoq_append (st rest : List Frame) (h : rest ≠ []) : endsIoq (st ++ rest) = endsIoq rest := by
  unfold endsIoq
  rw [List.getLast?_append_of_ne_nil _ h]

/-! ## One move -/

/-- What a move does to the calls of the running task: at most the innermost one is replaced, and
the flag behind it is the same. -/
def KeepsFlag (m m' : Machine) : Prop :=
  ∃ top new rest, m.stack m.cur = top ++ rest ∧ m'.stack m.cur = new ++ rest ∧ top.length ≤ 1 ∧
    flagAfter m'.sched.intr new = flagAfter m.sched.intr top ∧ (new = [] → m'.cur = m.cur) ∧
    (endsIoq new = true → endsIoq top = true)

theorem keepsFlag_same (m m' : Machine) (hst : m'.stack m.cur = m.stack m.cur)
    (hi : m'.sched.intr = m.sched.intr) (hc : m'.cur = m.cur) : KeepsFlag m m' :=
  ⟨[], [], m.stack m.cur, rfl, hst, by simp, hi, fun _ => hc, id⟩

theorem keepsFlag_piece (m m' : Machine) (f : Frame) (rest new : List Frame) (hst : m.stack m.cur = f :: rest)
    (hst' : m'.stack = Function.update m.stack m.cur (new ++ rest))
    (hi : flagAfter m'.sched.intr new = f.restores m.sched.intr) (hc : new = [] → m'.cur = m.cur)
    (hioq : endsIoq new = true → f.isIoq = true) : KeepsFlag m m' := by
  refine ⟨[f], new, rest, hst, ?_, by simp, hi, hc, fun h => by simpa [endsIoq] using hioq h⟩
  rw [hst', Function.update_self]

theorem moves_keepsFlag (m m' : Machine) (a : Act) (evs : List Event) (hi : QueueInv m)
    (ha : ∀ c, a ≠ .call c) (hmv : Moves m a m' evs) : KeepsFlag m m' := by
  cases hmv with
  | call c => exact absurd rfl (ha c)
  | down_wait s o rest next tl hst _ _ =>
    cases o with
    | none =>
      exact keepsFlag_piece m _ _ rest [.thread_block false, .sema_down s (some m.sched.intr)] hst rfl rfl (by simp)
        (by simp [endsIoq, Frame.isIoq])
    | some old =>
      exact keepsFlag_piece m _ _ rest [.thread_block m.sched.intr, .sema_down s (some old)] hst rfl rfl (by simp)
        (by simp [endsIoq, Frame.isIoq])
  | down_take s o rest hst _ =>
    cases o with
    | none => exact keepsFlag_piece m _ _ rest [] hst rfl rfl (fun _ => rfl) (by simp [endsIoq])
    | some old => exact keepsFlag_piece m _ _ rest [] hst rfl rfl (fun _ => rfl) (by simp [endsIoq])
  | acquire_own l rest hst _ | acquire_taken l rest hst | acquire_check l rest hst _ =>
    exact keepsFlag_piece m _ _ rest [.lock_acquire l _] hst rfl rfl (by simp) (by simp [endsIoq, Frame.isIoq])
  | acquire_down l rest hst _ =>
    exact keepsFlag_piece m _ _ rest [.sema_down (.lock l) none, .lock_acquire l .taken] hst rfl rfl (by simp)
      (by simp [endsIoq, Frame.isIoq])
  | release_entry l rest hst _ | release_more l rest hst _ | release_zero l rest hst _
  | release_last l rest hst _ | release_clear l rest hst | release_reset l rest hst =>
    exact keepsFlag_piece m _ _ rest [.lock_release l _] hst rfl rfl (by simp) (by simp [endsIoq, Frame.isIoq])
  | up_none s rest hst _ _ | up_wake s rest t ts hst _ _ | acquire_again l rest hst | acquire_first l rest hst
  | release_again l rest hst | release_up_none l rest hst _ _ | release_up_wake l rest t ts hst _ _
  | block_end old rest hst | get_take q rest hst _ _ _ | get_wake q rest t hst _ _ _
  | put_store q byte rest hst _ _ _ | put_wake q byte rest t hst _ _ _ | thread_entry rest hst
  | timer_end rest hst =>
    exact keepsFlag_piece m _ _ rest [] hst rfl rfl (fun _ => rfl) (by simp [endsIoq])
  | get_empty q rest hst _ _ =>
    exact keepsFlag_piece m _ _ rest [.lock_acquire (.ioq q) .entry, .ioq_getchar q .wait] hst rfl rfl (by simp)
      (fun _ => rfl)
  | put_full q byte rest hst _ _ =>
    exact keepsFlag_piece m _ _ rest [.lock_acquire (.ioq q) .entry, .ioq_putchar q byte .wait] hst rfl rfl (by simp)
      (fun _ => rfl)
  | get_wait q rest next tl hst _ _ =>
    exact keepsFlag_piece m _ _ rest [.thread_block m.sched.intr, .ioq_getchar q .release] hst rfl rfl (by simp)
      (fun _ => rfl)
  | put_wait q byte rest next tl hst _ _ =>
    exact keepsFlag_piece m _ _ rest [.thread_block m.sched.intr, .ioq_putchar q byte .release] hst rfl rfl (by simp)
      (fun _ => rfl)
  | get_release q rest hst =>
    exact keepsFlag_piece m _ _ rest [.lock_release (.ioq q) .entry, .ioq_getchar q .loop] hst rfl rfl (by simp)
      (fun _ => rfl)
  | put_release q byte rest hst =>
    exact keepsFlag_piece m _ _ rest [.lock_release (.ioq q) .entry, .ioq_putchar q byte .loop] hst rfl rfl (by simp)
      (fun _ => rfl)
  | tick | key_drop | key_store | key_wake => exact keepsFlag_same m _ rfl rfl rfl
  | preempt next rest hon =>
    -- the gate has turned the flag off, and `iret` will turn it on
    refine ⟨[], [.intr_exit], m.stack m.cur, rfl, ?_, by simp, ?_, by simp, by simp [endsIoq, Frame.isIoq]⟩
    · simp [Machine.preempt, Function.update_self]
    · rw [hon]
      rfl
  | create t prio lock sem _ _ hnew _ =>
    have hne : m.cur ≠ t := by
      rintro rfl
      exact hnew hi.queue.cur_mem
    exact keepsFlag_same m _ (Function.update_of_ne hne _ _) rfl rfl

theorem moves_other (m m' : Machine) (a : Act) (evs : List Event) (hmv : Moves m a m' evs) (t : Tid)
    (ha : t ∈ m.sched.thread_all_list) (ht : t ≠ m.cur) : m'.stack t = m.stack t := by
  cases hmv with
  | call c =>
    cases c with
    | intr_enable | intr_disable => rfl
    | _ => exact Function.update_of_ne ht _ _
  | down_wait s o => cases o <;> exact Function.update_of_ne ht _ _
  | tick | key_drop | key_store | key_wake => rfl
  | create u prio lock sem _ _ hnew _ =>
    have hne : t ≠ u := by
      rintro rfl
      exact hnew ha
    exact Function.update_of_ne hne _ _
  | _ => exact Function.update_of_ne ht _ _

/-- A move that switches has parked the running task, and the flag is off. -/
theorem moves_switch (m m' : Machine) (a : Act) (evs : List Event) (hmv : Moves m a m' evs) :
    m'.cur = m.cur ∨ m'.sched.intr = false ∧ parked (m'.stack m.cur) = true := by
  cases hmv with
  | call c => cases c <;> exact .inl rfl
  | down_wait s o =>
    refine .inr ⟨by cases o <;> rfl, ?_⟩
    cases o <;> simp [Machine.switchOut, Machine.setSema, atLoop, Machine.setIntr, Machine.cur, parked]
  | get_wait | put_wait => exact .inr ⟨rfl, by simp [Machine.switchOut, Machine.setIoq, Machine.cur, parked]⟩
  | preempt => exact .inr ⟨rfl, by simp [Machine.preempt, parked]⟩
  | _ => exact .inl rfl

theorem moves_all (m m' : Machine) (a : Act) (evs : List Event) (hmv : Moves m a m' evs) (t : Tid)
    (ha : t ∈ m'.sched.thread_all_list) : t ∈ m.sched.thread_all_list ∨ m'.stack t = [.kernel_thread] := by
  cases hmv with
  | call c => cases c <;> exact .inl ha
  | down_wait s o => cases o <;> exact .inl ha
  | create u prio lock sem =>
    have ha : t ∈ m.sched.thread_all_list ++ [u] := ha
    rw [List.mem_append, List.mem_singleton] at ha
    refine ha.imp id fun h => ?_
    subst h
    exact Function.update_self _ _ _
  | _ => exact .inl ha

/-! ## Whole runs -/

/-- Every task but the running one is parked. -/
def OthersParked (m : Machine) : Prop :=
  ∀ t ∈ m.sched.thread_all_list, t ≠ m.cur → parked (m.stack t) = true

theorem moves_parked (m m' : Machine) (a : Act) (evs : List Event) (h : OthersParked m)
    (hmv : Moves m a m' evs) : OthersParked m' := by
  intro t ha ht
  rcases moves_all m m' a evs hmv t ha with ha | hnew
  · by_cases hc : t = m.cur
    · subst hc
      exact ((moves_switch m m' a evs hmv).resolve_left (Ne.symm ht)).2
    · rw [moves_other m m' a evs hmv t ha hc]
      exact h t ha hc
  · rw [hnew]
    rfl

theorem reach_parked (ok : List Event → Machine → Act → Prop) (log : List Event) (m : Machine)
    (h : Run.Reach kernel ok log m) : OthersParked m := by
  refine reach_moves ok (fun _ => OthersParked) ?_ ?_ log m h
  · intro main intr task value buf t ha ht
    have ha : t ∈ [main] := ha
    exact absurd (List.mem_singleton.mp ha) ht
  · intro log m a m' evs _ hp _ hmv
    exact moves_parked m m' a evs hp hmv

/-- A part of a run, in which task `t` has calls above the frames `st` until the end. -/
inductive During (t : Tid) (st : List Frame) (m : Machine) : Machine → Prop
  | start : During t st m m
  | step (m₁ : Machine) (a : Act) (m₂ : Machine) (evs : List Event) :
      During t st m m₁ → (∃ f calls, m₁.stack t = f :: calls ++ st) → step m₁ a = .ok (m₂, evs) →
      During t st m m₂

theorem step_flagAfter (m m' : Machine) (a : Act) (evs : List Event) (hi : QueueInv m) (hp : OthersParked m)
    (hmv : Moves m a m' evs) (t : Tid) (ha : t ∈ m.sched.thread_all_list) (f : Frame) (calls st : List Frame)
    (hst : m.stack t = f :: calls ++ st) :
    ∃ calls', m'.stack t = calls' ++ st ∧
      flagAfter m'.sched.intr calls' = flagAfter m.sched.intr (f :: calls) ∧ (calls' = [] → m'.cur = t) := by
  by_cases ht : t = m.cur
  · subst ht
    have hcall : ∀ c, a ≠ .call c := by
      rintro c rfl
      cases hmv with
      | call c hnil => simp [hst] at hnil
    obtain ⟨top, new, rest, htop, hnew, hlen, hflag, hcur, -⟩ := moves_keepsFlag m m' a evs hi hcall hmv
    -- the frames that stay include `st`
    obtain ⟨mid, hmid, rfl⟩ : ∃ mid, f :: calls = top ++ mid ∧ rest = mid ++ st := by
      rw [hst] at htop
      match top, hlen with
      | [], _ => exact ⟨f :: calls, rfl, htop.symm⟩
      | [g], _ =>
        simp only [List.cons_append, List.nil_append, List.cons.injEq] at htop
        exact ⟨calls, by rw [htop.1]; rfl, htop.2.symm⟩
    refine ⟨new ++ mid, by rw [hnew, List.append_assoc], ?_, fun h => hcur (List.append_eq_nil_iff.mp h).1⟩
    rw [hmid, flagAfter_append, flagAfter_append, hflag]
  · refine ⟨f :: calls, by rw [moves_other m m' a evs hmv t ha ht, hst], ?_, by simp⟩
    have hpk := hp t ha ht
    rw [hst] at hpk
    refine flagAfter_parked _ _ _ ?_
    cases f <;> simp_all [parked]

/-- The flag behind the calls of a task, over a part of a run. -/
theorem during_flagAfter (log : List Event) (m m' : Machine) (h : Run.Reach kernel Run.anyStep log m) (t : Tid)
    (ha : t ∈ m.sched.thread_all_list) (calls st : List Frame) (hst : m.stack t = calls ++ st) (hne : calls ≠ [])
    (hd : During t st m m') :
    (∃ log', Run.Reach kernel Run.anyStep log' m') ∧ t ∈ m'.sched.thread_all_list ∧
    ∃ calls', m'.stack t = calls' ++ st ∧ flagAfter m'.sched.intr calls' = flagAfter m.sched.intr calls ∧
      (calls' = [] → m'.cur = t) := by
  induction hd with
  | start => exact ⟨⟨log, h⟩, ha, calls, hst, rfl, fun hn => absurd hn hne⟩
  | step m₁ a m₂ evs _ habove hstep ih =>
    obtain ⟨⟨log₁, hr⟩, ha₁, calls₁, hst₁, hflag, -⟩ := ih
    obtain ⟨f, above, habove⟩ := habove
    have heq : calls₁ = f :: above := List.append_cancel_right (hst₁.symm.trans habove)
    subst heq
    have hi := reach_inv log₁ m₁ hr
    have hmv := spec_of_ok _ _ _ (step_moves m₁ a hi) (m₂, evs) hstep
    obtain ⟨calls₂, hst₂, hflag₂, hcur⟩ :=
      step_flagAfter m₁ m₂ a evs hi (reach_parked _ log₁ m₁ hr) hmv t ha₁ f above st hst₁
    refine ⟨⟨_, .step log₁ m₁ a m₂ evs hr trivial hstep⟩, ?_, calls₂, hst₂, hflag₂.trans hflag, hcur⟩
    cases hmv with
    | call c => cases c <;> exact ha₁
    | down_wait s o => cases o <;> exact ha₁
    | create => exact List.mem_append_left _ ha₁
    | _ => exact ha₁

/-! ## The checks of the flag -/

/-- No check of the flag failed, unless a call of `ioqueue.c` goes on with interrupts on. -/
def FlagStop (m : Machine) (e : Stop) : Prop :=
  ∀ site, e = .panic site → site ≠ .schedule_intr_off ∧
    (site = .ioq_intr_off → m.sched.intr = true ∧ ∃ f rest, m.stack m.cur = f :: rest ∧ f.isIoq = true)

theorem stops_flagStop (m : Machine) (e : Stop) (h : Stops m e) : FlagStop m e := by
  rintro site rfl
  cases h with
  | get_intr q rest hst hi | put_intr q byte rest hst hi => exact ⟨by simp, fun _ => ⟨hi, _, rest, hst, rfl⟩⟩
  | _ => simp

/-- The calls of `ioqueue.c` are made with interrupts off. -/
def IoqCalledOff (_ : List Event) (m : Machine) (a : Act) : Prop :=
  ∀ q, (a = .call (.ioq_getchar q) → m.sched.intr = false) ∧
    ∀ byte, a = .call (.ioq_putchar q byte) → m.sched.intr = false

/-- A task in a call of `ioqueue.c` goes on with interrupts off. -/
def IoqOff (m : Machine) : Prop :=
  ∀ t ∈ m.sched.thread_all_list, endsIoq (m.stack t) = true → flagAfter m.sched.intr (m.stack t) = false

theorem moves_ioqOff (log : List Event) (m m' : Machine) (a : Act) (evs : List Event) (hi : QueueInv m)
    (hp : OthersParked m) (h : IoqOff m) (hok : IoqCalledOff log m a) (hmv : Moves m a m' evs) : IoqOff m' := by
  intro t ha hioq
  rcases moves_all m m' a evs hmv t ha with ha | hnew
  · by_cases ht : t = m.cur
    · subst ht
      by_cases hcall : ∃ c, a = .call c
      · obtain ⟨c, rfl⟩ := hcall
        cases hmv with
        | call c hst =>
          cases c with
          | ioq_getchar q => simpa [startCall, Machine.setStack, flagAfter, Frame.restores] using (hok q).1 rfl
          | ioq_putchar q byte =>
            simpa [startCall, Machine.setStack, flagAfter, Frame.restores] using (hok q).2 byte rfl
          | intr_enable | intr_disable => simp [startCall, Machine.setIntr, hst, endsIoq] at hioq
          | _ => simp [startCall, Machine.setStack, endsIoq, Frame.isIoq] at hioq
      · obtain ⟨top, new, rest, htop, hnew, -, hflag, -, hend⟩ :=
          moves_keepsFlag m m' a evs hi (fun c hc => hcall ⟨c, hc⟩) hmv
        have hbefore : endsIoq (m.stack m.cur) = true := by
          rw [hnew] at hioq
          rw [htop]
          by_cases hr : rest = []
          · subst hr
            rw [List.append_nil] at hioq ⊢
            exact hend hioq
          · rw [endsIoq_append _ _ hr] at hioq ⊢
            exact hioq
        have := h m.cur ha hbefore
        rw [hnew, flagAfter_append, hflag, ← flagAfter_append, ← htop]
        exact this
    · rw [moves_other m m' a evs hmv t ha ht] at hioq ⊢
      rw [flagAfter_parked _ m.sched.intr _ (hp t ha ht)]
      exact h t ha hioq
  · rw [hnew] at hioq
    simp [endsIoq, Frame.isIoq] at hioq

theorem reach_ioqOff (log : List Event) (m : Machine) (h : Run.Reach kernel IoqCalledOff log m) : IoqOff m := by
  suffices IoqOff m ∧ OthersParked m from this.1
  refine reach_moves IoqCalledOff (fun _ m => IoqOff m ∧ OthersParked m) ?_ ?_ log m h
  · intro main intr task value buf
    refine ⟨fun t _ hioq => ?_, fun t ha ht => ?_⟩
    · have hioq : endsIoq [] = true := hioq
      cases hioq
    · have ha : t ∈ [main] := ha
      exact absurd (List.mem_singleton.mp ha) ht
  · intro log m a m' evs hi ⟨hI, hp⟩ hok hmv
    exact ⟨moves_ioqOff log m m' a evs hi hp hI hok hmv, moves_parked m m' a evs hp hmv⟩

/-! ## Transparency -/

/-- The calls that save the flag or leave it alone, at their first line. -/
def Frame.entry : Frame → Bool
  | .sema_down _ none | .sema_up _ | .lock_acquire _ .entry | .lock_release _ .entry => true
  | _ => false

theorem entry_flag (f : Frame) (now : Bool) (h : f.entry = true) : f.restores now = now := by
  match f, h with
  | .sema_down _ none, _ | .sema_up _, _ | .lock_acquire _ .entry, _ | .lock_release _ .entry, _ => rfl

theorem thread_block_frame (m m' : Machine) (stat : TaskStatus) (rest : List Frame)
    (h : Flagged.thread_block m stat rest = .ok m') : m'.stack m.cur = .thread_block m.sched.intr :: rest := by
  rw [Flagged.thread_block_same] at h
  refine spec_of_ok _ (fun m' => m'.stack m.cur = .thread_block m.sched.intr :: rest) (fun _ => True) ?_ m' h
  unfold thread_block
  simp only [spec_bind, spec_ASSERT, spec_pure]
  refine ⟨fun _ => ?_, fun _ => trivial⟩
  rw [spec_iff_ok]
  exact fun _ _ => Function.update_self _ _ _

theorem sema_up_flag (m m' : Machine) (s : SemRef) (h : Flagged.sema_up m s = .ok m') :
    m'.sched.intr = m.sched.intr := by
  rw [Flagged.sema_up_same] at h
  refine spec_of_ok _ (fun m' => m'.sched.intr = m.sched.intr) (fun _ => True) ?_ m' h
  unfold sema_up
  simp only [spec_bind, spec_ASSERT]
  refine ⟨fun _ => ?_, fun _ => trivial⟩
  split
  · simp only [spec_pure, spec_bind, spec_ASSERT]
    exact ⟨fun _ => rfl, fun _ => trivial⟩
  · rename_i t ts _
    rw [spec_bind, spec_iff_ok]
    intro sched hs
    simp only [spec_pure, spec_bind, spec_ASSERT]
    exact ⟨fun _ => Flagged.thread_unblock_flag _ sched t hs, fun _ => trivial⟩

theorem call_returns (log : List Event) (m m' : Machine) (h : Run.Reach kernel Run.anyStep log m) (t : Tid)
    (ha : t ∈ m.sched.thread_all_list) (f : Frame) (st : List Frame) (hst : m.stack t = f :: st)
    (hd : During t st m m') (hend : m'.stack t = st) :
    m'.cur = t ∧ m'.sched.intr = f.restores m.sched.intr := by
  obtain ⟨-, -, calls, hst', hflag, hcur⟩ := during_flagAfter log m m' h t ha [f] st hst (by simp) hd
  have hnil : calls = [] := by
    rw [hend] at hst'
    exact List.append_left_eq_self.mp hst'.symm
  subst hnil
  exact ⟨hcur rfl, hflag⟩

/-- **The interrupt flag is the task's own.** Every call of the list functions, of `thread_unblock`
and `sema_up` returns with the flag it was made with. So does, in any run, every call of `sema_down`,
`lock_acquire`, `lock_release` and `thread_block`, whatever ran in between. A switch happens with the
flag off. No check of the flag fails in `schedule`, and none in `ioqueue.c` when its calls are made
with interrupts off. -/
theorem interrupt_flag_kept :
    (∀ c before elem, (list_insert_before c before elem).intr = c.intr) ∧
    (∀ c pelem, (list_remove c pelem).intr = c.intr) ∧
    (∀ s t s', Flagged.thread_unblock s t = .ok s' → s'.intr = s.intr) ∧
    (∀ m s m', Flagged.sema_up m s = .ok m' → m'.sched.intr = m.sched.intr) ∧
    (∀ m stat rest m', Flagged.thread_block m stat rest = .ok m' →
      m'.stack m.cur = .thread_block m.sched.intr :: rest) ∧
    (∀ log m, Run.Reach kernel Run.anyStep log m →
      (∀ f st m', f.entry = true → m.stack m.cur = f :: st → During m.cur st m m' → m'.stack m.cur = st →
        m'.cur = m.cur ∧ m'.sched.intr = m.sched.intr) ∧
      (∀ t ∈ m.sched.thread_all_list, ∀ old st m', m.stack t = .thread_block old :: st → During t st m m' →
        m'.stack t = st → m'.cur = t ∧ m'.sched.intr = old) ∧
      (∀ a m' evs, step m a = .ok (m', evs) → m'.cur ≠ m.cur → m'.sched.intr = false) ∧
      ∀ a, step m a ≠ .error (.panic .schedule_intr_off)) ∧
    ∀ log m, Run.Reach kernel IoqCalledOff log m → ∀ a, step m a ≠ .error (.panic .ioq_intr_off) := by
  refine ⟨list_insert_before_intr, list_remove_intr, ?_, fun m s m' => sema_up_flag m m' s,
    fun m stat rest m' => thread_block_frame m m' stat rest, ?_, ?_⟩
  · intro s t s' h
    rw [Flagged.thread_unblock_same] at h
    exact Flagged.thread_unblock_flag s s' t h
  · intro log m h
    have hi := reach_inv log m h
    refine ⟨?_, ?_, ?_, ?_⟩
    · intro f st m' hf hst hd hend
      have hr := call_returns log m m' h m.cur hi.queue.cur_mem f st hst hd hend
      rwa [entry_flag f _ hf] at hr
    · intro t ha old st m' hst hd hend
      exact call_returns log m m' h t ha _ st hst hd hend
    · intro a m' evs hs hne
      have hmv := spec_of_ok _ _ _ (step_moves m a hi) (m', evs) hs
      exact ((moves_switch m m' a evs hmv).resolve_left hne).1
    · intro a hs
      exact (stops_flagStop m _ (spec_of_error _ _ _ (step_moves m a hi) _ hs) _ rfl).1 rfl
  · intro log m h a hs
    have hany := Run.reach_any kernel _ log m h
    have hi := reach_inv log m hany
    obtain ⟨hon, f, rest, hst, hf⟩ := (stops_flagStop m _ (spec_of_error _ _ _ (step_moves m a hi) _ hs) _ rfl).2 rfl
    have hrest : rest = [] := by
      have hs := (reach_calls _ log m hany).shape m.cur
      rw [hst] at hs
      cases hs <;> simp [Frame.isIoq] at hf ⊢
    subst hrest
    have hoff := reach_ioqOff log m h m.cur hi.queue.cur_mem (by simp [hst, endsIoq, hf])
    rw [hst] at hoff
    have hnow : f.restores m.sched.intr = m.sched.intr := by
      cases f <;> simp_all [Frame.isIoq, Frame.restores]
    have hoff : f.restores m.sched.intr = false := hoff
    rw [hnow, hon] at hoff
    cases hoff

/-- The run of a list of actions in which task `t` is in a call until the end. -/
def playDuring (t : Tid) : Machine → List Act → Option Machine
  | m, [] => some m
  | m, a :: as =>
    if m.stack t = [] then none
    else match step m a with
      | .ok (m', _) => playDuring t m' as
      | .error _ => none

theorem during_play (t : Tid) (m₀ m m' : Machine) (acts : List Act) (h : During t [] m₀ m)
    (hp : playDuring t m acts = some m') : During t [] m₀ m' := by
  induction acts generalizing m with
  | nil =>
    cases hp
    exact h
  | cons a as ih =>
    simp only [playDuring] at hp
    split at hp
    · cases hp
    · rename_i hne
      split at hp
      · rename_i m₁ evs hs
        refine ih m₁ (.step m a m₁ evs h ?_ hs) hp
        obtain ⟨f, calls, hf⟩ := List.exists_cons_of_ne_nil hne
        exact ⟨f, calls, by rw [hf, List.append_nil]⟩
      · cases hp

def wantsSecond : List Act := [.thread_start 1 31, .call (.sema_down 0), .run, .call (.sema_down 0)]

def getsSecond : List Act :=
  [.run, .run, .call (.sema_up 0), .run, .call (.sema_down 1), .run, .call (.sema_down 1), .run, .run, .run]

theorem interrupt_flag_kept_blocked : ∃ log m m', Run.play kernel Run.anyStep [] zeroed wantsSecond = some (log, m) ∧
    playDuring 0 m getsSecond = some m' ∧ m.sched.intr = false ∧ m'.cur = 0 ∧ m'.sched.intr = false := by
  have h : (Run.play kernel Run.anyStep [] zeroed wantsSecond).map (fun r => (r.2.sched.intr, r.2.cur, r.2.stack 0,
      (playDuring 0 r.2 getsSecond).map fun m' => m'.stack 0)) =
      some (false, 0, [.sema_down (.sema 0) none], some []) := by decide +kernel
  obtain ⟨⟨log, m⟩, hp, hm⟩ := Option.map_eq_some_iff.mp h
  simp only [Prod.mk.injEq] at hm
  obtain ⟨hoff, hcur, hst, hm'⟩ := hm
  obtain ⟨m', hp', hend⟩ := Option.map_eq_some_iff.mp hm'
  have hd := during_play 0 m m m' getsSecond .start hp'
  obtain ⟨-, -, -, -, -, hcalls, -⟩ := interrupt_flag_kept
  have hkept := (hcalls log m (reach_zeroed _ _ log m hp)).1 _ [] m' rfl (hcur ▸ hst) (hcur ▸ hd) (hcur ▸ hend)
  rw [hcur, hoff] at hkept
  exact ⟨log, m, m', hp, hp', hoff, hkept.1, hkept.2⟩

end OsLearn
