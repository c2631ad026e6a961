import OsLearn.Kernel.Main

/-!
# The threads and the console lock

By the line that a thread is in, how often it has got the lock, and whether it can be in `ioq_getchar`.
-/

open OsLearn.Run OsLearn.Queues

namespace OsLearn.Main

/-! ## The console lock -/

inductive Stage where
  | outside
  | acquiring
  | inside
  | releasing

def Pc.stage : Pc → Stage
  | .console_acquire _ _ _ => .acquiring
  | .put_str _ _ _ => .inside
  | .console_release _ _ => .releasing
  | _ => .outside

def Acquiring : LockPhase → Prop
  | .acquire _ | .down => True
  | _ => False

def Releasing : LockPhase → Prop
  | .release _ => True
  | _ => False

/-- Where a thread is with the lock, by the line it is in: a call goes on, or has just returned. -/
def Place (s : LockState) : Stage → Prop
  | .outside => s.phase = .idle ∧ s.acquired = s.released
  | .acquiring => Acquiring s.phase ∧ s.acquired = s.released ∨ s.phase = .idle ∧ s.acquired = s.released + 1
  | .inside => s.phase = .idle ∧ s.acquired = s.released + 1
  | .releasing => Releasing s.phase ∧ s.acquired = s.released + 1 ∨ s.phase = .idle ∧ s.acquired = s.released

theorem place_idle (R : Nat → Prop) (t : Tid) (s s' : LockState) (stage : Stage) (hs : LockStep R t s s')
    (hidle : s.phase = .idle) (hidle' : s'.phase = .idle) (h : Place s stage) : Place s' stage := by
  cases hs with
  | stay => exact h
  | acquire_call | release_call => cases hidle'
  | own hp | want hp | again hp | take hp | taken hp | check hp | first hp | entry hp | more hp | zero hp | less hp
  | last hp | clear hp | reset hp | up hp =>
    rw [hidle] at hp
    cases hp

theorem place_step (R : Nat → Prop) (t : Tid) (s s' : LockState) (stage : Stage) (hs : LockStep R t s s')
    (hidle : s.phase = .idle → s'.phase = .idle) (h : Place s stage) : Place s' stage := by
  have hstay (hp : s.phase = .idle) : Place s' stage := place_idle R t s s' stage hs hp (hidle hp) h
  cases stage with
  | outside | inside => exact hstay h.1
  | acquiring =>
    rcases h with ⟨hphase, hcount⟩ | ⟨hp, -⟩
    · cases hs with
      | stay => exact .inl ⟨hphase, hcount⟩
      | own | want | take | taken | check => exact .inl ⟨trivial, hcount⟩
      | again | first => exact .inr ⟨rfl, congrArg (· + 1) hcount⟩
      | acquire_call hp | release_call hp | entry hp | more hp | zero hp | less hp | last hp | clear hp | reset hp
      | up hp =>
        rw [hp] at hphase
        exact hphase.elim
    · exact hstay hp
  | releasing =>
    rcases h with ⟨hphase, hcount⟩ | ⟨hp, -⟩
    · cases hs with
      | stay => exact .inl ⟨hphase, hcount⟩
      | entry | more | zero | last | clear | reset => exact .inl ⟨trivial, hcount⟩
      | less | up => exact .inr ⟨rfl, hcount⟩
      | acquire_call hp | release_call hp | own hp | want hp | again hp | take hp | taken hp | check hp | first hp =>
        rw [hp] at hphase
        exact hphase.elim
    · exact hstay hp

theorem place_same (s s' : LockState) (stage : Stage) (hs : SameTask s s') (h : Place s stage) : Place s' stage := by
  obtain ⟨hp, ha, hr⟩ := hs
  cases stage <;> simpa only [Place, hp, ha, hr] using h

/-! ## One step of the kernel -/

abbrev lock : LockRef := .lock console_lock

/-- The steps of the kernel that start no call. -/
inductive Plain : Act → Prop
  | run : Plain .run
  | timer : Plain .timer
  | keyboard (q : Nat) (byte : UInt8) : Plain (.keyboard q byte)
  | thread_start (t : Tid) (prio : Int32) : Plain (.thread_start t prio)
  | intr_enable : Plain (.call .intr_enable)
  | intr_disable : Plain (.call .intr_disable)

theorem step_call (m m' : Machine) (c : Call) (evs : List Event) (hs : OsLearn.step m (.call c) = .ok (m', evs)) :
    m.stack m.cur = [] ∧ m' = startCall m c ∧ evs = [] := by
  simp only [OsLearn.step] at hs
  split at hs
  · next hst =>
    obtain ⟨rfl, rfl⟩ := Prod.mk.inj (Except.ok.inj hs)
    exact ⟨hst, rfl, rfl⟩
  · contradiction

theorem plain_freeOf (K : Frame → Prop) (hK : Kind K) (m m' : Machine) (a : Act) (evs : List Event) (ha : Plain a)
    (hs : OsLearn.step m a = .ok (m', evs)) (hmv : Moves m a m' evs) (t : Tid) (hfree : FreeOf K (m.stack t)) :
    FreeOf K (m'.stack t) := by
  apply moves_freeOf K hK m m' a evs _ hmv t hfree
  rintro c rfl
  obtain ⟨hst, -, -⟩ := step_call m m' c evs hs
  have hsame : (startCall m c).stack m.cur = m.stack m.cur := by
    cases ha <;> rfl
  rw [hsame, hst, freeOf_nil]
  trivial

def InPutchar : Frame → Prop
  | .ioq_putchar _ _ _ => True
  | _ => False

theorem inPutchar_kind : Kind InPutchar where
  thread_block _ h := h
  kernel_thread h := h
  intr_exit h := h
  sema_down _ _ _ h := h
  down _ _ _ h := h
  acquire _ _ _ h := h
  release _ _ _ h := h
  getchar _ _ _ h := h
  putchar _ _ _ _ h := h
  queue _ _ _ := ⟨id, id⟩

/-- The tasks beside a log of the kernel: `stage` is where each is with the console, and `reads` whether it is in
`ioq_getchar`. -/
structure Tasks (klog : List Event) (m : Machine) (stage : Tid → Stage) (reads : Tid → Prop) : Prop where
  reach : Reach kernel (GivesBackOwn console_lock) klog m
  place : ∀ t, Place (lockState lock klog m t) (stage t)
  getchar : ∀ t, ¬ reads t → FreeOf InGetchar (m.stack t)
  putchar : ∀ t, FreeOf InPutchar (m.stack t)

section

variable (klog : List Event) (m m' : Machine) (stage : Tid → Stage) (reads : Tid → Prop) (evs : List Event)

theorem Tasks.moves (h : Tasks klog m stage reads) (a : Act) (hs : OsLearn.step m a = .ok (m', evs)) :
    Moves m a m' evs :=
  spec_of_ok _ _ _ (step_moves m a (reach_inv klog m (reach_any kernel _ klog m h.reach))) (m', evs) hs

theorem Tasks.plain (h : Tasks klog m stage reads) (a : Act) (ha : Plain a)
    (hs : OsLearn.step m a = .ok (m', evs)) : Tasks (klog ++ evs) m' stage reads := by
  have hmv := h.moves klog m m' stage reads evs a hs
  have hrelease : a ≠ .call (.lock_release console_lock) := by
    rintro rfl
    cases ha
  refine ⟨.step klog m a m' evs h.reach (fun heq => absurd heq hrelease) hs, fun t => ?_, fun t ht => ?_, fun t => ?_⟩
  · have hlock : LockMoves (fun _ => True) lock klog m m' evs :=
      moves_lock _ lock klog m m' a evs (reach_calls _ klog m h.reach) (by decide) (fun _ => trivial) hmv
    by_cases ht : t = m.cur
    · subst ht
      apply place_step _ _ _ _ _ hlock.1 _ (h.place m.cur)
      intro hidle
      apply (freeOf_lockPhase console_lock _).mp
      apply plain_freeOf _ (onLock_kind console_lock) m m' a evs ha hs hmv
      exact (freeOf_lockPhase console_lock _).mpr hidle
    · exact place_same _ _ _ (hlock.2 t ht) (h.place t)
  · exact plain_freeOf _ inGetchar_kind m m' a evs ha hs hmv t (h.getchar t ht)
  · exact plain_freeOf _ inPutchar_kind m m' a evs ha hs hmv t (h.putchar t)

theorem place_call (st : List Frame) (pl : Stage) (h : ∀ t, Place (lockState lock klog m t) (stage t))
    (hcur : Place { lockState lock klog m m.cur with phase := lockPhase lock st } pl) (t : Tid) :
    Place (lockState lock klog (m.setStack st) t) (Function.update stage m.cur pl t) := by
  have hstate : lockState lock klog (m.setStack st) t =
      { lockState lock klog m t with phase := lockPhase lock (Function.update m.stack m.cur st t) } := rfl
  rw [hstate]
  by_cases ht : t = m.cur
  · subst ht
    rw [Function.update_self, Function.update_self]
    exact hcur
  · rw [Function.update_of_ne ht, Function.update_of_ne ht]
    exact h t

/-- The running task makes a call: `st` is what it puts on the stack. -/
theorem Tasks.call (h : Tasks klog m stage reads) (c : Call) (st : List Frame) (hst : m.stack m.cur = [])
    (hstart : startCall m c = m.setStack st) (hok : GivesBackOwn console_lock klog m (.call c)) (pl : Stage)
    (hplace : Place { lockState lock klog m m.cur with phase := lockPhase lock st } pl) (hput : FreeOf InPutchar st)
    (reads' : Tid → Prop) (hget : ¬ reads' m.cur → FreeOf InGetchar st) (hreads : ∀ t ≠ m.cur, ¬ reads' t → ¬ reads t) :
    Tasks klog (m.setStack st) (Function.update stage m.cur pl) reads' := by
  have hs : OsLearn.step m (.call c) = .ok (m.setStack st, []) := by
    rw [← hstart]
    simp [OsLearn.step, hst]
  have hcur : (m.setStack st).stack m.cur = st := Function.update_self ..
  have hother (t : Tid) (ht : t ≠ m.cur) : (m.setStack st).stack t = m.stack t := Function.update_of_ne ht _ _
  have hreach : Reach kernel (GivesBackOwn console_lock) (klog ++ []) (m.setStack st) :=
    .step klog m _ _ _ h.reach hok hs
  rw [List.append_nil] at hreach
  refine ⟨hreach, place_call klog m stage st pl h.place hplace, fun t hno => ?_, fun t => ?_⟩
  · by_cases ht : t = m.cur
    · subst ht
      rw [hcur]
      exact hget hno
    · rw [hother t ht]
      exact h.getchar t (hreads t ht hno)
  · by_cases ht : t = m.cur
    · subst ht
      rw [hcur]
      exact hput
    · rw [hother t ht]
      exact h.putchar t

theorem Tasks.acquire (h : Tasks klog m stage reads) (hst : m.stack m.cur = []) (hstage : stage m.cur = .outside) :
    Tasks klog (startCall m (.lock_acquire console_lock)) (Function.update stage m.cur .acquiring) reads := by
  have hp := h.place m.cur
  rw [hstage] at hp
  have hok : GivesBackOwn console_lock klog m (.call (.lock_acquire console_lock)) := by rintro ⟨⟩
  apply h.call klog m stage reads (.lock_acquire console_lock) [.lock_acquire lock .entry] hst rfl hok
  · exact .inl ⟨trivial, hp.2⟩
  · simp [InPutchar]
  · simp [InGetchar]
  · exact fun _ _ => id

theorem Tasks.release (h : Tasks klog m stage reads) (hst : m.stack m.cur = []) (hstage : stage m.cur = .inside) :
    Tasks klog (startCall m (.lock_release console_lock)) (Function.update stage m.cur .releasing) reads := by
  have hp := h.place m.cur
  rw [hstage] at hp
  have hcount : acquires klog m.cur lock = releases klog m.cur lock + 1 := hp.2
  have hok : GivesBackOwn console_lock klog m (.call (.lock_release console_lock)) :=
    fun _ => hcount ▸ Nat.lt_succ_self _
  apply h.call klog m stage reads (.lock_release console_lock) [.lock_release lock .entry] hst rfl hok
  · exact .inl ⟨trivial, hp.2⟩
  · simp [InPutchar]
  · simp [InGetchar]
  · exact fun _ _ => id

theorem Tasks.read (h : Tasks klog m stage reads) (hst : m.stack m.cur = []) (hstage : stage m.cur = .outside)
    (q : Nat) :
    Tasks klog (startCall m (.ioq_getchar q)) (Function.update stage m.cur .outside)
      (fun t => t = m.cur ∨ reads t) := by
  have hp := h.place m.cur
  rw [hstage] at hp
  have hok : GivesBackOwn console_lock klog m (.call (.ioq_getchar q)) := by rintro ⟨⟩
  apply h.call klog m stage reads (.ioq_getchar q) [.ioq_getchar q .loop] hst rfl hok
  · exact ⟨rfl, hp.2⟩
  · simp [InPutchar]
  · exact fun hno => absurd (.inl rfl) hno
  · exact fun t _ hno hr => hno (.inr hr)

/-- A call has returned when the stack is empty. -/
theorem Tasks.returned (h : Tasks klog m stage reads) (hst : m.stack m.cur = []) (pl : Stage)
    (hpl : stage m.cur = .acquiring ∧ pl = .inside ∨ stage m.cur = .releasing ∧ pl = .outside) :
    Tasks klog m (Function.update stage m.cur pl) reads := by
  refine ⟨h.reach, fun t => ?_, h.getchar, h.putchar⟩
  by_cases ht : t = m.cur
  · subst ht
    rw [Function.update_self]
    have hp := h.place m.cur
    have hidle : (lockState lock klog m m.cur).phase = .idle := by simp [lockState, hst, lockPhase]
    rcases hpl with ⟨hstage, rfl⟩ | ⟨hstage, rfl⟩
    · rw [hstage] at hp
      rcases hp with ⟨hno, -⟩ | hp
      · rw [hidle] at hno
        exact hno.elim
      · exact hp
    · rw [hstage] at hp
      rcases hp with ⟨hno, -⟩ | hp
      · rw [hidle] at hno
        exact hno.elim
      · exact hp
  · rw [Function.update_of_ne ht]
    exact h.place t

theorem Tasks.relabel (h : Tasks klog m stage reads) (stage' : Tid → Stage) (reads' : Tid → Prop)
    (hstage : ∀ t, stage' t = stage t) (hreads : ∀ t, ¬ reads' t → ¬ reads t) : Tasks klog m stage' reads' := by
  refine ⟨h.reach, fun t => ?_, fun t ht => h.getchar t (hreads t ht), h.putchar⟩
  rw [hstage]
  exact h.place t

/-- At most one task ever got the lock. -/
theorem Tasks.owner (h : Tasks klog m stage reads) (t u : Tid) (ht : acquires klog t lock ≠ 0)
    (hu : acquires klog u lock ≠ 0) : t = u := by
  have hnever (t : Tid) (ht : acquires klog t lock ≠ 0) : ¬ NeverHeld (lockState lock klog m t) := fun hn => ht hn.2.1
  rcases reach_givesBackOwn console_lock klog m h.reach with ⟨-, -, -, hall⟩ | ⟨v, -, -, hall⟩
  · exact absurd (hall t) (hnever t ht)
  · have heq (t : Tid) (ht : acquires klog t lock ≠ 0) : t = v := by
      by_contra hne
      exact hnever t ht (hall t hne)
    exact (heq t ht).trans (heq u hu).symm

end

/-! ## One line of a thread -/

def Pc.reads : Pc → Prop
  | .ioq_getchar _ => True
  | _ => False

/-- What is written of `para` for a byte that is still to come. -/
def Pc.said (para : List UInt8) (pc : Pc) : List UInt8 := if pc.announced then para else []

/-- A thread is here only after it got the console. -/
def Pc.hadConsole : Pc → Prop
  | .console_acquire _ _ last => last = true
  | .put_str _ _ _ | .console_release _ _ | .ioq_getchar _ | .console_put_char _ _ => True
  | _ => False

/-- A line writes what it had to write, or takes on `para`. -/
theorem k_thread_writes (m : Machine) (para : List UInt8) (pc pc' : Pc) (c : Option Call) (text : List UInt8)
    (h : k_thread m para pc = .ok (c, pc', text)) :
    ∃ more, text ++ pc'.rest = pc.rest ++ more ∧ pc'.said para = pc.said para ++ more := by
  cases pc with
  | ioq_empty old_status =>
    simp only [k_thread] at h
    unfold ASSERT at h
    split at h
    · split at h
      · cases h
        exact ⟨[], rfl, rfl⟩
      · cases h
        exact ⟨para, rfl, rfl⟩
    · cases h
  | put_str old_status text last =>
    cases text with
    | nil =>
      cases h
      exact ⟨[], rfl, (List.append_nil _).symm⟩
    | cons c text =>
      cases h
      exact ⟨[], (List.append_nil _).symm, (List.append_nil _).symm⟩
  | console_release old_status last =>
    cases last <;> cases h
    · exact ⟨[], rfl, (List.append_nil _).symm⟩
    · exact ⟨[], rfl, rfl⟩
  | console_acquire old_status text last =>
    cases h
    exact ⟨[], (List.append_nil _).symm, (List.append_nil _).symm⟩
  | intr_disable | console_put_char | intr_set_status =>
    cases h
    exact ⟨[], rfl, rfl⟩
  | ioq_getchar => cases h

/-- Characters are written inside the lock. -/
theorem k_thread_inside (m : Machine) (para : List UInt8) (pc pc' : Pc) (c : Option Call) (text : List UInt8)
    (h : k_thread m para pc = .ok (c, pc', text)) : text = [] ∨ pc.stage = .inside := by
  cases pc with
  | put_str => exact .inr rfl
  | ioq_empty old_status =>
    simp only [k_thread] at h
    unfold ASSERT at h
    split at h
    · split at h <;> cases h <;> exact .inl rfl
    · cases h
  | console_release old_status last => cases last <;> cases h <;> exact .inl rfl
  | console_acquire | intr_disable | console_put_char | intr_set_status =>
    cases h
    exact .inl rfl
  | ioq_getchar => cases h

theorem k_thread_had (m : Machine) (para : List UInt8) (pc pc' : Pc) (c : Option Call) (text : List UInt8)
    (h : k_thread m para pc = .ok (c, pc', text)) (hhad : pc'.hadConsole) : pc.hadConsole ∨ pc.stage = .acquiring := by
  cases pc with
  | put_str | console_release | ioq_getchar | console_put_char => exact .inl trivial
  | console_acquire => exact .inr rfl
  | ioq_empty old_status =>
    simp only [k_thread] at h
    unfold ASSERT at h
    split at h
    · split at h <;> cases h
      · exact hhad.elim
      · cases hhad
    · cases h
  | intr_disable | intr_set_status =>
    cases h
    exact hhad.elim

/-- The machine after a line. -/
def called (m : Machine) : Option Call → Machine
  | none => m
  | some c => startCall m c

theorem Tasks.line (klog : List Event) (m : Machine) (pc : Tid → Pc) (para : List UInt8) (pc' : Pc) (c : Option Call)
    (text : List UInt8) (h : Tasks klog m (fun t => (pc t).stage) (fun t => (pc t).reads)) (hst : m.stack m.cur = [])
    (hline : k_thread m para (pc m.cur) = .ok (c, pc', text)) :
    Tasks klog (called m c) (fun t => (Function.update pc m.cur pc' t).stage)
      (fun t => (Function.update pc m.cur pc' t).reads) := by
  have hstage : (fun t => (Function.update pc m.cur pc' t).stage) =
      Function.update (fun t => (pc t).stage) m.cur pc'.stage := Function.comp_update Pc.stage pc m.cur pc'
  have hcur : ¬ (pc m.cur).reads := by
    intro hreads
    cases hpc : pc m.cur with
    | ioq_getchar => rw [hpc] at hline; cases hline
    | _ => rw [hpc] at hreads; exact hreads
  have hreads (t : Tid) (hno : ¬ (Function.update pc m.cur pc' t).reads) : ¬ (pc t).reads := by
    by_cases ht : t = m.cur
    · exact ht ▸ hcur
    · rwa [Function.update_of_ne ht] at hno
  rw [hstage]
  -- A line that stays at its stage, with a step of the flag or none.
  have hsame (hpl : pc'.stage = (pc m.cur).stage) :
      Tasks klog m (Function.update (fun t => (pc t).stage) m.cur pc'.stage)
        (fun t => (Function.update pc m.cur pc' t).reads) := by
    apply h.relabel klog m _ _ _ _ _ hreads
    intro t
    rw [hpl, Function.update_eq_self]
  have hflag (c : Call) (hc : c = .intr_enable ∨ c = .intr_disable) (hpl : pc'.stage = (pc m.cur).stage) :
      Tasks klog (startCall m c) (Function.update (fun t => (pc t).stage) m.cur pc'.stage)
        (fun t => (Function.update pc m.cur pc' t).reads) := by
    have hs : OsLearn.step m (.call c) = .ok (startCall m c, []) := by simp [OsLearn.step, hst]
    have hplain : Plain (.call c) := by
      rcases hc with rfl | rfl
      · exact .intr_enable
      · exact .intr_disable
    have := (hsame hpl).plain klog m _ _ _ [] (.call c) hplain hs
    rwa [List.append_nil] at this
  cases hpc : pc m.cur with
  | intr_disable =>
    rw [hpc] at hline hflag
    cases hline
    exact hflag _ (.inr rfl) rfl
  | ioq_empty old_status =>
    rw [hpc] at hline hsame
    simp only [k_thread] at hline
    unfold ASSERT at hline
    split at hline
    · split at hline
      · cases hline
        exact hsame rfl
      · cases hline
        have hacq := h.acquire klog m _ _ hst (by rw [hpc]; rfl)
        exact hacq.relabel klog _ _ _ _ _ (fun _ => rfl) hreads
    · cases hline
  | console_acquire old_status text last =>
    rw [hpc] at hline
    cases hline
    have hin := h.returned klog m _ _ hst .inside (.inl ⟨by rw [hpc]; rfl, rfl⟩)
    exact hin.relabel klog _ _ _ _ _ (fun _ => rfl) hreads
  | put_str old_status text last =>
    rw [hpc] at hline hsame
    cases text with
    | nil =>
      cases hline
      have hrel := h.release klog m _ _ hst (by rw [hpc]; rfl)
      exact hrel.relabel klog _ _ _ _ _ (fun _ => rfl) hreads
    | cons c text =>
      cases hline
      exact hsame rfl
  | console_release old_status last =>
    rw [hpc] at hline
    have hout := h.returned klog m _ _ hst .outside (.inr ⟨by rw [hpc]; rfl, rfl⟩)
    cases last with
    | true =>
      cases hline
      exact hout.relabel klog _ _ _ _ _ (fun _ => rfl) hreads
    | false =>
      cases hline
      have hget := hout.read klog m _ _ hst (Function.update_self ..) Kbd.kbd_buf
      apply hget.relabel klog
      · intro t
        rw [Function.update_idem]
        rfl
      · rintro t hno (rfl | hr)
        · rw [Function.update_self] at hno
          exact hno trivial
        · exact hreads t hno hr
  | ioq_getchar old_status =>
    rw [hpc] at hline
    cases hline
  | console_put_char old_status byte =>
    rw [hpc] at hline
    cases hline
    have hacq := h.acquire klog m _ _ hst (by rw [hpc]; rfl)
    exact hacq.relabel klog _ _ _ _ _ (fun _ => rfl) hreads
  | intr_set_status old_status =>
    rw [hpc] at hline hflag
    cases old_status <;> cases hline
    · exact hflag _ (.inr rfl) rfl
    · exact hflag _ (.inl rfl) rfl

end OsLearn.Main
