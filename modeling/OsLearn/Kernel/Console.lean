import OsLearn.Kernel.ConsoleLock

/-!
# What is typed is printed

One of the two threads gets the console and keeps it, since a lock never comes free. It prints every byte that is
read, each behind its own `para`. The other one waits for the console from its first byte on, before it reads any.
-/

open OsLearn.Run OsLearn.Queues

namespace OsLearn.Main

/-! ## What a step of the desk logs -/

/-- Characters come out of a queue only in `ioq_getchar`, and its call returns then. -/
theorem moves_got (m m' : Machine) (a : Act) (evs : List Event) (hc : Calls m) (hmv : Moves m a m' evs) :
    (∀ q byte, Event.got q byte ∉ evs) ∨
      a = .run ∧ ¬ FreeOf InGetchar (m.stack m.cur) ∧ m'.stack m.cur = [] ∧ ∃ q byte, evs = [.got q byte] := by
  have hfree (q : Nat) (pc : IoqPc) (rest : List Frame) (hst : m.stack m.cur = .ioq_getchar q pc :: rest) :
      ¬ FreeOf InGetchar (m.stack m.cur) := by
    rw [hst, freeOf_cons]
    exact fun h => h.1 trivial
  have hrest (q : Nat) (pc : IoqPc) (rest : List Frame) (hst : m.stack m.cur = .ioq_getchar q pc :: rest) : rest = [] :=
    get_rest q pc rest (hst ▸ hc.shape m.cur)
  cases hmv with
  | get_take q rest hst | get_wake q rest _ hst =>
    obtain rfl := hrest q _ rest hst
    exact .inr ⟨rfl, hfree q _ _ hst, Function.update_self .., q, _, rfl⟩
  | _ => exact .inl fun q byte h => by simp at h

/-- They go in only in `ioq_putchar` and in the keyboard's interrupt. -/
theorem moves_put (m m' : Machine) (a : Act) (evs : List Event) (hmv : Moves m a m' evs)
    (hfree : FreeOf InPutchar (m.stack m.cur)) (hkey : ∀ q byte, a ≠ .keyboard q byte) (q : Nat) (byte : UInt8) :
    Event.put q byte ∉ evs := by
  cases hmv with
  | put_store p byte' rest hst | put_wake p byte' rest _ hst =>
    rw [hst, freeOf_cons] at hfree
    exact absurd trivial hfree.1
  | key_store | key_wake => exact absurd rfl (hkey _ _)
  | _ => simp

theorem read_kernel (evs : List Event) : Kbd.read (evs.map .kernel) = gots Kbd.kbd_buf evs := by
  unfold Kbd.read
  rw [List.filterMap_map]
  congr 1
  exact List.filterMap_some

theorem putByTasks_kernel (evs : List Event) : Kbd.putByTasks (evs.map .kernel) = puts Kbd.kbd_buf evs := by
  unfold Kbd.putByTasks
  rw [List.filterMap_map]
  congr 1
  exact List.filterMap_some

theorem read_received (evs : List Event) (h : (∀ q byte, Event.got q byte ∉ evs) ∨ ∃ q byte, evs = [.got q byte]) :
    Kbd.read (evs.map .kernel) = (received (evs.map .kernel)).toList := by
  rw [read_kernel]
  rcases h with hno | ⟨q, byte, rfl⟩
  · have hnone : received (evs.map .kernel) = none := by
      unfold received
      rw [List.findSome?_map, List.findSome?_eq_none_iff]
      intro e he
      cases e with
      | got q byte => exact absurd he (hno q byte)
      | _ => rfl
    rw [hnone]
    apply List.filterMap_eq_nil_iff.mpr
    intro e he
    cases e with
    | got q byte => exact absurd he (hno q byte)
    | _ => rfl
  · by_cases hq : q = Kbd.kbd_buf <;> simp [gots, received, hq]

/-! ## The invariant -/

/-- What the threads have got, in order. -/
def heardByAny (log : List Entry) : List UInt8 :=
  log.filterMap fun e => match e with
    | .heard _ byte => some byte
    | _ => none

structure Kept (log : List Entry) (klog : List Event) (s : State) : Prop where
  tasks : Tasks klog s.machine (fun t => (s.pc t).stage) (fun t => (s.pc t).reads)
  desk : Reach Kbd.desk Kbd.careful (deskLog log) s.desk
  quiet : Kbd.putByTasks (deskLog log) = []
  order : heardByAny log = Kbd.read (deskLog log)
  -- Only a thread that has had the console writes or reads.
  had : ∀ t, acquires klog t lock = 0 → ¬ (s.pc t).hadConsole ∧ written t log = [] ∧ heard t log = []
  -- A thread that is not there yet has not begun.
  fresh : ∀ t, Event.created t ∉ klog → s.pc t = .intr_disable ∧ written t log = [] ∧ heard t log = []
  text : ∀ t, written t log ++ (s.pc t).rest =
    ((heard t log).flatMap fun c => s.arg t ++ [c]) ++ (s.pc t).said (s.arg t)

theorem deskLog_append (log evs : List Entry) : deskLog (log ++ evs) = deskLog log ++ deskLog evs :=
  List.filterMap_append

theorem written_append (t : Tid) (log evs : List Entry) : written t (log ++ evs) = written t log ++ written t evs :=
  List.filterMap_append

theorem heard_append (t : Tid) (log evs : List Entry) : heard t (log ++ evs) = heard t log ++ heard t evs :=
  List.filterMap_append

theorem heardByAny_append (log evs : List Entry) : heardByAny (log ++ evs) = heardByAny log ++ heardByAny evs :=
  List.filterMap_append

theorem deskLog_desk (evs : List Kbd.Entry) : deskLog (evs.map .desk) = evs := by
  unfold deskLog
  rw [List.filterMap_map]
  exact List.filterMap_some

theorem written_desk (t : Tid) (evs : List Kbd.Entry) : written t (evs.map .desk) = [] := by
  apply List.filterMap_eq_nil_iff.mpr
  simp

theorem heard_desk (t : Tid) (evs : List Kbd.Entry) : heard t (evs.map .desk) = [] := by
  apply List.filterMap_eq_nil_iff.mpr
  simp

theorem heardByAny_desk (evs : List Kbd.Entry) : heardByAny (evs.map .desk) = [] := by
  apply List.filterMap_eq_nil_iff.mpr
  simp

/-- The running task is the main thread or one that was created. -/
theorem Tasks.created (klog : List Event) (m : Machine) (stage : Tid → Stage) (reads : Tid → Prop)
    (h : Tasks klog m stage reads) (hmain : m.cur ≠ m.sched.main_thread) : Event.created m.cur ∈ klog := by
  have hreach := reach_any kernel _ klog m h.reach
  exact ((reach_created klog m hreach m.cur).mp (reach_inv klog m hreach).queue.cur_mem).resolve_left hmain

/-- A step of the desk on which the program stays where it is. -/
theorem Kept.aside (log : List Entry) (klog evs' : List Event) (s : State) (desk : Kbd.Desk) (evs : List Kbd.Entry)
    (h : Kept log klog s) (htasks : Tasks (klog ++ evs') desk.machine (fun t => (s.pc t).stage) (fun t => (s.pc t).reads))
    (hdesk : Reach Kbd.desk Kbd.careful (deskLog log ++ evs) desk) (hput : Kbd.putByTasks evs = [])
    (hread : Kbd.read evs = []) :
    Kept (log ++ evs.map .desk) (klog ++ evs') { s with desk := desk } := by
  refine ⟨htasks, ?_, ?_, ?_, fun t ht => ?_, fun t ht => ?_, fun t => ?_⟩
  · rw [deskLog_append, deskLog_desk]
    exact hdesk
  · rw [deskLog_append, deskLog_desk, Kbd.putByTasks_append, h.quiet, hput]
    rfl
  · rw [deskLog_append, deskLog_desk, Kbd.read_append, heardByAny_append, heardByAny_desk, hread, h.order]
  · rw [acquires_append] at ht
    rw [written_append, written_desk, heard_append, heard_desk, List.append_nil, List.append_nil]
    exact h.had t (Nat.eq_zero_of_add_eq_zero_right ht)
  · rw [written_append, written_desk, heard_append, heard_desk, List.append_nil, List.append_nil]
    exact h.fresh t fun hin => ht (List.mem_append_left _ hin)
  · rw [written_append, written_desk, heard_append, heard_desk, List.append_nil, List.append_nil]
    exact h.text t

theorem aside_step (s s' : State) (a : Kbd.Action) (evs : List Entry) (hs : s.aside a = .ok (s', evs)) :
    ∃ desk devs, Kbd.step s.desk a = .ok (desk, devs) ∧ s' = { s with desk := desk } ∧ evs = devs.map .desk := by
  unfold State.aside at hs
  cases hd : Kbd.step s.desk a with
  | error stop =>
    rw [hd] at hs
    cases hs
  | ok r =>
    rw [hd] at hs
    cases hs
    exact ⟨r.1, r.2, rfl, rfl, rfl⟩

theorem start_step (s s' : State) (t : Tid) (prio : Int32) (arg : List UInt8) (next : MainPc) (evs : List Entry)
    (hs : s.thread_start t prio arg next = .ok (s', evs)) :
    ∃ s₁, s.aside (.kernel (.thread_start t prio)) = .ok (s₁, evs) ∧
      s' = { s₁ with
        main := next
        arg := Function.update s₁.arg t arg } := by
  unfold State.thread_start at hs
  cases ha : s.aside (.kernel (.thread_start t prio)) with
  | error stop =>
    rw [ha] at hs
    cases hs
  | ok r =>
    rw [ha] at hs
    cases hs
    exact ⟨r.1, rfl, rfl⟩

/-- The main thread turns interrupts on, and then it spins. -/
theorem main_step (s s' : State) (evs : List Entry) (hs : s.go = .ok (s', evs))
    (hmain : s.cur = s.machine.sched.main_thread) :
    (∃ s₁, s.aside (.kernel (.call .intr_enable)) = .ok (s₁, evs) ∧ s' = { s₁ with main := .loop }) ∨
      s' = s ∧ evs = [] := by
  unfold State.go at hs
  rw [if_pos hmain] at hs
  split at hs
  · split at hs
    · cases ha : s.aside (.kernel (.call .intr_enable)) with
      | error stop =>
        rw [ha] at hs
        cases hs
      | ok r =>
        rw [ha] at hs
        cases hs
        exact .inl ⟨r.1, rfl, rfl⟩
    · cases hs
      exact .inr ⟨rfl, rfl⟩
    · cases hs
  · cases hs

/-- The reach of the desk, one step on. -/
theorem Kept.desk_step (log : List Entry) (klog : List Event) (s : State) (h : Kept log klog s) (a : Kbd.Action)
    (desk : Kbd.Desk) (devs : List Kbd.Entry) (hok : Kbd.careful (deskLog log) s.desk a)
    (hs : Kbd.step s.desk a = .ok (desk, devs)) : Reach Kbd.desk Kbd.careful (deskLog log ++ devs) desk :=
  .step _ s.desk a desk devs h.desk hok hs

theorem careful_kernel (log : List Kbd.Entry) (d : Kbd.Desk) (a : Act) : Kbd.careful log d (.kernel a) := by
  rintro e ⟨⟩

/-- What the kernel does in a step of the program, and where the threads are after it. -/
inductive KernelStep (s s' : State) : List Event → Prop
  | aside : s'.machine = s.machine → s'.pc = s.pc → KernelStep s s' []
  | plain (a : Act) (evs : List Event) : Plain a → (∀ c, a = .call c → s.cur = s.machine.sched.main_thread) →
      OsLearn.step s.machine a = .ok (s'.machine, evs) → s'.pc = s.pc →
      ((s.pc s.cur).reads → ∀ byte, Event.got Kbd.kbd_buf byte ∉ evs) → KernelStep s s' evs
  | hear (old_status : Bool) (byte : UInt8) (evs : List Event) : OsLearn.step s.machine .run = .ok (s'.machine, evs) →
      s.pc s.cur = .ioq_getchar old_status →
      s'.pc = Function.update s.pc s.cur (.console_put_char old_status byte) → KernelStep s s' evs
  | line (c : Option Call) (pc' : Pc) (text : List UInt8) : s.cur ≠ s.machine.sched.main_thread →
      s.machine.stack s.cur = [] → k_thread s.machine (s.arg s.cur) (s.pc s.cur) = .ok (c, pc', text) →
      s'.machine = called s.machine c → s'.pc = Function.update s.pc s.cur pc' → KernelStep s s' []

theorem Kept.plain (log : List Entry) (klog : List Event) (s s' : State) (a : Act) (evs : List Entry)
    (h : Kept log klog s) (ha : Plain a) (hrun : a ≠ .run) (hs : s.aside (.kernel a) = .ok (s', evs)) :
    ∃ evs', OsLearn.step s.machine a = .ok (s'.machine, evs') ∧ (∀ q byte, Event.got q byte ∉ evs') ∧
      Kept (log ++ evs) (klog ++ evs') s' ∧ s' = { s with desk := s'.desk } := by
  obtain ⟨desk, devs, hd, rfl, rfl⟩ := aside_step s s' _ evs hs
  have hdesk := h.desk_step log klog s (.kernel a) desk devs (careful_kernel _ _ a) hd
  obtain ⟨m, evs', hm, rfl, rfl⟩ := Kbd.task_step s.desk a desk devs hd
  have hmv := h.tasks.moves klog _ _ _ _ _ a hm
  have hkey : ∀ q byte, a ≠ .keyboard q byte := by
    rintro q byte rfl
    cases hd
  have hgot : ∀ q byte, Event.got q byte ∉ evs' :=
    (moves_got _ _ a evs' (reach_calls _ klog _ h.tasks.reach) hmv).resolve_right fun hr => hrun hr.1
  have hput : Kbd.putByTasks (evs'.map .kernel) = [] := by
    rw [putByTasks_kernel]
    apply List.filterMap_eq_nil_iff.mpr
    intro e he
    cases e with
    | put q byte => exact absurd he (moves_put _ _ a evs' hmv (h.tasks.putchar _) hkey q byte)
    | _ => rfl
  have hread : Kbd.read (evs'.map .kernel) = [] := by
    rw [read_kernel]
    apply List.filterMap_eq_nil_iff.mpr
    intro e he
    cases e with
    | got q byte => exact absurd he (hgot q byte)
    | _ => rfl
  refine ⟨evs', hm, hgot, ?_, rfl⟩
  exact h.aside log klog evs' s _ _ (h.tasks.plain klog _ _ _ _ _ a ha hm) hdesk hput hread

theorem Kept.strike (log : List Entry) (klog : List Event) (s s' : State) (e : Kbd.KeyEvent) (evs : List Entry)
    (h : Kept log klog s) (hok : Kbd.careful (deskLog log) s.desk (.strike e)) (hs : s.aside (.strike e) = .ok (s', evs)) :
    Kept (log ++ evs) (klog ++ []) s' := by
  obtain ⟨desk, devs, hd, rfl, rfl⟩ := aside_step s s' _ evs hs
  have hdesk := h.desk_step log klog s _ desk devs hok hd
  obtain ⟨rfl, rfl⟩ := Prod.mk.inj (Except.ok.inj hd)
  apply h.aside log klog [] s _ _ _ hdesk rfl rfl
  rw [List.append_nil]
  exact h.tasks

theorem Kept.irq (log : List Entry) (klog : List Event) (s s' : State) (evs : List Entry) (h : Kept log klog s)
    (hs : s.aside .irq = .ok (s', evs)) : ∃ evs', KernelStep s s' evs' ∧ Kept (log ++ evs) (klog ++ evs') s' := by
  obtain ⟨desk, devs, hd, rfl, rfl⟩ := aside_step s s' _ evs hs
  have hok : Kbd.careful (deskLog log) s.desk .irq := by rintro e ⟨⟩
  have hdesk := h.desk_step log klog s _ desk devs hok hd
  have hmachine := Kbd.irq_machine s.desk desk devs hd
  obtain ⟨byte, last, line, machine, full, -, -, -, -, -, rfl⟩ := Kbd.irq_step s.desk desk devs hd
  rcases hmachine with hsame | ⟨c, hkey⟩
  · refine ⟨[], .aside hsame rfl, h.aside log klog [] s _ _ ?_ hdesk rfl rfl⟩
    rw [List.append_nil, hsame]
    exact h.tasks
  · refine ⟨_, .plain _ _ (.keyboard _ c) (by rintro c ⟨⟩) hkey rfl fun _ byte hin => ?_,
      h.aside log klog _ s _ _ (h.tasks.plain klog _ _ _ _ _ _ (.keyboard _ c) hkey) hdesk rfl rfl⟩
    cases List.mem_singleton.mp hin

theorem Kept.start (log : List Entry) (klog : List Event) (s s' : State) (t : Tid) (prio : Int32) (arg : List UInt8)
    (next : MainPc) (evs : List Entry) (h : Kept log klog s) (hs : s.thread_start t prio arg next = .ok (s', evs)) :
    ∃ evs', KernelStep s s' evs' ∧ Kept (log ++ evs) (klog ++ evs') s' := by
  obtain ⟨s₁, ha, rfl⟩ := start_step s s' t prio arg next evs hs
  obtain ⟨evs', hm, hgot, hkept, hs₁⟩ := h.plain log klog s s₁ _ evs (.thread_start t prio) (by rintro ⟨⟩) ha
  have hsame : s₁.pc = s.pc := by rw [hs₁]
  refine ⟨evs', .plain _ evs' (.thread_start t prio) (by rintro c ⟨⟩) hm hsame fun _ => hgot _,
    hkept.tasks, hkept.desk, hkept.quiet, hkept.order, hkept.had, hkept.fresh, fun u => ?_⟩
  -- The thread is a new one: it has written and read nothing.
  have hnew : Event.created t ∉ klog := by
    have hcreated := reach_created klog _ (reach_any kernel _ klog _ h.tasks.reach) t
    simp only [OsLearn.step] at hm
    split at hm
    · next hnow => exact fun hin => hnow.2.2 (hcreated.mpr (.inr hin))
    · cases hm
  obtain ⟨hpc, hwritten, hheard⟩ := h.fresh t hnew
  obtain ⟨desk, devs, -, -, rfl⟩ := aside_step s s₁ _ evs ha
  by_cases hu : u = t
  · subst hu
    have hpc' : s₁.pc u = .intr_disable := by rw [hs₁]; exact hpc
    rw [written_append, heard_append, written_desk, heard_desk, hwritten, hheard]
    simp [hpc', Pc.rest, Pc.said, Pc.announced]
  · have harg : Function.update s₁.arg t arg u = s₁.arg u := Function.update_of_ne hu _ _
    simpa only [harg] using hkept.text u

theorem startCall_cur (m : Machine) (c : Call) : (startCall m c).cur = m.cur := by
  cases c <;> rfl

/-- A line of a thread, with the call that it makes. -/
theorem line_step (s s' : State) (evs : List Entry) (hs : s.go = .ok (s', evs))
    (hmain : s.cur ≠ s.machine.sched.main_thread) :
    ∃ c pc' text, s.machine.stack s.cur = [] ∧ k_thread s.machine (s.arg s.cur) (s.pc s.cur) = .ok (c, pc', text) ∧
      s' = { s with
        desk := { s.desk with machine := called s.machine c }
        pc := Function.update s.pc s.cur pc' } ∧
      evs = text.map (.wrote s.cur) ∧ (c = none ∨ ∃ a, c = some a ∧
        Kbd.step s.desk (.kernel (.call a)) = .ok ({ s.desk with machine := called s.machine c }, [])) := by
  unfold State.go at hs
  by_cases hst : s.machine.stack s.cur = []
  · rw [if_pos hst, if_neg hmain] at hs
    cases hline : k_thread s.machine (s.arg s.cur) (s.pc s.cur) with
    | error stop =>
      rw [hline] at hs
      cases hs
    | ok r =>
      obtain ⟨c, pc', text⟩ := r
      rw [hline] at hs
      refine ⟨c, pc', text, hst, rfl, ?_⟩
      cases c with
      | none =>
        obtain ⟨rfl, rfl⟩ := Prod.mk.inj (Except.ok.inj hs)
        exact ⟨rfl, rfl, .inl rfl⟩
      | some c =>
        have hcall : Kbd.step s.desk (.kernel (.call c)) =
            .ok ({ s.desk with machine := startCall s.machine c }, []) := by
          have hm : OsLearn.step s.desk.machine (.call c) = .ok (startCall s.desk.machine c, []) := by
            simp only [OsLearn.step]
            exact if_pos hst
          simp only [Kbd.step, hm]
          rfl
        have haside : s.aside (.kernel (.call c)) =
            .ok ({ s with desk := { s.desk with machine := startCall s.machine c } }, []) := by
          unfold State.aside
          rw [hcall]
          rfl
        simp only [bind, Except.bind, haside] at hs
        obtain ⟨rfl, rfl⟩ := Prod.mk.inj (Except.ok.inj hs)
        refine ⟨?_, rfl, .inr ⟨c, rfl, hcall⟩⟩
        simp only [State.setPc, State.cur, State.machine, startCall_cur]
        rfl
  · rw [if_neg hst] at hs
    cases hs

theorem written_line (t u : Tid) (text : List UInt8) : written t (text.map (.wrote u)) = if u = t then text else [] := by
  unfold written
  rw [List.filterMap_map]
  by_cases hu : u = t
  · rw [if_pos hu, hu]
    simp
  · rw [if_neg hu]
    simp [hu]

theorem heard_line (t u : Tid) (text : List UInt8) : heard t (text.map (.wrote u)) = [] := by
  apply List.filterMap_eq_nil_iff.mpr
  simp

theorem heardByAny_line (u : Tid) (text : List UInt8) : heardByAny (text.map (.wrote u)) = [] := by
  apply List.filterMap_eq_nil_iff.mpr
  simp

theorem deskLog_line (u : Tid) (text : List UInt8) : deskLog (text.map (.wrote u)) = [] := by
  apply List.filterMap_eq_nil_iff.mpr
  simp

theorem Kept.line (log : List Entry) (klog : List Event) (s s' : State) (evs : List Entry) (h : Kept log klog s)
    (hmain : s.cur ≠ s.machine.sched.main_thread) (hs : s.go = .ok (s', evs)) : Kept (log ++ evs) klog s' := by
  obtain ⟨c, pc', text, hst, hline, rfl, rfl, hdesk⟩ := line_step s s' evs hs hmain
  have hcreated := h.tasks.created klog _ _ _ hmain
  obtain ⟨more, hrest, hsaid⟩ := k_thread_writes _ _ _ _ _ _ hline
  have hlog : deskLog (log ++ text.map (.wrote s.cur)) = deskLog log := by
    rw [deskLog_append, deskLog_line, List.append_nil]
  have hplace := h.tasks.place s.cur
  have hother (t : Tid) (ht : t ≠ s.cur) : written t (log ++ text.map (.wrote s.cur)) = written t log := by
    rw [written_append, written_line, if_neg (Ne.symm ht), List.append_nil]
  have hheard (t : Tid) : heard t (log ++ text.map (.wrote s.cur)) = heard t log := by
    rw [heard_append, heard_line, List.append_nil]
  refine ⟨?_, ?_, ?_, ?_, fun t ht => ?_, fun t ht => ?_, fun t => ?_⟩
  · exact h.tasks.line klog s.machine s.pc (s.arg s.cur) pc' c text hst hline
  · rw [hlog]
    rcases hdesk with rfl | ⟨a, rfl, hd⟩
    · exact h.desk
    · have := h.desk_step log klog s _ _ [] (careful_kernel _ _ _) hd
      rwa [List.append_nil] at this
  · rw [hlog]
    exact h.quiet
  · rw [hlog, heardByAny_append, heardByAny_line, List.append_nil]
    exact h.order
  · obtain ⟨hno, hwritten, hnone⟩ := h.had t ht
    rw [hheard]
    by_cases hcur : t = s.cur
    · subst hcur
      -- It is not inside the lock, and it does not get there now.
      have hcount : acquires klog s.cur lock ≠ releases klog s.cur lock + 1 := by omega
      have htext : text = [] := by
        rcases k_thread_inside _ _ _ _ _ _ hline with htext | hstage
        · exact htext
        · rw [hstage] at hplace
          exact absurd hplace.2 hcount
      refine ⟨fun hhad => ?_, ?_, hnone⟩
      · dsimp only at hhad
        rw [Function.update_self] at hhad
        rcases k_thread_had _ _ _ _ _ _ hline hhad with hpast | hstage
        · exact hno hpast
        · have hidle : (lockState lock klog s.machine s.cur).phase = .idle := by simp [lockState, hst, lockPhase]
          rw [hstage] at hplace
          rcases hplace with ⟨hin, -⟩ | ⟨-, hone⟩
          · rw [hidle] at hin
            exact hin
          · exact hcount hone
      · rw [written_append, hwritten, htext]
        rfl
    · dsimp only
      rw [hother t hcur, Function.update_of_ne hcur]
      exact ⟨hno, hwritten, hnone⟩
  · have hcur : t ≠ s.cur := fun heq => ht (heq ▸ hcreated)
    dsimp only
    rw [hother t hcur, hheard, Function.update_of_ne hcur]
    exact h.fresh t ht
  · dsimp only
    rw [hheard]
    have hold := h.text t
    by_cases hcur : t = s.cur
    · subst hcur
      rw [written_append, written_line, if_pos rfl, Function.update_self, List.append_assoc, hrest, hsaid,
        ← List.append_assoc, hold, List.append_assoc]
    · rw [hother t hcur, Function.update_of_ne hcur]
      exact hold

/-- A step inside a call. Either the program stays where it is, or `ioq_getchar` returns. -/
theorem run_step (s s' : State) (evs : List Entry) (hs : step s .run = .ok (s', evs)) :
    ∃ desk devs, Kbd.step s.desk (.kernel .run) = .ok (desk, devs) ∧
      (s' = { s with desk := desk } ∧ evs = devs.map .desk ∧ ((s.pc s.cur).reads → received devs = none) ∨
        ∃ old_status byte, s.pc s.cur = .ioq_getchar old_status ∧ received devs = some byte ∧
          s' = { s with
            desk := desk
            pc := Function.update s.pc s.cur (.console_put_char old_status byte) } ∧
          evs = devs.map .desk ++ [.heard s.cur byte]) := by
  simp only [step] at hs
  cases hd : Kbd.step s.desk (.kernel .run) with
  | error stop =>
    rw [hd] at hs
    cases hs
  | ok r =>
    rw [hd] at hs
    obtain ⟨rfl, rfl⟩ := Prod.mk.inj (Except.ok.inj hs)
    refine ⟨r.1, r.2, rfl, ?_⟩
    have hsame (pc : Pc) (hpc : s.pc s.cur = pc) (hr : returned s.cur r.2 pc = (pc, []))
        (hread : pc.reads → received r.2 = none) :
        { s.setPc (returned s.cur r.2 (s.pc s.cur)).1 with desk := r.1 } = { s with desk := r.1 } ∧
          r.2.map .desk ++ (returned s.cur r.2 (s.pc s.cur)).2 = r.2.map .desk ∧
          ((s.pc s.cur).reads → received r.2 = none) := by
      rw [hpc, hr, List.append_nil]
      refine ⟨?_, rfl, hread⟩
      unfold State.setPc
      rw [← hpc, Function.update_eq_self]
    cases hpc : s.pc s.cur with
    | ioq_getchar old_status =>
      cases hrec : received r.2 with
      | none =>
        have hr : returned s.cur r.2 (.ioq_getchar old_status) = (.ioq_getchar old_status, []) := by
          simp only [returned, hrec]
        left
        have := hsame _ hpc hr fun _ => hrec
        rwa [hpc, hrec] at this
      | some byte =>
        have hr : returned s.cur r.2 (.ioq_getchar old_status) =
            (.console_put_char old_status byte, [.heard s.cur byte]) := by
          simp only [returned, hrec]
        right
        refine ⟨old_status, byte, rfl, rfl, ?_, ?_⟩
        · rw [hr]
          rfl
        · rw [hr]
    | _ =>
      left
      have := hsame _ hpc rfl fun hno => hno.elim
      rwa [hpc] at this

theorem received_got (evs : List Event) (byte : UInt8) (h : received (evs.map .kernel) = some byte) :
    ∃ q byte', Event.got q byte' ∈ evs := by
  obtain ⟨e, he, hbyte⟩ := List.exists_of_findSome?_eq_some h
  obtain ⟨ev, hev, rfl⟩ := List.mem_map.mp he
  cases ev with
  | got q byte' => exact ⟨q, byte', hev⟩
  | _ => cases hbyte

theorem received_none (evs : List Event) (byte : UInt8) (h : received (evs.map .kernel) = none) :
    Event.got Kbd.kbd_buf byte ∉ evs := by
  intro hin
  have hno := List.findSome?_eq_none_iff.mp h _ (List.mem_map_of_mem hin)
  simp at hno

theorem Tasks.heard (klog : List Event) (m : Machine) (pc : Tid → Pc) (t : Tid) (pc' : Pc)
    (h : Tasks klog m (fun t => (pc t).stage) (fun t => (pc t).reads)) (hst : m.stack t = [])
    (hstage : pc'.stage = (pc t).stage) :
    Tasks klog m (fun u => (Function.update pc t pc' u).stage) (fun u => (Function.update pc t pc' u).reads) := by
  refine ⟨h.reach, fun u => ?_, fun u hu => ?_, h.putchar⟩
  · have hp := h.place u
    by_cases hut : u = t
    · subst hut
      rwa [Function.update_self, hstage]
    · rwa [Function.update_of_ne hut]
  · by_cases hut : u = t
    · subst hut
      rw [hst, freeOf_nil]
      trivial
    · rw [Function.update_of_ne hut] at hu
      exact h.getchar u hu

/-- `ioq_getchar` returns a byte. -/
theorem Kept.hear (log : List Entry) (klog evs' : List Event) (s : State) (desk : Kbd.Desk) (devs : List Kbd.Entry)
    (old_status : Bool) (byte : UInt8) (h : Kept log klog s)
    (htasks : Tasks (klog ++ evs') desk.machine (fun t => (s.pc t).stage) (fun t => (s.pc t).reads))
    (hst : desk.machine.stack s.cur = []) (hdesk : Reach Kbd.desk Kbd.careful (deskLog log ++ devs) desk)
    (hput : Kbd.putByTasks devs = []) (hread : Kbd.read devs = [byte]) (hpc : s.pc s.cur = .ioq_getchar old_status) :
    Kept (log ++ (devs.map .desk ++ [.heard s.cur byte])) (klog ++ evs') { s with
      desk := desk
      pc := Function.update s.pc s.cur (.console_put_char old_status byte) } := by
  have hlog : deskLog (log ++ (devs.map .desk ++ [.heard s.cur byte])) = deskLog log ++ devs := by
    rw [deskLog_append, deskLog_append, deskLog_desk]
    exact congrArg (deskLog log ++ ·) (List.append_nil devs)
  have hwritten (t : Tid) : written t (log ++ (devs.map .desk ++ [.heard s.cur byte])) = written t log := by
    rw [written_append, written_append, written_desk]
    exact List.append_nil _
  have hheard (t : Tid) : heard t (log ++ (devs.map .desk ++ [.heard s.cur byte])) =
      heard t log ++ if s.cur = t then [byte] else [] := by
    rw [heard_append, heard_append, heard_desk, List.nil_append]
    by_cases ht : s.cur = t <;> simp [heard, ht]
  have hhad : acquires klog s.cur lock ≠ 0 := fun hzero => (h.had s.cur hzero).1 (by rw [hpc]; trivial)
  have hbegun : Event.created s.cur ∈ klog := by
    by_contra hno
    have hinit := (h.fresh s.cur hno).1
    rw [hpc] at hinit
    cases hinit
  refine ⟨?_, ?_, ?_, ?_, fun t ht => ?_, fun t ht => ?_, fun t => ?_⟩
  · exact htasks.heard _ _ s.pc s.cur _ hst (by rw [hpc]; rfl)
  · rw [hlog]
    exact hdesk
  · rw [hlog, Kbd.putByTasks_append, h.quiet, hput]
    rfl
  · have hone : heardByAny [.heard s.cur byte] = [byte] := rfl
    rw [hlog, Kbd.read_append, hread, heardByAny_append, heardByAny_append, heardByAny_desk, List.nil_append, hone,
      h.order]
  · rw [acquires_append] at ht
    have hold := h.had t (Nat.eq_zero_of_add_eq_zero_right ht)
    have hcur : t ≠ s.cur := fun heq => hhad (heq ▸ Nat.eq_zero_of_add_eq_zero_right ht)
    dsimp only
    rw [hwritten, hheard, if_neg (Ne.symm hcur), List.append_nil, Function.update_of_ne hcur]
    exact hold
  · have hno : Event.created t ∉ klog := fun hin => ht (List.mem_append_left _ hin)
    have hcur : t ≠ s.cur := fun heq => hno (heq ▸ hbegun)
    dsimp only
    rw [hwritten, hheard, if_neg (Ne.symm hcur), List.append_nil, Function.update_of_ne hcur]
    exact h.fresh t hno
  · dsimp only
    have hold := h.text t
    rw [hwritten, hheard]
    by_cases hcur : t = s.cur
    · subst hcur
      rw [hpc] at hold
      have hold : written s.cur log ++ [] = ((heard s.cur log).flatMap fun c => s.arg s.cur ++ [c]) ++ s.arg s.cur := hold
      rw [List.append_nil] at hold
      rw [Function.update_self, if_pos rfl, hold]
      simp [Pc.rest, Pc.said, Pc.announced]
    · rw [if_neg (Ne.symm hcur), List.append_nil, Function.update_of_ne hcur]
      exact hold

theorem Kept.run (log : List Entry) (klog : List Event) (s s' : State) (evs : List Entry) (h : Kept log klog s)
    (hs : step s .run = .ok (s', evs)) : ∃ evs', KernelStep s s' evs' ∧ Kept (log ++ evs) (klog ++ evs') s' := by
  obtain ⟨desk, devs, hd, hcases⟩ := run_step s s' evs hs
  have hdesk := h.desk_step log klog s _ desk devs (careful_kernel _ _ _) hd
  obtain ⟨m, evs', hm, rfl, rfl⟩ := Kbd.task_step s.desk .run desk devs hd
  have hmv := h.tasks.moves klog _ _ _ _ _ .run hm
  have htasks := h.tasks.plain klog _ _ _ _ _ .run .run hm
  have hgot := moves_got _ _ .run evs' (reach_calls _ klog _ h.tasks.reach) hmv
  have hput : Kbd.putByTasks (evs'.map .kernel) = [] := by
    rw [putByTasks_kernel]
    apply List.filterMap_eq_nil_iff.mpr
    intro e he
    cases e with
    | put q byte => exact absurd he (moves_put _ _ .run evs' hmv (h.tasks.putchar _) (by rintro q byte ⟨⟩) q byte)
    | _ => rfl
  have hread : Kbd.read (evs'.map .kernel) = (received (evs'.map .kernel)).toList :=
    read_received evs' (hgot.imp_right fun hr => hr.2.2.2)
  refine ⟨evs', ?_⟩
  rcases hcases with ⟨rfl, rfl, hnone⟩ | ⟨old_status, byte, hpc, hrec, rfl, rfl⟩
  · refine ⟨.plain .run evs' .run (by rintro c ⟨⟩) hm rfl fun hreads byte hin => received_none evs' byte (hnone hreads) hin,
      ?_⟩
    apply h.aside log klog evs' s _ _ htasks hdesk hput
    rw [hread]
    by_cases hreads : (s.pc s.cur).reads
    · rw [hnone hreads]
      rfl
    · -- A thread that is not in ioq_getchar gets nothing.
      have hno := hgot.resolve_right fun hr => hr.2.1 (h.tasks.getchar _ hreads)
      cases hrec : received (evs'.map .kernel) with
      | none => rfl
      | some byte =>
        obtain ⟨q, byte', hin⟩ := received_got evs' byte hrec
        exact absurd hin (hno q byte')
  · obtain ⟨q, byte', hin⟩ := received_got evs' byte hrec
    obtain ⟨-, -, hstack, -⟩ := hgot.resolve_left fun hno => hno q byte' hin
    rw [hrec] at hread
    refine ⟨.hear old_status byte evs' hm hpc rfl, ?_⟩
    exact h.hear log klog evs' s _ _ old_status byte htasks hstack hdesk hput hread hpc

theorem Kept.go (log : List Entry) (klog : List Event) (s s' : State) (evs : List Entry) (h : Kept log klog s)
    (hs : s.go = .ok (s', evs)) : ∃ evs', KernelStep s s' evs' ∧ Kept (log ++ evs) (klog ++ evs') s' := by
  by_cases hmain : s.cur = s.machine.sched.main_thread
  · obtain ⟨s₁, ha, rfl⟩ | ⟨rfl, rfl⟩ := main_step s s' evs hs hmain
    · obtain ⟨evs', hm, hgot, hkept, hs₁⟩ := h.plain log klog s s₁ _ evs .intr_enable (by rintro ⟨⟩) ha
      have hsame : s₁.pc = s.pc := by rw [hs₁]
      exact ⟨evs', .plain _ evs' .intr_enable (fun _ _ => hmain) hm hsame fun _ => hgot _,
        hkept.tasks, hkept.desk, hkept.quiet, hkept.order, hkept.had, hkept.fresh, hkept.text⟩
    · exact ⟨[], .aside rfl rfl, by rwa [List.append_nil, List.append_nil]⟩
  · have hkept := h.line log klog s s' evs hmain hs
    obtain ⟨c, pc', text, hst, hline, rfl, -, -⟩ := line_step s s' evs hs hmain
    exact ⟨[], .line c pc' text hmain hst hline rfl rfl, by rwa [List.append_nil]⟩

theorem Kept.step (log : List Entry) (klog : List Event) (s s' : State) (a : Action) (evs : List Entry)
    (h : Kept log klog s) (hok : careful log s a) (hs : step s a = .ok (s', evs)) :
    ∃ evs', KernelStep s s' evs' ∧ Kept (log ++ evs) (klog ++ evs') s' := by
  cases a with
  | go => exact h.go log klog s s' evs hs
  | thread_start t =>
    simp only [Main.step] at hs
    split at hs
    · exact h.start log klog s s' t _ _ _ evs hs
    · exact h.start log klog s s' t _ _ _ evs hs
    · cases hs
  | run => exact h.run log klog s s' evs hs
  | timer =>
    obtain ⟨evs', hm, hgot, hkept, hs'⟩ := h.plain log klog s s' .timer evs .timer (by rintro ⟨⟩) hs
    have hsame : s'.pc = s.pc := by rw [hs']
    exact ⟨evs', .plain _ evs' .timer (by rintro c ⟨⟩) hm hsame fun _ => hgot _, hkept⟩
  | strike e =>
    have hkept := h.strike log klog s s' e evs (hok e rfl) hs
    obtain ⟨desk, devs, hd, rfl, rfl⟩ := aside_step s s' _ evs hs
    obtain ⟨rfl, -⟩ := Prod.mk.inj (Except.ok.inj hd)
    exact ⟨[], .aside rfl rfl, hkept⟩
  | irq => exact h.irq log klog s s' evs hs

theorem kept_init (s : State) (h : program.init s) : Kept [] [] s := by
  obtain ⟨hdesk, -, hpc⟩ := h
  have hm : kernel.init s.desk.machine := hdesk.1
  have hidle (t : Tid) : s.machine.stack t = [] := by
    obtain ⟨main, intr, task, value, buf, heq⟩ := (kernel_init_iff _).mp hm
    unfold State.machine
    rw [heq]
    rfl
  refine ⟨⟨.init _ hm, fun t => ?_, fun t _ => ?_, fun t => ?_⟩, .init _ hdesk, rfl, rfl, fun t _ => ?_, fun t _ => ?_,
    fun t => ?_⟩
  · rw [hpc]
    exact ⟨by simp [lockState, hidle, lockPhase], rfl⟩
  · rw [hidle, freeOf_nil]
    trivial
  · rw [hidle, freeOf_nil]
    trivial
  · rw [hpc]
    exact ⟨id, rfl, rfl⟩
  · rw [hpc]
    exact ⟨rfl, rfl, rfl⟩
  · rw [hpc]
    rfl

theorem reach_kept (log : List Entry) (s : State) (h : Reach program careful log s) : ∃ klog, Kept log klog s := by
  apply reach_invariant program careful (fun log s => ∃ klog, Kept log klog s) _ _ log s h
  · exact fun s hinit => ⟨[], kept_init s hinit⟩
  · rintro log s a s' evs ⟨klog, hk⟩ hok hs
    obtain ⟨evs', -, hk'⟩ := hk.step log klog s s' a evs hok hs
    exact ⟨_, hk'⟩

/-! ## The console -/

theorem console_written (log : List Entry) (u : Tid) (h : ∀ t ≠ u, written t log = []) : console log = written u log := by
  apply List.filterMap_congr
  intro e he
  cases e with
  | wrote t c =>
    by_cases ht : t = u
    · simp [ht]
    · have hmem : c ∈ written t log := List.mem_filterMap.mpr ⟨_, he, if_pos rfl⟩
      rw [h t ht] at hmem
      cases hmem
  | desk | heard => rfl

theorem heardByAny_heard (log : List Entry) (u : Tid) (h : ∀ t ≠ u, heard t log = []) : heardByAny log = heard u log := by
  apply List.filterMap_congr
  intro e he
  cases e with
  | heard t c =>
    by_cases ht : t = u
    · simp [ht]
    · have hmem : c ∈ heard t log := List.mem_filterMap.mpr ⟨_, he, if_pos rfl⟩
      rw [h t ht] at hmem
      cases hmem
  | desk | wrote => rfl

/-- A thread that waits for the console goes on only when it gets it. -/
theorem step_waits (s s' : State) (a : Action) (evs : List Entry) (hs : step s a = .ok (s', evs)) (t : Tid)
    (hwait : (s.pc t).stage = .acquiring) : s'.pc t = s.pc t ∨ (s'.pc t).hadConsole := by
  have haside (k : Kbd.Action) (s' : State) (evs : List Entry) (hs : s.aside k = .ok (s', evs)) : s'.pc t = s.pc t := by
    obtain ⟨desk, devs, -, rfl, -⟩ := aside_step s s' k evs hs
    rfl
  cases a with
  | go =>
    by_cases hmain : s.cur = s.machine.sched.main_thread
    · obtain ⟨s₁, ha, rfl⟩ | ⟨rfl, rfl⟩ := main_step s s' evs hs hmain
      · exact .inl (haside _ s₁ evs ha)
      · exact .inl rfl
    · obtain ⟨c, pc', text, -, hline, rfl, -, -⟩ := line_step s s' evs hs hmain
      by_cases ht : t = s.cur
      · subst ht
        right
        dsimp only
        rw [Function.update_self]
        cases hpc : s.pc s.cur with
        | console_acquire =>
          rw [hpc] at hline
          cases hline
          trivial
        | _ =>
          rw [hpc] at hwait
          cases hwait
      · exact .inl (Function.update_of_ne ht _ _)
  | thread_start u =>
    simp only [step] at hs
    split at hs
    · obtain ⟨s₁, ha, rfl⟩ := start_step s s' u _ _ _ evs hs
      exact .inl (haside _ s₁ evs ha)
    · obtain ⟨s₁, ha, rfl⟩ := start_step s s' u _ _ _ evs hs
      exact .inl (haside _ s₁ evs ha)
    · cases hs
  | run =>
    obtain ⟨desk, devs, -, ⟨rfl, -, -⟩ | ⟨old_status, byte, hpc, -, rfl, -⟩⟩ := run_step s s' evs hs
    · exact .inl rfl
    · have ht : t ≠ s.cur := by
        rintro rfl
        rw [hpc] at hwait
        cases hwait
      exact .inl (Function.update_of_ne ht _ _)
  | timer => exact .inl (haside _ s' evs hs)
  | strike e => exact .inl (haside _ s' evs hs)
  | irq => exact .inl (haside _ s' evs hs)

/-- The key is struck first, and no other one. -/
def oneKey (log : List Entry) (_ : State) : Action → Prop
  | .strike e => e = .press Kbd.key_a ∧ log = []
  | _ => True

instance (log : List Entry) (s : State) (a : Action) : Decidable (oneKey log s a) := by
  cases a <;> unfold oneKey <;> infer_instance

def first : State := { desk := Kbd.quiet, main := .thread_start_a, arg := fun _ => [], pc := fun _ => .intr_disable }

def typeOne : List Action := [.strike (.press Kbd.key_a), .thread_start 1, .thread_start 2, .go, .irq]

theorem oneKey_careful (log : List Entry) (s : State) (a : Action) (h : oneKey log s a) : careful log s a := by
  rintro e rfl
  obtain ⟨rfl, rfl⟩ := h
  rintro e ⟨⟩
  exact ⟨rfl, not_false⟩

end OsLearn.Main
