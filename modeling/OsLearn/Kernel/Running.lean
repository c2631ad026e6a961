import OsLearn.Kernel.Console
import OsLearn.Thread.Checks
import Mathlib.Data.Fintype.EquivFin

/-!
# The kernel of `main.c` goes on for ever

The threads of `main.c` keep the rules under which no check of the kernel fails: each one holds its interrupts off
from `intr_disable` to `intr_set_status`, and has taken the console once when it gives it back.
-/

open OsLearn.Run OsLearn.Queues

namespace OsLearn.Main

/-! ## In `ioq_getchar` -/

theorem insideGet_piece (q : Nat) (f : Frame) (rest new : List Frame) (h : insideGet q (f :: rest) = true)
    (hf : insideGet q [f] = true → insideGet q new = true) : insideGet q (new ++ rest) = true := by
  unfold insideGet at *
  rw [List.any_append, Bool.or_eq_true]
  rw [List.any_cons, Bool.or_eq_true] at h
  refine h.imp (fun hhead => hf ?_) id
  rw [List.any_cons, hhead]
  rfl

/-- A task leaves `ioq_getchar` with a character. -/
theorem moves_insideGet (q : Nat) (m m' : Machine) (a : Act) (evs : List Event) (hc : Calls m)
    (hmv : Moves m a m' evs) (t : Tid) (h : insideGet q (m.stack t) = true) :
    insideGet q (m'.stack t) = true ∨ t = m.cur ∧ ∃ byte, Event.got q byte ∈ evs := by
  by_cases hall : t ∈ m.sched.thread_all_list
  · by_cases ht : t = m.cur
    · subst ht
      have hpiece (m' : Machine) (f : Frame) (rest new : List Frame) (hst : m.stack m.cur = f :: rest)
          (hst' : m'.stack = Function.update m.stack m.cur (new ++ rest))
          (hf : insideGet q [f] = true → insideGet q new = true) : insideGet q (m'.stack m.cur) = true := by
        rw [hst', Function.update_self]
        exact insideGet_piece q f rest new (hst ▸ h) hf
      have hempty (hst : m.stack m.cur = []) : False := by
        rw [hst] at h
        cases h
      cases hmv with
      | call c hst => exact (hempty hst).elim
      | create _ _ _ _ _ hst => exact (hempty hst).elim
      | get_take p rest hst | get_wake p rest _ hst =>
        by_cases hq : p = q
        · subst hq
          exact .inr ⟨rfl, _, List.mem_singleton_self _⟩
        · exact .inl (hpiece _ _ rest [] hst rfl (by simp [insideGet, hq]))
      | down_wait s o rest next tl hst =>
        left
        cases o <;> exact hpiece _ _ rest [.thread_block _, .sema_down s (some _)] hst rfl (by simp [insideGet])
      | down_take s o rest hst | up_none s rest hst | up_wake s rest _ _ hst | acquire_again l rest hst
      | acquire_first l rest hst | release_again l rest hst | release_up_none l rest hst
      | release_up_wake l rest _ _ hst | block_end old rest hst | put_store p byte rest hst
      | put_wake p byte rest _ hst | thread_entry rest hst | timer_end rest hst =>
        exact .inl (hpiece _ _ rest [] hst rfl (by simp [insideGet]))
      | acquire_own l rest hst | acquire_taken l rest hst | acquire_check l rest hst =>
        exact .inl (hpiece _ _ rest [.lock_acquire l _] hst rfl (by simp [insideGet]))
      | acquire_down l rest hst =>
        exact .inl (hpiece _ _ rest [.sema_down (.lock l) none, .lock_acquire l .taken] hst rfl (by simp [insideGet]))
      | release_entry l rest hst | release_more l rest hst | release_zero l rest hst | release_last l rest hst
      | release_clear l rest hst | release_reset l rest hst =>
        exact .inl (hpiece _ _ rest [.lock_release l _] hst rfl (by simp [insideGet]))
      | get_empty p rest hst =>
        exact .inl (hpiece _ _ rest [.lock_acquire (.ioq p) .entry, .ioq_getchar p .wait] hst rfl (by simp [insideGet]))
      | get_wait p rest _ _ hst =>
        exact .inl (hpiece _ _ rest [.thread_block _, .ioq_getchar p .release] hst rfl (by simp [insideGet]))
      | get_release p rest hst =>
        exact .inl (hpiece _ _ rest [.lock_release (.ioq p) .entry, .ioq_getchar p .loop] hst rfl (by simp [insideGet]))
      | put_full p byte rest hst =>
        exact .inl (hpiece _ _ rest [.lock_acquire (.ioq p) .entry, .ioq_putchar p byte .wait] hst rfl
          (by simp [insideGet]))
      | put_wait p byte rest _ _ hst =>
        exact .inl (hpiece _ _ rest [.thread_block _, .ioq_putchar p byte .release] hst rfl (by simp [insideGet]))
      | put_release p byte rest hst =>
        exact .inl (hpiece _ _ rest [.lock_release (.ioq p) .entry, .ioq_putchar p byte .loop] hst rfl
          (by simp [insideGet]))
      | tick | key_drop | key_store | key_wake => exact .inl h
      | preempt next rest =>
        left
        show insideGet q (Function.update m.stack m.cur (.intr_exit :: m.stack m.cur) m.cur) = true
        rw [Function.update_self]
        simpa [insideGet] using h
    · rw [moves_other m m' a evs hmv t hall ht]
      exact .inl h
  · rw [hc.new t hall] at h
    cases h

/-! ## The flag -/

/-- A task that goes on with interrupts off keeps them off, if it makes no call. -/
theorem moves_off (m m' : Machine) (a : Act) (evs : List Event) (hi : QueueInv m) (hp : OthersParked m)
    (hmv : Moves m a m' evs) (t : Tid) (hall : t ∈ m.sched.thread_all_list) (hmain : t ≠ m.sched.main_thread)
    (hcall : t = m.cur → ∀ c, a ≠ .call c) (h : flagAfter m.sched.intr (m.stack t) = false) :
    flagAfter m'.sched.intr (m'.stack t) = false := by
  cases hst : m.stack t with
  | cons f calls =>
    have hst' : m.stack t = f :: calls ++ [] := by rw [List.append_nil, hst]
    obtain ⟨calls', hst', hflag, -⟩ := step_flagAfter m m' a evs hi hp hmv t hall f calls [] hst'
    rw [hst', List.append_nil, hflag, ← hst]
    exact h
  | nil =>
    -- Only the running task is in no call, and interrupts are off.
    have ht : t = m.cur := by
      by_contra hne
      have hparked := hp t hall hne
      rw [hst] at hparked
      cases hparked
    subst ht
    rw [hst] at h
    have hoff : m.sched.intr = false := h
    cases hmv with
    | call c => exact absurd rfl (hcall rfl c)
    | create _ _ _ _ hcur => exact absurd hcur hmain
    | tick hon | preempt _ _ hon | key_drop _ _ hon | key_store _ _ hon | key_wake _ _ _ hon =>
      rw [hoff] at hon
      cases hon
    | down_wait _ _ _ _ _ hrun | down_take _ _ _ hrun | up_none _ _ hrun | up_wake _ _ _ _ hrun | acquire_own _ _ hrun
    | acquire_down _ _ hrun | acquire_again _ _ hrun | acquire_taken _ _ hrun | acquire_check _ _ hrun
    | acquire_first _ _ hrun | release_entry _ _ hrun | release_more _ _ hrun | release_zero _ _ hrun
    | release_again _ _ hrun | release_last _ _ hrun | release_clear _ _ hrun | release_reset _ _ hrun
    | release_up_none _ _ hrun | release_up_wake _ _ _ _ hrun | block_end _ _ hrun | get_empty _ _ hrun
    | get_take _ _ hrun | get_wake _ _ _ hrun | get_wait _ _ _ _ hrun | get_release _ _ hrun | put_full _ _ _ hrun
    | put_store _ _ _ hrun | put_wake _ _ _ _ hrun | put_wait _ _ _ _ _ hrun | put_release _ _ _ hrun
    | thread_entry _ hrun | timer_end _ hrun =>
      rw [hst] at hrun
      cases hrun

/-! ## One step of the program -/

structure Alive (klog : List Event) (s : State) : Prop where
  orderly : Reach kernel Orderly klog s.machine
  -- From `intr_disable` to `intr_set_status`.
  off : ∀ t ∈ s.machine.sched.thread_all_list, t ≠ s.machine.sched.main_thread → s.pc t ≠ .intr_disable →
    flagAfter s.machine.sched.intr (s.machine.stack t) = false
  reading : ∀ t, (s.pc t).reads → insideGet Kbd.kbd_buf (s.machine.stack t) = true

theorem orderly_plain (klog : List Event) (m : Machine) (a : Act) (ha : Plain a) : Orderly klog m a := by
  cases ha <;> trivial

/-- Interrupts are off behind a line of the loop, up to the last one. -/
theorem k_thread_off (m : Machine) (para : List UInt8) (pc pc' : Pc) (c : Option Call) (text : List UInt8)
    (h : k_thread m para pc = .ok (c, pc', text)) (hst : m.stack m.cur = [])
    (hoff : pc ≠ .intr_disable → m.sched.intr = false) (hpc : pc' ≠ .intr_disable) :
    flagAfter (called m c).sched.intr ((called m c).stack m.cur) = false := by
  have hsame (hne : pc ≠ .intr_disable) : flagAfter m.sched.intr (m.stack m.cur) = false := by
    rw [hst]
    exact hoff hne
  have hcall (f : Frame) (hne : pc ≠ .intr_disable) (hf : f.restores m.sched.intr = m.sched.intr) :
      flagAfter m.sched.intr (Function.update m.stack m.cur [f] m.cur) = false := by
    rw [Function.update_self]
    exact hf.trans (hoff hne)
  cases pc with
  | intr_disable =>
    cases h
    simp [called, startCall, Machine.setIntr, hst, flagAfter]
  | ioq_empty old_status =>
    simp only [k_thread] at h
    unfold ASSERT at h
    split at h
    · split at h <;> cases h
      · exact hsame (by simp)
      · exact hcall _ (by simp) rfl
    · cases h
  | console_acquire old_status text last =>
    cases h
    exact hsame (by simp)
  | put_str old_status text last =>
    cases text <;> cases h
    · exact hcall _ (by simp) rfl
    · exact hsame (by simp)
  | console_release old_status last =>
    cases last <;> cases h
    · exact hcall _ (by simp) rfl
    · exact hsame (by simp)
  | console_put_char old_status byte =>
    cases h
    exact hcall _ (by simp) rfl
  | ioq_getchar => cases h
  | intr_set_status =>
    cases h
    exact absurd rfl hpc

/-- A line makes only orderly calls. -/
theorem k_thread_orderly (klog : List Event) (m : Machine) (para : List UInt8) (pc pc' : Pc) (c : Call)
    (text : List UInt8) (h : k_thread m para pc = .ok (some c, pc', text)) (hmain : m.cur ≠ m.sched.main_thread)
    (hoff : pc ≠ .intr_disable → m.sched.intr = false)
    (hinside : pc.stage = .inside → acquires klog m.cur lock = releases klog m.cur lock + 1) :
    Orderly klog m (.call c) := by
  cases pc with
  | intr_disable =>
    cases h
    trivial
  | ioq_empty old_status =>
    simp only [k_thread] at h
    unfold ASSERT at h
    split at h
    · split at h <;> cases h
      exact hmain
    · cases h
  | put_str old_status text last =>
    cases text with
    | nil =>
      cases h
      have hdepth : depth klog m.cur lock = 1 := by
        unfold depth
        have := hinside rfl
        omega
      have hcounted : Counted (depth klog m.cur lock) := by
        rw [hdepth]
        exact ⟨Nat.one_pos, by decide⟩
      exact hcounted
    | cons => cases h
  | console_release old_status last =>
    cases last <;> cases h
    exact ⟨hoff (by simp), hmain⟩
  | console_put_char old_status byte =>
    cases h
    exact hmain
  | console_acquire | ioq_getchar => cases h
  | intr_set_status old_status => cases old_status <;> cases h <;> trivial

theorem k_thread_reads (m : Machine) (para : List UInt8) (pc pc' : Pc) (c : Option Call) (text : List UInt8)
    (h : k_thread m para pc = .ok (c, pc', text)) (hreads : pc'.reads) : c = some (.ioq_getchar Kbd.kbd_buf) := by
  cases pc with
  | ioq_empty old_status =>
    simp only [k_thread] at h
    unfold ASSERT at h
    split at h
    · split at h <;> cases h <;> exact hreads.elim
    · cases h
  | put_str old_status text last => cases text <;> cases h <;> exact hreads.elim
  | console_release old_status last =>
    cases last <;> cases h
    · rfl
    · exact hreads.elim
  | intr_disable | console_acquire | console_put_char | intr_set_status =>
    cases h
    exact hreads.elim
  | ioq_getchar => cases h

theorem called_all (m : Machine) (c : Option Call) :
    (called m c).sched.thread_all_list = m.sched.thread_all_list := by
  cases c with
  | none => rfl
  | some c => cases c <;> rfl

theorem called_main (m : Machine) (c : Option Call) : (called m c).sched.main_thread = m.sched.main_thread := by
  cases c with
  | none => rfl
  | some c => cases c <;> rfl

theorem called_other (m : Machine) (c : Option Call) (t : Tid) (ht : t ≠ m.cur) :
    (called m c).stack t = m.stack t := by
  cases c with
  | none => rfl
  | some c =>
    cases c with
    | intr_enable | intr_disable => rfl
    | _ => exact Function.update_of_ne ht _ _

theorem Alive.running_off (klog : List Event) (s : State) (h : Alive klog s)
    (hmain : s.cur ≠ s.machine.sched.main_thread) (hst : s.machine.stack s.cur = []) (hpc : s.pc s.cur ≠ .intr_disable) :
    s.machine.sched.intr = false := by
  have hi := reach_inv klog s.machine (reach_any kernel _ klog _ h.orderly)
  have hoff := h.off s.cur hi.queue.cur_mem hmain hpc
  rw [hst] at hoff
  exact hoff

/-- A step of the kernel that makes no call of a thread. -/
theorem Alive.off_step (log : List Entry) (klog : List Event) (s s' : State) (a : Act) (evs : List Event)
    (hk : Kept log klog s) (h : Alive klog s) (hs : OsLearn.step s.machine a = .ok (s'.machine, evs))
    (hcall : ∀ c, a = .call c → s.cur = s.machine.sched.main_thread)
    (hpc : ∀ t, s'.pc t ≠ .intr_disable → s.pc t ≠ .intr_disable) :
    ∀ t ∈ s'.machine.sched.thread_all_list, t ≠ s'.machine.sched.main_thread → s'.pc t ≠ .intr_disable →
      flagAfter s'.machine.sched.intr (s'.machine.stack t) = false := by
  intro t hall hmain ht
  have hany := reach_any kernel _ klog _ h.orderly
  have hi := reach_inv klog s.machine hany
  have hmv := spec_of_ok _ _ _ (step_moves s.machine a hi) (s'.machine, evs) hs
  have hmain : t ≠ s.machine.sched.main_thread := moves_main _ _ a evs hmv ▸ hmain
  by_cases hold : t ∈ s.machine.sched.thread_all_list
  · refine moves_off _ _ a evs hi (reach_parked _ klog _ h.orderly) hmv t hold hmain ?_ (h.off t hold hmain (hpc t ht))
    rintro rfl c rfl
    exact hmain (hcall c rfl)
  · -- A new thread is before its first line.
    have hnew : Event.created t ∉ klog := fun hin => hold ((reach_created klog _ hany t).mpr (.inr hin))
    exact absurd (hk.fresh t hnew).1 (hpc t ht)

theorem Alive.step (log : List Entry) (klog : List Event) (s s' : State) (evs : List Event) (hk : Kept log klog s)
    (h : Alive klog s) (hs : KernelStep s s' evs) : Alive (klog ++ evs) s' := by
  have hany := reach_any kernel _ klog _ h.orderly
  have hi := reach_inv klog s.machine hany
  have hc := reach_calls _ klog _ h.orderly
  cases hs with
  | aside hm hpc =>
    rw [List.append_nil]
    refine ⟨hm ▸ h.orderly, ?_, ?_⟩
    · rw [hm, hpc]
      exact h.off
    · rw [hm, hpc]
      exact h.reading
  | plain a evs ha hcall hm hpc hgot =>
    have hmv := spec_of_ok _ _ _ (step_moves s.machine a hi) (s'.machine, evs) hm
    refine ⟨.step klog _ a _ evs h.orderly (orderly_plain klog _ a ha) hm, ?_, fun t ht => ?_⟩
    · exact h.off_step log klog s s' a evs hk hm hcall fun t ht => hpc ▸ ht
    · rw [hpc] at ht
      rcases moves_insideGet Kbd.kbd_buf _ _ a evs hc hmv t (h.reading t ht) with hin | ⟨rfl, byte, hin⟩
      · exact hin
      · exact absurd hin (hgot ht byte)
  | hear old_status byte evs hm hpc hpc' =>
    have hmv := spec_of_ok _ _ _ (step_moves s.machine .run hi) (s'.machine, evs) hm
    refine ⟨.step klog _ Act.run _ evs h.orderly (orderly_plain klog _ Act.run .run) hm, ?_, fun t ht => ?_⟩
    · apply h.off_step log klog s s' .run evs hk hm (by rintro c ⟨⟩)
      intro t ht
      by_cases hcur : t = s.cur
      · rw [hcur, hpc]
        simp
      · rwa [hpc', Function.update_of_ne hcur] at ht
    · by_cases hcur : t = s.cur
      · rw [hpc', hcur, Function.update_self] at ht
        exact ht.elim
      · rw [hpc', Function.update_of_ne hcur] at ht
        have hin := moves_insideGet Kbd.kbd_buf _ _ .run evs hc hmv t (h.reading t ht)
        exact hin.resolve_right fun hr => hcur hr.1
  | line c pc' text hmain hst hline hm hpc' =>
    rw [List.append_nil]
    have hnow := h.running_off klog s hmain hst
    have hplace := hk.tasks.place s.cur
    refine ⟨?_, fun t hall hne ht => ?_, fun t ht => ?_⟩
    · rw [hm]
      cases c with
      | none => exact h.orderly
      | some c =>
        have hcall : OsLearn.step s.machine (.call c) = .ok (startCall s.machine c, []) := by
          simp only [OsLearn.step]
          exact if_pos hst
        have hinside (hstage : (s.pc s.cur).stage = .inside) :
            acquires klog s.cur lock = releases klog s.cur lock + 1 := by
          rw [hstage] at hplace
          exact hplace.2
        have hok := k_thread_orderly klog _ _ _ _ c text hline hmain hnow hinside
        have hreach := Reach.step klog s.machine _ _ _ h.orderly hok hcall
        rwa [List.append_nil] at hreach
    · by_cases hcur : t = s.cur
      · subst hcur
        rw [hpc', Function.update_self] at ht
        rw [hm]
        exact k_thread_off _ _ _ pc' c text hline hst hnow ht
      · rw [hpc', Function.update_of_ne hcur] at ht
        rw [hm, called_all] at hall
        rw [hm, called_main] at hne
        have hparked := reach_parked _ klog _ h.orderly t hall hcur
        rw [hm, called_other _ c t hcur, flagAfter_parked _ s.machine.sched.intr _ hparked]
        exact h.off t hall hne ht
    · by_cases hcur : t = s.cur
      · subst hcur
        rw [hpc', Function.update_self] at ht
        rw [hm, k_thread_reads _ _ _ pc' c text hline ht]
        simp [called, startCall, Machine.setStack, State.cur, State.machine, insideGet]
      · rw [hpc', Function.update_of_ne hcur] at ht
        rw [hm, called_other _ c t hcur]
        exact h.reading t ht

/-! ## Whole runs -/

theorem alive_init (s : State) (h : program.init s) : Alive [] s := by
  obtain ⟨hdesk, -, hpc⟩ := h
  have hm : kernel.init s.machine := hdesk.1
  refine ⟨.init _ hm, fun t _ _ ht => ?_, fun t ht => ?_⟩
  · rw [hpc] at ht
    exact absurd rfl ht
  · rw [hpc] at ht
    exact ht.elim

theorem reach_alive (log : List Entry) (s : State) (h : Reach program careful log s) :
    ∃ klog, Kept log klog s ∧ Alive klog s := by
  apply reach_invariant program careful (fun log s => ∃ klog, Kept log klog s ∧ Alive klog s) _ _ log s h
  · exact fun s hinit => ⟨[], kept_init s hinit, alive_init s hinit⟩
  · rintro log s a s' evs ⟨klog, hk, ha⟩ hok hs
    obtain ⟨evs', hkernel, hk'⟩ := hk.step log klog s s' a evs hok hs
    exact ⟨_, hk', ha.step log klog s s' evs' hk hkernel⟩

/-! ## The steps there are -/

/-- The step is made, or it cannot happen now. -/
abbrev Made {α : Type} (x : Except Stop α) : Prop := Spec x (fun _ => True) fun e => e = .notNow

theorem made_bind {α β : Type} (x : Except Stop α) (f : α → Except Stop β) (hx : Made x) (hf : ∀ a, Made (f a)) :
    Made (x >>= f) := by
  rw [Made, spec_bind]
  exact spec_mono _ _ _ _ _ hx (fun a _ => hf a) fun _ => id

theorem made_of_passes {α : Type} (x : Except Stop α) (h : Passes x) : Made x :=
  spec_mono _ _ _ _ _ h (fun _ => id) fun _ hno => hno.elim

theorem desk_made (klog : List Event) (d : Kbd.Desk) (h : Reach kernel Orderly klog d.machine) (a : Kbd.Action) :
    Made (Kbd.step d a) := by
  cases a with
  | strike e => trivial
  | irq =>
    have hi := reach_inv klog d.machine (reach_any kernel _ klog _ h)
    obtain ⟨keyboard, m, line⟩ := d
    obtain _ | ⟨⟨byte, last⟩, line⟩ := line
    · rfl
    · simp only [Kbd.step]
      split
      · apply made_bind
        · rcases Kbd.handler_chars (ioq_full (m.ioq Kbd.kbd_buf)) keyboard byte with hnone | ⟨-, c, hc⟩
          · rw [hnone]
            trivial
          · rw [hc]
            exact made_of_passes _ (passes_bind _ _ (ioq_store_passes m Kbd.kbd_buf c hi) fun _ => trivial)
        · exact fun _ => trivial
      · rfl
  | kernel a =>
    have hm := step_passes klog d.machine h a
    cases a with
    | keyboard => rfl
    | _ => exact made_bind _ _ hm fun _ => trivial

theorem aside_made (klog : List Event) (s : State) (h : Reach kernel Orderly klog s.machine) (a : Kbd.Action) :
    Made (s.aside a) := made_bind _ _ (desk_made klog s.desk h a) fun _ => trivial

/-- The one line with a check of its own, and the one where a thread is only inside its call. -/
theorem k_thread_made (m : Machine) (para : List UInt8) (pc : Pc) (hoff : pc ≠ .intr_disable → m.sched.intr = false)
    (hreads : ¬ pc.reads) : Passes (k_thread m para pc) := by
  cases pc with
  | ioq_empty old_status =>
    apply passes_check _ _ _ (hoff (by simp))
    split <;> trivial
  | put_str old_status text last => cases text <;> trivial
  | console_release old_status last => cases last <;> trivial
  | ioq_getchar => exact absurd trivial hreads
  | intr_disable | console_acquire | console_put_char | intr_set_status => trivial

theorem aside_passes (s : State) (a : Act) (hkey : ∀ q byte, a ≠ .keyboard q byte)
    (h : Passes (OsLearn.step s.machine a)) : Passes (s.aside (.kernel a)) := by
  have hdesk : Passes (Kbd.step s.desk (.kernel a)) := by
    cases a with
    | keyboard q byte => exact absurd rfl (hkey q byte)
    | _ => exact passes_bind _ _ h fun _ => trivial
  exact passes_bind _ _ hdesk fun _ => trivial

theorem call_passes (s : State) (c : Call) (hst : s.machine.stack s.cur = []) :
    Passes (s.aside (.kernel (.call c))) := by
  apply aside_passes s _ (by rintro q byte ⟨⟩)
  simp only [OsLearn.step]
  rw [if_pos (by exact hst)]
  trivial

theorem start_passes (klog : List Event) (s : State) (t : Tid) (prio : Int32) (arg : List UInt8) (next : MainPc)
    (h : Reach kernel Orderly klog s.machine) (hst : s.machine.stack s.cur = [])
    (hcur : s.cur = s.machine.sched.main_thread) (ht : t ∉ s.machine.sched.thread_all_list) :
    Passes (s.thread_start t prio arg next) := by
  have hi := reach_inv klog s.machine (reach_any kernel _ klog _ h)
  have hready : t ∉ s.machine.sched.thread_ready_list := fun hr => ht ((hi.queue.ready_iff t).mp hr).1
  have hstep : Passes (OsLearn.step s.machine (.thread_start t prio)) := by
    simp only [OsLearn.step]
    rw [if_pos (by exact ⟨hcur, hst, ht⟩), thread_start_own s.machine t prio (reach_sound klog _ h).pid hcur hready ht]
    trivial
  exact passes_bind _ _ (aside_passes s _ (by rintro q byte ⟨⟩) hstep) fun _ => trivial

/-- The running task's own code goes on, unless it is inside a call or about to start a thread. -/
theorem go_passes (klog : List Event) (s : State) (h : Alive klog s) (hst : s.machine.stack s.cur = [])
    (hmain : s.cur = s.machine.sched.main_thread → s.main = .intr_enable ∨ s.main = .loop) : Passes s.go := by
  unfold State.go
  rw [if_pos hst]
  by_cases hcur : s.cur = s.machine.sched.main_thread
  · rw [if_pos hcur]
    rcases hmain hcur with hpc | hpc
    · rw [hpc]
      exact passes_bind _ _ (call_passes s _ hst) fun _ => trivial
    · rw [hpc]
      trivial
  · rw [if_neg hcur]
    have hreads : ¬ (s.pc s.cur).reads := by
      intro hreads
      have hin := h.reading s.cur hreads
      rw [hst] at hin
      cases hin
    apply passes_bind _ _ (k_thread_made _ _ _ (h.running_off klog s hcur hst) hreads)
    rintro ⟨c, pc, text⟩
    cases c with
    | none => trivial
    | some c => exact passes_bind _ _ (call_passes s c hst) fun _ => trivial

theorem step_made (klog : List Event) (s : State) (h : Alive klog s) (a : Action) : Made (step s a) := by
  cases a with
  | go =>
    by_cases hgo : s.machine.stack s.cur = [] ∧
        (s.cur = s.machine.sched.main_thread → s.main = .intr_enable ∨ s.main = .loop)
    · exact made_of_passes _ (go_passes klog s h hgo.1 hgo.2)
    · simp only [step, State.go]
      split
      · next hst =>
        split
        · next hcur =>
          split
          · next hpc => exact absurd ⟨hst, fun _ => .inl hpc⟩ hgo
          · next hpc => exact absurd ⟨hst, fun _ => .inr hpc⟩ hgo
          · rfl
        · next hcur => exact absurd ⟨hst, fun hmain => absurd hmain hcur⟩ hgo
      · rfl
  | thread_start t =>
    simp only [step]
    split
    · exact made_bind _ _ (aside_made klog s h.orderly _) fun _ => trivial
    · exact made_bind _ _ (aside_made klog s h.orderly _) fun _ => trivial
    · rfl
  | run => exact made_bind _ _ (desk_made klog s.desk h.orderly _) fun _ => trivial
  | timer | strike | irq => exact aside_made klog s h.orderly _

/-- The running task goes on: with its own code, inside its call, or with the next thread. -/
theorem running_goes_on (klog : List Event) (s : State) (h : Alive klog s) :
    ∃ a, (a = .go ∨ a = .run ∨ ∃ t, a = .thread_start t) ∧ Passes (step s a) := by
  by_cases hst : s.machine.stack s.cur = []
  · by_cases hgo : s.cur = s.machine.sched.main_thread → s.main = .intr_enable ∨ s.main = .loop
    · exact ⟨.go, .inl rfl, go_passes klog s h hst hgo⟩
    · obtain ⟨hcur, hpc⟩ := Classical.not_imp.mp hgo
      obtain ⟨t, ht⟩ := Infinite.exists_notMem_finset s.machine.sched.thread_all_list.toFinset
      have ht : t ∉ s.machine.sched.thread_all_list := fun hin => ht (List.mem_toFinset.mpr hin)
      refine ⟨.thread_start t, .inr (.inr ⟨t, rfl⟩), ?_⟩
      cases hp : s.main with
      | thread_start_a | thread_start_b =>
        simp only [step, hp]
        exact start_passes klog s t _ _ _ h.orderly hst hcur ht
      | intr_enable => exact absurd (.inl hp) hpc
      | loop => exact absurd (.inr hp) hpc
  · refine ⟨.run, .inr (.inl rfl), ?_⟩
    have hrun := run_passes klog s.machine h.orderly hst
    have hdesk : Passes (Kbd.step s.desk (.kernel .run)) := passes_bind _ _ hrun fun _ => trivial
    exact passes_bind _ _ hdesk fun _ => trivial

end OsLearn.Main
