import OsLearn.Thread.Switch

/-!
# `start_process` and its way into user mode

`self_kstack` points to words, and is moved by sizes in bytes. `switch_to` keeps the stack pointer in it.
-/

open OsLearn.X86

namespace OsLearn.Switch

def SELECTOR_U_CODE : UInt32 := ((5 : UInt32) <<< 3) ||| ((0 : UInt32) <<< 2) ||| 3

def SELECTOR_U_DATA : UInt32 := ((6 : UInt32) <<< 3) ||| ((0 : UInt32) <<< 2) ||| 3

def EFLAGS_IOPL_0 : UInt32 := (0 : UInt32) <<< 12

def EFLAGS_MBS : UInt32 := (1 : UInt32) <<< 1

def EFLAGS_IF_1 : UInt32 := (1 : UInt32) <<< 9

/-- The fields of `proc_stack` that are set, with their offsets. `vec_no` and `err_code` are not. -/
def proc_stack_fields (filename user_page : UInt32) : List (UInt32 × UInt32) :=
  -- esp_dummy, ebp, esi, edi
  [(16, 0), (12, 0), (8, 0), (4, 0),
   -- eax, ecx, edx, ebx
   (32, 0), (28, 0), (24, 0), (20, 0),
   -- gs, then fs, es, ds
   (36, 0), (40, SELECTOR_U_DATA), (44, SELECTOR_U_DATA), (48, SELECTOR_U_DATA),
   -- eip, cs, eflags, esp, ss
   (56, filename), (60, SELECTOR_U_CODE), (64, EFLAGS_IOPL_0 ||| EFLAGS_MBS ||| EFLAGS_IF_1),
   (68, user_page + PG_SIZE), (72, SELECTOR_U_DATA)]

def setFields (mem : Mem) (a : UInt32) (fields : List (UInt32 × UInt32)) : Mem :=
  fields.foldl (fun mem f => write32 mem (a + f.1).toNat f.2) mem

/-- `start_process`, to its jump to `intr_exit`. `user_page` is what `get_a_page` returns. -/
def start_process (intr_exit : UInt32) (c : Cpu) (filename user_page : UInt32) : Cpu :=
  let cur := running_thread c
  let mem := write32 c.mem cur.toNat (read32 c.mem cur.toNat + 4 * sizeofThreadStack)
  let proc_stack := read32 mem cur.toNat
  let mem := setFields mem proc_stack (proc_stack_fields filename user_page)
  { c.setReg .esp proc_stack with mem := mem, eip := intr_exit }

/-! ## What it writes -/

theorem setFields_other (fields : List (UInt32 × UInt32)) (mem : Mem) (a : UInt32) (n x : Nat)
    (ha : a.toNat + n < 2 ^ 32) (hf : ∀ f ∈ fields, f.1.toNat + 4 ≤ n) (hx : x < a.toNat ∨ a.toNat + n ≤ x) :
    setFields mem a fields x = mem x := by
  induction fields generalizing mem with
  | nil => rfl
  | cons f fields ih =>
    have hn := hf f List.mem_cons_self
    have hoff : (a + f.1).toNat = a.toNat + f.1.toNat := by
      rw [UInt32.toNat_add, Nat.mod_eq_of_lt (by omega)]
    have hrest := ih (write32 mem (a + f.1).toNat f.2) fun g hg => hf g (List.mem_cons_of_mem _ hg)
    exact hrest.trans (write32_other _ _ _ _ (by omega))

theorem proc_stack_fields_inside (filename user_page : UInt32) :
    ∀ f ∈ proc_stack_fields filename user_page, f.1.toNat + 4 ≤ 76 := by
  unfold proc_stack_fields
  simp

/-- The frame is at the new `self_kstack`, and nothing else is written. -/
theorem start_process_writes (intr_exit t : UInt32) (c : Cpu) (filename user_page : UInt32)
    (hcur : running_thread c = t) (k : Nat) (hk : (read32 c.mem t.toNat).toNat = k) (hlt : k + 204 < 2 ^ 32) :
    (start_process intr_exit c filename user_page).esp.toNat = k + 128 ∧
      ∀ x, x < t.toNat ∨ t.toNat + 4 ≤ x → x < k + 128 ∨ k + 204 ≤ x →
        (start_process intr_exit c filename user_page).mem x = c.mem x := by
  have hnew : (read32 c.mem t.toNat + 4 * sizeofThreadStack).toNat = k + 128 := by
    rw [UInt32.toNat_add, hk]
    change (k + 128) % 2 ^ 32 = _
    omega
  unfold start_process
  dsimp only
  rw [hcur, read32_write32]
  generalize read32 c.mem t.toNat + 4 * sizeofThreadStack = a at hnew
  refine ⟨hnew, fun x hx hx' => ?_⟩
  rw [setFields_other _ _ a 76 x (by omega) (proc_stack_fields_inside filename user_page) (by omega)]
  exact write32_other _ _ _ _ hx

/-! ## Up to the read -/

/-- What the code of task `t` does before `start_process` reads `self_kstack`, with the timer interrupts on
its stack: the stack stays below the address that `kernel_thread` was entered with, and only `switch_to`
writes `self_kstack`. -/
structure Entering (t : UInt32) (mem : Mem) (c : Cpu) : Prop where
  bottom : t.toNat ≤ c.esp.toNat
  top : c.esp.toNat ≤ t.toNat + 3684
  self_kstack : read32 c.mem t.toNat = read32 mem t.toNat

def EntersUser (t : UInt32) (log : List Event) (s : State) (a : Act) : Prop :=
  Proper log s a ∧ (s.cur = t → match a with
    | .work c => Entering t s.cpu.mem c
    -- The return address and the two arguments are on the same stack.
    | .switch _ => s.cpu.esp.toNat + 12 ≤ t.toNat + 3684
    | .create .. => True)

/-- Where `self_kstack` points after the last save. -/
def KStack (t : UInt32) (k : Nat) : Option Save → Prop
  | some (.fresh _ _) => k = t.toNat + 3664
  | some (.called ctx) => k + 20 = ctx.esp.toNat ∧ t.toNat + 4 ≤ k ∧ k ≤ t.toNat + 3656
  | none => False

structure EntryInv (t : UInt32) (log : List Event) (s : State) : Prop where
  mem : t ∈ s.tasks
  kstack : KStack t (read32 s.cpu.mem t.toNat).toNat (lastSave t log)
  stack : s.cur = t → t.toNat ≤ s.cpu.esp.toNat ∧ s.cpu.esp.toNat ≤ t.toNat + 3684

section

variable (kernel_thread t : UInt32) (log : List Event) (s : State)

theorem entry_work (c : Cpu) (h : EntryInv t log s) (hok : EntersUser t log s (.work c)) :
    EntryInv t log { s with cpu := c } := by
  obtain ⟨hproper, hcode⟩ := hok
  have hk : read32 c.mem t.toNat = read32 s.cpu.mem t.toNat := by
    by_cases hc : s.cur = t
    · exact (hcode hc).self_kstack
    · exact read32_congr _ _ _ fun x h1 h2 => hproper t h.mem (Ne.symm hc) x ⟨h1, by omega⟩
  refine ⟨h.mem, ?_, fun hc => ⟨(hcode hc).bottom, (hcode hc).top⟩⟩
  rw [hk]
  exact h.kstack

theorem thread_create_kstack (mem : Mem) (u function func_arg : UInt32) (name : List UInt8) (prio : UInt8) (pid : UInt16)
    (status : UInt32) (hal : u.toNat % 4096 = 0) (hname : name.length + 14 ≤ 4096) :
    (read32 (thread_create kernel_thread (init_thread mem u name prio pid status) u function func_arg) u.toNat).toNat =
        u.toNat + 3664 ∧
      ∀ x, ¬ InPage u x →
        thread_create kernel_thread (init_thread mem u name prio pid status) u function func_arg x = mem x := by
  rw [thread_create_eq kernel_thread _ u function func_arg _ hal (init_thread_kstack mem u name prio pid status hal) rfl]
  refine ⟨?_, fun x hx => ?_⟩
  · rw [createdMem_kstack, kstack_eq u hal]
  · exact (created_other _ _ _ _ _ _ x hx).trans (init_thread_other _ _ _ _ _ _ hal hname x hx)

theorem frameAt_esp (mem : Mem) (ctx : Context) (hal : t.toNat % 4096 = 0) (h : FrameAt mem t ctx) :
    ctx.esp.toNat = (read32 mem t.toNat).toNat + 20 := by
  have hhigh := h.high
  have hpg := page_lt t hal
  rw [h.esp]
  exact toNat_add_small (read32 mem t.toNat) 20 (by omega)

theorem holds_frame (mem : Mem) (save : Option Save) (h : Holds kernel_thread mem t save) : ∃ ctx, FrameAt mem t ctx := by
  match save, h with
  | some (.called ctx), h => exact ⟨ctx, h⟩
  | some (.fresh _ _), h => exact ⟨_, h.1⟩

theorem entry_create (u function func_arg : UInt32) (name : List UInt8) (prio : UInt8) (pid : UInt16) (status : UInt32)
    (hI : SwitchInv kernel_thread log s) (h : u ≠ t → EntryInv t log s)
    (hok : Proper log s (.create u function func_arg name prio pid status)) :
    EntryInv t (log ++ [.created u function func_arg])
      { s with
        cpu := { s.cpu with
          mem := thread_create kernel_thread (init_thread s.cpu.mem u name prio pid status) u function func_arg }
        tasks := s.tasks ++ [u] } := by
  obtain ⟨hal, hnew, hname⟩ := hok
  obtain ⟨hself, hother⟩ := thread_create_kstack kernel_thread s.cpu.mem u function func_arg name prio pid status hal hname
  by_cases hut : u = t
  · subst hut
    refine ⟨by simp, ?_, fun hc => absurd (hc ▸ hI.cur_mem) hnew⟩
    rw [lastSave_append, record, if_pos rfl]
    exact hself
  · have hold := h hut
    refine ⟨List.mem_append_left _ hold.mem, ?_, hold.stack⟩
    have hpage (x : Nat) (h1 : t.toNat ≤ x) (h2 : x < t.toNat + 4) :=
      hother x (pages_apart t u (hI.aligned t hold.mem) hal (Ne.symm hut) x ⟨h1, by omega⟩)
    rw [lastSave_append, record, if_neg hut]
    dsimp only
    rw [read32_congr _ _ _ hpage]
    exact hold.kstack

theorem entry_switch (next : UInt32) (hI : SwitchInv kernel_thread log s) (h : EntryInv t log s)
    (hok : EntersUser t log s (.switch next)) (ctx : Context) (arg0 arg1 : UInt32) :
    EntryInv t (log ++ [.switchedOut s.cur (caller s.cpu), .switchedIn next ctx arg0 arg1])
      { s with cpu := switch_to s.cpu, cur := next } := by
  obtain ⟨⟨hn, hcall⟩, hcode⟩ := hok
  have hal := hI.aligned s.cur hI.cur_mem
  have hall := switchMem_holds kernel_thread log s next hI hcall
  obtain ⟨fctx, hframe⟩ := holds_frame kernel_thread next _ _ (hall next hn)
  obtain ⟨hctx, hmem⟩ := switch_to_context s.cpu s.cur next fctx hal (hI.aligned next hn) hcall hframe
  have hk : KStack t (read32 (switchMem s.cpu s.cur) t.toNat).toNat
      (lastSave t (log ++ [.switchedOut s.cur (caller s.cpu)])) := by
    rw [lastSave_append]
    by_cases hc : s.cur = t
    · subst hc
      rw [record, if_pos rfl]
      have hpushed := switchMem_frame s.cpu s.cur next hal hcall
      have hlow := hpushed.low
      have hhigh := hpushed.high
      have hcalled := hcode rfl
      have hpg := page_lt s.cur hal
      have h4 : (caller s.cpu).esp.toNat = s.cpu.esp.toNat + 4 := toNat_add_small s.cpu.esp 4 (by omega)
      have hesp := frameAt_esp s.cur _ _ hal hpushed
      exact ⟨hesp.symm, hlow, by omega⟩
    · rw [record, if_neg hc]
      have hpage (x : Nat) (h1 : t.toNat ≤ x) (h2 : x < t.toNat + 4) :=
        switchMem_other s.cpu s.cur next t hal (hI.aligned t h.mem) (Ne.symm hc) hcall x ⟨h1, by omega⟩
      rw [read32_congr _ _ _ hpage]
      exact h.kstack
  refine ⟨h.mem, ?_, fun hc => ?_⟩
  · rw [← List.singleton_append, ← List.append_assoc, lastSave_append]
    simp only [record, hmem]
    exact hk
  · dsimp only at hc ⊢
    subst hc
    have heq : (context (switch_to s.cpu)).esp = fctx.esp := by rw [hctx]
    unfold context at heq
    dsimp only at heq
    have hesp := frameAt_esp next _ _ (hI.aligned next hn) hframe
    rw [heq, hesp]
    generalize lastSave next (log ++ [.switchedOut s.cur (caller s.cpu)]) = save at hk
    rcases save with _ | ⟨function, func_arg⟩ | saved
    · exact hk.elim
    · change _ = next.toNat + 3664 at hk
      omega
    · obtain ⟨-, h1, h2⟩ := hk
      omega

def Created (log : List Event) : Prop := ∃ function func_arg, .created t function func_arg ∈ log

theorem created_append (evs : List Event) (h : Created t (log ++ evs)) :
    Created t log ∨ ∃ function func_arg, .created t function func_arg ∈ evs := by
  obtain ⟨function, func_arg, hmem⟩ := h
  rcases List.mem_append.mp hmem with hmem | hmem
  · exact .inl ⟨function, func_arg, hmem⟩
  · exact .inr ⟨function, func_arg, hmem⟩

theorem entry_step (a : Act) (s' : State) (evs : List Event) (hI : SwitchInv kernel_thread log s)
    (h : Created t log → EntryInv t log s) (hok : EntersUser t log s a) (hstep : step kernel_thread s a = .ok (s', evs))
    (hc : Created t (log ++ evs)) : EntryInv t (log ++ evs) s' := by
  have hold := created_append t log evs hc
  cases a with
  | work c =>
    cases hstep
    rw [List.append_nil] at hc ⊢
    exact entry_work t log s c (h hc) hok
  | create u function func_arg name prio pid status =>
    cases hstep
    refine entry_create kernel_thread t log s u function func_arg name prio pid status hI (fun hne => h ?_) hok.1
    refine hold.resolve_right ?_
    rintro ⟨f, a, hmem⟩
    cases List.mem_singleton.mp hmem
    exact hne rfl
  | switch next =>
    cases hstep
    refine entry_switch kernel_thread t log s next hI (h (hold.resolve_right ?_)) hok _ _ _
    rintro ⟨f, a, hmem⟩
    simp at hmem

theorem entry_reach (hr : Run.Reach (switching kernel_thread) (EntersUser t) log s) :
    SwitchInv kernel_thread log s ∧ (Created t log → EntryInv t log s) := by
  have hproper (log : List Event) (s : State) (hr : Run.Reach (switching kernel_thread) (EntersUser t) log s) :=
    switch_reach kernel_thread log s (Run.reach_mono _ _ _ (fun _ _ _ hok => hok.1) log s hr)
  refine ⟨hproper log s hr, ?_⟩
  refine Run.reach_invariant_with _ _ (SwitchInv kernel_thread) (fun log s => Created t log → EntryInv t log s) hproper
    ?_ ?_ log s hr
  · rintro s - ⟨f, a, hmem⟩
    cases hmem
  · exact fun log s a s' evs hI h hok hstep => entry_step kernel_thread t log s a s' evs hI h hok hstep

/-- At the read `self_kstack` is below the frame of `thread_create`, wherever that was. -/
theorem entry_frame (hr : Run.Reach (switching kernel_thread) (EntersUser t) log s) (hc : Created t log) (hcur : s.cur = t)
    (intr_exit filename user_page : UInt32) :
    ∃ k, KStack t k (lastSave t log) ∧ t.toNat + 4 ≤ k ∧ k ≤ t.toNat + 3664 ∧
      (start_process intr_exit s.cpu filename user_page).esp.toNat = k + 128 ∧
      ∀ x, x < t.toNat ∨ t.toNat + 4 ≤ x → x < k + 128 ∨ k + 204 ≤ x →
        (start_process intr_exit s.cpu filename user_page).mem x = s.cpu.mem x := by
  obtain ⟨hI, hentry⟩ := entry_reach kernel_thread t log s hr
  obtain ⟨hmem, hk, hstack⟩ := hentry hc
  obtain ⟨h1, h2⟩ := hstack hcur
  have hal := hI.aligned t hmem
  have hpg := page_lt t hal
  have hrun : running_thread s.cpu = t := page_of t s.cpu.esp hal ⟨h1, by omega⟩
  generalize hkv : (read32 s.cpu.mem t.toNat).toNat = k at hk
  have hbound : t.toNat + 4 ≤ k ∧ k ≤ t.toNat + 3664 := by
    generalize lastSave t log = save at hk
    match save, hk with
    | some (.fresh _ _), hk =>
      change k = _ at hk
      omega
    | some (.called _), ⟨_, h3, h4⟩ => omega
  obtain ⟨hesp, hother⟩ := start_process_writes intr_exit t s.cpu filename user_page hrun k hkv (by omega)
  exact ⟨k, hk, hbound.1, hbound.2, hesp, hother⟩

/-! ## The frame -/

/-- The frame `[a, a + 76)` is at the end of the page, away from the PCB and from the stack that is in use,
which goes from `esp` to the arguments of `kernel_thread`. -/
structure FrameReserved (esp a : Nat) : Prop where
  place : a = t.toNat + 4096 - 76
  pcb : t.toNat + 72 ≤ a
  stack : a + 76 ≤ esp ∨ t.toNat + 3696 ≤ a

/-- Where the frame is after the last save. -/
def FramePlace (a : Nat) : Option Save → Prop
  -- A task that was preempted: it depends on its stack pointer in that call of `switch_to`.
  | some (.called ctx) => a = ctx.esp.toNat + 108 ∧ a ≤ t.toNat + 3784
  | _ => a = t.toNat + 3792

end

theorem reach_entry : Run.Reach (switching 0xc0001500) (EntersUser 0xc0100000)
    firstLog { twoTasks with cpu := switch_to callsSwitch, cur := 0xc0100000 } :=
  reach_first _ fun _ _ _ hcur hproper => ⟨hproper, fun hc => absurd (hcur.symm.trans hc) (by decide)⟩

end OsLearn.Switch
