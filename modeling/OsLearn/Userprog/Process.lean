import OsLearn.Thread.Steps
import OsLearn.Memory.Supply

/-!
# `userprog/process.c`: processes on the scheduler

The tasks of `Thread/Machine.lean` with the memory of `Memory/Alloc.lean` and the TSS. The builds are
without `NDEBUG`, and a call that gets memory runs to its end.
-/

namespace OsLearn

def default_prip : Int32 := 31

/-- `(0xc000000 - PAGE1)`, with seven digits. -/
def USER_STACK3_VADDR : UInt32 := 0xc000000 - PG_SIZE

/-- The machine, the memory and `tss.esp0`. The `pgdir` and `userprog_vaddr` of the PCBs are those of
`mm`: nothing in the machine reads them. -/
structure Os where
  machine : Machine
  mm : Mm
  esp0 : UInt32
  -- The processes that have not been in `start_process`.
  fresh : List Tid

inductive OsEvent where
  | created (t : Tid)
  -- `start_process` of task `t` got the page for the user stack.
  | stack (t : Tid)
  deriving DecidableEq, Repr

/-- `memset(pthread, 0, sizeof(*pthread))` and `pthread->pgdir = NULL` of `init_thread`. -/
def Mm.clearPcb (s : Mm) (t : Tid) : Mm :=
  { s with
    pgdir := Function.update s.pgdir t NULL
    userprog_vaddr := Function.update s.userprog_vaddr t
      { vaddr_start := 0, vaddr_bitmap := { btmp_bytes_len := 0, bits := fun _ => 0 } } }

namespace Os

def cur (os : Os) : Tid := os.machine.cur

/-- A step of the machine. `schedule` leaves `cr3` and `tss` as they are. -/
def machineStep (os : Os) (a : Act) : Except Stop (Os × List OsEvent) := do
  let (m, _) ← step os.machine a
  pure ({ os with machine := m, mm := { os.mm with cur := m.cur } }, [])

/-- `thread_start`, with its page. -/
def thread_start (os : Os) (prio : Int32) : Except Stop (Os × List OsEvent) := do
  let (thread, mm) ← get_kernel_pages false os.mm 1
  let m ← OsLearn.thread_start os.machine thread.toNat prio
  pure ({ os with machine := m, mm := mm.clearPcb thread.toNat }, [.created thread.toNat])

def process_execute (os : Os) : Except Stop (Os × List OsEvent) := do
  let (thread, mm) ← get_kernel_pages false os.mm 1
  let t := thread.toNat
  let (m, pid) ← allocate_pid os.machine
  let sched := init_thread m.sched t default_prip pid
  let mm := mm.clearPcb t
  let (_, mm) ← create_user_vaddr_bitmap false mm t
  -- thread_create: kernel_thread, and from there start_process
  let stack := Function.update m.stack t [.kernel_thread]
  let (pgdir, mm) ← create_page_dir false mm
  let mm := { mm with pgdir := Function.update mm.pgdir t pgdir }
  ASSERT (t ∉ sched.thread_ready_list) .process_execute_ready_elem_find
  let sched := { sched with thread_ready_list := sched.thread_ready_list ++ [t] }
  ASSERT (t ∉ sched.thread_all_list) .process_execute_all_elem_find
  let sched := { sched with thread_all_list := sched.thread_all_list ++ [t] }
  pure ({ os with machine := { m with sched, stack }, mm, fresh := t :: os.fresh }, [.created t])

/-- `start_process`, up to the jump to `intr_exit`. -/
def start_process (os : Os) : Except Stop (Os × List OsEvent) := do
  let (page, mm) ← get_a_page false os.mm .PF_USER USER_STACK3_VADDR
  pure ({ os with mm, fresh := os.fresh.erase os.cur }, if page = NULL then [] else [.stack os.cur])

end Os

inductive OsAct where
  | call (c : Call)
  | run
  | timer
  | keyboard (q : Nat) (byte : UInt8)
  | thread_start (prio : Int32)
  | process_execute
  | start_process
  deriving DecidableEq, Repr

/-- The running task is in its own code. A new process is at `start_process` there. -/
def Os.inOwnCode (os : Os) : Prop := os.machine.stack os.cur = [] ∧ os.cur ∉ os.fresh

instance (os : Os) : Decidable os.inOwnCode := inferInstanceAs (Decidable (_ ∧ _))

def osStep (os : Os) : OsAct → Except Stop (Os × List OsEvent)
  | .call c => if os.inOwnCode then os.machineStep (.call c) else .error .notNow
  | .run => os.machineStep .run
  | .timer => os.machineStep .timer
  | .keyboard q byte => os.machineStep (.keyboard q byte)
  | .thread_start prio => if os.inOwnCode then os.thread_start prio else .error .notNow
  | .process_execute => if os.inOwnCode then os.process_execute else .error .notNow
  | .start_process =>
    if os.machine.stack os.cur = [] ∧ os.cur ∈ os.fresh then os.start_process else .error .notNow

/-- The kernel after `init_all`: the loader has put its directory in `cr3`, and `tss_init` has cleared
the TSS. -/
def osSystem : Run.System Os OsAct OsEvent Stop where
  init os := ∃ main intr task value buf m ram all_mem bits,
    thread_init main intr task value buf = .ok m ∧
      os = { machine := m, mm := mem_init ram all_mem bits main, esp0 := 0, fresh := [] }
  step := osStep

/-! ## The active address space -/

/-- `process_activate`, which nothing calls. -/
def process_activate (os : Os) (t : Tid) : Except Stop Os := do
  ASSERT (t ≠ 0) .process_activate_p_thread
  let mm ← page_dir_activate os.mm t
  let esp0 := if mm.pgdir t ≠ NULL then UInt32.ofNat t + PG_SIZE else os.esp0
  pure { os with mm, esp0 }

/-- `cr3` has the directory of the running task, and the TSS its kernel stack. -/
def ActiveSpace (os : Os) : Prop :=
  if os.mm.pgdir os.cur = NULL then os.mm.cr3 = 0x100000
  else addr_v2p os.mm (os.mm.pgdir os.cur) = .ok os.mm.cr3 ∧ os.esp0 = UInt32.ofNat os.cur + PG_SIZE

/-! ## What the calls leave of the memory -/

section

variable {booted : Nat → Prop}

/-- `s'` comes after `s`: every frame keeps its role, and `cr3` is the same. -/
structure Grown (booted : Nat → Prop) (dirs dirs' : List Nat) (s s' : Mm) : Prop where
  frames : Frames booted dirs' [] s'
  cr3 : s'.cr3 = s.cr3
  cur : s'.cur = s.cur
  old : ∀ q r, HasRole booted dirs s.ram q r → HasRole booted dirs' s'.ram q r

theorem Grown.trans (dirs dirs₁ dirs₂ : List Nat) (s s₁ s₂ : Mm) (h : Grown booted dirs dirs₁ s s₁)
    (h' : Grown booted dirs₁ dirs₂ s₁ s₂) : Grown booted dirs dirs₂ s s₂ :=
  ⟨h'.frames, h'.cr3.trans h.cr3, h'.cur.trans h.cur, fun q r hr => h'.old q r (h.old q r hr)⟩

theorem Request.grown (dirs : List Nat) (pf : PoolFlags) (s : Mm) (n : Nat) (r : UInt32 × Mm)
    (h : Request booted dirs false pf s n r) : Grown booted dirs dirs s r.2 := by
  obtain ⟨hfr, lo, hg, -⟩ := h
  exact ⟨hfr, hg.cr3, hg.cur, hg.old⟩

theorem clearPcb_grown (dirs : List Nat) (s : Mm) (t : Tid) (h : Frames booted dirs [] s) :
    Grown booted dirs dirs s (s.clearPcb t) := by
  refine ⟨h.withPcbs s _ _ (fun u => ?_) (fun u => ?_), rfl, rfl, fun _ _ hr => hr⟩
  · by_cases hu : u = t
    · rw [hu, Function.update_self]
      exact .inr (.inl rfl)
    · exact .inl (Function.update_of_ne hu _ _)
  · by_cases hu : u = t
    · rw [hu, Function.update_self]
      exact .inr rfl
    · exact .inl (Function.update_of_ne hu _ _)

theorem set_pgdir_grown (dirs : List Nat) (s : Mm) (t : Tid) (v : UInt32) (h : Frames booted dirs [] s)
    (hv : v ≠ NULL → ∃ d ∈ dirs, ∃ w, v.toNat = w * 2 ^ 12 ∧ HasRole booted dirs s.ram d (.kernel_page w)) :
    Grown booted dirs dirs s { s with pgdir := Function.update s.pgdir t v } :=
  ⟨h.set_pgdir s t v hv, rfl, rfl, fun _ _ hr => hr⟩

theorem create_page_dir_grown (dirs : List Nat) (s : Mm) (t : Tid) (h : Frames booted dirs [] s) :
    Spec (create_page_dir false s)
      (fun r => ∃ dirs', Grown booted dirs dirs' s { r.2 with pgdir := Function.update r.2.pgdir t r.1 })
      fun _ => True := by
  refine spec_mono _ _ _ _ _ (create_page_dir_spec false s h) ?_ fun _ _ => trivial
  rintro ⟨v, s'⟩ (⟨hnull, hreq⟩ | ⟨hne, f, hnew⟩)
  · have hg := hreq.grown dirs _ _ _ _
    exact ⟨dirs, hg.trans _ _ _ _ _ _ (set_pgdir_grown dirs s' t v hg.frames fun hne => absurd hnull hne)⟩
  · have hg := (hnew.request false).grown dirs _ _ _ _
    have hold : ∀ q r, HasRole booted dirs s.ram q r → HasRole booted (f :: dirs) s'.ram q r :=
      fun q r hr => (hnew.roles q r).mpr (hg.old q r hr)
    have hal : v.toNat % 2 ^ 12 = 0 := hnew.aligned
    have hset := set_pgdir_grown (f :: dirs) s' t v hnew.frames fun _ =>
      ⟨f, List.mem_cons_self, v.toNat / 2 ^ 12, by omega, (hnew.roles _ _).mpr hnew.role⟩
    exact ⟨f :: dirs, hset.frames, hset.cr3.trans hg.cr3, hset.cur.trans hg.cur, fun q r hr => hset.old q r (hold q r hr)⟩

/-! ## One step -/

def stackOwners (log : List OsEvent) : List Tid :=
  log.filterMap fun e => match e with
    | .stack t => some t
    | .created _ => none

/-- A new task: the one that runs, `cr3` and the TSS are as before. -/
structure TaskAdded (booted : Nat → Prop) (dirs : List Nat) (os : Os) (r : Os × List OsEvent) : Prop where
  grown : ∃ dirs', Grown booted dirs dirs' os.mm r.1.mm
  cur : r.1.cur = os.cur
  esp0 : r.1.esp0 = os.esp0
  owners : stackOwners r.2 = []

theorem thread_start_cur (m : Machine) (t : Tid) (prio : Int32) :
    Spec (thread_start m t prio) (fun m' => m'.cur = m.cur) fun _ => True := by
  unfold thread_start
  simp only [spec_bind, spec_ASSERT, spec_pure]
  apply allocate_pid_spec
  · intro lock sem _
    exact ⟨fun _ => ⟨fun _ => rfl, fun _ => trivial⟩, fun _ => trivial⟩
  · exact fun _ _ => trivial

theorem thread_start_added (dirs : List Nat) (os : Os) (prio : Int32) (h : Frames booted dirs [] os.mm) :
    Spec (os.thread_start prio) (TaskAdded booted dirs os) fun _ => True := by
  unfold Os.thread_start
  rw [spec_bind]
  refine spec_mono _ _ _ _ _ (get_kernel_pages_spec false os.mm 1 (by omega) h) ?_ fun _ _ => trivial
  rintro ⟨thread, mm⟩ ⟨hreq, -⟩
  have hg := hreq.grown dirs _ _ _ _
  rw [spec_bind]
  refine spec_mono _ _ _ _ _ (thread_start_cur os.machine _ prio) (fun m hm => ?_) fun _ _ => trivial
  exact ⟨⟨dirs, hg.trans _ _ _ _ _ _ (clearPcb_grown dirs mm _ hg.frames)⟩, hm, rfl, rfl⟩

theorem process_execute_added (dirs : List Nat) (os : Os) (h : Frames booted dirs [] os.mm) :
    Spec os.process_execute (TaskAdded booted dirs os) fun _ => True := by
  unfold Os.process_execute
  rw [spec_bind]
  refine spec_mono _ _ _ _ _ (get_kernel_pages_spec false os.mm 1 (by omega) h) ?_ fun _ _ => trivial
  rintro ⟨thread, mm⟩ ⟨hreq, -⟩
  have hg := hreq.grown dirs _ _ _ _
  have hg₁ := hg.trans _ _ _ _ _ _ (clearPcb_grown dirs mm thread.toNat hg.frames)
  dsimp only
  rw [spec_bind]
  apply allocate_pid_spec
  · intro lock sem _
    dsimp only
    rw [spec_bind]
    refine spec_mono _ _ _ _ _ (create_user_vaddr_bitmap_spec false _ thread.toNat hg₁.frames) ?_ fun _ _ => trivial
    rintro ⟨bits, mm₂⟩ ⟨-, hreq₂⟩
    have hg₂ := hg₁.trans _ _ _ _ _ _ (hreq₂.grown dirs _ _ _ _)
    rw [spec_bind]
    refine spec_mono _ _ _ _ _ (create_page_dir_grown dirs mm₂ thread.toNat hg₂.frames) ?_ fun _ _ => trivial
    rintro ⟨pgdir, mm₃⟩ ⟨dirs', hg₃⟩
    simp only [spec_bind, spec_ASSERT, spec_pure]
    exact ⟨fun _ => ⟨fun _ => ⟨⟨dirs', hg₂.trans _ _ _ _ _ _ hg₃⟩, rfl, rfl, rfl⟩, fun _ => trivial⟩, fun _ => trivial⟩
  · exact fun _ _ => trivial

def stackPage : Nat := USER_STACK3_VADDR.toNat / 2 ^ 12

theorem get_a_page_grown (dirs : List Nat) (s : Mm) (v : UInt32) (hin : InRange .PF_USER (v.toNat / 2 ^ 12))
    (h : Frames booted dirs [] s) :
    Spec (get_a_page false s .PF_USER v)
      (fun r => Grown booted dirs dirs s r.2 ∧ (r.1 ≠ NULL →
        frameAt s.ram s.dir (v.toNat / 2 ^ 12) = none ∧ frameAt r.2.ram s.dir (v.toNat / 2 ^ 12) ≠ none))
      fun _ => True := by
  unfold get_a_page
  rw [spec_bind]
  refine spec_mono _ _ _ _ _ (pool_acquire_spec false s .PF_USER) ?_ fun _ _ => trivial
  rintro s₁ ⟨hsame, -⟩
  rw [spec_bind]
  refine spec_mono _ _ _ _ _ (a_page_in_range false s₁ .PF_USER v hin (hsame.frames s s₁ h)) ?_ fun _ _ => trivial
  rintro ⟨page, done, s₂⟩ ⟨⟨hfr, lo, hg, hres⟩, hdone, -, hpage, -⟩
  dsimp only at hfr hg hres hdone hpage ⊢
  have hgrown : ∀ s₃, SameMemory s₂ s₃ → Grown booted dirs dirs s s₃ := by
    intro s₃ hsame'
    refine ⟨hsame'.frames s₂ s₃ hfr, hsame'.cr3.trans (hg.cr3.trans hsame.cr3),
      hsame'.cur.trans (hg.cur.trans hsame.cur), ?_⟩
    rw [hsame'.ram, ← hsame.ram]
    exact hg.old
  cases done with
  | true =>
    have hne := hdone.mp rfl
    rw [if_pos rfl, spec_bind]
    refine spec_mono _ _ _ _ _ (pool_release_spec false s₂ .PF_USER) (fun s₃ hsame' => ?_) fun _ _ => trivial
    refine ⟨hgrown s₃ hsame', fun _ => ?_⟩
    obtain ⟨hnull, -⟩ | ⟨hlo, -, hret⟩ := hres
    · exact absurd hnull hne
    · rw [hpage hne] at hlo
      have hbefore := hret.before 0 (by omega)
      have hafter := hret.after 0 (by omega)
      rw [Nat.add_zero, ← hlo, hsame.dir] at hbefore hafter
      rw [hsame.ram] at hbefore
      rw [← hsame'.ram] at hafter
      exact ⟨hbefore, hafter⟩
  | false =>
    have hrefl : SameMemory s₂ s₂ := ⟨rfl, rfl, rfl, rfl, rfl, rfl, fun _ => rfl, fun _ => rfl⟩
    refine ⟨hgrown s₂ hrefl, fun hne => ?_⟩
    exact absurd (hdone.mpr hne) (by decide)

/-! ## Runs -/

/-- What a run keeps: `cr3` and the TSS stay as the boot left them, and the user stack that a process got
is mapped in the directory of the loader. -/
structure OsInv (booted : Nat → Prop) (dirs : List Nat) (log : List OsEvent) (os : Os) : Prop where
  frames : Frames booted dirs [] os.mm
  cr3 : os.mm.cr3 = 0x100000
  esp0 : os.esp0 = 0
  stack : stackOwners log ≠ [] → ∃ p, HasRole booted dirs os.mm.ram p (.user_page PAGE_DIR_FRAME stackPage)
  once : (stackOwners log).length ≤ 1

theorem stackOwners_append (log evs : List OsEvent) : stackOwners (log ++ evs) = stackOwners log ++ stackOwners evs :=
  List.filterMap_append

theorem OsInv.added (dirs : List Nat) (log : List OsEvent) (os : Os) (h : OsInv booted dirs log os)
    (r : Os × List OsEvent) (ha : TaskAdded booted dirs os r) :
    ∃ dirs', OsInv booted dirs' (log ++ r.2) r.1 := by
  obtain ⟨dirs', hg⟩ := ha.grown
  refine ⟨dirs', hg.frames, hg.cr3.trans h.cr3, ha.esp0.trans h.esp0, fun hne => ?_, ?_⟩
  · rw [stackOwners_append, ha.owners, List.append_nil] at hne
    obtain ⟨p, hp⟩ := h.stack hne
    exact ⟨p, hg.old p _ hp⟩
  · rw [stackOwners_append, ha.owners, List.append_nil]
    exact h.once

theorem OsInv.machine (dirs : List Nat) (log : List OsEvent) (os : Os) (a : Act) (h : OsInv booted dirs log os) :
    Spec (os.machineStep a) (fun r => ∃ dirs', OsInv booted dirs' (log ++ r.2) r.1) fun _ => True := by
  unfold Os.machineStep
  rw [spec_bind]
  cases step os.machine a with
  | error e => trivial
  | ok r =>
    refine ⟨dirs, h.frames.activate os.mm os.mm.cr3 r.1.cur h.frames.active, h.cr3, h.esp0, ?_, ?_⟩
    · rw [List.append_nil]
      exact h.stack
    · rw [List.append_nil]
      exact h.once

/-- The user stack goes to the directory of the loader, and only once. -/
theorem OsInv.start (dirs : List Nat) (log : List OsEvent) (os : Os) (h : OsInv booted dirs log os) :
    Spec os.start_process (fun r => ∃ dirs', OsInv booted dirs' (log ++ r.2) r.1) fun _ => True := by
  have hdir : os.mm.dir = PAGE_DIR_FRAME := by
    rw [Mm.dir, h.cr3]
    decide
  unfold Os.start_process
  rw [spec_bind]
  refine spec_mono _ _ _ _ _ (get_a_page_grown dirs os.mm USER_STACK3_VADDR ⟨by decide, by decide⟩ h.frames) ?_
    fun _ _ => trivial
  rintro ⟨page, mm⟩ ⟨hg, hmap⟩
  dsimp only at hg hmap
  rw [hdir] at hmap
  refine ⟨dirs, hg.frames, hg.cr3.trans h.cr3, h.esp0, fun hne => ?_, ?_⟩
  · by_cases hpage : page = NULL
    · dsimp only at hne
      rw [if_pos hpage, List.append_nil] at hne
      obtain ⟨p, hp⟩ := h.stack hne
      exact ⟨p, hg.old p _ hp⟩
    · obtain ⟨p, hp⟩ := Option.ne_none_iff_exists'.mp (hmap hpage).2
      exact ⟨p, h.frames.spaces.boot, by decide, by decide, hp⟩
  · dsimp only
    rw [stackOwners_append, List.length_append]
    by_cases hpage : page = NULL
    · rw [if_pos hpage]
      exact h.once
    · rw [if_neg hpage]
      -- an earlier stack would be mapped already
      have hnone : stackOwners log = [] := by
        by_contra hne
        obtain ⟨p, -, -, -, hp⟩ := h.stack hne
        exact absurd ((hmap hpage).1.symm.trans hp) (by simp)
      rw [hnone]
      exact Nat.le_refl 1

theorem spec_guard {α : Type} (cond : Prop) [Decidable cond] (x : Except Stop α) (P : α → Prop)
    (h : Spec x P fun _ => True) : Spec (if cond then x else .error .notNow) P fun _ => True := by
  split
  · exact h
  · trivial

theorem osStep_keeps (dirs : List Nat) (log : List OsEvent) (os : Os) (a : OsAct) (h : OsInv booted dirs log os) :
    Spec (osStep os a) (fun r => ∃ dirs', OsInv booted dirs' (log ++ r.2) r.1) fun _ => True := by
  cases a with
  | run => exact h.machine dirs log os .run
  | timer => exact h.machine dirs log os .timer
  | keyboard q byte => exact h.machine dirs log os (.keyboard q byte)
  | call c => exact spec_guard _ _ _ (h.machine dirs log os (.call c))
  | thread_start prio =>
    apply spec_guard
    exact spec_mono _ _ _ _ _ (thread_start_added dirs os prio h.frames) (h.added dirs log os) fun _ _ => trivial
  | process_execute =>
    apply spec_guard
    exact spec_mono _ _ _ _ _ (process_execute_added dirs os h.frames) (h.added dirs log os) fun _ _ => trivial
  | start_process => exact spec_guard _ _ _ (h.start dirs log os)

end

theorem os_reach (log : List OsEvent) (os : Os) (hr : Run.Reach osSystem Run.anyStep log os) :
    ∃ booted dirs, OsInv booted dirs log os := by
  refine Run.reach_invariant osSystem Run.anyStep (fun log os => ∃ booted dirs, OsInv booted dirs log os) ?_ ?_ log os hr
  · rintro os ⟨main, intr, task, value, buf, m, ram, all_mem, bits, -, rfl⟩
    exact ⟨_, _, mem_init_frames ram all_mem bits main, rfl, rfl, fun hne => absurd rfl hne, Nat.zero_le 1⟩
  · rintro log os a os' evs ⟨booted, dirs, h⟩ - hstep
    obtain ⟨dirs', h'⟩ := spec_of_ok _ _ _ (osStep_keeps dirs log os a h) _ hstep
    exact ⟨booted, dirs', h'⟩

/-- The directory of a process is never the one in `cr3`. -/
theorem pgdir_not_active (booted : Nat → Prop) (dirs : List Nat) (log : List OsEvent) (os : Os)
    (h : OsInv booted dirs log os) (t : Tid) (hne : os.mm.pgdir t ≠ NULL) :
    addr_v2p os.mm (os.mm.pgdir t) ≠ .ok os.mm.cr3 := by
  obtain ⟨d, hd, w, hw, hrole⟩ := h.frames.pgdir t hne
  have hhigh := h.frames.spaces.high d _ hrole
  obtain ⟨a, hv2p, ha⟩ := h.frames.v2p_kernel os.mm (os.mm.pgdir t) d w hw hrole
  intro heq
  rw [hv2p, h.cr3] at heq
  have ha' : a = 0x100000 := Except.ok.inj heq
  rw [ha'] at ha
  change 0x100000 = _ at ha
  omega

/-- **Active address space.** In every state that a run reaches, the address space is that of the running
task exactly when the task has no directory of its own. At most one process ever gets its user stack. -/
theorem active_space (log : List OsEvent) (os : Os) (hr : Run.Reach osSystem Run.anyStep log os) :
    (ActiveSpace os ↔ os.mm.pgdir os.cur = NULL) ∧ (stackOwners log).length ≤ 1 := by
  obtain ⟨booted, dirs, h⟩ := os_reach log os hr
  refine ⟨?_, h.once⟩
  unfold ActiveSpace
  by_cases hn : os.mm.pgdir os.cur = NULL
  · rw [if_pos hn]
    exact ⟨fun _ => hn, fun _ => h.cr3⟩
  · rw [if_neg hn]
    exact ⟨fun hact => absurd hact.1 (pgdir_not_active booted dirs log os h os.cur hn), fun hh => absurd hh hn⟩

/-- What `schedule` leaves out: the call would make the address space that of the task. -/
theorem process_activate_space (log : List OsEvent) (os : Os) (hr : Run.Reach osSystem Run.anyStep log os) :
    Spec (process_activate os os.cur) ActiveSpace fun e => e = .panic .process_activate_p_thread := by
  obtain ⟨booted, dirs, h⟩ := os_reach log os hr
  unfold process_activate
  rw [spec_bind, spec_ASSERT]
  refine ⟨fun _ => ?_, fun _ => rfl⟩
  unfold page_dir_activate
  by_cases hn : os.mm.pgdir os.cur = NULL
  · rw [if_neg (not_not.mpr hn)]
    show (if os.mm.pgdir os.cur = NULL then _ else _)
    rw [if_pos hn]
  · obtain ⟨d, hd, w, hw, hrole⟩ := h.frames.pgdir os.cur hn
    obtain ⟨a, hv2p, ha⟩ := h.frames.v2p_kernel os.mm (os.mm.pgdir os.cur) d w hw hrole
    rw [if_pos hn, hv2p]
    show (if os.mm.pgdir os.cur = NULL then _ else _)
    rw [if_neg hn]
    -- the directory is a page of the kernel: it has the same address behind the new `cr3`
    have hdir : frameOf a = d := by
      unfold frameOf
      omega
    have hfr := h.frames.activate os.mm a os.mm.cur (hdir ▸ hd)
    obtain ⟨b, hv2p', hb⟩ := hfr.v2p_kernel _ (os.mm.pgdir os.cur) d w hw hrole
    have hab : b = a := UInt32.toNat_inj.mp (hb.trans ha.symm)
    rw [hab] at hv2p'
    exact ⟨hv2p', if_pos hn⟩

/-! ## A thread and a process -/

def zeroOs : Os := { machine := zeroed, mm := zeroMemory 0x240000, esp0 := 0, fresh := [] }

theorem reach_zeroOs : Run.Reach osSystem Run.anyStep [] zeroOs :=
  .init _ ⟨0, false, fun _ => zeroPcb, fun _ => 1, fun _ _ => 0, zeroed, _, _, _, thread_init_eq _ _ _ _ _, rfl⟩

def withTask : Machine :=
  (zeroed.takePid { holder := some 0, holder_repeat_nr := 0 } { value := 0, waiters := [] }).addTask 0xc0100000 31 2

/-- The requests of `process_execute`: the address of the PCB, and whether there is a directory. -/
def processPages (s : Mm) : Except Stop (Nat × Bool) := do
  let (thread, s) ← get_kernel_pages false s 1
  let (_, s) ← create_user_vaddr_bitmap false (s.clearPcb thread.toNat) thread.toNat
  let (pgdir, _) ← get_kernel_pages false s 1
  pure (thread.toNat, pgdir ≠ NULL)

theorem processPages_zero : processPages (zeroMemory 0x240000) = .ok (0xc0100000, true) := by
  have hf : Frames (bootPages fun _ _ => 0) [PAGE_DIR_FRAME] [] (zeroMemory 0x240000) := mem_init_frames _ _ _ _
  have hst := stock_zeroMemory
  have hfirst : bitmap_scan false (zeroMemory 0x240000).kernel_vaddr.vaddr_bitmap 1 = .ok (some 0) := by rfl
  generalize zeroMemory 0x240000 = s at hf hst hfirst ⊢
  obtain ⟨thread, s₁, h1, hg₁⟩ := get_kernel_pages_gives false s 31 32 31 1 hf hst (by omega) (by omega)
  obtain ⟨⟨hf₁, -⟩, -⟩ := spec_of_ok _ _ _ (get_kernel_pages_spec false s 1 (by omega) hf) _ h1
  have hf₁' := (clearPcb_grown _ s₁ thread.toNat hf₁).frames
  have hst₁ : Stock (s₁.clearPcb thread.toNat) 31 32 31 := hg₁.stock.congr _ _ _ _ _ rfl rfl rfl rfl
  obtain ⟨bits, s₂, h2, hst₂, -⟩ := create_user_vaddr_bitmap_gives false _ 8 32 8 thread.toNat hf₁' hst₁
  obtain ⟨-, hf₂, -⟩ := spec_of_ok _ _ _ (create_user_vaddr_bitmap_spec false _ thread.toNat hf₁') _ h2
  obtain ⟨pgdir, s₃, h3, hg₃⟩ := get_kernel_pages_gives false s₂ 7 32 7 1 hf₂ hst₂ (by omega) (by omega)
  have hthread : thread.toNat = 0xc0100000 := hg₁.first 0 hfirst
  unfold processPages
  rw [h1]
  dsimp only [bind, Except.bind]
  rw [h2]
  dsimp only
  rw [h3]
  dsimp only [pure, Except.pure]
  rw [hthread, decide_eq_true hg₃.ne]

theorem bind_ok {α β : Type} (x : Except Stop α) (f : α → Except Stop β) (b : β) (h : (x >>= f) = .ok b) :
    ∃ a, x = .ok a ∧ f a = .ok b := by
  cases x with
  | error e => cases h
  | ok a => exact ⟨a, rfl, h⟩

theorem zeroOs_thread : ∃ mm, osStep zeroOs (.thread_start 31) =
      .ok ({ machine := withTask, mm := mm, esp0 := 0, fresh := [] }, [.created 0xc0100000]) ∧
    mm.pgdir 0xc0100000 = NULL := by
  have hp := processPages_zero
  unfold processPages at hp
  generalize hz : zeroMemory 0x240000 = z at hp
  obtain ⟨⟨thread, mm₁⟩, h1, h⟩ := bind_ok _ _ _ hp
  obtain ⟨_, -, h⟩ := bind_ok _ _ _ h
  obtain ⟨_, -, h⟩ := bind_ok _ _ _ h
  simp only [pure, Except.pure, Except.ok.injEq, Prod.mk.injEq] at h
  have hown : zeroOs.inOwnCode := by decide
  have hmm : zeroOs.mm = z := hz
  refine ⟨mm₁.clearPcb thread.toNat, ?_, ?_⟩
  · unfold osStep
    rw [if_pos hown]
    unfold Os.thread_start
    rw [hmm, h1]
    simp only [bind, Except.bind, h.1]
    rfl
  · rw [h.1, Mm.clearPcb]
    dsimp only
    rw [Function.update_self]

theorem zeroOs_process : ∃ mm, osStep zeroOs .process_execute =
      .ok ({ machine := withTask, mm := mm, esp0 := 0, fresh := [0xc0100000] }, [.created 0xc0100000]) ∧
    mm.pgdir 0xc0100000 ≠ NULL := by
  have hp := processPages_zero
  unfold processPages at hp
  generalize hz : zeroMemory 0x240000 = z at hp
  obtain ⟨⟨thread, mm₁⟩, h1, h⟩ := bind_ok _ _ _ hp
  obtain ⟨⟨bits, mm₂⟩, h2, h⟩ := bind_ok _ _ _ h
  obtain ⟨⟨pgdir, mm₃⟩, h3, h⟩ := bind_ok _ _ _ h
  simp only [pure, Except.pure, Except.ok.injEq, Prod.mk.injEq, decide_eq_true_eq] at h
  obtain ⟨ht, hne⟩ := h
  -- the copy into the directory cannot fail once it has a page
  have hfr : Frames (bootPages fun _ _ => 0) [PAGE_DIR_FRAME] [] (zeroMemory 0x240000) := mem_init_frames _ _ _ _
  rw [hz] at hfr
  have hg := (spec_of_ok _ _ _ (get_kernel_pages_spec false z 1 (by omega) hfr) _ h1).1.grown _ _ _ _ _
  have hg₁ := clearPcb_grown _ mm₁ thread.toNat hg.frames
  have hg₂ := (spec_of_ok _ _ _ (create_user_vaddr_bitmap_spec false _ _ hg₁.frames) _ h2).2.grown _ _ _ _ _
  obtain ⟨ram, f, h4, -⟩ := create_page_dir_ok false mm₂ _ mm₃ hg₂.frames h3 hne
  have hown : zeroOs.inOwnCode := by decide
  have hmm : zeroOs.mm = z := hz
  refine ⟨{ mm₃.withRam ram with pgdir := Function.update mm₃.pgdir thread.toNat pgdir }, ?_, ?_⟩
  · unfold osStep
    rw [if_pos hown, Os.process_execute, hmm, h1]
    simp only [bind, Except.bind]
    rw [h2]
    simp only [h4, ht]
    rfl
  · rw [ht]
    dsimp only
    rw [Function.update_self]
    exact hne

theorem reach_machine (log : List OsEvent) (os : Os) (act : OsAct) (a : Act) (m : Machine) (evs : List Event)
    (hact : osStep os act = os.machineStep a) (h : step os.machine a = .ok (m, evs))
    (hr : Run.Reach osSystem Run.anyStep log os) :
    Run.Reach osSystem Run.anyStep log { os with machine := m, mm := { os.mm with cur := m.cur } } := by
  have hstep : osStep os act = .ok ({ os with machine := m, mm := { os.mm with cur := m.cur } }, []) := by
    rw [hact, Os.machineStep, h]
    rfl
  have hnext := Run.Reach.step log os act _ _ hr trivial hstep
  rwa [List.append_nil] at hnext

theorem withTask_waits : ∃ m₁ m₂ m₃ m₄ e₁ e₂ e₃ e₄, step withTask (.call (.sema_down 0)) = .ok (m₁, e₁) ∧
    step m₁ .run = .ok (m₂, e₂) ∧ step m₂ (.call (.sema_down 0)) = .ok (m₃, e₃) ∧ step m₃ .run = .ok (m₄, e₄) ∧
    m₂.stack m₂.cur = [] ∧ m₂.cur = 0 ∧ m₄.cur = 0xc0100000 :=
  ⟨_, _, _, _, _, _, _, _, rfl, rfl, rfl, rfl, rfl, rfl, rfl⟩

/-- Once the main thread waits for a semaphore, the new task runs. -/
theorem reach_next (log : List OsEvent) (mm : Mm) (fresh : List Tid) (hf : 0 ∉ fresh)
    (hr : Run.Reach osSystem Run.anyStep log { machine := withTask, mm := mm, esp0 := 0, fresh := fresh }) :
    ∃ os, Run.Reach osSystem Run.anyStep log os ∧ os.cur = 0xc0100000 ∧ os.mm.pgdir = mm.pgdir := by
  obtain ⟨m₁, m₂, m₃, m₄, e₁, e₂, e₃, e₄, h1, h2, h3, h4, hstack, hmain, hcur⟩ := withTask_waits
  have hnew : m₂.cur ∉ fresh := by rwa [hmain]
  have hr₁ := reach_machine log _ (.call (.sema_down 0)) _ m₁ e₁ (if_pos ⟨rfl, hf⟩) h1 hr
  have hr₂ := reach_machine log _ .run _ m₂ e₂ rfl h2 hr₁
  have hr₃ := reach_machine log _ (.call (.sema_down 0)) _ m₃ e₃ (if_pos ⟨hstack, hnew⟩) h3 hr₂
  have hr₄ := reach_machine log _ .run _ m₄ e₄ rfl h4 hr₃
  exact ⟨_, hr₄, hcur, rfl⟩

/-- The address space is right for a thread. -/
theorem active_space_thread : ∃ log os, Run.Reach osSystem Run.anyStep log os ∧ os.cur = 0xc0100000 ∧ ActiveSpace os := by
  obtain ⟨mm, hstep, hnull⟩ := zeroOs_thread
  have hr := Run.Reach.step _ _ (OsAct.thread_start 31) _ _ reach_zeroOs trivial hstep
  obtain ⟨os, hr', hcur, hpgdir⟩ := reach_next _ mm [] (by simp) hr
  refine ⟨_, os, hr', hcur, (active_space _ os hr').1.mpr ?_⟩
  rw [hcur, hpgdir, hnull]

/-- A process runs with the directory of the loader, and without a kernel stack in the TSS. -/
theorem process_not_active : ∃ log os, Run.Reach osSystem Run.anyStep log os ∧ os.mm.pgdir os.cur ≠ NULL ∧
    os.mm.cr3 = 0x100000 ∧ os.esp0 = 0 ∧ ¬ ActiveSpace os := by
  obtain ⟨mm, hstep, hne⟩ := zeroOs_process
  have hr := Run.Reach.step _ _ OsAct.process_execute _ _ reach_zeroOs trivial hstep
  obtain ⟨os, hr', hcur, hpgdir⟩ := reach_next _ mm [0xc0100000] (by simp) hr
  obtain ⟨booted, dirs, hinv⟩ := os_reach _ os hr'
  have hproc : os.mm.pgdir os.cur ≠ NULL := by
    rw [hcur, hpgdir]
    exact hne
  refine ⟨_, os, hr', hproc, hinv.cr3, hinv.esp0, fun hact => ?_⟩
  unfold ActiveSpace at hact
  rw [if_neg hproc] at hact
  exact pgdir_not_active booted dirs _ os hinv os.cur hproc hact.1

end OsLearn
