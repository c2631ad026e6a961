import OsLearn.Kernel.String
import OsLearn.Lib.X86
import OsLearn.Lib.Bits
import OsLearn.Lib.Run

/-!
# `thread/switch.S`, and the stack that `thread_create` prepares

A task is the address of its PCB, the first bytes of a page whose end is the task's kernel stack.
The running task does what it wants with the processor and the memory, except for the pages of the
tasks that are switched out.
-/

open OsLearn.X86 OsLearn.CString OsLearn.Str

namespace OsLearn.Switch

def PG_SIZE : UInt32 := 4096

/-- `running_thread`: the page of the stack pointer. -/
def running_thread (c : Cpu) : UInt32 := c.esp &&& 0xfffff000

/-! ## `thread.c` -/

/-- What `init_thread` writes: the fields of a `struct task_struct` of 72 bytes at `t`. -/
def init_thread (mem : Mem) (t : UInt32) (name : List UInt8) (prio : UInt8) (pid : UInt16) (status : UInt32) : Mem :=
  let mem := writeBytes mem t.toNat (List.replicate 72 0)
  let mem := writeBytes mem (t + 4).toNat [pid.toUInt8, (pid >>> 8).toUInt8]
  -- strcpy(pthread->name, name), which writes no terminator
  let mem := writeBytes mem (t + 13).toNat name
  let mem := write32 mem (t + 8).toNat status
  let mem := writeBytes mem (t + 29).toNat [prio]
  let mem := writeBytes mem (t + 12).toNat [prio]
  let mem := write32 mem (t + 32).toNat 0
  let mem := write32 mem (t + 52).toNat 0
  let mem := write32 mem t.toNat (t + PG_SIZE)
  write32 mem (t + 68).toNat 0x19851122

/-- `sizeof(struct intr_stack)` -/
def sizeofIntrStack : UInt32 := 76

/-- `sizeof(struct thread_stack)` -/
def sizeofThreadStack : UInt32 := 32

/-- `thread_create`. `self_kstack` is a `uint32_t*`: taking `n` from it moves it by `4 * n` bytes. -/
def thread_create (kernel_thread : UInt32) (mem : Mem) (t function func_arg : UInt32) : Mem :=
  let mem := write32 mem t.toNat (read32 mem t.toNat - 4 * sizeofIntrStack)
  let mem := write32 mem t.toNat (read32 mem t.toNat - 4 * sizeofThreadStack)
  let kthread_stack := read32 mem t.toNat
  let mem := write32 mem (kthread_stack + 16).toNat kernel_thread
  let mem := write32 mem (kthread_stack + 24).toNat function
  let mem := write32 mem (kthread_stack + 28).toNat func_arg
  let mem := write32 mem (kthread_stack + 8).toNat 0
  let mem := write32 mem (kthread_stack + 12).toNat 0
  let mem := write32 mem (kthread_stack + 4).toNat 0
  write32 mem kthread_stack.toNat 0

/-! ## `switch.S` -/

/-- `switch_to(cur, next)`, from its first instruction to its `ret`. The return address is on top of
the stack, and the arguments are behind it. -/
def switch_to (c : Cpu) : Cpu :=
  let c := c.push (c.reg .esi)
  let c := c.push (c.reg .edi)
  let c := c.push (c.reg .ebx)
  let c := c.push (c.reg .ebp)
  let c := c.setReg .eax (read32 c.mem (c.esp + 20).toNat)
  let c := { c with mem := write32 c.mem (c.reg .eax).toNat c.esp }
  let c := c.setReg .eax (read32 c.mem (c.esp + 24).toNat)
  let c := c.setReg .esp (read32 c.mem (c.reg .eax).toNat)
  let c := c.popReg .ebp
  let c := c.popReg .ebx
  let c := c.popReg .edi
  let c := c.popReg .esi
  { c.addEsp 4 with eip := c.top }

/-! ## The tasks -/

/-- What a task has in the registers that a call keeps, where its stack is, and where it goes on. -/
structure Context where
  ebp : UInt32
  ebx : UInt32
  edi : UInt32
  esi : UInt32
  esp : UInt32
  eip : UInt32
  deriving DecidableEq, Repr

/-- The caller of `switch_to`, at the first instruction of `switch_to`: `ret` will pop the address. -/
def caller (c : Cpu) : Context where
  ebp := c.reg .ebp
  ebx := c.reg .ebx
  edi := c.reg .edi
  esi := c.reg .esi
  esp := c.esp + 4
  eip := c.top

def context (c : Cpu) : Context where
  ebp := c.reg .ebp
  ebx := c.reg .ebx
  edi := c.reg .edi
  esi := c.reg .esi
  esp := c.esp
  eip := c.eip

structure State where
  cpu : Cpu
  cur : UInt32
  tasks : List UInt32

inductive Act where
  -- The running task's code runs, up to this state of the machine.
  | work (c : Cpu)
  -- The running task prepares the page `t`.
  | create (t function func_arg : UInt32) (name : List UInt8) (prio : UInt8) (pid : UInt16) (status : UInt32)
  -- The running task has called `switch_to`.
  | switch (next : UInt32)

inductive Event where
  | created (t function func_arg : UInt32)
  | switchedOut (t : UInt32) (ctx : Context)
  -- With the two words behind the return address: the arguments of a function that starts here.
  | switchedIn (t : UInt32) (ctx : Context) (arg0 arg1 : UInt32)
  deriving DecidableEq, Repr

def InPage (t : UInt32) (x : Nat) : Prop := t.toNat ≤ x ∧ x < t.toNat + 4096

/-- The stack at a call of `switch_to(cur, next)`: inside the page of `cur`, with room above the PCB's
first field for what `switch_to` pushes. -/
structure CallsSwitch (c : Cpu) (cur next : UInt32) : Prop where
  room : cur.toNat + 20 ≤ c.esp.toNat
  inside : c.esp.toNat + 12 ≤ cur.toNat + 4096
  arg0 : read32 c.mem (c.esp.toNat + 4) = cur
  arg1 : read32 c.mem (c.esp.toNat + 8) = next

/-- What the tasks may do. -/
def Proper (_ : List Event) (s : State) : Act → Prop
  | .work c => ∀ u ∈ s.tasks, u ≠ s.cur → ∀ x, InPage u x → c.mem x = s.cpu.mem x
  | .create t _ _ name _ _ _ => t.toNat % 4096 = 0 ∧ t ∉ s.tasks ∧ name.length + 14 ≤ 4096
  | .switch next => next ∈ s.tasks ∧ CallsSwitch s.cpu s.cur next

def step (kernel_thread : UInt32) (s : State) : Act → Except Empty (State × List Event)
  | .work c => .ok ({ s with cpu := c }, [])
  | .create t function func_arg name prio pid status =>
    let mem := init_thread s.cpu.mem t name prio pid status
    let mem := thread_create kernel_thread mem t function func_arg
    .ok ({ s with cpu := { s.cpu with mem := mem }, tasks := s.tasks ++ [t] }, [.created t function func_arg])
  | .switch next =>
    let c := switch_to s.cpu
    .ok ({ s with cpu := c, cur := next }, [.switchedOut s.cur (caller s.cpu),
      .switchedIn next (context c) (read32 c.mem (c.esp + 4).toNat) (read32 c.mem (c.esp + 8).toNat)])

/-- The machine from the moment when one task runs. -/
def switching (kernel_thread : UInt32) : Run.System State Act Event Empty where
  init s := s.cur.toNat % 4096 = 0 ∧ s.tasks = [s.cur]
  step := step kernel_thread

/-! ## The frame of a task that is switched out -/

/-- The words that `switch_to` will pop, at the `self_kstack` of the task. -/
structure FrameAt (mem : Mem) (t : UInt32) (ctx : Context) : Prop where
  low : t.toNat + 4 ≤ (read32 mem t.toNat).toNat
  high : (read32 mem t.toNat).toNat + 28 ≤ t.toNat + 4096
  words : StackAt mem (read32 mem t.toNat).toNat [ctx.ebp, ctx.ebx, ctx.edi, ctx.esi, ctx.eip]
  esp : ctx.esp = read32 mem t.toNat + 20

theorem page_lt (t : UInt32) (h : t.toNat % 4096 = 0) : t.toNat + 4096 ≤ 2 ^ 32 := by
  have := t.toNat_lt
  omega

theorem frameAt_congr (mem mem' : Mem) (t : UInt32) (ctx : Context) (h : ∀ x, InPage t x → mem' x = mem x)
    (hf : FrameAt mem t ctx) : FrameAt mem' t ctx := by
  have hlow := hf.low
  have hhigh := hf.high
  have hp : read32 mem' t.toNat = read32 mem t.toNat :=
    read32_congr mem mem' _ fun x h1 h2 => h x ⟨h1, by omega⟩
  refine ⟨by rwa [hp], by rwa [hp], ?_, by rw [hp]; exact hf.esp⟩
  rw [hp]
  refine stackAt_congr mem mem' _ _ (fun x h1 h2 => h x ⟨by omega, ?_⟩) hf.words
  simp only [List.length_cons, List.length_nil] at h2
  omega

/-! ## One switch -/

def pushed (c : Cpu) : Cpu :=
  (((c.push (c.reg .esi)).push (c.reg .edi)).push (c.reg .ebx)).push (c.reg .ebp)

theorem pushed_shows (c : Cpu) (h : 16 ≤ c.esp.toNat) :
    Shows (c.esp.toNat - 16) c.mem (pushed c)
      { base := c.esp.toNat, reg := c.reg, seg := c.seg
        stack := [c.reg .ebp, c.reg .ebx, c.reg .edi, c.reg .esi] } := by
  have h0 : Shows (c.esp.toNat - 16) c.mem c { base := c.esp.toNat, reg := c.reg, seg := c.seg, stack := [] } :=
    ⟨by simp, c.esp.toNat_lt, fun _ _ => rfl, rfl, by simp, trivial, fun _ _ => rfl⟩
  have h1 := shows_push _ _ _ _ (c.reg .esi) h0 (by simp; omega)
  have h2 := shows_push _ _ _ _ (c.reg .edi) h1 (by simp [View.push]; omega)
  have h3 := shows_push _ _ _ _ (c.reg .ebx) h2 (by simp [View.push]; omega)
  exact shows_push _ _ _ _ (c.reg .ebp) h3 (by simp [View.push]; omega)

def switchMem (c : Cpu) (cur : UInt32) : Mem := write32 (pushed c).mem cur.toNat (pushed c).esp

def resume (c : Cpu) : Cpu :=
  let c := (((c.popReg .ebp).popReg .ebx).popReg .edi).popReg .esi
  { c.addEsp 4 with eip := c.top }

theorem switch_to_args (c : Cpu) (cur next : UInt32) (hal : cur.toNat % 4096 = 0) (h : CallsSwitch c cur next) :
    read32 (pushed c).mem ((pushed c).esp + 20).toNat = cur ∧
    read32 (switchMem c cur) ((pushed c).esp + 24).toNat = next := by
  have hroom := h.room
  have hin := h.inside
  have hpg := page_lt cur hal
  have hs := pushed_shows c (by omega)
  have hesp := hs.esp
  simp only [List.length_cons, List.length_nil] at hesp
  have h20 : ((pushed c).esp + 20).toNat = c.esp.toNat + 4 := by
    have := toNat_add_small (pushed c).esp 20 (by omega)
    rw [show (20 : UInt32) = UInt32.ofNat 20 from rfl, this]
    omega
  have h24 : ((pushed c).esp + 24).toNat = c.esp.toNat + 8 := by
    have := toNat_add_small (pushed c).esp 24 (by omega)
    rw [show (24 : UInt32) = UInt32.ofNat 24 from rfl, this]
    omega
  constructor
  · rw [h20, read32_congr c.mem _ _ (fun x h1 _ => hs.frame x (.inr (by simp only; omega)))]
    exact h.arg0
  · rw [h24, switchMem, read32_write32_other _ _ _ _ (by omega),
      read32_congr c.mem _ _ (fun x h1 _ => hs.frame x (.inr (by simp only; omega)))]
    exact h.arg1

def change (c : Cpu) : Cpu :=
  let c := c.setReg .eax (read32 c.mem (c.esp + 20).toNat)
  let c := { c with mem := write32 c.mem (c.reg .eax).toNat c.esp }
  let c := c.setReg .eax (read32 c.mem (c.esp + 24).toNat)
  c.setReg .esp (read32 c.mem (c.reg .eax).toNat)

theorem change_eq (c : Cpu) (cur next : UInt32) (hal : cur.toNat % 4096 = 0) (h : CallsSwitch c cur next) :
    change (pushed c) = (({ (pushed c).setReg .eax cur with mem := switchMem c cur }.setReg .eax next).setReg .esp
      (read32 (switchMem c cur) next.toNat)) := by
  obtain ⟨h0, h1⟩ := switch_to_args c cur next hal h
  generalize hc : pushed c = c₁ at h0 h1
  have hm : switchMem c cur = write32 c₁.mem cur.toNat c₁.esp := by rw [switchMem, hc]
  rw [hm] at h1 ⊢
  simp only [Cpu.esp] at h0 h1
  simp [change, Cpu.setReg, Cpu.esp, h0, h1, -UInt32.toNat_add]

theorem switch_to_parts (c : Cpu) : switch_to c = resume (change (pushed c)) := rfl

/-- Back on a stack with a frame, the context of the frame goes on. -/
theorem resume_context (c : Cpu) (p : UInt32) (ctx : Context) (hesp : c.esp = p) (hp : p.toNat + 28 ≤ 2 ^ 32)
    (hw : StackAt c.mem p.toNat [ctx.ebp, ctx.ebx, ctx.edi, ctx.esi, ctx.eip]) (he : ctx.esp = p + 20) :
    context (resume c) = ctx ∧ (resume c).mem = c.mem := by
  have h0 : Shows p.toNat c.mem c { base := p.toNat + 20, reg := c.reg, seg := c.seg
                                    stack := [ctx.ebp, ctx.ebx, ctx.edi, ctx.esi, ctx.eip] } := by
    refine ⟨by simp, by simp only; omega, fun _ _ => rfl, rfl, by simp [hesp], ?_, fun _ _ => rfl⟩
    rw [hesp]
    exact hw
  have h1 := shows_popReg _ _ _ _ .ebp _ _ h0 (by decide) rfl
  have h2 := shows_popReg _ _ _ _ .ebx _ _ h1 (by decide) rfl
  have h3 := shows_popReg _ _ _ _ .edi _ _ h2 (by decide) rfl
  have h4 := shows_popReg _ _ _ _ .esi _ _ h3 (by decide) rfl
  have htop := shows_top _ _ _ _ _ _ h4 rfl
  have h5 : Shows p.toNat c.mem (resume c) _ :=
    shows_flags _ _ _ _ _ _ (shows_drop _ _ _ _ 1 4 h4 rfl (by simp))
  have hend : (resume c).esp = ctx.esp := by
    have := h5.esp
    rw [he, ← UInt32.toNat_inj]
    have hadd := toNat_add_small p 20 (by omega)
    rw [show (20 : UInt32) = UInt32.ofNat 20 from rfl, hadd]
    simpa [View.drop] using this
  have hreg (r : Reg) (hr : r ≠ .esp) := h5.reg r hr
  refine ⟨?_, rfl⟩
  have hebp : (resume c).reg .ebp = ctx.ebp := by
    simpa [View.drop] using hreg .ebp (by decide)
  have hebx : (resume c).reg .ebx = ctx.ebx := by
    simpa [View.drop] using hreg .ebx (by decide)
  have hedi : (resume c).reg .edi = ctx.edi := by
    simpa [View.drop] using hreg .edi (by decide)
  have hesi : (resume c).reg .esi = ctx.esi := by
    simpa [View.drop] using hreg .esi (by decide)
  have heip : (resume c).eip = ctx.eip := htop
  simp only [context, hebp, hebx, hedi, hesi, heip, hend]

theorem switch_to_context (c : Cpu) (cur next : UInt32) (ctx : Context) (hal : cur.toNat % 4096 = 0)
    (hnext : next.toNat % 4096 = 0) (h : CallsSwitch c cur next) (hf : FrameAt (switchMem c cur) next ctx) :
    context (switch_to c) = ctx ∧ (switch_to c).mem = switchMem c cur := by
  rw [switch_to_parts, change_eq c cur next hal h]
  have hpg := page_lt next hnext
  have hhigh := hf.high
  refine resume_context _ _ ctx ?_ ?_ hf.words hf.esp
  · simp [Cpu.setReg, Cpu.esp]
  · omega

theorem switchMem_frame (c : Cpu) (cur next : UInt32) (hal : cur.toNat % 4096 = 0) (h : CallsSwitch c cur next) :
    FrameAt (switchMem c cur) cur (caller c) := by
  have hroom := h.room
  have hin := h.inside
  have hpg := page_lt cur hal
  have hs := pushed_shows c (by omega)
  have hesp := hs.esp
  simp only [List.length_cons, List.length_nil] at hesp
  have hself : read32 (switchMem c cur) cur.toNat = (pushed c).esp := read32_write32 _ _ _
  have hkeep (x : Nat) (hx : cur.toNat + 4 ≤ x) : switchMem c cur x = (pushed c).mem x :=
    write32_other _ _ _ _ (.inr hx)
  refine ⟨by rw [hself]; omega, by rw [hself]; omega, ?_, ?_⟩
  · rw [hself]
    refine stackAt_congr (pushed c).mem _ _ _ (fun x h1 _ => hkeep x (by omega)) ?_
    obtain ⟨h1, h2, h3, h4, -⟩ := hs.stack
    refine ⟨h1, h2, h3, h4, ?_, trivial⟩
    -- the return address is above what was pushed
    rw [show (pushed c).esp.toNat + 4 + 4 + 4 + 4 = c.esp.toNat from by omega]
    exact read32_congr c.mem _ _ fun x h1 _ => hs.frame x (.inr h1)
  · rw [hself, ← UInt32.toNat_inj]
    have h1 := toNat_add_small c.esp 4 (by omega)
    have h2 := toNat_add_small (pushed c).esp 20 (by omega)
    show (c.esp + 4).toNat = ((pushed c).esp + 20).toNat
    rw [show (4 : UInt32) = UInt32.ofNat 4 from rfl, show (20 : UInt32) = UInt32.ofNat 20 from rfl, h1, h2]
    omega

theorem switchMem_other (c : Cpu) (cur next t : UInt32) (hal : cur.toNat % 4096 = 0) (ht : t.toNat % 4096 = 0)
    (hne : t ≠ cur) (h : CallsSwitch c cur next) (x : Nat) (hx : InPage t x) : switchMem c cur x = c.mem x := by
  have hroom := h.room
  have hin := h.inside
  obtain ⟨hx1, hx2⟩ := hx
  have hne : t.toNat ≠ cur.toNat := fun h => hne (UInt32.toNat_inj.mp h)
  have hs := pushed_shows c (by omega)
  rw [switchMem, write32_other _ _ _ _ (by omega)]
  exact hs.frame x (by simp only; omega)

/-! ## A new task -/

theorem field_toNat (t : UInt32) (h : t.toNat % 4096 = 0) (n : Nat) (hn : n < 4096) :
    (t + UInt32.ofNat n).toNat = t.toNat + n := toNat_add_small t n (by have := page_lt t h; omega)

theorem init_thread_kstack (mem : Mem) (t : UInt32) (name : List UInt8) (prio : UInt8) (pid : UInt16)
    (status : UInt32) (h : t.toNat % 4096 = 0) :
    read32 (init_thread mem t name prio pid status) t.toNat = t + PG_SIZE := by
  unfold init_thread
  rw [read32_write32_other, read32_write32]
  have := field_toNat t h 68 (by omega)
  rw [show (68 : UInt32) = UInt32.ofNat 68 from rfl, this]
  omega

/-- The fields are written behind the name and before it. -/
theorem init_thread_around (mem : Mem) (t : UInt32) (name : List UInt8) (prio : UInt8) (pid : UInt16)
    (status : UInt32) (h : t.toNat % 4096 = 0) (x : Nat)
    (hx : t.toNat + 13 ≤ x ∧ x < t.toNat + 29 ∨ x < t.toNat ∨ t.toNat + 72 ≤ x) :
    init_thread mem t name prio pid status x =
      writeBytes (writeBytes (writeBytes mem t.toNat (List.replicate 72 0)) (t.toNat + 4)
        [pid.toUInt8, (pid >>> 8).toUInt8]) (t.toNat + 13) name x := by
  have hf (n : Nat) (hn : n < 4096) := field_toNat t h n hn
  have h4 : (t + 4).toNat = _ := hf 4 (by omega)
  have h13 : (t + 13).toNat = _ := hf 13 (by omega)
  have h8 : (t + 8).toNat = _ := hf 8 (by omega)
  have h29 : (t + 29).toNat = _ := hf 29 (by omega)
  have h12 : (t + 12).toNat = _ := hf 12 (by omega)
  have h32 : (t + 32).toNat = _ := hf 32 (by omega)
  have h52 : (t + 52).toNat = _ := hf 52 (by omega)
  have h68 : (t + 68).toNat = _ := hf 68 (by omega)
  unfold init_thread
  simp only [h4, h13, h8, h29, h12, h32, h52, h68]
  rw [write32_other _ _ _ _ (by omega), write32_other _ _ _ _ (by omega), write32_other _ _ _ _ (by omega),
    write32_other _ _ _ _ (by omega), writeBytes_other _ _ _ _ (by simp; omega),
    writeBytes_other _ _ _ _ (by simp; omega), write32_other _ _ _ _ (by omega)]

theorem init_thread_other (mem : Mem) (t : UInt32) (name : List UInt8) (prio : UInt8) (pid : UInt16)
    (status : UInt32) (h : t.toNat % 4096 = 0) (hname : name.length + 14 ≤ 4096) (x : Nat) (hx : ¬ InPage t x) :
    init_thread mem t name prio pid status x = mem x := by
  simp only [InPage, not_and_or, Nat.not_le, Nat.not_lt] at hx
  rw [init_thread_around mem t name prio pid status h x (by omega), writeBytes_other _ _ _ _ (by omega),
    writeBytes_other _ _ _ _ (by simp; omega), writeBytes_other _ _ _ _ (by simp; omega)]

/-- The name of a new task is a string. `strcpy` leaves the terminator out, but the PCB was zeroed. -/
theorem init_thread_name (mem : Mem) (t : UInt32) (name : List UInt8) (prio : UInt8) (pid : UInt16)
    (status : UInt32) (h : t.toNat % 4096 = 0) (hname : name.length < 16) (hchars : 0 ∉ name) :
    CStr (init_thread mem t name prio pid status) (t + 13) name := by
  have hpg := page_lt t h
  have h13 : (t + 13).toNat = t.toNat + 13 := field_toNat t h 13 (by omega)
  have hstr : CStr (writeBytes (writeBytes (writeBytes mem t.toNat (List.replicate 72 0)) (t.toNat + 4)
      [pid.toUInt8, (pid >>> 8).toUInt8]) (t.toNat + 13) name) (t + 13) name := by
    refine ⟨?_, by omega, ?_, ?_⟩
    · rw [ne_eq, ← UInt32.toNat_inj, h13]
      exact Nat.succ_ne_zero _
    · have hwritten := charsAt_writeBytes (writeBytes (writeBytes mem t.toNat (List.replicate 72 0)) (t.toNat + 4)
        [pid.toUInt8, (pid >>> 8).toUInt8]) (t.toNat + 13) name [] hchars
      rw [List.append_nil] at hwritten
      rwa [h13]
    · rw [h13, writeBytes_other _ _ _ _ (by omega), writeBytes_other _ _ _ _ (by simp; omega)]
      unfold writeBytes
      rw [List.length_replicate, if_pos (by omega), List.getD_eq_getElem?_getD, List.getElem?_replicate]
      split <;> rfl
  exact hstr.congr fun x h1 h2 => init_thread_around mem t name prio pid status h x (by omega)

/-- The calls of `memset` and `strcpy` in `init_thread`, with a name outside the page, write what the model writes. -/
theorem init_thread_calls (mem : Mem) (t src : UInt32) (name : List UInt8) (pid : UInt16) (h : t.toNat % 4096 = 0)
    (ht : t ≠ 0) (hsrc : CStr mem src name) (hname : name.length + 14 ≤ 4096)
    (hout : src.toNat + name.length < t.toNat ∨ t.toNat + 4096 ≤ src.toNat) :
    ∃ mem₁, memset mem t 0 72 = .ok mem₁ ∧
      Returns name.length (fun fuel => strcpy fuel (writeBytes mem₁ (t + 4).toNat [pid.toUInt8, (pid >>> 8).toUInt8])
        (t + 13) src)
        (writeBytes (writeBytes (writeBytes mem t.toNat (List.replicate 72 0)) (t + 4).toNat
          [pid.toUInt8, (pid >>> 8).toUInt8]) (t + 13).toNat name, t + 13) := by
  have hpg := page_lt t h
  have h4 : (t + 4).toNat = t.toNat + 4 := field_toNat t h 4 (by omega)
  have h13 : (t + 13).toNat = t.toNat + 13 := field_toNat t h 13 (by omega)
  have hsize : t.toNat + (72 : UInt32).toNat ≤ 2 ^ 32 := by
    show t.toNat + 72 ≤ 2 ^ 32
    omega
  refine ⟨_, memset_spec mem t 0 72 ht hsize, strcpy_spec _ (t + 13) src name (hsrc.congr fun x h1 h2 => ?_) (by omega)
    (by omega)⟩
  rw [writeBytes_other _ _ _ _ (by simp; omega), writeBytes_other]
  show x < t.toNat ∨ t.toNat + (List.replicate 72 0).length ≤ x
  rw [List.length_replicate]
  omega

theorem kstack_eq (t : UInt32) (h : t.toNat % 4096 = 0) :
    (t + PG_SIZE - 4 * sizeofIntrStack - 4 * sizeofThreadStack).toNat = t.toNat + 3664 := by
  have hpg := page_lt t h
  simp only [UInt32.toNat_sub, UInt32.toNat_add, UInt32.toNat_mul, PG_SIZE, sizeofIntrStack, sizeofThreadStack]
  simp only [UInt32.reduceToNat]
  omega

def firstContext (kernel_thread t : UInt32) : Context where
  ebp := 0
  ebx := 0
  edi := 0
  esi := 0
  esp := t + 3684
  eip := kernel_thread

/-- The memory after `thread_create` of a task whose stack starts at `p`, the address `k`. -/
def createdMem (mem : Mem) (t p kernel_thread function func_arg : UInt32) (k : Nat) : Mem :=
  let mem := write32 (write32 mem t.toNat (t + PG_SIZE - 4 * sizeofIntrStack)) t.toNat p
  let mem := write32 (write32 (write32 mem (k + 16) kernel_thread) (k + 24) function) (k + 28) func_arg
  write32 (write32 (write32 (write32 mem (k + 8) 0) (k + 12) 0) (k + 4) 0) k 0

theorem thread_create_eq (kernel_thread : UInt32) (mem : Mem) (t function func_arg p : UInt32)
    (hal : t.toNat % 4096 = 0) (hk : read32 mem t.toNat = t + PG_SIZE)
    (hp : t + PG_SIZE - 4 * sizeofIntrStack - 4 * sizeofThreadStack = p) :
    thread_create kernel_thread mem t function func_arg =
      createdMem mem t p kernel_thread function func_arg (t.toNat + 3664) := by
  have hpn : p.toNat = t.toNat + 3664 := hp ▸ kstack_eq t hal
  have hpg := page_lt t hal
  have hf (n : Nat) (hn : n ≤ 28) : (p + UInt32.ofNat n).toNat = t.toNat + 3664 + n := by
    rw [toNat_add_small p n (by omega), hpn]
  have h16 : (p + 16).toNat = _ := hf 16 (by omega)
  have h24 : (p + 24).toNat = _ := hf 24 (by omega)
  have h28 : (p + 28).toNat = _ := hf 28 (by omega)
  have h8 : (p + 8).toNat = _ := hf 8 (by omega)
  have h12 : (p + 12).toNat = _ := hf 12 (by omega)
  have h4 : (p + 4).toNat = _ := hf 4 (by omega)
  simp only [thread_create, createdMem, hk, read32_write32, hp, h16, h24, h28, h8, h12, h4, hpn]

theorem createdMem_kstack (mem : Mem) (t p kernel_thread function func_arg : UInt32) :
    read32 (createdMem mem t p kernel_thread function func_arg (t.toNat + 3664)) t.toNat = p := by
  unfold createdMem
  simp (disch := omega) only [read32_write32_other, read32_write32]

theorem created_frame (mem : Mem) (t p kernel_thread function func_arg : UInt32) (hal : t.toNat % 4096 = 0)
    (hp : p.toNat = t.toNat + 3664) :
    FrameAt (createdMem mem t p kernel_thread function func_arg (t.toNat + 3664)) t
      (firstContext kernel_thread t) := by
  have hself := createdMem_kstack mem t p kernel_thread function func_arg
  have hpg := page_lt t hal
  refine ⟨by rw [hself, hp]; omega, by rw [hself, hp]; omega, ?_, ?_⟩
  · rw [hself, hp]
    unfold createdMem
    simp (disch := omega) only [StackAt, Nat.add_assoc, Nat.reduceAdd, firstContext, read32_write32_other,
      read32_write32, and_self]
  · rw [hself, ← UInt32.toNat_inj]
    have h20 : (p + 20).toNat = _ := toNat_add_small p 20 (by omega)
    have h3684 : (t + 3684).toNat = _ := field_toNat t hal 3684 (by omega)
    rw [h20, firstContext, h3684, hp]

theorem created_args (mem : Mem) (t p kernel_thread function func_arg : UInt32) :
    StackAt (createdMem mem t p kernel_thread function func_arg (t.toNat + 3664)) (t.toNat + 3688)
      [function, func_arg] := by
  unfold createdMem
  simp (disch := omega) only [StackAt, Nat.add_assoc, Nat.reduceAdd, read32_write32_other, read32_write32, and_self]

theorem created_other (mem : Mem) (t p kernel_thread function func_arg : UInt32) (x : Nat) (hx : ¬ InPage t x) :
    createdMem mem t p kernel_thread function func_arg (t.toNat + 3664) x = mem x := by
  simp only [InPage, not_and_or, Nat.not_le, Nat.not_lt] at hx
  unfold createdMem
  simp (disch := omega) only [write32_other]

/-! ## Whole runs -/

inductive Save where
  | fresh (function func_arg : UInt32)
  | called (ctx : Context)
  deriving DecidableEq, Repr

def record (t : UInt32) (last : Option Save) : Event → Option Save
  | .created u function func_arg => if u = t then some (.fresh function func_arg) else last
  | .switchedOut u ctx => if u = t then some (.called ctx) else last
  | .switchedIn _ _ _ _ => last

def lastSave (t : UInt32) (log : List Event) : Option Save := log.foldl (record t) none

/-- The task goes on where it was, or a new one enters `kernel_thread` with its two arguments. Either
way `running_thread` finds its PCB. -/
def Resumes (kernel_thread t : UInt32) (ctx : Context) (arg0 arg1 : UInt32) : Option Save → Prop
  | some (.called saved) => ctx = saved ∧ ctx.esp &&& 0xfffff000 = t
  | some (.fresh function func_arg) =>
    ctx.eip = kernel_thread ∧ arg0 = function ∧ arg1 = func_arg ∧ ctx.esp &&& 0xfffff000 = t
  | none => False

def Holds (kernel_thread : UInt32) (mem : Mem) (t : UInt32) : Option Save → Prop
  | some (.called ctx) => FrameAt mem t ctx
  | some (.fresh function func_arg) =>
    FrameAt mem t (firstContext kernel_thread t) ∧ StackAt mem (t.toNat + 3688) [function, func_arg]
  | none => False

structure SwitchInv (kernel_thread : UInt32) (log : List Event) (s : State) : Prop where
  cur_mem : s.cur ∈ s.tasks
  aligned : ∀ t ∈ s.tasks, t.toNat % 4096 = 0
  holds : ∀ t ∈ s.tasks, t ≠ s.cur → Holds kernel_thread s.cpu.mem t (lastSave t log)
  resumed : ∀ before t ctx arg0 arg1 after, log = before ++ .switchedIn t ctx arg0 arg1 :: after →
    Resumes kernel_thread t ctx arg0 arg1 (lastSave t before)

theorem lastSave_append (t : UInt32) (log : List Event) (e : Event) :
    lastSave t (log ++ [e]) = record t (lastSave t log) e := by
  simp [lastSave]

theorem holds_congr (kernel_thread : UInt32) (mem mem' : Mem) (t : UInt32) (save : Option Save)
    (h : ∀ x, InPage t x → mem' x = mem x) (hs : Holds kernel_thread mem t save) :
    Holds kernel_thread mem' t save := by
  match save, hs with
  | some (.called ctx), hs => exact frameAt_congr mem mem' t ctx h hs
  | some (.fresh function func_arg), hs =>
    refine ⟨frameAt_congr mem mem' t _ h hs.1, stackAt_congr mem mem' _ _ (fun x h1 h2 => h x ⟨?_, ?_⟩) hs.2⟩
    · omega
    · simp only [List.length_cons, List.length_nil] at h2
      omega

theorem resumed_append (kernel_thread : UInt32) (log evs : List Event)
    (h : ∀ before t ctx arg0 arg1 after, log = before ++ .switchedIn t ctx arg0 arg1 :: after →
      Resumes kernel_thread t ctx arg0 arg1 (lastSave t before))
    (hevs : ∀ before t ctx arg0 arg1 after, evs = before ++ .switchedIn t ctx arg0 arg1 :: after →
      Resumes kernel_thread t ctx arg0 arg1 (lastSave t (log ++ before))) :
    ∀ before t ctx arg0 arg1 after, log ++ evs = before ++ .switchedIn t ctx arg0 arg1 :: after →
      Resumes kernel_thread t ctx arg0 arg1 (lastSave t before) := by
  intro before t ctx arg0 arg1 after heq
  rcases List.append_eq_append_iff.mp heq with ⟨mid, hb, he⟩ | ⟨mid, hl, he⟩
  · rw [hb]
    exact hevs mid t ctx arg0 arg1 after he
  · cases mid with
    | nil =>
      rw [List.append_nil] at hl
      rw [← hl, ← List.append_nil log]
      exact hevs [] t ctx arg0 arg1 after he.symm
    | cons e mid =>
      simp only [List.cons_append, List.cons.injEq] at he
      obtain ⟨rfl, -⟩ := he
      exact h before t ctx arg0 arg1 mid hl

theorem page_of (t a : UInt32) (hal : t.toNat % 4096 = 0) (h : InPage t a.toNat) : a &&& 0xfffff000 = t := by
  obtain ⟨h1, h2⟩ := h
  rw [← UInt32.toNat_inj, u32_and_page]
  show a.toNat / 4096 * 4096 = t.toNat
  omega

theorem frameAt_page (mem : Mem) (t : UInt32) (ctx : Context) (hal : t.toNat % 4096 = 0) (h : FrameAt mem t ctx) :
    ctx.esp &&& 0xfffff000 = t := by
  have hpg := page_lt t hal
  have hlow := h.low
  have hhigh := h.high
  have h20 : (read32 mem t.toNat + 20).toNat = _ := toNat_add_small _ 20 (by omega)
  refine page_of t _ hal ?_
  rw [h.esp, h20]
  exact ⟨by omega, by omega⟩

/-- A switch to a task whose page holds its last save. -/
theorem switch_resumes (kernel_thread : UInt32) (c : Cpu) (cur next : UInt32) (save : Option Save)
    (hal : cur.toNat % 4096 = 0) (hnext : next.toNat % 4096 = 0) (h : CallsSwitch c cur next)
    (hh : Holds kernel_thread (switchMem c cur) next save) :
    (switch_to c).mem = switchMem c cur ∧
    Resumes kernel_thread next (context (switch_to c)) (read32 (switch_to c).mem ((switch_to c).esp + 4).toNat)
      (read32 (switch_to c).mem ((switch_to c).esp + 8).toNat) save := by
  match save, hh with
  | some (.called ctx), hh =>
    obtain ⟨hctx, hmem⟩ := switch_to_context c cur next ctx hal hnext h hh
    refine ⟨hmem, hctx, ?_⟩
    rw [hctx]
    exact frameAt_page _ next ctx hnext hh
  | some (.fresh function func_arg), ⟨hf, h0, h1, _⟩ =>
    obtain ⟨hctx, hmem⟩ := switch_to_context c cur next _ hal hnext h hf
    have hesp : (switch_to c).esp = next + 3684 := by
      have := congrArg Context.esp hctx
      simpa only [context, firstContext] using this
    have hpg := page_lt next hnext
    have h3688 : (next + 3684 + 4).toNat = next.toNat + 3688 := by
      have h1 : (next + 3684).toNat = _ := field_toNat next hnext 3684 (by omega)
      have h2 : (next + 3684 + 4).toNat = _ := toNat_add_small (next + 3684) 4 (by omega)
      omega
    have h3692 : (next + 3684 + 8).toNat = next.toNat + 3692 := by
      have h1 : (next + 3684).toNat = _ := field_toNat next hnext 3684 (by omega)
      have h2 : (next + 3684 + 8).toNat = _ := toNat_add_small (next + 3684) 8 (by omega)
      omega
    refine ⟨hmem, ?_, ?_, ?_, ?_⟩
    · rw [hctx]
      rfl
    · rw [hmem, hesp, h3688]
      exact h0
    · rw [hmem, hesp, h3692]
      exact h1
    · rw [hctx]
      exact frameAt_page _ next _ hnext hf

theorem work_inv (kernel_thread : UInt32) (log : List Event) (s : State) (c : Cpu) (h : SwitchInv kernel_thread log s)
    (hok : Proper log s (.work c)) : SwitchInv kernel_thread (log ++ []) { s with cpu := c } := by
  rw [List.append_nil]
  refine ⟨h.cur_mem, h.aligned, fun t ht hne => ?_, h.resumed⟩
  exact holds_congr kernel_thread _ _ t _ (hok t ht hne) (h.holds t ht hne)

theorem pages_apart (t u : UInt32) (ht : t.toNat % 4096 = 0) (hu : u.toNat % 4096 = 0) (hne : t ≠ u) (x : Nat)
    (hx : InPage t x) : ¬ InPage u x := by
  obtain ⟨h1, h2⟩ := hx
  rintro ⟨h3, h4⟩
  exact hne (UInt32.toNat_inj.mp (by omega))

theorem create_inv (kernel_thread : UInt32) (log : List Event) (s : State) (t function func_arg : UInt32)
    (name : List UInt8) (prio : UInt8) (pid : UInt16) (status : UInt32) (h : SwitchInv kernel_thread log s)
    (hok : Proper log s (.create t function func_arg name prio pid status)) :
    SwitchInv kernel_thread (log ++ [.created t function func_arg])
      { s with
        cpu := { s.cpu with
          mem := thread_create kernel_thread (init_thread s.cpu.mem t name prio pid status) t function func_arg }
        tasks := s.tasks ++ [t] } := by
  obtain ⟨hal, hnew, hname⟩ := hok
  have hk := init_thread_kstack s.cpu.mem t name prio pid status hal
  have hmem := thread_create_eq kernel_thread _ t function func_arg _ hal hk rfl
  have hp := kstack_eq t hal
  have hcase (u : UInt32) (hu : u ∈ s.tasks ++ [t]) : u ∈ s.tasks ∨ u = t := by simpa using hu
  refine ⟨List.mem_append_left _ h.cur_mem, fun u hu => ?_, fun u hu hne => ?_, ?_⟩
  · rcases hcase u hu with hu | rfl
    · exact h.aligned u hu
    · exact hal
  · simp only at hne
    rw [lastSave_append, hmem]
    rcases hcase u hu with hu | rfl
    · have hut : t ≠ u := by
        rintro rfl
        exact hnew hu
      rw [record, if_neg hut]
      refine holds_congr kernel_thread s.cpu.mem _ u _ (fun x hx => ?_) (h.holds u hu hne)
      have hx' := pages_apart u t (h.aligned u hu) hal (Ne.symm hut) x hx
      exact (created_other _ _ _ _ _ _ x hx').trans (init_thread_other _ _ _ _ _ _ hal hname x hx')
    · rw [record, if_pos rfl]
      exact ⟨created_frame _ u _ _ _ _ hal hp, created_args _ u _ _ _ _⟩
  · refine resumed_append kernel_thread log _ h.resumed ?_
    intro before u ctx arg0 arg1 after heq
    have : Event.switchedIn u ctx arg0 arg1 ∈ [Event.created t function func_arg] := by
      rw [heq]
      simp
    simp at this

/-- Once the running task has stored its stack pointer, every page holds a save. -/
theorem switchMem_holds (kernel_thread : UInt32) (log : List Event) (s : State) (next : UInt32)
    (h : SwitchInv kernel_thread log s) (hcall : CallsSwitch s.cpu s.cur next) (t : UInt32) (ht : t ∈ s.tasks) :
    Holds kernel_thread (switchMem s.cpu s.cur) t (lastSave t (log ++ [.switchedOut s.cur (caller s.cpu)])) := by
  have hal := h.aligned s.cur h.cur_mem
  rw [lastSave_append]
  by_cases hc : s.cur = t
  · subst hc
    rw [record, if_pos rfl]
    exact switchMem_frame s.cpu s.cur next hal hcall
  · rw [record, if_neg hc]
    have hmem := switchMem_other s.cpu s.cur next t hal (h.aligned t ht) (Ne.symm hc) hcall
    exact holds_congr kernel_thread _ _ t _ hmem (h.holds t ht (Ne.symm hc))

theorem switch_inv (kernel_thread : UInt32) (log : List Event) (s : State) (next : UInt32)
    (h : SwitchInv kernel_thread log s) (hok : Proper log s (.switch next)) :
    SwitchInv kernel_thread (log ++ [.switchedOut s.cur (caller s.cpu),
      .switchedIn next (context (switch_to s.cpu)) (read32 (switch_to s.cpu).mem ((switch_to s.cpu).esp + 4).toNat)
        (read32 (switch_to s.cpu).mem ((switch_to s.cpu).esp + 8).toNat)])
      { s with cpu := switch_to s.cpu, cur := next } := by
  obtain ⟨hn, hcall⟩ := hok
  have hal := h.aligned s.cur h.cur_mem
  have hall := switchMem_holds kernel_thread log s next h hcall
  obtain ⟨hmem, hres⟩ := switch_resumes kernel_thread s.cpu s.cur next _ hal (h.aligned next hn) hcall (hall next hn)
  refine ⟨hn, h.aligned, fun t ht _ => ?_, ?_⟩
  · rw [← List.singleton_append, ← List.append_assoc, lastSave_append]
    simp only [record, hmem]
    exact hall t ht
  · refine resumed_append kernel_thread log _ h.resumed ?_
    intro before t ctx arg0 arg1 after heq
    match before, heq with
    | [e], heq =>
      simp only [List.cons_append, List.nil_append, List.cons.injEq, Event.switchedIn.injEq] at heq
      obtain ⟨rfl, ⟨rfl, rfl, rfl, rfl⟩, -⟩ := heq
      exact hres
    | [], heq => simp at heq
    | e :: e' :: es, heq => simp at heq

theorem switch_reach (kernel_thread : UInt32) (log : List Event) (s : State)
    (h : Run.Reach (switching kernel_thread) Proper log s) : SwitchInv kernel_thread log s := by
  refine Run.reach_invariant (switching kernel_thread) Proper (SwitchInv kernel_thread) ?_ ?_ log s h
  · rintro s ⟨hal, htasks⟩
    refine ⟨by simp [htasks], ?_, ?_, ?_⟩
    · intro t ht
      rw [htasks, List.mem_singleton] at ht
      rw [ht]
      exact hal
    · intro t ht hne
      rw [htasks, List.mem_singleton] at ht
      exact absurd ht hne
    · intro before t ctx arg0 arg1 after heq
      simp at heq
  · intro log s a s' evs hI hok hs
    cases a with
    | work c =>
      cases hs
      exact work_inv kernel_thread log s c hI hok
    | create t function func_arg name prio pid status =>
      cases hs
      exact create_inv kernel_thread log s t function func_arg name prio pid status hI hok
    | switch next =>
      cases hs
      exact switch_inv kernel_thread log s next hI hok

/-- **Context switches.** In every run, a task that is switched in has the registers, the stack pointer
and the return address of its last call of `switch_to`. The first time it enters `kernel_thread`, with
the function and the argument that `thread_create` got. Either way its stack pointer is in its page. -/
theorem contexts_kept (kernel_thread : UInt32) (log : List Event) (s : State)
    (h : Run.Reach (switching kernel_thread) Proper log s) :
    ∀ before t ctx arg0 arg1 after, log = before ++ .switchedIn t ctx arg0 arg1 :: after →
      Resumes kernel_thread t ctx arg0 arg1 (lastSave t before) :=
  (switch_reach kernel_thread log s h).resumed

def mainRuns : State where
  cpu := {
    reg := fun r => if r = .esp then 0xc009ef00 else 0
    seg := fun _ => 0x10
    eip := 0xc0001000
    eflags := 0x2
    mem := fun _ => 0
    ports := [] }
  cur := 0xc009e000
  tasks := [0xc009e000]

def twoTasks : State where
  cpu := { mainRuns.cpu with
    mem := thread_create 0xc0001500 (init_thread mainRuns.cpu.mem 0xc0100000 [] 31 2 1) 0xc0100000 0xc0001600 7 }
  cur := 0xc009e000
  tasks := [0xc009e000, 0xc0100000]

def callsSwitch : Cpu :=
  { twoTasks.cpu with mem := write32 (write32 twoTasks.cpu.mem 0xc009ef08 0xc0100000) 0xc009ef04 0xc009e000 }

theorem twoTasks_callsSwitch : CallsSwitch callsSwitch 0xc009e000 0xc0100000 := by
  refine ⟨by decide, by decide, ?_, ?_⟩
  · exact read32_write32 _ _ _
  · exact (read32_write32_other _ 0xc009ef04 0xc009ef08 _ (by decide)).trans (read32_write32 _ _ _)

/-- The log of a run in which the main thread makes a task and switches to it. -/
def firstLog : List Event :=
  [.created 0xc0100000 0xc0001600 7, .switchedOut 0xc009e000 (caller callsSwitch),
    .switchedIn 0xc0100000 (context (switch_to callsSwitch))
      (read32 (switch_to callsSwitch).mem ((switch_to callsSwitch).esp + 4).toNat)
      (read32 (switch_to callsSwitch).mem ((switch_to callsSwitch).esp + 8).toNat)]

theorem reach_first (ok : List Event → State → Act → Prop)
    (hok : ∀ log s a, s.cur = 0xc009e000 → Proper log s a → ok log s a) :
    Run.Reach (switching 0xc0001500) ok firstLog { twoTasks with cpu := switch_to callsSwitch, cur := 0xc0100000 } := by
  have h0 : Run.Reach (switching 0xc0001500) ok [] mainRuns := .init _ ⟨by decide, rfl⟩
  have hcreate : Proper [] mainRuns (.create 0xc0100000 0xc0001600 7 [] 31 2 1) := ⟨by decide, by decide, by decide⟩
  have h1 : Run.Reach (switching 0xc0001500) ok [.created 0xc0100000 0xc0001600 7] twoTasks :=
    Run.Reach.step [] mainRuns _ twoTasks [Event.created 0xc0100000 0xc0001600 7] h0 (hok _ _ _ rfl hcreate) rfl
  have hwork : Proper [.created 0xc0100000 0xc0001600 7] twoTasks (.work callsSwitch) := by
    intro u hu hne x hx
    have hu : u = 0xc0100000 := by
      simp only [twoTasks, List.mem_cons, List.not_mem_nil, or_false] at hu hne
      exact hu.resolve_left hne
    subst hu
    have h1 : (0xc0100000 : UInt32).toNat ≤ x := hx.1
    simp only [UInt32.reduceToNat] at h1
    simp only [callsSwitch]
    rw [write32_other _ _ _ _ (by omega), write32_other _ _ _ _ (by omega)]
  have h2 : Run.Reach (switching 0xc0001500) ok [.created 0xc0100000 0xc0001600 7]
      { twoTasks with cpu := callsSwitch } := .step _ twoTasks _ _ [] h1 (hok _ _ _ rfl hwork) rfl
  have hswitch : Proper [.created 0xc0100000 0xc0001600 7] { twoTasks with cpu := callsSwitch }
      (.switch 0xc0100000) := ⟨by simp [twoTasks], twoTasks_callsSwitch⟩
  exact Run.Reach.step _ _ _ _ _ h2 (hok _ _ _ rfl hswitch) rfl

theorem contexts_kept_first : ∃ log s before ctx arg0 arg1 after,
    Run.Reach (switching 0xc0001500) Proper log s ∧
    log = before ++ Event.switchedIn 0xc0100000 ctx arg0 arg1 :: after ∧
    ctx.eip = 0xc0001500 ∧ arg0 = 0xc0001600 ∧ arg1 = 7 ∧ ctx.esp &&& 0xfffff000 = 0xc0100000 := by
  have h3 := reach_first Proper fun _ _ _ _ hproper => hproper
  have hkept := contexts_kept 0xc0001500 _ _ h3
    [.created 0xc0100000 0xc0001600 7, .switchedOut 0xc009e000 (caller callsSwitch)] 0xc0100000 _ _ _ [] rfl
  exact ⟨_, _, [.created 0xc0100000 0xc0001600 7, .switchedOut 0xc009e000 (caller callsSwitch)],
    context (switch_to callsSwitch), _, _, [], h3, rfl, hkept⟩

end OsLearn.Switch
