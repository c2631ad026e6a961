import OsLearn.Kernel.Syscall

/-!
# `kernel/kernel.S`: the entry stubs of the vectors 0 to 0x2f

Each stub is the macro `VECTOR` with its number and what it does in place of an error code: nothing,
when the processor has pushed one, or `push 0`.
-/

open OsLearn.X86

namespace OsLearn

/-! ## The code -/

inductive ErrorSlot where
  -- `nop`: the processor has pushed an error code.
  | ERROR_CODE
  -- `push 0`
  | ZERO
  deriving DecidableEq, Repr

def ErrorSlot.code : ErrorSlot → List Instr
  | .ERROR_CODE => []
  | .ZERO => [.pushImm 0]

/-- The lines `VECTOR v, slot` of `intr_entry_table`. -/
def intr_entry_table (v : Nat) : ErrorSlot :=
  if v ∈ [0x08, 0x0A, 0x0B, 0x0D, 0x0E, 0x11, 0x18, 0x1A, 0x1B, 0x1D, 0x1E] then .ERROR_CODE else .ZERO

/-- `VECTOR`, up to its `call`. -/
def VECTOR_save (v : Nat) (slot : ErrorSlot) : List Instr :=
  slot.code ++ [.pushSeg .ds, .pushSeg .es, .pushSeg .fs, .pushSeg .gs, .pushad,
    .movAl EOI, .outAl 0xa0, .outAl 0x20, .pushImm (UInt32.ofNat v)]

/-- The machine at the first instruction of the handler, and the address of the handler. -/
def VECTOR_call (idt_table ret : UInt32) (v : Nat) (slot : ErrorSlot) (c : Cpu) : UInt32 × Cpu :=
  let c := run (VECTOR_save v slot) c
  -- call [idt_table + v * 4]
  (read32 c.mem (idt_table + UInt32.ofNat v * 4).toNat, c.push ret)

/-- `VECTOR` and `intr_exit`, with the handler in between. -/
def VECTOR (fn : Functions) (idt_table ret : UInt32) (v : Nat) (slot : ErrorSlot) (c : Cpu) : Cpu :=
  let (handler, entry) := VECTOR_call idt_table ret v slot c
  intr_exit (fn handler entry)

/-! ## The processor -/

def pushesError (v : Nat) : Bool := v ∈ [8, 10, 11, 12, 13, 14, 17]

/-- An interrupt through gate `v`, with the error code `err` where the vector has one. -/
def raise (v : Nat) (err : UInt32) (stub esp0 : UInt32) (c : Cpu) : Cpu :=
  let c := c.interrupt SELECTOR_K_CODE stub SELECTOR_K_STACK esp0
  if pushesError v then c.push err else c

def outer (c : Cpu) : Bool := SELECTOR_K_CODE &&& 3 < c.cpl

/-- Where the stack is that the processor pushes to. -/
def intrBase (esp0 : UInt32) (c : Cpu) : Nat := if outer c then esp0.toNat else c.esp.toNat

def intrFrame (c : Cpu) : List UInt32 :=
  [c.eip, (c.seg .cs).toUInt32, c.eflags] ++ if outer c then [c.esp, (c.seg .ss).toUInt32] else []

/-- `struct intr_stack`, from `vec_no` on. The last two words are there when the level has changed. -/
def intr_stack (c : Cpu) (vec_no err_code esp_dummy : UInt32) : List UInt32 :=
  [vec_no, c.reg .edi, c.reg .esi, c.reg .ebp, esp_dummy, c.reg .ebx, c.reg .edx, c.reg .ecx, c.reg .eax,
    (c.seg .gs).toUInt32, (c.seg .fs).toUInt32, (c.seg .es).toUInt32, (c.seg .ds).toUInt32, err_code] ++ intrFrame c

/-- A handler that keeps to cdecl, from `entry` to its return: its one argument is its own, the stack
above it up to `base` is not. -/
structure HandlerReturns (base : Nat) (entry c : Cpu) : Prop where
  ebx : c.reg .ebx = entry.reg .ebx
  esi : c.reg .esi = entry.reg .esi
  edi : c.reg .edi = entry.reg .edi
  ebp : c.reg .ebp = entry.reg .ebp
  esp : c.esp = entry.esp + 4
  seg : c.seg = entry.seg
  mem : ∀ x, entry.esp.toNat + 8 ≤ x → x < base → c.mem x = entry.mem x

/-- What an interrupt must do: the handler finds a `struct intr_stack`, and once it has returned the
interrupted code goes on as if nothing had been. -/
def Transparent (fn : Functions) (idt_table ret stub esp0 : UInt32) (v : Nat) (err : UInt32) (c : Cpu) : Prop :=
  let slot := intr_entry_table v
  let entry := (VECTOR_call idt_table ret v slot (raise v err stub esp0 c)).2
  let after := VECTOR fn idt_table ret v slot (raise v err stub esp0 c)
  (∃ err_code esp_dummy, (pushesError v = true → err_code = err) ∧
    StackAt entry.mem (entry.esp.toNat + 4) (intr_stack c (UInt32.ofNat v) err_code esp_dummy)) ∧
  after.reg = c.reg ∧ after.seg = c.seg ∧ after.eip = c.eip ∧ after.eflags = c.eflags

/-- What is true of any context: bit 1 of the flags is set, and no segment is code and stack at once. -/
structure RealContext (c : Cpu) : Prop where
  flags : c.eflags.toNat / 2 % 2 = 1
  code : c.seg .cs ≠ c.seg .ss

/-! ## The way in -/

theorem interrupt_shows_same (c : Cpu) (stub esp0 : UInt32) (lo : Nat) (hc : outer c = false)
    (hlo : lo + 12 ≤ c.esp.toNat) :
    Shows lo c.mem (c.interrupt SELECTOR_K_CODE stub SELECTOR_K_STACK esp0)
      { base := c.esp.toNat
        reg := c.reg
        seg := Function.update c.seg .cs SELECTOR_K_CODE
        stack := intrFrame c } := by
  have h0 : Shows lo c.mem c { base := c.esp.toNat, reg := c.reg, seg := c.seg, stack := [] } :=
    ⟨by simp; omega, c.esp.toNat_lt, fun _ _ => rfl, rfl, by simp, trivial, fun _ _ => rfl⟩
  have h1 := shows_push _ _ _ _ c.eflags h0 (by simp; omega)
  have h2 := shows_push _ _ _ _ (c.seg .cs).toUInt32 h1 (by simp [View.push]; omega)
  have h3 := shows_push _ _ _ _ c.eip h2 (by simp [View.push]; omega)
  have h4 := shows_setSeg _ _ _ _ .cs SELECTOR_K_CODE h3
  have hnot : ¬ SELECTOR_K_CODE &&& 3 < c.cpl := by simpa [outer] using hc
  have heq : c.interrupt SELECTOR_K_CODE stub SELECTOR_K_STACK esp0 =
      { (((c.push c.eflags).push (c.seg .cs).toUInt32).push c.eip).setSeg .cs SELECTOR_K_CODE with
        eip := stub, eflags := c.eflags &&& ~~~0x4300 } := by
    simp only [Cpu.interrupt, if_neg hnot]
    rfl
  have hst : intrFrame c = [c.eip, (c.seg .cs).toUInt32, c.eflags] := by simp [intrFrame, hc]
  rw [heq, hst]
  exact shows_flags _ _ _ _ _ _ h4

def gateSeg (c : Cpu) : Seg → UInt16 :=
  Function.update (if outer c then Function.update c.seg .ss SELECTOR_K_STACK else c.seg) .cs SELECTOR_K_CODE

theorem interrupt_shows_any (c : Cpu) (stub esp0 : UInt32) (lo : Nat) (hlo : lo + 20 ≤ intrBase esp0 c) :
    Shows lo c.mem (c.interrupt SELECTOR_K_CODE stub SELECTOR_K_STACK esp0)
      { base := intrBase esp0 c, reg := c.reg, seg := gateSeg c, stack := intrFrame c } := by
  by_cases hc : outer c = true
  · have hb : intrBase esp0 c = esp0.toNat := if_pos hc
    have hs : gateSeg c = Function.update (Function.update c.seg .ss SELECTOR_K_STACK) .cs SELECTOR_K_CODE := by
      rw [gateSeg, if_pos hc]
    have hf : intrFrame c = userFrame c := by simp [intrFrame, userFrame, hc]
    rw [hb] at hlo
    rw [hb, hs, hf]
    exact interrupt_shows c stub esp0 lo (of_decide_eq_true hc) hlo
  · have hb : intrBase esp0 c = c.esp.toNat := if_neg hc
    have hs : gateSeg c = Function.update c.seg .cs SELECTOR_K_CODE := by rw [gateSeg, if_neg hc]
    rw [hb] at hlo
    rw [hb, hs]
    exact interrupt_shows_same c stub esp0 lo (by simpa using hc) (by omega)

/-- The words between the frame of the processor and the segment registers. -/
def between (v : Nat) (err : UInt32) : List UInt32 :=
  (match intr_entry_table v with
    | .ERROR_CODE => []
    | .ZERO => [0]) ++ if pushesError v then [err] else []

theorem intrFrame_length (c : Cpu) : (intrFrame c).length ≤ 5 := by
  unfold intrFrame
  split <;> simp

theorem raise_shows (c : Cpu) (v : Nat) (err stub esp0 : UInt32) (lo : Nat) (hlo : lo + 24 ≤ intrBase esp0 c) :
    Shows lo c.mem (raise v err stub esp0 c)
      { base := intrBase esp0 c, reg := c.reg, seg := gateSeg c
        stack := (if pushesError v then [err] else []) ++ intrFrame c } := by
  have h := interrupt_shows_any c stub esp0 lo (by omega)
  have hlen := intrFrame_length c
  unfold raise
  split
  · exact shows_push _ _ _ _ err h (by simp only; omega)
  · exact h

def savedRegs (c : Cpu) (vec_no esp_dummy : UInt32) (ws : List UInt32) : List UInt32 :=
  [vec_no, c.reg .edi, c.reg .esi, c.reg .ebp, esp_dummy, c.reg .ebx, c.reg .edx, c.reg .ecx, c.reg .eax,
    (c.seg .gs).toUInt32, (c.seg .fs).toUInt32, (c.seg .es).toUInt32, (c.seg .ds).toUInt32] ++ ws

theorem save_regs_run (c : Cpu) (v lo base : Nat) (seg : Seg → UInt16) (ws : List UInt32)
    (hroom : lo + 4 * (ws.length + 13) ≤ base)
    (hds : seg .ds = c.seg .ds) (hes : seg .es = c.seg .es) (hfs : seg .fs = c.seg .fs) (hgs : seg .gs = c.seg .gs) :
    ∃ esp_dummy, View.run lo (VECTOR_save v .ERROR_CODE) { base := base, reg := c.reg, seg := seg, stack := ws } =
      some { base := base
             reg := Function.update c.reg .eax (eoiEax (c.reg .eax))
             seg := seg
             stack := savedRegs c (UInt32.ofNat v) esp_dummy ws } := by
  have hr (k : Nat) (hk : k ≤ 13) : lo + 4 * (ws.length + k) ≤ base := by omega
  refine ⟨UInt32.ofNat (base - 4 * (ws.length + 4)), ?_⟩
  simp [View.run, VECTOR_save, ErrorSlot.code, View.step, View.push?, View.push, View.setReg, View.esp, savedRegs,
    eoiEax, hds, hes, hfs, hgs, hr, Nat.add_assoc]

theorem gateSeg_data (c : Cpu) (s : Seg) (hcs : s ≠ .cs) (hss : s ≠ .ss) : gateSeg c s = c.seg s := by
  unfold gateSeg
  split <;> simp [hcs, hss]

theorem run_zero (v : Nat) (c : Cpu) : run (VECTOR_save v .ZERO) c = run (VECTOR_save v .ERROR_CODE) (c.push 0) := by
  unfold run VECTOR_save
  rw [List.foldl_append, List.foldl_append]
  rfl

theorem VECTOR_call_entry (idt_table ret : UInt32) (v : Nat) (slot : ErrorSlot) (c : Cpu) :
    (VECTOR_call idt_table ret v slot c).2 = (run (VECTOR_save v slot) c).push ret := rfl

theorem entry_shows (c : Cpu) (idt_table ret : UInt32) (v : Nat) (err stub esp0 : UInt32)
    (hroom : 84 ≤ intrBase esp0 c) :
    ∃ esp_dummy, Shows (intrBase esp0 c - 84) c.mem
      (VECTOR_call idt_table ret v (intr_entry_table v) (raise v err stub esp0 c)).2
      { base := intrBase esp0 c
        reg := Function.update c.reg .eax (eoiEax (c.reg .eax))
        seg := gateSeg c
        stack := ret :: savedRegs c (UInt32.ofNat v) esp_dummy (between v err ++ intrFrame c) } := by
  have hlen := intrFrame_length c
  have hds := gateSeg_data c .ds (by decide) (by decide)
  have hes := gateSeg_data c .es (by decide) (by decide)
  have hfs := gateSeg_data c .fs (by decide) (by decide)
  have hgs := gateSeg_data c .gs (by decide) (by decide)
  have h1 := raise_shows c v err stub esp0 (intrBase esp0 c - 84) (by omega)
  have hrest (d : Cpu) (ws : List UInt32) (hws : ws.length ≤ 7)
      (h : Shows (intrBase esp0 c - 84) c.mem d
        { base := intrBase esp0 c, reg := c.reg, seg := gateSeg c, stack := ws }) :
      ∃ esp_dummy, Shows (intrBase esp0 c - 84) c.mem ((run (VECTOR_save v .ERROR_CODE) d).push ret)
        { base := intrBase esp0 c
          reg := Function.update c.reg .eax (eoiEax (c.reg .eax))
          seg := gateSeg c
          stack := ret :: savedRegs c (UInt32.ofNat v) esp_dummy ws } := by
    obtain ⟨dummy, hrun⟩ := save_regs_run c v (intrBase esp0 c - 84) (intrBase esp0 c) (gateSeg c) ws (by omega)
      hds hes hfs hgs
    have h2 := shows_run _ _ _ _ _ _ h hrun
    refine ⟨dummy, shows_push _ _ _ _ ret h2 ?_⟩
    simp only [savedRegs, List.length_append, List.length_cons, List.length_nil]
    omega
  unfold between
  rw [VECTOR_call_entry]
  have hpe : (if pushesError v = true then [err] else []).length ≤ 1 := by split <;> simp
  cases intr_entry_table v with
  | ERROR_CODE =>
    refine hrest _ _ ?_ h1
    simp only [List.nil_append, List.length_append]
    omega
  | ZERO =>
    have hlen1 : ((if pushesError v = true then [err] else []) ++ intrFrame c).length ≤ 6 := by
      rw [List.length_append]
      omega
    have h2 := shows_push _ _ _ _ 0 h1 (by simp only; omega)
    rw [run_zero]
    refine hrest _ _ ?_ h2
    rw [List.append_assoc, List.singleton_append, List.length_cons]
    omega

/-! ## The way back -/

theorem handler_shows (lo base : Nat) (mem : Mem) (entry d : Cpu) (reg : Reg → UInt32) (seg : Seg → UInt16)
    (ret vec_no : UInt32) (ws : List UInt32)
    (h : Shows lo mem entry { base := base, reg := reg, seg := seg, stack := ret :: vec_no :: ws })
    (hd : HandlerReturns base entry d) : ∃ b, Shows lo d.mem d
      { base := base, reg := d.reg, seg := seg, stack := b :: ws } := by
  have he := h.esp
  have hroom := h.room
  have hb := h.base_lt
  simp only [List.length_cons] at he hroom hb
  have hesp : d.esp.toNat = entry.esp.toNat + 4 := by
    rw [hd.esp, UInt32.toNat_add]
    exact Nat.mod_eq_of_lt (by show entry.esp.toNat + 4 < 2 ^ 32; omega)
  have hs : StackAt d.mem (entry.esp.toNat + 8) ws := by
    refine stackAt_congr entry.mem _ _ ws (fun x h1 h2 => hd.mem x h1 (by omega)) ?_
    exact h.stack.2.2
  refine ⟨read32 d.mem (entry.esp.toNat + 4), ?_, hb, fun _ _ => rfl, ?_, ?_, ?_, fun _ _ => rfl⟩
  · simp only [List.length_cons]
    omega
  · rw [hd.seg]
    exact h.seg
  · simp only [List.length_cons]
    omega
  · rw [hesp]
    exact ⟨rfl, hs⟩

theorem exit_run (c : Cpu) (lo base : Nat) (reg : Reg → UInt32) (seg : Seg → UInt16) (b esp_dummy e : UInt32)
    (ws : List UInt32) :
    View.run lo intr_exit_restore
        { base := base, reg := reg, seg := seg, stack := savedRegs c b esp_dummy (e :: ws) } =
      some { base := base
             reg := fun r => match r with
               | .esp => reg .esp
               | r => c.reg r
             seg := fun s => match s with
               | .cs => seg .cs
               | .ss => seg .ss
               | s => c.seg s
             stack := ws } := by
  simp [View.run, intr_exit_restore, View.step, View.drop, View.setReg, savedRegs]
  constructor
  · funext r
    cases r <;> simp
  · funext s
    cases s <;> simp

theorem iret_same (lo : Nat) (mem : Mem) (c : Cpu) (v : View) (eip cs eflags : UInt32) (h : Shows lo mem c v)
    (hs : v.stack = [eip, cs, eflags]) (hlevel : ¬ v.seg .cs &&& 3 < cs.toUInt16 &&& 3) :
    (∀ r, r ≠ .esp → c.iret.reg r = v.reg r) ∧ c.iret.esp.toNat = v.base ∧
    c.iret.seg = Function.update v.seg .cs cs.toUInt16 ∧ c.iret.eip = eip ∧ c.iret.eflags = eflags := by
  obtain ⟨hf, heip, hfl⟩ := shows_popFrame lo mem c v eip cs eflags _ h hs
  have hlt : ¬ c.cpl < c.popFrame.cpl := by
    rw [Cpu.cpl, Cpu.cpl, h.seg, hf.seg]
    simpa using hlevel
  have heq : c.iret = c.popFrame := if_neg hlt
  rw [heq]
  exact ⟨hf.reg, by simpa using hf.esp, hf.seg, heip, hfl⟩

/-- `intr_exit` loads every segment but those of the kernel's own stack and code. -/
theorem exit_restores_seg (c d : Cpu) (esp0 : UInt32) (lo : Nat) (mem : Mem) (b esp_dummy e : UInt32)
    (seg : Seg → UInt16) (hcs : seg .cs = SELECTOR_K_CODE) (hss : seg .ss = gateSeg c .ss)
    (h : Shows lo mem d { base := intrBase esp0 c, reg := d.reg, seg := seg
                          stack := savedRegs c b esp_dummy (e :: intrFrame c) }) :
    (intr_exit d).reg = c.reg ∧ (intr_exit d).seg = c.seg ∧ (intr_exit d).eip = c.eip ∧
      (intr_exit d).eflags = c.eflags := by
  have hr := shows_run lo mem _ d _ _ h (exit_run c lo _ d.reg seg b esp_dummy e (intrFrame c))
  unfold intr_exit
  by_cases ho : outer c = true
  · have hst : intrFrame c = [c.eip, (c.seg .cs).toUInt32, c.eflags, c.esp, (c.seg .ss).toUInt32] := by
      simp [intrFrame, ho]
    obtain ⟨hreg, hseg, heip, hfl⟩ := iret_outer lo mem _ _ _ _ _ _ _ hr hst (by
      simp only [hcs, UInt16.toUInt16_toUInt32]
      exact of_decide_eq_true ho)
    refine ⟨?_, ?_, heip, hfl⟩
    · rw [hreg]
      funext r
      cases r <;> simp [Cpu.esp]
    · rw [hseg]
      funext s
      cases s <;> simp
  · have hst : intrFrame c = [c.eip, (c.seg .cs).toUInt32, c.eflags] := by simp [intrFrame, ho]
    obtain ⟨hreg, hesp, hseg, heip, hfl⟩ := iret_same lo mem _ _ _ _ _ hr hst (by
      have ho : outer c = false := by simpa using ho
      simp only [hcs, UInt16.toUInt16_toUInt32]
      exact of_decide_eq_false ho)
    have hss' : seg .ss = c.seg .ss := by simp [hss, gateSeg, ho]
    have hb : intrBase esp0 c = c.esp.toNat := if_neg ho
    refine ⟨?_, ?_, heip, hfl⟩
    · funext r
      by_cases hr : r = .esp
      · subst hr
        exact UInt32.toNat_inj.mp (hesp.trans hb)
      · rw [hreg r hr]
        cases r <;> simp_all
    · rw [hseg]
      funext s
      cases s <;> simp [hss']

theorem exit_restores (c d : Cpu) (esp0 : UInt32) (lo : Nat) (mem : Mem) (b esp_dummy e : UInt32)
    (h : Shows lo mem d { base := intrBase esp0 c, reg := d.reg, seg := gateSeg c
                          stack := savedRegs c b esp_dummy (e :: intrFrame c) }) :
    (intr_exit d).reg = c.reg ∧ (intr_exit d).seg = c.seg ∧ (intr_exit d).eip = c.eip ∧
      (intr_exit d).eflags = c.eflags :=
  exit_restores_seg c d esp0 lo mem b esp_dummy e (gateSeg c) (by simp [gateSeg]) rfl h

/-! ## The table and the processor -/

def misplaced : List Nat := [0x0C, 0x18, 0x1A, 0x1B, 0x1D, 0x1E]

/-- Elsewhere the stub pushes a word exactly when the processor has not. -/
theorem between_one (v : Nat) (err : UInt32) (hv : v ≤ 0x2f) (h : v ∉ misplaced) :
    ∃ e, between v err = [e] ∧ (pushesError v = true → e = err) := by
  have hagree : ∀ v : Fin 48, v.val ∉ misplaced →
      (intr_entry_table v = .ERROR_CODE ∧ pushesError v = true ∨
        intr_entry_table v = .ZERO ∧ pushesError v = false) := by decide
  rcases hagree ⟨v, by omega⟩ h with ⟨hslot, hpe⟩ | ⟨hslot, hpe⟩
  · exact ⟨err, by simp [between, hslot, hpe], fun _ => rfl⟩
  · exact ⟨0, by simp [between, hslot, hpe], fun h => by simp [hpe] at h⟩

/-- There it pushes one too many, or none. -/
theorem between_misplaced (v : Nat) (err : UInt32) (h : v ∈ misplaced) :
    between v err = [0, err] ∧ pushesError v = true ∨ between v err = [] := by
  simp only [misplaced, List.mem_cons, List.not_mem_nil, or_false] at h
  rcases h with rfl | rfl | rfl | rfl | rfl | rfl
  · exact .inl ⟨rfl, rfl⟩
  all_goals exact .inr rfl

theorem stackAt_same (mem : Mem) (a : Nat) (ws vs : List UInt32) (k : Nat) (w w' : UInt32) (hw : StackAt mem a ws)
    (hv : StackAt mem a vs) (h : ws[k]? = some w) (h' : vs[k]? = some w') : w = w' := by
  induction ws generalizing a vs k with
  | nil => simp at h
  | cons x ws ih =>
    cases vs with
    | nil => simp at h'
    | cons y vs =>
      cases k with
      | zero =>
        simp only [List.getElem?_cons_zero, Option.some.injEq] at h h'
        rw [← h, ← h', ← hw.1, ← hv.1]
      | succ k => exact ih (a + 4) vs k hw.2 hv.2 h h'

/-- A word too many: the fields from `eip` on are one word off, down to the flags. -/
theorem extra_word (c : Cpu) (mem : Mem) (a : Nat) (vec_no vec_no' err dummy dummy' : UInt32) (hc : RealContext c)
    (h : StackAt mem a (savedRegs c vec_no dummy ([0, err] ++ intrFrame c)))
    (h' : StackAt mem a (intr_stack c vec_no' err dummy')) : False := by
  have h13 := stackAt_same mem a _ _ 13 _ _ h h' rfl rfl
  have h14 := stackAt_same mem a _ _ 14 _ _ h h' rfl rfl
  have h15 := stackAt_same mem a _ _ 15 _ _ h h' rfl rfl
  have h16 := stackAt_same mem a _ _ 16 _ _ h h' rfl rfl
  have hflags := hc.flags
  rw [← h16, ← h15, ← h14, ← h13] at hflags
  simp at hflags

/-- A word too few: the selector is where the flags should be. -/
theorem missing_word (c : Cpu) (mem : Mem) (a : Nat) (vec_no vec_no' err dummy dummy' : UInt32) (hc : RealContext c)
    (h : StackAt mem a (savedRegs c vec_no dummy (intrFrame c)))
    (h' : StackAt mem a (intr_stack c vec_no' err dummy')) : False := by
  have h15 : c.eflags = (c.seg .cs).toUInt32 := stackAt_same mem a _ _ 15 _ _ h h' rfl rfl
  by_cases ho : outer c = true
  · -- the selectors of code and stack come out the same
    simp only [savedRegs, intr_stack, intrFrame, ho, if_true] at h h'
    have h16 : c.esp = c.eflags := stackAt_same mem a _ _ 16 _ _ h h' rfl rfl
    have h17 : (c.seg .ss).toUInt32 = c.esp := stackAt_same mem a _ _ 17 _ _ h h' rfl rfl
    apply hc.code
    rw [← UInt16.toUInt16_toUInt32 (c.seg .cs), ← h15, ← h16, ← h17, UInt16.toUInt16_toUInt32]
  · -- a selector of the kernel has no bit 1
    have hflags := hc.flags
    have ho : outer c = false := by simpa using ho
    have hcpl : ¬ SELECTOR_K_CODE &&& 3 < c.cpl := of_decide_eq_false ho
    have hzero : (c.seg .cs).toNat % 4 = 0 := by
      have : (c.seg .cs &&& 3).toNat = (c.seg .cs).toNat % 4 := by
        rw [UInt16.toNat_and]
        exact Nat.and_two_pow_sub_one_eq_mod _ 2
      rw [UInt16.lt_iff_toNat_lt, Cpu.cpl, this] at hcpl
      have h0 : (SELECTOR_K_CODE &&& 3).toNat = 0 := by decide
      omega
    rw [h15, UInt16.toNat_toUInt32] at hflags
    omega

/-- The handler of a misplaced vector finds a frame that is one word off. -/
theorem misplaced_frame (fn : Functions) (idt_table ret stub esp0 : UInt32) (v : Nat) (err : UInt32) (c : Cpu)
    (hc : RealContext c) (hroom : 84 ≤ intrBase esp0 c) (hmem : v ∈ misplaced) :
    ¬ Transparent fn idt_table ret stub esp0 v err c := by
  rintro ⟨⟨err_code, dummy', herr, hst⟩, -⟩
  obtain ⟨dummy, h⟩ := entry_shows c idt_table ret v err stub esp0 hroom
  rcases between_misplaced v err hmem with ⟨hb, hpe⟩ | hb
  · rw [hb] at h
    rw [herr hpe] at hst
    exact extra_word c _ _ _ _ err dummy dummy' hc h.stack.2 hst
  · rw [hb] at h
    exact missing_word c _ _ _ _ err_code dummy dummy' hc h.stack.2 hst

/-- The interrupt of any other vector goes in and out again. -/
theorem placed_frame (fn : Functions) (idt_table ret stub esp0 : UInt32) (v : Nat) (err : UInt32) (c : Cpu)
    (hv : v ≤ 0x2f) (hroom : 84 ≤ intrBase esp0 c)
    (hfn : ∀ handler entry, VECTOR_call idt_table ret v (intr_entry_table v) (raise v err stub esp0 c) =
      (handler, entry) → HandlerReturns (intrBase esp0 c) entry (fn handler entry)) (hmem : v ∉ misplaced) :
    Transparent fn idt_table ret stub esp0 v err c := by
  obtain ⟨dummy, h⟩ := entry_shows c idt_table ret v err stub esp0 hroom
  obtain ⟨handler, entry, hcall⟩ : ∃ handler entry,
    VECTOR_call idt_table ret v (intr_entry_table v) (raise v err stub esp0 c) = (handler, entry) := ⟨_, _, rfl⟩
  obtain ⟨e, hb, he⟩ := between_one v err hv hmem
  rw [hcall, hb] at h
  unfold Transparent VECTOR
  simp only [hcall]
  obtain ⟨b, hback⟩ := handler_shows _ _ _ _ _ _ _ _ _ _ h (hfn handler entry hcall)
  exact ⟨⟨e, dummy, he, h.stack.2⟩, exit_restores c _ esp0 _ _ b dummy e hback⟩

/-- **Interrupts are transparent.** An interrupt with vector 0 to 0x2f, whose handler keeps to cdecl,
shows the handler a `struct intr_stack` and gives back the interrupted context, exactly when its line
of `intr_entry_table` agrees with the processor about the error code. -/
theorem interrupt_transparent (fn : Functions) (idt_table ret stub esp0 : UInt32) (v : Nat) (err : UInt32) (c : Cpu)
    (hv : v ≤ 0x2f) (hc : RealContext c) (hroom : 84 ≤ intrBase esp0 c)
    (hfn : ∀ handler entry, VECTOR_call idt_table ret v (intr_entry_table v) (raise v err stub esp0 c) =
      (handler, entry) → HandlerReturns (intrBase esp0 c) entry (fn handler entry)) :
    Transparent fn idt_table ret stub esp0 v err c ↔ v ∉ misplaced := by
  constructor
  · intro h hmem
    exact misplaced_frame fn idt_table ret stub esp0 v err c hc hroom hmem h
  · exact placed_frame fn idt_table ret stub esp0 v err c hv hroom hfn

/-! ## A user program that is interrupted -/

def returns : Functions := fun _ c => c.addEsp 4

theorem returns_handler (base : Nat) (handler : UInt32) (entry : Cpu) :
    HandlerReturns base entry (returns handler entry) := by
  refine ⟨?_, ?_, ?_, ?_, ?_, ?_, ?_⟩
  all_goals intros
  all_goals simp [returns, Cpu.addEsp, Cpu.setReg, Cpu.esp]

theorem asksPid_real (mem : Mem) : RealContext (asksPid mem) :=
  ⟨by simp [asksPid], by simp [asksPid]⟩

/-- The timer. -/
theorem interrupt_transparent_timer :
    Transparent returns 0xc0006000 0xc0001000 0xc0000f00 0xc0101000 0x20 0 (asksPid fun _ => 0) :=
  (interrupt_transparent returns _ _ _ _ 0x20 0 (asksPid fun _ => 0) (by decide) (asksPid_real _) (by decide)
    fun handler entry _ => returns_handler _ handler entry).mpr (by decide)

/-- A stack fault, vector 12: the processor pushes an error code, and the stub a 0. -/
theorem interrupt_stack_fault : ¬ ∀ (fn : Functions) (idt_table ret stub esp0 : UInt32) (v : Nat) (err : UInt32)
    (c : Cpu), v ≤ 0x2f → RealContext c → 84 ≤ intrBase esp0 c →
    (∀ handler entry, VECTOR_call idt_table ret v (intr_entry_table v) (raise v err stub esp0 c) =
      (handler, entry) → HandlerReturns (intrBase esp0 c) entry (fn handler entry)) →
    Transparent fn idt_table ret stub esp0 v err c := by
  intro hall
  refine misplaced_frame returns 0xc0006000 0xc0001000 0xc0000f00 0xc0101000 0x0C 0 (asksPid fun _ => 0)
    (asksPid_real _) (by decide) (by decide) (hall _ _ _ _ _ _ _ _ (by decide) (asksPid_real _) (by decide) ?_)
  exact fun handler entry _ => returns_handler _ handler entry

end OsLearn
