import OsLearn.Lib.X86

/-!
# `kernel/kernel.S`: `int 0x80`, `syscall_handler` and `intr_exit`
-/

open OsLearn.X86

namespace OsLearn

def SELECTOR_K_CODE : UInt16 := 8

def SELECTOR_K_STACK : UInt16 := 16

def EOI : UInt8 := 0x20

/-- The first part of `syscall_handler`: the context, the EOI and the three arguments. -/
def syscall_handler_save : List Instr :=
  [.pushImm 0, .pushSeg .ds, .pushSeg .es, .pushSeg .fs, .pushSeg .gs, .pushad,
    .movAl EOI, .outAl 0xa0, .outAl 0x20,
    .pushImm 0x80, .pushReg .edx, .pushReg .ecx, .pushReg .ebx]

/-- Its last part: the result goes into the slot of `eax`. -/
def syscall_handler_result : List Instr := [.addEsp 12, .storeEsp ((1 + 7) * 4) .eax]

/-- `intr_exit`, up to its `iret`. -/
def intr_exit_restore : List Instr :=
  [.addEsp 4, .popad, .popSeg .gs, .popSeg .fs, .popSeg .es, .popSeg .ds, .addEsp 4]

def intr_exit (c : Cpu) : Cpu := (run intr_exit_restore c).iret

/-- The code of the C functions: from the first instruction of the function at an address to its
return. -/
abbrev Functions := UInt32 → Cpu → Cpu

/-- `syscall_handler`, with the functions it calls: their address, and the machine they start in.
`ret` is the address behind the `call`. -/
def syscall_handler (fn : Functions) (syscall_table ret : UInt32) (c : Cpu) : Cpu × List (UInt32 × Cpu) :=
  let c := run syscall_handler_save c
  -- call [syscall_table + eax * 4]
  let f := read32 c.mem (syscall_table + c.reg .eax * 4).toNat
  let entry := c.push ret
  let c := fn f entry
  let c := run syscall_handler_result c
  (intr_exit c, [(f, entry)])

/-- `int 0x80` in a user program: through the gate to `syscall_handler`, on the stack `esp0` of the
TSS. `eip` is the instruction behind the `int`. -/
def int_0x80 (fn : Functions) (syscall_table ret handler esp0 : UInt32) (c : Cpu) : Cpu × List (UInt32 × Cpu) :=
  syscall_handler fn syscall_table ret (c.interrupt SELECTOR_K_CODE handler SELECTOR_K_STACK esp0)

def tableEntry (syscall_table : UInt32) (mem : Mem) (n : Nat) : UInt32 := read32 mem (syscall_table.toNat + 4 * n)

/-- A function that keeps to cdecl with three words of arguments. They are its own, the stack above
them up to `base` is not. -/
structure Cdecl (base : Nat) (f : Cpu → Cpu) : Prop where
  ebx : ∀ c, (f c).reg .ebx = c.reg .ebx
  esi : ∀ c, (f c).reg .esi = c.reg .esi
  edi : ∀ c, (f c).reg .edi = c.reg .edi
  ebp : ∀ c, (f c).reg .ebp = c.reg .ebp
  esp : ∀ c, (f c).esp = c.esp + 4
  seg : ∀ c, (f c).seg = c.seg
  mem : ∀ c x, c.esp.toNat + 16 ≤ x → x < base → (f c).mem x = c.mem x

/-- What a system call must do: call entry `nr` of the table once, with `ebx`, `ecx` and `edx`, and
come back with its result in `eax` and nothing else changed. -/
def SyscallOk (fn : Functions) (syscall_table ret handler esp0 : UInt32) (nr : Nat) (c : Cpu) : Prop :=
  let r := int_0x80 fn syscall_table ret handler esp0 c
  ∃ entry, r.2 = [(tableEntry syscall_table c.mem nr, entry)] ∧
    StackAt entry.mem (entry.esp.toNat + 4) [c.reg .ebx, c.reg .ecx, c.reg .edx] ∧
    r.1.reg = Function.update c.reg .eax ((fn (tableEntry syscall_table c.mem nr) entry).reg .eax) ∧
    r.1.seg = c.seg ∧ r.1.eip = c.eip

def userFrame (c : Cpu) : List UInt32 :=
  [c.eip, (c.seg .cs).toUInt32, c.eflags, c.esp, (c.seg .ss).toUInt32]

/-- The words of the registers, as `syscall_handler` and `intr_exit` have them, below the user frame. -/
def savedFrame (c : Cpu) (eax esp : UInt32) : List UInt32 :=
  [0x80, c.reg .edi, c.reg .esi, c.reg .ebp, esp, c.reg .ebx, c.reg .edx, c.reg .ecx, eax,
    (c.seg .gs).toUInt32, (c.seg .fs).toUInt32, (c.seg .es).toUInt32, (c.seg .ds).toUInt32, 0] ++ userFrame c

theorem interrupt_shows (c : Cpu) (handler esp0 : UInt32) (lo : Nat) (hlt : SELECTOR_K_CODE &&& 3 < c.cpl)
    (hlo : lo + 20 ≤ esp0.toNat) :
    Shows lo c.mem (c.interrupt SELECTOR_K_CODE handler SELECTOR_K_STACK esp0)
      { base := esp0.toNat
        reg := c.reg
        seg := Function.update (Function.update c.seg .ss SELECTOR_K_STACK) .cs SELECTOR_K_CODE
        stack := userFrame c } := by
  have h0 : Shows lo c.mem ((c.setSeg .ss SELECTOR_K_STACK).setReg .esp esp0)
      { base := esp0.toNat, reg := c.reg, seg := Function.update c.seg .ss SELECTOR_K_STACK, stack := [] } := by
    refine ⟨by simp; omega, esp0.toNat_lt, fun r hr => ?_, rfl, ?_, trivial, fun _ _ => rfl⟩
    · simp [Cpu.setReg, Cpu.setSeg, hr]
    · simp [Cpu.setReg, Cpu.esp]
  have h1 := shows_push _ _ _ _ (c.seg .ss).toUInt32 h0 (by simp; omega)
  have h2 := shows_push _ _ _ _ c.esp h1 (by simp [View.push]; omega)
  have h3 := shows_push _ _ _ _ c.eflags h2 (by simp [View.push]; omega)
  have h4 := shows_push _ _ _ _ (c.seg .cs).toUInt32 h3 (by simp [View.push]; omega)
  have h5 := shows_push _ _ _ _ c.eip h4 (by simp [View.push]; omega)
  have h6 := shows_setSeg _ _ _ _ .cs SELECTOR_K_CODE h5
  have heq : c.interrupt SELECTOR_K_CODE handler SELECTOR_K_STACK esp0 =
      { ((((((((c.setSeg .ss SELECTOR_K_STACK).setReg .esp esp0).push (c.seg .ss).toUInt32).push c.esp).push
        c.eflags).push (c.seg .cs).toUInt32).push c.eip).setSeg .cs SELECTOR_K_CODE) with
        eip := handler, eflags := c.eflags &&& ~~~0x4300 } := by
    simp only [Cpu.interrupt, if_pos hlt]
    rfl
  rw [heq]
  exact shows_flags _ _ _ _ _ _ h6

def eoiEax (eax : UInt32) : UInt32 := (eax &&& 0xffffff00) ||| EOI.toUInt32

/-- At the `call`: the arguments on top of the saved context, and the EOI in `al`. -/
theorem save_run (c : Cpu) (lo base : Nat) (seg : Seg → UInt16) (hlo : lo + 92 = base)
    (hds : seg .ds = c.seg .ds) (hes : seg .es = c.seg .es) (hfs : seg .fs = c.seg .fs) (hgs : seg .gs = c.seg .gs) :
    View.run lo syscall_handler_save { base := base, reg := c.reg, seg := seg, stack := userFrame c } =
      some { base := base
             reg := Function.update c.reg .eax (eoiEax (c.reg .eax))
             seg := seg
             stack := [c.reg .ebx, c.reg .ecx, c.reg .edx] ++
               savedFrame c (c.reg .eax) (UInt32.ofNat (base - 40)) } := by
  subst hlo
  simp [View.run, syscall_handler_save, View.step, View.push?, View.push, View.setReg, View.get, View.esp,
    userFrame, savedFrame, eoiEax, hds, hes, hfs, hgs]

theorem restore_run (c : Cpu) (lo base : Nat) (reg : Reg → UInt32) (seg : Seg → UInt16) (eax esp a1 a2 a3 : UInt32) :
    View.run lo (syscall_handler_result ++ intr_exit_restore)
        { base := base, reg := reg, seg := seg, stack := [a1, a2, a3] ++ savedFrame c eax esp } =
      some { base := base
             reg := fun r => match r with
               | .eax => reg .eax
               | .esp => reg .esp
               | r => c.reg r
             seg := fun s => match s with
               | .cs => seg .cs
               | .ss => seg .ss
               | s => c.seg s
             stack := userFrame c } := by
  simp [View.run, syscall_handler_result, intr_exit_restore, View.step, View.drop, View.setReg, View.get,
    userFrame, savedFrame]
  constructor
  · funext r
    cases r <;> simp
  · funext s
    cases s <;> simp

theorem call_shows (lo base : Nat) (mem : Mem) (c : Cpu) (f : Cpu → Cpu) (reg : Reg → UInt32) (seg : Seg → UInt16)
    (ret a1 a2 a3 : UInt32) (ws : List UInt32)
    (h : Shows lo mem c { base := base, reg := reg, seg := seg, stack := ret :: a1 :: a2 :: a3 :: ws })
    (hf : Cdecl base f) : ∃ b1 b2 b3, Shows lo (f c).mem (f c)
      { base := base, reg := (f c).reg, seg := seg, stack := b1 :: b2 :: b3 :: ws } := by
  have he := h.esp
  have hroom := h.room
  have hb := h.base_lt
  simp only [List.length_cons] at he hroom hb
  have hesp : (f c).esp.toNat = c.esp.toNat + 4 := by
    rw [hf.esp, UInt32.toNat_add]
    exact Nat.mod_eq_of_lt (by show c.esp.toNat + 4 < 2 ^ 32; omega)
  have hs : StackAt (f c).mem (c.esp.toNat + 16) ws := by
    refine stackAt_congr c.mem _ _ ws (fun x h1 h2 => hf.mem c x h1 (by omega)) ?_
    exact h.stack.2.2.2.2
  refine ⟨read32 (f c).mem (c.esp.toNat + 4), read32 (f c).mem (c.esp.toNat + 8),
    read32 (f c).mem (c.esp.toNat + 12), ?_, hb, fun _ _ => rfl, ?_, ?_, ?_, fun _ _ => rfl⟩
  · simp only [List.length_cons]
    omega
  · rw [hf.seg]
    exact h.seg
  · simp only [List.length_cons]
    omega
  · rw [hesp]
    exact ⟨rfl, rfl, rfl, hs⟩

/-- Every number below 32 becomes 0x20: the EOI has overwritten it. -/
theorem eoiEax_small (nr : Nat) (h : nr < 32) : eoiEax (UInt32.ofNat nr) = 0x20 := by
  have : ∀ n : Fin 32, eoiEax (UInt32.ofNat n.val) = 0x20 := by decide
  exact this ⟨nr, h⟩

/-- Where the table is, and that it is not on the kernel stack of the task. -/
structure TableAt (syscall_table esp0 : UInt32) : Prop where
  stack : 92 ≤ esp0.toNat
  table : syscall_table.toNat + 132 ≤ 2 ^ 32
  apart : syscall_table.toNat + 132 ≤ esp0.toNat - 92 ∨ esp0.toNat ≤ syscall_table.toNat

theorem tableEntry_frame (syscall_table esp0 : UInt32) (mem mem' : Mem) (n : Nat) (hn : n ≤ 32)
    (ht : TableAt syscall_table esp0)
    (h : ∀ x, x < esp0.toNat - 92 ∨ esp0.toNat ≤ x → mem' x = mem x) :
    tableEntry syscall_table mem' n = tableEntry syscall_table mem n := by
  have hs := ht.stack
  apply read32_congr
  intro x h1 h2
  apply h
  rcases ht.apart with ha | ha
  · exact .inl (by omega)
  · exact .inr (by omega)

/-- The address that `call` reads: word 32, one behind the table. -/
theorem call_target (syscall_table esp0 : UInt32) (mem mem' : Mem) (eax : UInt32) (heax : eax = 0x20)
    (ht : TableAt syscall_table esp0)
    (h : ∀ x, x < esp0.toNat - 92 ∨ esp0.toNat ≤ x → mem' x = mem x) :
    read32 mem' (syscall_table + eax * 4).toNat = tableEntry syscall_table mem 32 := by
  have ha : (syscall_table + eax * 4).toNat = syscall_table.toNat + 4 * 32 := by
    have := ht.table
    rw [heax, UInt32.toNat_add]
    exact Nat.mod_eq_of_lt (by show syscall_table.toNat + 128 < 2 ^ 32; omega)
  rw [ha]
  exact tableEntry_frame syscall_table esp0 mem mem' 32 (Nat.le_refl _) ht h

theorem return_eq (lo base : Nat) (c d : Cpu) (mem : Mem) (reg : Reg → UInt32) (seg : Seg → UInt16)
    (eax esp b1 b2 b3 : UInt32) (hcs : seg .cs = SELECTOR_K_CODE) (hcpl : c.cpl = 3)
    (h : Shows lo mem d { base := base, reg := reg, seg := seg, stack := b1 :: b2 :: b3 :: savedFrame c eax esp }) :
    let r := intr_exit (run syscall_handler_result d)
    r.reg = Function.update c.reg .eax (reg .eax) ∧ r.seg = c.seg ∧ r.eip = c.eip := by
  have hr := shows_run lo mem _ d _ _ h (restore_run c lo base reg seg eax esp b1 b2 b3)
  have hcode : run (syscall_handler_result ++ intr_exit_restore) d =
      run intr_exit_restore (run syscall_handler_result d) := List.foldl_append
  rw [hcode] at hr
  have hlevel : SELECTOR_K_CODE &&& 3 < (c.seg .cs).toUInt32.toUInt16 &&& 3 := by
    rw [UInt16.toUInt16_toUInt32]
    show SELECTOR_K_CODE &&& 3 < c.cpl
    rw [hcpl]
    decide
  obtain ⟨hreg, hseg, heip, -⟩ := iret_outer lo mem _ _ _ _ _ _ _ hr rfl (by simpa [hcs] using hlevel)
  refine ⟨?_, ?_, heip⟩
  · rw [intr_exit, hreg]
    funext r
    cases r <;> simp [Cpu.esp]
  · rw [intr_exit, hseg]
    funext s
    cases s <;> simp

theorem int_0x80_eq (fn : Functions) (syscall_table ret handler esp0 : UInt32) (nr : Nat) (c : Cpu)
    (hnr : nr < 32) (heax : c.reg .eax = UInt32.ofNat nr) (hcpl : c.cpl = 3) (ht : TableAt syscall_table esp0) :
    ∃ entry, int_0x80 fn syscall_table ret handler esp0 c =
        (intr_exit (run syscall_handler_result (fn (tableEntry syscall_table c.mem 32) entry)),
          [(tableEntry syscall_table c.mem 32, entry)]) ∧
      Shows (esp0.toNat - 92) c.mem entry
        { base := esp0.toNat
          reg := Function.update c.reg .eax (eoiEax (c.reg .eax))
          seg := Function.update (Function.update c.seg .ss SELECTOR_K_STACK) .cs SELECTOR_K_CODE
          stack := ret :: c.reg .ebx :: c.reg .ecx :: c.reg .edx ::
            savedFrame c (c.reg .eax) (UInt32.ofNat (esp0.toNat - 40)) } := by
  have hlo : esp0.toNat - 92 + 92 = esp0.toNat := by have := ht.stack; omega
  have hlt : SELECTOR_K_CODE &&& 3 < c.cpl := by rw [hcpl]; decide
  have h1 := interrupt_shows c handler esp0 (esp0.toNat - 92) hlt (by omega)
  have h2 := shows_run _ _ _ _ _ _ h1 (save_run c _ _ _ hlo (by simp) (by simp) (by simp) (by simp))
  have h3 := shows_push _ _ _ _ ret h2 (by simp [savedFrame, userFrame]; omega)
  have hal := h2.reg .eax (by decide)
  simp only [Function.update_self, heax, eoiEax_small nr hnr] at hal
  have hf := call_target syscall_table esp0 c.mem _ _ hal ht h2.frame
  refine ⟨_, ?_, h3⟩
  simp only [int_0x80, syscall_handler, hf]

/-- **System calls.** `int 0x80` with a number below 32 does what it must exactly when the word behind
the table is the entry of that number: `mov al, EOI` comes between the number and its use. -/
theorem syscall_dispatch (fn : Functions) (syscall_table ret handler esp0 : UInt32) (nr : Nat) (c : Cpu)
    (hnr : nr < 32) (heax : c.reg .eax = UInt32.ofNat nr) (hcpl : c.cpl = 3) (ht : TableAt syscall_table esp0)
    (hfn : ∀ k < 32, Cdecl esp0.toNat (fn (tableEntry syscall_table c.mem k))) :
    SyscallOk fn syscall_table ret handler esp0 nr c ↔
      tableEntry syscall_table c.mem 32 = tableEntry syscall_table c.mem nr := by
  obtain ⟨entry, hrun, h⟩ := int_0x80_eq fn syscall_table ret handler esp0 nr c hnr heax hcpl ht
  unfold SyscallOk
  rw [hrun]
  constructor
  · rintro ⟨entry', hcalls, -⟩
    simp only [List.cons.injEq, Prod.mk.injEq, and_true] at hcalls
    exact hcalls.1
  · intro heq
    obtain ⟨b1, b2, b3, hback⟩ := call_shows _ _ _ _ _ _ _ _ _ _ _ _ h (hfn nr hnr)
    refine ⟨entry, by rw [heq], ?_, ?_⟩
    · have hst := h.stack.2
      exact ⟨hst.1, hst.2.1, hst.2.2.1, trivial⟩
    · rw [heq]
      exact return_eq _ _ c _ _ _ _ _ _ b1 b2 b3 (by simp) hcpl hback

/-! ## A user program that asks for its pid -/

/-- `sys_getpid` of task 7, at any address. -/
def getpid : Functions := fun _ c => (c.addEsp 4).setReg .eax 7

theorem getpid_cdecl (base : Nat) (f : UInt32) : Cdecl base (getpid f) := by
  refine ⟨?_, ?_, ?_, ?_, ?_, ?_, ?_⟩
  all_goals intros
  all_goals simp [getpid, Cpu.addEsp, Cpu.setReg, Cpu.esp]

/-- A program with `SYS_GETPID` in `eax`. The table is at 0xc0005000. -/
def asksPid (mem : Mem) : Cpu where
  reg := fun _ => 0
  seg := fun s => if s = .cs then 0x2b else 0x33
  eip := 0x8048000
  eflags := 0x202
  mem := mem
  ports := []

def oneEntry : Mem := write32 (fun _ => 0) 0xc0005000 0xc0001500

theorem tableAt_c0005000 : TableAt 0xc0005000 0xc0101000 := ⟨by decide, by decide, by decide⟩

theorem syscall_dispatch_getpid :
    SyscallOk getpid 0xc0005000 0xc0001000 0xc0000f00 0xc0101000 0 (asksPid (write32 oneEntry 0xc0005080 0xc0001500)) :=
  (syscall_dispatch getpid _ _ _ _ 0 (asksPid (write32 oneEntry 0xc0005080 0xc0001500)) (by decide) rfl rfl
    tableAt_c0005000 fun _ _ => getpid_cdecl _ _).mpr (by decide +kernel)

/-- With 0 behind the table, the program does not get to `sys_getpid`. -/
theorem syscall_misdispatch : ¬ ∀ (fn : Functions) (syscall_table ret handler esp0 : UInt32) (nr : Nat) (c : Cpu),
    nr < 32 → c.reg .eax = UInt32.ofNat nr → c.cpl = 3 → TableAt syscall_table esp0 →
    (∀ k < 32, Cdecl esp0.toNat (fn (tableEntry syscall_table c.mem k))) →
    SyscallOk fn syscall_table ret handler esp0 nr c := by
  intro hall
  have hok := hall getpid 0xc0005000 0xc0001000 0xc0000f00 0xc0101000 0 (asksPid oneEntry) (by decide) rfl rfl
    tableAt_c0005000 fun _ _ => getpid_cdecl _ _
  obtain ⟨entry, hrun, -⟩ := int_0x80_eq getpid 0xc0005000 0xc0001000 0xc0000f00 0xc0101000 0 (asksPid oneEntry)
    (by decide) rfl rfl tableAt_c0005000
  obtain ⟨entry', hcalls, -⟩ := hok
  rw [hrun] at hcalls
  simp only [List.cons.injEq, Prod.mk.injEq, and_true] at hcalls
  exact absurd hcalls.1 (by decide +kernel)

end OsLearn
