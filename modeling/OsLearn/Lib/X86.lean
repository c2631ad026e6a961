import OsLearn.Lib.Bytes

/-!
# The part of the 386 that interrupt entries use

Registers, a flat memory, the stack instructions, `int` and `iret`. The stack is seen as the list of
the words from `esp` upwards.
-/

namespace OsLearn.X86

inductive Reg where
  | eax | ecx | edx | ebx | esp | ebp | esi | edi
  deriving DecidableEq, Repr

inductive Seg where
  | cs | ds | es | fs | gs | ss
  deriving DecidableEq, Repr

structure Cpu where
  reg : Reg → UInt32
  seg : Seg → UInt16
  eip : UInt32
  eflags : UInt32
  mem : Mem
  -- The bytes sent to ports, in order.
  ports : List (UInt16 × UInt8)

namespace Cpu

def esp (c : Cpu) : UInt32 := c.reg .esp

def setReg (c : Cpu) (r : Reg) (v : UInt32) : Cpu := { c with reg := Function.update c.reg r v }

def setSeg (c : Cpu) (s : Seg) (v : UInt16) : Cpu := { c with seg := Function.update c.seg s v }

def push (c : Cpu) (v : UInt32) : Cpu :=
  { c.setReg .esp (c.esp - 4) with mem := write32 c.mem (c.esp - 4).toNat v }

def top (c : Cpu) : UInt32 := read32 c.mem c.esp.toNat

def addEsp (c : Cpu) (n : UInt32) : Cpu := c.setReg .esp (c.esp + n)

def popReg (c : Cpu) (r : Reg) : Cpu := (c.addEsp 4).setReg r c.top

def popSeg (c : Cpu) (s : Seg) : Cpu := (c.addEsp 4).setSeg s c.top.toUInt16

/-- `pushad`, with the `esp` from before it. -/
def pushad (c : Cpu) : Cpu :=
  let esp := c.esp
  ((((((((c.push (c.reg .eax)).push (c.reg .ecx)).push (c.reg .edx)).push (c.reg .ebx)).push esp).push
    (c.reg .ebp)).push (c.reg .esi)).push (c.reg .edi))

/-- `popad`: the saved `esp` is skipped. -/
def popad (c : Cpu) : Cpu :=
  (((((((c.popReg .edi).popReg .esi).popReg .ebp).addEsp 4).popReg .ebx).popReg .edx).popReg .ecx).popReg .eax

def cpl (c : Cpu) : UInt16 := c.seg .cs &&& 3

/-- An interrupt through a gate to `selector:offset`. From an outer level the stack is changed to
`ss0:esp0` first. The gate is an interrupt gate: IF, TF and NT are cleared. -/
def interrupt (c : Cpu) (selector : UInt16) (offset : UInt32) (ss0 : UInt16) (esp0 : UInt32) : Cpu :=
  let old := c
  let c := if selector &&& 3 < c.cpl then
      (((c.setSeg .ss ss0).setReg .esp esp0).push (old.seg .ss).toUInt32).push old.esp
    else c
  let c := ((c.push old.eflags).push (old.seg .cs).toUInt32).push old.eip
  { c.setSeg .cs selector with eip := offset, eflags := c.eflags &&& ~~~0x4300 }

def popFrame (c : Cpu) : Cpu :=
  let c := { c.addEsp 4 with eip := c.top }
  let c := c.popSeg .cs
  { c.addEsp 4 with eflags := c.top }

def popStack (c : Cpu) : Cpu :=
  let esp := c.top
  ((c.addEsp 4).popSeg .ss).setReg .esp esp

/-- `iret`, which also pops the stack of an outer level it goes back to. -/
def iret (c : Cpu) : Cpu :=
  let level := c.cpl
  let c := c.popFrame
  if level < c.cpl then c.popStack else c

end Cpu

/-! ## The stack as a list -/

def StackAt (mem : Mem) : Nat → List UInt32 → Prop
  | _, [] => True
  | a, w :: ws => read32 mem a = w ∧ StackAt mem (a + 4) ws

theorem stackAt_congr (mem mem' : Mem) (a : Nat) (ws : List UInt32)
    (h : ∀ x, a ≤ x → x < a + 4 * ws.length → mem' x = mem x) (hs : StackAt mem a ws) : StackAt mem' a ws := by
  induction ws generalizing a with
  | nil => trivial
  | cons w ws ih =>
    obtain ⟨hw, hs⟩ := hs
    simp only [List.length_cons] at h
    refine ⟨?_, ih (a + 4) (fun x h1 h2 => h x (by omega) (by omega)) hs⟩
    rw [read32_congr mem mem' a (fun x h1 h2 => h x h1 (by omega)), hw]

theorem stackAt_append (mem : Mem) (a : Nat) (ws vs : List UInt32) :
    StackAt mem a (ws ++ vs) ↔ StackAt mem a ws ∧ StackAt mem (a + 4 * ws.length) vs := by
  induction ws generalizing a with
  | nil => simp [StackAt]
  | cons w ws ih =>
    simp only [List.cons_append, StackAt, ih, List.length_cons, and_assoc]
    rw [show a + 4 + 4 * ws.length = a + 4 * (ws.length + 1) from by omega]

theorem stackAt_set (mem : Mem) (a : Nat) (ws : List UInt32) (k : Nat) (v : UInt32) (h : StackAt mem a ws)
    (hk : k < ws.length) : StackAt (write32 mem (a + 4 * k) v) a (ws.set k v) := by
  induction ws generalizing a k with
  | nil => simp at hk
  | cons w ws ih =>
    obtain ⟨hw, hs⟩ := h
    cases k with
    | zero =>
      refine ⟨read32_write32 mem _ v, stackAt_congr mem _ _ ws (fun x h1 _ => ?_) hs⟩
      exact write32_other mem _ v x (by omega)
    | succ k =>
      simp only [List.length_cons] at hk
      refine ⟨?_, ?_⟩
      · rw [read32_write32_other mem _ a v (by omega), hw]
      · have := ih (a + 4) k hs (by omega)
        rwa [show a + 4 + 4 * k = a + 4 * (k + 1) from by omega] at this

theorem stackAt_get (mem : Mem) (a : Nat) (ws : List UInt32) (k : Nat) (w : UInt32) (h : StackAt mem a ws)
    (hk : ws[k]? = some w) : read32 mem (a + 4 * k) = w := by
  induction ws generalizing a k with
  | nil => simp at hk
  | cons v ws ih =>
    obtain ⟨hv, hs⟩ := h
    cases k with
    | zero => exact hv.trans (by simpa using hk)
    | succ k =>
      rw [show a + 4 * (k + 1) = a + 4 + 4 * k by omega]
      exact ih (a + 4) k hs (by simpa using hk)

/-! ## Straight-line code -/

inductive Instr where
  | pushImm (v : UInt32)
  | pushReg (r : Reg)
  | pushSeg (s : Seg)
  | pushad
  | popad
  | popSeg (s : Seg)
  -- `add esp, n`
  | addEsp (n : UInt32)
  -- `mov al, v`
  | movAl (v : UInt8)
  -- `out port, al`
  | outAl (port : UInt16)
  -- `mov [esp + disp], r`
  | storeEsp (disp : UInt32) (r : Reg)
  deriving DecidableEq, Repr

def Instr.exec (c : Cpu) : Instr → Cpu
  | .pushImm v => c.push v
  | .pushReg r => c.push (c.reg r)
  | .pushSeg s => c.push (c.seg s).toUInt32
  | .pushad => c.pushad
  | .popad => c.popad
  | .popSeg s => c.popSeg s
  | .addEsp n => c.addEsp n
  | .movAl v => c.setReg .eax ((c.reg .eax &&& 0xffffff00) ||| v.toUInt32)
  | .outAl port => { c with ports := c.ports ++ [(port, (c.reg .eax).toUInt8)] }
  | .storeEsp disp r => { c with mem := write32 c.mem (c.esp + disp).toNat (c.reg r) }

def run (code : List Instr) (c : Cpu) : Cpu := code.foldl Instr.exec c

/-! ## The same code on a stack that is a list -/

/-- The processor without its memory: the stack is a list, and ends at `base`. -/
structure View where
  base : Nat
  reg : Reg → UInt32
  seg : Seg → UInt16
  stack : List UInt32

namespace View

def esp (v : View) : UInt32 := UInt32.ofNat (v.base - 4 * v.stack.length)

def get (v : View) (r : Reg) : UInt32 := if r = .esp then v.esp else v.reg r

def push (v : View) (w : UInt32) : View := { v with stack := w :: v.stack }

def setReg (v : View) (r : Reg) (w : UInt32) : View := { v with reg := Function.update v.reg r w }

def drop (v : View) (n : Nat) : View := { v with stack := v.stack.drop n }

end View

/-- `c` looks like `v`, above address `lo`. The rest of the memory is that of `mem`. -/
structure Shows (lo : Nat) (mem : Mem) (c : Cpu) (v : View) : Prop where
  room : lo + 4 * v.stack.length ≤ v.base
  base_lt : v.base < 2 ^ 32
  reg : ∀ r, r ≠ .esp → c.reg r = v.reg r
  seg : c.seg = v.seg
  esp : c.esp.toNat + 4 * v.stack.length = v.base
  stack : StackAt c.mem c.esp.toNat v.stack
  frame : ∀ x, x < lo ∨ v.base ≤ x → c.mem x = mem x

theorem shows_push (lo : Nat) (mem : Mem) (c : Cpu) (v : View) (w : UInt32) (h : Shows lo mem c v)
    (hroom : lo + 4 * (v.stack.length + 1) ≤ v.base) : Shows lo mem (c.push w) (v.push w) := by
  have hlen : (v.push w).stack.length = v.stack.length + 1 := rfl
  have hesp : (c.esp - 4).toNat = c.esp.toNat - 4 := by
    have := h.esp
    rw [UInt32.toNat_sub_of_le]
    · rfl
    · rw [UInt32.le_iff_toNat_le]
      show 4 ≤ _
      omega
  have hesp' : (c.push w).esp = c.esp - 4 := by simp [Cpu.push, Cpu.esp, Cpu.setReg]
  have hge : 4 ≤ c.esp.toNat := by have := h.esp; omega
  refine ⟨by rw [hlen]; exact hroom, h.base_lt, ?_, h.seg, ?_, ?_, ?_⟩
  · intro r hr
    simpa [Cpu.push, Cpu.setReg, hr, View.push] using h.reg r hr
  · rw [hesp', hesp, hlen]
    have := h.esp
    simp only [View.push]
    omega
  · rw [hesp', hesp]
    refine ⟨?_, ?_⟩
    · show read32 (write32 c.mem (c.esp - 4).toNat w) _ = w
      rw [hesp, read32_write32]
    · rw [show c.esp.toNat - 4 + 4 = c.esp.toNat from by omega]
      refine stackAt_congr c.mem _ _ _ (fun x h1 _ => ?_) h.stack
      show write32 c.mem (c.esp - 4).toNat w x = _
      rw [hesp]
      exact write32_other c.mem _ w x (by omega)
  · intro x hx
    rw [← h.frame x hx]
    show write32 c.mem (c.esp - 4).toNat w x = _
    rw [hesp]
    have := h.esp
    exact write32_other c.mem _ w x (by simp only [View.push] at hx; omega)

theorem shows_drop (lo : Nat) (mem : Mem) (c : Cpu) (v : View) (n : Nat) (d : UInt32) (h : Shows lo mem c v)
    (hd : d.toNat = 4 * n) (hn : n ≤ v.stack.length) : Shows lo mem (c.addEsp d) (v.drop n) := by
  have hlen : (v.drop n).stack.length = v.stack.length - n := List.length_drop
  have hb := h.base_lt
  have he := h.esp
  have hr := h.room
  have hesp : (c.addEsp d).esp.toNat = c.esp.toNat + 4 * n := by
    have : (c.addEsp d).esp = c.esp + d := by simp [Cpu.addEsp, Cpu.setReg, Cpu.esp]
    rw [this, UInt32.toNat_add, hd, Nat.mod_eq_of_lt (by omega)]
  refine ⟨?_, hb, ?_, h.seg, ?_, ?_, h.frame⟩
  · rw [hlen]
    simp only [View.drop]
    omega
  · intro r hr
    simpa [Cpu.addEsp, Cpu.setReg, hr, View.drop] using h.reg r hr
  · rw [hesp, hlen]
    simp only [View.drop]
    omega
  · have hs := h.stack
    rw [← List.take_append_drop n v.stack, stackAt_append, List.length_take, Nat.min_eq_left hn] at hs
    rw [hesp]
    exact hs.2

theorem shows_setReg (lo : Nat) (mem : Mem) (c : Cpu) (v : View) (r : Reg) (w : UInt32) (h : Shows lo mem c v)
    (hr : r ≠ .esp) : Shows lo mem (c.setReg r w) (v.setReg r w) := by
  have hesp : (c.setReg r w).esp = c.esp := by simp [Cpu.setReg, Cpu.esp, Ne.symm hr]
  refine ⟨h.room, h.base_lt, fun r' hr' => ?_, h.seg, ?_, ?_, h.frame⟩
  · by_cases heq : r' = r
    · subst heq
      simp [Cpu.setReg, View.setReg]
    · simpa [Cpu.setReg, View.setReg, heq] using h.reg r' hr'
  · rw [hesp]
    exact h.esp
  · rw [hesp]
    exact h.stack

theorem shows_setSeg (lo : Nat) (mem : Mem) (c : Cpu) (v : View) (s : Seg) (w : UInt16) (h : Shows lo mem c v) :
    Shows lo mem (c.setSeg s w) { v with seg := Function.update v.seg s w } :=
  ⟨h.room, h.base_lt, h.reg, by simp [Cpu.setSeg, h.seg], h.esp, h.stack, h.frame⟩

theorem shows_top (lo : Nat) (mem : Mem) (c : Cpu) (v : View) (w : UInt32) (ws : List UInt32)
    (h : Shows lo mem c v) (hs : v.stack = w :: ws) : c.top = w := by
  have := h.stack
  rw [hs] at this
  exact this.1

theorem shows_get (lo : Nat) (mem : Mem) (c : Cpu) (v : View) (r : Reg) (h : Shows lo mem c v) :
    c.reg r = v.get r := by
  by_cases hr : r = .esp
  · subst hr
    have he := h.esp
    rw [View.get, if_pos rfl, View.esp, show v.base - 4 * v.stack.length = c.esp.toNat from by omega]
    simp [Cpu.esp]
  · rw [View.get, if_neg hr]
    exact h.reg r hr

theorem shows_popReg (lo : Nat) (mem : Mem) (c : Cpu) (v : View) (r : Reg) (w : UInt32) (ws : List UInt32)
    (h : Shows lo mem c v) (hr : r ≠ .esp) (hs : v.stack = w :: ws) :
    Shows lo mem (c.popReg r) { v with reg := Function.update v.reg r w, stack := ws } := by
  have hd := shows_drop lo mem c v 1 4 h rfl (by simp [hs])
  have := shows_setReg lo mem _ _ r w hd hr
  rw [Cpu.popReg, shows_top lo mem c v w ws h hs]
  simpa [View.drop, View.setReg, hs] using this

theorem shows_popSeg (lo : Nat) (mem : Mem) (c : Cpu) (v : View) (s : Seg) (w : UInt32) (ws : List UInt32)
    (h : Shows lo mem c v) (hs : v.stack = w :: ws) :
    Shows lo mem (c.popSeg s) { v with seg := Function.update v.seg s w.toUInt16, stack := ws } := by
  have hd := shows_drop lo mem c v 1 4 h rfl (by simp [hs])
  have := shows_setSeg lo mem _ _ s w.toUInt16 hd
  rw [Cpu.popSeg, shows_top lo mem c v w ws h hs]
  simpa [View.drop, hs] using this

theorem shows_store (lo : Nat) (mem : Mem) (c : Cpu) (v : View) (k : Nat) (d w : UInt32) (h : Shows lo mem c v)
    (hd : d.toNat = 4 * k) (hk : k < v.stack.length) :
    Shows lo mem { c with mem := write32 c.mem (c.esp + d).toNat w } { v with stack := v.stack.set k w } := by
  have he := h.esp
  have hb := h.base_lt
  have hr := h.room
  have ha : (c.esp + d).toNat = c.esp.toNat + 4 * k := by
    rw [UInt32.toNat_add, hd, Nat.mod_eq_of_lt (by omega)]
  rw [ha]
  refine ⟨by simpa using h.room, hb, h.reg, h.seg, ?_, ?_, ?_⟩
  · rw [List.length_set]
    exact h.esp
  · exact stackAt_set c.mem _ v.stack k w h.stack hk
  · intro x hx
    rw [← h.frame x hx]
    exact write32_other c.mem _ w x (by simp only at hx; omega)

namespace View

/-- A push that stays above `lo`. -/
def push? (lo : Nat) (v : View) (w : UInt32) : Option View :=
  if lo + 4 * (v.stack.length + 1) ≤ v.base then some (v.push w) else none

def step (lo : Nat) (v : View) : Instr → Option View
  | .pushImm w => v.push? lo w
  | .pushReg r => v.push? lo (v.get r)
  | .pushSeg s => v.push? lo (v.seg s).toUInt32
  | .pushad => do
    let esp := v.esp
    let v ← v.push? lo (v.reg .eax)
    let v ← v.push? lo (v.reg .ecx)
    let v ← v.push? lo (v.reg .edx)
    let v ← v.push? lo (v.reg .ebx)
    let v ← v.push? lo esp
    let v ← v.push? lo (v.reg .ebp)
    let v ← v.push? lo (v.reg .esi)
    v.push? lo (v.reg .edi)
  | .popad =>
    match v.stack with
    | edi :: esi :: ebp :: _ :: ebx :: edx :: ecx :: eax :: rest =>
      some { ((((((v.setReg .edi edi).setReg .esi esi).setReg .ebp ebp).setReg .ebx ebx).setReg .edx edx).setReg
        .ecx ecx).setReg .eax eax with stack := rest }
    | _ => none
  | .popSeg s =>
    match v.stack with
    | w :: rest => some { v with seg := Function.update v.seg s w.toUInt16, stack := rest }
    | [] => none
  | .addEsp n => if n.toNat % 4 = 0 ∧ n.toNat / 4 ≤ v.stack.length then some (v.drop (n.toNat / 4)) else none
  | .movAl x => some (v.setReg .eax ((v.reg .eax &&& 0xffffff00) ||| x.toUInt32))
  | .outAl _ => some v
  | .storeEsp disp r =>
    if disp.toNat % 4 = 0 ∧ disp.toNat / 4 < v.stack.length then
      some { v with stack := v.stack.set (disp.toNat / 4) (v.get r) }
    else none

def run (lo : Nat) (code : List Instr) (v : View) : Option View := code.foldlM (step lo) v

end View

theorem shows_push? (lo : Nat) (mem : Mem) (c : Cpu) (v v' : View) (w : UInt32) (h : Shows lo mem c v)
    (hv : v.push? lo w = some v') : Shows lo mem (c.push w) v' := by
  unfold View.push? at hv
  split at hv
  · rename_i hroom
    cases hv
    exact shows_push lo mem c v w h hroom
  · cases hv

theorem push_reg (c : Cpu) (w : UInt32) (r : Reg) (hr : r ≠ .esp) : (c.push w).reg r = c.reg r := by
  simp [Cpu.push, Cpu.setReg, hr]

theorem shows_pushReg (lo : Nat) (mem : Mem) (c : Cpu) (v v' : View) (r : Reg) (h : Shows lo mem c v)
    (hr : r ≠ .esp) (hv : v.push? lo (v.reg r) = some v') : Shows lo mem (c.push (c.reg r)) v' := by
  rw [h.reg r hr]
  exact shows_push? lo mem c v v' _ h hv

theorem shows_pushad (lo : Nat) (mem : Mem) (c : Cpu) (v v' : View) (h : Shows lo mem c v)
    (hv : v.step lo .pushad = some v') : Shows lo mem c.pushad v' := by
  simp only [View.step, Option.bind_eq_bind, Option.bind_eq_some_iff] at hv
  obtain ⟨v1, h1, v2, h2, v3, h3, v4, h4, v5, h5, v6, h6, v7, h7, h8⟩ := hv
  have hesp : v.esp = c.esp := (shows_get lo mem c v .esp h).symm
  have s1 := shows_pushReg lo mem c v v1 _ h (by decide) h1
  have s2 := shows_pushReg lo mem _ v1 v2 _ s1 (by decide) h2
  have s3 := shows_pushReg lo mem _ v2 v3 _ s2 (by decide) h3
  have s4 := shows_pushReg lo mem _ v3 v4 _ s3 (by decide) h4
  have s5 := shows_push? lo mem _ v4 v5 _ s4 h5
  have s6 := shows_pushReg lo mem _ v5 v6 _ s5 (by decide) h6
  have s7 := shows_pushReg lo mem _ v6 v7 _ s6 (by decide) h7
  have s8 := shows_pushReg lo mem _ v7 v' _ s7 (by decide) h8
  simpa [Cpu.pushad, push_reg, hesp] using s8

theorem shows_popad (lo : Nat) (mem : Mem) (c : Cpu) (v v' : View) (h : Shows lo mem c v)
    (hv : v.step lo .popad = some v') : Shows lo mem c.popad v' := by
  simp only [View.step] at hv
  split at hv
  · rename_i edi esi ebp skip ebx edx ecx eax rest hs
    cases hv
    have s1 := shows_popReg lo mem c v .edi _ _ h (by decide) hs
    have s2 := shows_popReg lo mem _ _ .esi _ _ s1 (by decide) rfl
    have s3 := shows_popReg lo mem _ _ .ebp _ _ s2 (by decide) rfl
    have s4 := shows_drop lo mem _ _ 1 4 s3 rfl (by simp)
    have s5 := shows_popReg lo mem _ _ .ebx _ _ s4 (by decide) rfl
    have s6 := shows_popReg lo mem _ _ .edx _ _ s5 (by decide) rfl
    have s7 := shows_popReg lo mem _ _ .ecx _ _ s6 (by decide) rfl
    exact shows_popReg lo mem _ _ .eax _ _ s7 (by decide) rfl
  · cases hv

/-- Every instruction does to the memory what it does to the list. -/
theorem shows_exec (lo : Nat) (mem : Mem) (c : Cpu) (v v' : View) (i : Instr) (h : Shows lo mem c v)
    (hv : v.step lo i = some v') : Shows lo mem (i.exec c) v' := by
  cases i with
  | pushImm w => exact shows_push? lo mem c v v' w h hv
  | pushReg r =>
    rw [View.step, ← shows_get lo mem c v r h] at hv
    exact shows_push? lo mem c v v' _ h hv
  | pushSeg s =>
    rw [View.step, ← h.seg] at hv
    exact shows_push? lo mem c v v' _ h hv
  | pushad => exact shows_pushad lo mem c v v' h hv
  | popad => exact shows_popad lo mem c v v' h hv
  | popSeg s =>
    simp only [View.step] at hv
    split at hv
    · rename_i w rest hs
      cases hv
      exact shows_popSeg lo mem c v s w rest h hs
    · cases hv
  | addEsp n =>
    simp only [View.step] at hv
    split at hv
    · rename_i hn
      cases hv
      exact shows_drop lo mem c v _ n h (by omega) hn.2
    · cases hv
  | movAl x =>
    cases hv
    rw [← h.reg .eax (by decide)]
    exact shows_setReg lo mem c v .eax _ h (by decide)
  | outAl port =>
    cases hv
    exact ⟨h.room, h.base_lt, h.reg, h.seg, h.esp, h.stack, h.frame⟩
  | storeEsp disp r =>
    simp only [View.step] at hv
    split at hv
    · rename_i hn
      cases hv
      rw [← shows_get lo mem c v r h]
      exact shows_store lo mem c v _ disp _ h (by omega) hn.2
    · cases hv

theorem shows_run (lo : Nat) (mem : Mem) (code : List Instr) (c : Cpu) (v v' : View) (h : Shows lo mem c v)
    (hv : v.run lo code = some v') : Shows lo mem (run code c) v' := by
  induction code generalizing c v with
  | nil =>
    cases hv
    exact h
  | cons i code ih =>
    simp only [View.run, List.foldlM_cons, Option.bind_eq_bind, Option.bind_eq_some_iff] at hv
    obtain ⟨v1, h1, h2⟩ := hv
    exact ih _ v1 (shows_exec lo mem c v v1 i h h1) h2

/-! ## The way back -/

theorem shows_flags (lo : Nat) (mem : Mem) (c : Cpu) (v : View) (eip eflags : UInt32) (h : Shows lo mem c v) :
    Shows lo mem { c with eip := eip, eflags := eflags } v :=
  ⟨h.room, h.base_lt, h.reg, h.seg, h.esp, h.stack, h.frame⟩

theorem shows_popFrame (lo : Nat) (mem : Mem) (c : Cpu) (v : View) (eip cs eflags : UInt32) (ws : List UInt32)
    (h : Shows lo mem c v) (hs : v.stack = eip :: cs :: eflags :: ws) :
    Shows lo mem c.popFrame { v with seg := Function.update v.seg .cs cs.toUInt16, stack := ws } ∧
      c.popFrame.eip = eip ∧ c.popFrame.eflags = eflags := by
  have s1 := shows_flags lo mem _ _ c.top c.eflags (shows_drop lo mem c v 1 4 h rfl (by simp [hs]))
  have s2 := shows_popSeg lo mem _ _ .cs cs (eflags :: ws) s1 (by simp [View.drop, hs])
  have s3 := shows_drop lo mem _ _ 1 4 s2 rfl (by simp)
  refine ⟨shows_flags lo mem _ _ c.top c.popFrame.eflags s3, ?_, ?_⟩
  · exact shows_top lo mem c v _ _ h hs
  · exact shows_top lo mem _ _ _ _ s2 rfl

theorem popStack_eq (lo : Nat) (mem : Mem) (c : Cpu) (v : View) (esp ss : UInt32) (h : Shows lo mem c v)
    (hs : v.stack = [esp, ss]) :
    c.popStack.reg = Function.update v.reg .esp esp ∧
      c.popStack.seg = Function.update v.seg .ss ss.toUInt16 := by
  have t := shows_top lo mem c v _ _ h hs
  have s1 := shows_drop lo mem c v 1 4 h rfl (by simp [hs])
  have s2 := shows_popSeg lo mem _ _ .ss ss [] s1 (by simp [View.drop, hs])
  constructor
  · funext r
    by_cases hr : r = .esp
    · subst hr
      simp [Cpu.popStack, Cpu.setReg, t]
    · have := s2.reg r hr
      simpa [Cpu.popStack, Cpu.setReg, hr, View.drop] using this
  · exact s2.seg

theorem iret_outer (lo : Nat) (mem : Mem) (c : Cpu) (v : View) (eip cs eflags esp ss : UInt32)
    (h : Shows lo mem c v) (hs : v.stack = [eip, cs, eflags, esp, ss])
    (hlevel : v.seg .cs &&& 3 < cs.toUInt16 &&& 3) :
    c.iret.reg = Function.update v.reg .esp esp ∧
    c.iret.seg = Function.update (Function.update v.seg .cs cs.toUInt16) .ss ss.toUInt16 ∧
    c.iret.eip = eip ∧ c.iret.eflags = eflags := by
  obtain ⟨hf, heip, hfl⟩ := shows_popFrame lo mem c v eip cs eflags _ h hs
  have hlt : c.cpl < c.popFrame.cpl := by
    rw [Cpu.cpl, Cpu.cpl, h.seg, hf.seg]
    simpa using hlevel
  have heq : c.iret = c.popFrame.popStack := if_pos hlt
  obtain ⟨hreg, hseg⟩ := popStack_eq lo mem c.popFrame _ esp ss hf rfl
  rw [heq]
  exact ⟨hreg, hseg, heip, hfl⟩

end OsLearn.X86
