import OsLearn.Lib.Pic
import OsLearn.Lib.Regs
import OsLearn.Lib.Run
import OsLearn.Kernel.Stubs

/-!
# `kernel/interrupt.c`: from a device to its handler

`pic_init` programs the controllers. From then on every stub of `kernel.S` ends the interrupt before it calls
the handler.
-/

open OsLearn.Run OsLearn.Pic OsLearn.X86

namespace OsLearn.Interrupts

/-! ## `pic_init` -/

def PIC_M_CTRL : UInt16 := 0x20

def PIC_M_DATA : UInt16 := 0x21

def PIC_S_CTRL : UInt16 := 0xa0

def PIC_S_DATA : UInt16 := 0xa1

def pic_init (p : Pair) : Pair :=
  let p := p.out PIC_M_CTRL 0x11
  let p := p.out PIC_M_DATA 0x20
  let p := p.out PIC_M_DATA 0x04
  let p := p.out PIC_M_DATA 0x01
  let p := p.out PIC_S_CTRL 0x11
  let p := p.out PIC_S_DATA 0x28
  let p := p.out PIC_S_DATA 0x02
  let p := p.out PIC_S_DATA 0x01
  let p := p.out PIC_M_DATA 0xf8
  p.out PIC_S_DATA 0xbf

/-! ## `idt_table` -/

inductive Handler where
  | general_intr_handler
  | intr_timer_handler
  | intr_keyboard_handler
  deriving DecidableEq, Repr

def exception_init : UInt8 → Handler := fun _ => .general_intr_handler

def register_handler (idt_table : UInt8 → Handler) (vector_no : UInt8) (function : Handler) : UInt8 → Handler :=
  Function.update idt_table vector_no function

/-- After `idt_init`, `timer_init` and `keyboard_init`. -/
def idt_table : UInt8 → Handler :=
  let idt_table := exception_init
  let idt_table := register_handler idt_table 0x20 .intr_timer_handler
  register_handler idt_table 0x21 .intr_keyboard_handler

/-- `general_intr_handler` comes back for the two vectors that stand for no device. For the others it prints,
and spins with the interrupts off. -/
def returns (v : UInt8) : Bool :=
  match idt_table v with
  | .general_intr_handler => v = 0x27 ∨ v = 0x2f
  | _ => true

/-! ## The system -/

/-- What `VECTOR` sends before its call. -/
def stub_outs : List (UInt16 × UInt8) := [(0xa0, OsLearn.EOI), (0x20, OsLearn.EOI)]

structure State where
  pics : Pair
  iflag : Bool
  -- What the stub that has been entered still sends, and its vector.
  sending : List (UInt16 × UInt8)
  vector : UInt8
  hung : Bool

inductive Event where
  -- A request. It is fresh where no earlier one waits.
  | raised (l : Line) (fresh : Bool)
  | taken (l : Line) (v : UInt8)
  | spurious (v : UInt8)
  | fault (v : UInt8)
  | called (v : UInt8)
  deriving DecidableEq, Repr

inductive Action where
  | raise (l : Line)
  | inta
  | glitch (ofSlave : Bool)
  -- An exception, whatever the flag is.
  | exception (v : UInt8)
  | send
  -- The code that runs changes the flag: `sti`, `cli`, `iret`, or a switch to another thread.
  | flag (b : Bool)
  deriving DecidableEq, Repr

inductive Refused where
  | refused
  deriving DecidableEq, Repr

/-- An interrupt gate to the stub of a vector. -/
def enter (s : State) (v : UInt8) (pics : Pair) : State :=
  { s with pics, iflag := false, sending := stub_outs, vector := v }

def step (s : State) : Action → Except Refused (State × List Event)
  | .raise l =>
    -- Line 2 has no device.
    if l = 2 then .error .refused
    else .ok ({ s with pics := s.pics.raise l }, [.raised l (!s.pics.requested l)])
  | .inta =>
    if s.iflag ∧ s.sending = [] then
      match s.pics.inta with
      | some (l, v, pics) => .ok (enter s v pics, [.taken l v])
      | none => .error .refused
    else .error .refused
  | .glitch ofSlave =>
    if s.iflag ∧ s.sending = [] then
      let (v, pics) := s.pics.spurious ofSlave
      .ok (enter s v pics, [.spurious v])
    else .error .refused
  | .exception v =>
    if v < 0x20 ∧ s.sending = [] ∧ s.hung = false then .ok (enter s v s.pics, [.fault v]) else .error .refused
  | .send =>
    match s.sending with
    | [] => .error .refused
    | [(port, b)] =>
      -- call [idt_table + v * 4]
      .ok ({ s with pics := s.pics.out port b, sending := [], hung := !returns s.vector }, [.called s.vector])
    | (port, b) :: rest => .ok ({ s with pics := s.pics.out port b, sending := rest }, [])
  | .flag b => if s.sending = [] ∧ s.hung = false then .ok ({ s with iflag := b }, []) else .error .refused

/-- The interrupts of the BIOS are over, and `pic_init` has run. -/
structure Init (s : State) : Prop where
  pics : ∃ p : Pair, (∀ i, p.master.isr i = false) ∧ (∀ i, p.slave.isr i = false) ∧ s.pics = pic_init p
  iflag : s.iflag = false
  sending : s.sending = []
  hung : s.hung = false

def system : System State Action Event Refused where
  init := Init
  step := step

/-! ## The stubs -/

/-- Every stub sends the same two bytes, whatever its vector and the machine. -/
theorem VECTOR_save_ports (v : Nat) (slot : ErrorSlot) (c : Cpu) :
    (run (VECTOR_save v slot) c).ports = c.ports ++ stub_outs := by
  cases slot <;>
    -- `al` is the lower byte of `eax`
    (show c.ports ++ [(0xa0, Regs.low8 (Regs.setLow8 _ OsLearn.EOI))] ++
        [(0x20, Regs.low8 (Regs.setLow8 _ OsLearn.EOI))] = _
     rw [Regs.low8_setLow8, List.append_assoc]
     rfl)

/-! ## What `pic_init` leaves -/

/-- The lines that `pic_init` opens. -/
def open_lines : List Line := [0, 1, 14]

structure Configured (p : Pair) : Prop where
  master_phase : p.master.phase = .ready
  master_base : p.master.base = 0x20
  master_imr : p.master.imr = mask 0xf8
  master_auto : p.master.auto = false
  slave_phase : p.slave.phase = .ready
  slave_base : p.slave.base = 0x28
  slave_imr : p.slave.imr = mask 0xbf
  slave_auto : p.slave.auto = false

/-- Whatever state the controllers are in, in the middle of another initialisation too. -/
theorem pic_init_eq (p : Pair) : pic_init p =
    { master :=
        { irr := fun _ => false, isr := p.master.isr, imr := mask 0xf8, base := 0x20, cascade := 0x04,
          phase := .ready, single := false, needs4 := true, auto := false }
      slave :=
        { irr := fun _ => false, isr := p.slave.isr, imr := mask 0xbf, base := 0x28, cascade := 0x02,
          phase := .ready, single := false, needs4 := true, auto := false } } := by
  rfl

theorem pic_init_configured (p : Pair) : Configured (pic_init p) := by
  rw [pic_init_eq]
  constructor <;> rfl

theorem Configured.raise (p : Pair) (h : Configured p) (l : Line) : Configured (p.raise l) := by
  obtain ⟨h1, h2, h3, h4, h5, h6, h7, h8⟩ := h
  unfold Pair.raise Chip.raise
  split <;> exact ⟨h1, h2, h3, h4, h5, h6, h7, h8⟩

theorem Configured.inta (p p' : Pair) (h : Configured p) (l : Line) (v : UInt8) (hp : p.inta = some (l, v, p')) :
    Configured p' := by
  obtain ⟨h1, h2, h3, h4, h5, h6, h7, h8⟩ := h
  unfold Pair.inta at hp
  split at hp
  · cases hp
  · split at hp
    · split at hp
      · cases hp
        exact ⟨h1, h2, h3, h4, h5, h6, h7, h8⟩
      · cases hp
    · cases hp
      exact ⟨h1, h2, h3, h4, h5, h6, h7, h8⟩

theorem Configured.spurious (p : Pair) (h : Configured p) (ofSlave : Bool) : Configured (p.spurious ofSlave).2 := by
  obtain ⟨h1, h2, h3, h4, h5, h6, h7, h8⟩ := h
  unfold Pair.spurious
  split <;> exact ⟨h1, h2, h3, h4, h5, h6, h7, h8⟩

theorem eoi_keeps (c : Chip) : c.eoi.phase = c.phase ∧ c.eoi.base = c.base ∧ c.eoi.imr = c.imr ∧
    c.eoi.auto = c.auto ∧ c.eoi.irr = c.irr := by
  unfold Chip.eoi
  split <;> exact ⟨rfl, rfl, rfl, rfl, rfl⟩

theorem out_slave_eoi (p : Pair) : p.out 0xa0 OsLearn.EOI = { p with slave := p.slave.eoi } := rfl

theorem out_master_eoi (p : Pair) : p.out 0x20 OsLearn.EOI = { p with master := p.master.eoi } := rfl

theorem Configured.eoi (p : Pair) (h : Configured p) :
    Configured { p with slave := p.slave.eoi } ∧ Configured { p with master := p.master.eoi } := by
  obtain ⟨h1, h2, h3, h4, h5, h6, h7, h8⟩ := h
  obtain ⟨m1, m2, m3, m4, -⟩ := eoi_keeps p.master
  obtain ⟨s1, s2, s3, s4, -⟩ := eoi_keeps p.slave
  exact ⟨⟨h1, h2, h3, h4, s1.trans h5, s2.trans h6, s3.trans h7, s4.trans h8⟩,
    ⟨m1.trans h1, m2.trans h2, m3.trans h3, m4.trans h4, h5, h6, h7, h8⟩⟩

/-! ## An acknowledge -/

theorem master_open (i : Fin 8) : mask 0xf8 i = false ↔ i = 0 ∨ i = 1 ∨ i = cascadeLine := by
  revert i
  decide

theorem slave_open (i : Fin 8) : mask 0xbf i = false ↔ i = 6 := by
  revert i
  decide

/-- The lines that are open, with their vectors. -/
def vector_of : List (Line × UInt8) := [(0, 0x20), (1, 0x21), (14, 0x2e)]

theorem slave_request (p : Pair) (hc : Configured p) (j : Fin 8) (h : p.slave.request = some j) :
    j = 6 ∧ p.slave.irr 6 = true := by
  obtain ⟨hirr, himr, -⟩ := request_some _ _ h
  rw [hc.slave_imr, slave_open] at himr
  exact ⟨himr, himr ▸ hirr⟩

/-- An acknowledge takes an open line with its own vector, and lets the others be. -/
theorem inta_some (p p' : Pair) (l : Line) (v : UInt8) (hc : Configured p) (hp : p.inta = some (l, v, p')) :
    (l, v) ∈ vector_of ∧ p.requested l = true ∧ p'.requested l = false ∧
      ∀ l', l' ≠ l → l' ≠ 2 → p'.requested l' = p.requested l' := by
  unfold Pair.inta at hp
  split at hp
  · cases hp
  · rename_i i hi
    obtain ⟨hirr, himr, -⟩ := request_some _ _ hi
    have himr' : i = 0 ∨ i = 1 ∨ i = cascadeLine := (master_open i).mp ((congrFun hc.master_imr i).symm.trans himr)
    split at hp
    · rename_i hcas
      split at hp
      · rename_i j hj
        obtain ⟨rfl, hj6⟩ := slave_request p hc j hj
        cases hp
        have htaken : ∀ l' : Line, ({ master := p.master.take cascadeLine, slave := p.slave.take 6 } : Pair).requested l' =
            if l'.val = 2 then false else if l'.val = 14 then false else p.requested l' := fun l' =>
          (requested_master_take { p with slave := p.slave.take 6 } cascadeLine l').trans
            (by rw [requested_slave_take]; rfl)
        refine ⟨?_, hj6, by rw [htaken]; rfl, fun l' hne hne2 => ?_⟩
        · rw [hc.slave_base]
          decide
        · have h2 : ¬ l'.val = 2 := fun h => hne2 (Fin.ext h)
          have h14 : ¬ l'.val = 14 := fun h => hne (Fin.ext h)
          rw [htaken, if_neg h2, if_neg h14]
      · cases hp
    · rename_i hcas
      cases hp
      have hreq : p.requested ⟨i.val, by omega⟩ = true := by
        unfold Pair.wired at hirr
        dsimp only at hirr
        rw [Function.update_of_ne hcas] at hirr
        have hlow : Line.low ⟨i.val, by omega⟩ = i := (Line.low_eq _ _).mpr (Nat.mod_eq_of_lt i.isLt)
        rw [Pair.requested, if_pos i.isLt, hlow]
        exact hirr
      refine ⟨?_, hreq, by rw [requested_master_take, if_pos rfl], fun l' hne hne2 => ?_⟩
      · rw [hc.master_base]
        obtain rfl | rfl | rfl := himr'
        · decide
        · decide
        · exact absurd rfl hcas
      · rw [requested_master_take, if_neg fun h => hne (Fin.ext h)]

/-- A request that the master passes on is taken. -/
theorem inta_of_request (p : Pair) (i : Fin 8) (h : p.wired.request = some i) :
    ∃ l v p', p.inta = some (l, v, p') ∧ (i ≠ cascadeLine → l.val = i.val) := by
  obtain ⟨hirr, -, -⟩ := request_some _ _ h
  unfold Pair.inta
  rw [h]
  dsimp only
  by_cases hcas : i = cascadeLine
  · subst hcas
    have hslave : p.slave.request.isSome = true := by
      unfold Pair.wired at hirr
      dsimp only at hirr
      rwa [Function.update_self] at hirr
    obtain ⟨j, hj⟩ := Option.isSome_iff_exists.mp hslave
    rw [if_pos rfl, hj]
    exact ⟨_, _, _, rfl, fun h => absurd rfl h⟩
  · rw [if_neg hcas]
    exact ⟨_, _, _, rfl, fun _ => rfl⟩

theorem wired_irr (p : Pair) (i : Fin 8) (h : i ≠ cascadeLine) : p.wired.irr i = p.master.irr i :=
  Function.update_of_ne h _ _

/-- With nothing in service an acknowledge takes a line, and none that is open comes before it. -/
theorem inta_ready (p : Pair) (l : Line) (hc : Configured p) (hm : ∀ i, p.master.isr i = false)
    (hs : ∀ i, p.slave.isr i = false) (hl : l ∈ open_lines) (hreq : p.requested l = true) :
    ∃ l' v p', p.inta = some (l', v, p') ∧ l' ≤ l := by
  have hfree : ∀ i, p.wired.irr i = true → mask 0xf8 i = false → ∃ j, p.wired.request = some j ∧ j ≤ i := by
    intro i hirr hopen
    have himr : p.wired.imr i = false := (congrFun hc.master_imr i).trans hopen
    obtain ⟨j, hj⟩ := request_free p.wired i hc.master_phase hm hirr himr
    exact ⟨j, hj, (request_some _ _ hj).2.2 i hirr himr⟩
  have hown : ∀ i : Fin 8, i ≠ cascadeLine → mask 0xf8 i = false → p.master.irr i = true → i < cascadeLine →
      ∃ l' v p', p.inta = some (l', v, p') ∧ l'.val ≤ i.val := by
    intro i hne hopen hirr hlt
    obtain ⟨j, hj, hji⟩ := hfree i ((wired_irr p i hne).trans hirr) hopen
    obtain ⟨l', v, p', hp, hval⟩ := inta_of_request p j hj
    exact ⟨l', v, p', hp, (hval (ne_of_lt (lt_of_le_of_lt hji hlt))).trans_le hji⟩
  unfold open_lines at hl
  simp only [List.mem_cons, List.not_mem_nil, or_false] at hl
  obtain rfl | rfl | rfl := hl
  · exact hown 0 (by decide) (by decide) hreq (by decide)
  · exact hown 1 (by decide) (by decide) hreq (by decide)
  · obtain ⟨j, hj⟩ := request_free p.slave 6 hc.slave_phase hs hreq ((congrFun hc.slave_imr 6).trans (by decide))
    have hcas : p.wired.irr cascadeLine = true := by
      show Function.update p.master.irr cascadeLine p.slave.request.isSome cascadeLine = true
      rw [Function.update_self, hj]
      rfl
    obtain ⟨i, hi, -⟩ := hfree cascadeLine hcas (by decide)
    obtain ⟨l', v, p', hp, -⟩ := inta_of_request p i hi
    obtain ⟨hvec, -⟩ := inta_some p p' l' v hc hp
    refine ⟨l', v, p', hp, ?_⟩
    unfold vector_of at hvec
    simp only [List.mem_cons, Prod.mk.injEq, List.not_mem_nil, or_false] at hvec
    obtain ⟨rfl, -⟩ | ⟨rfl, -⟩ | ⟨rfl, -⟩ := hvec <;> decide

theorem inta_service (p p' : Pair) (l : Line) (v : UInt8) (hm : ∀ i, p.master.isr i = false)
    (hs : ∀ i, p.slave.isr i = false) (hp : p.inta = some (l, v, p')) :
    AtMostOne p'.master.isr ∧ AtMostOne p'.slave.isr := by
  unfold Pair.inta at hp
  split at hp
  · cases hp
  · split at hp
    · split at hp
      · cases hp
        exact ⟨take_atMostOne _ _ hm, take_atMostOne _ _ hs⟩
      · cases hp
    · cases hp
      exact ⟨take_atMostOne _ _ hm, .inl hs⟩

theorem spurious_service (p : Pair) (ofSlave : Bool) (hm : ∀ i, p.master.isr i = false)
    (hs : ∀ i, p.slave.isr i = false) :
    AtMostOne (p.spurious ofSlave).2.master.isr ∧ AtMostOne (p.spurious ofSlave).2.slave.isr := by
  unfold Pair.spurious
  split
  · exact ⟨take_atMostOne _ _ hm, .inl hs⟩
  · exact ⟨.inl hm, .inl hs⟩

theorem spurious_requested (p : Pair) (ofSlave : Bool) (l : Line) (hl : l ≠ 2) :
    (p.spurious ofSlave).2.requested l = p.requested l := by
  unfold Pair.spurious
  split
  · exact (requested_master_take p cascadeLine l).trans (if_neg fun h => hl (Fin.ext h))
  · rfl

end OsLearn.Interrupts
