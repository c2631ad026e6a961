import Mathlib.Tactic.Common
import Mathlib.Logic.Function.Basic
import Mathlib.Logic.Equiv.Fin.Basic
import Mathlib.Order.Fin.Basic

/-!
# Two interrupt controllers in cascade

A controller of the kind 8259A keeps the requests of eight lines, the lines in service and a mask. A request
is passed on while no line of its own priority or a higher one is in service. The slave is on line 2 of the master.
-/

namespace OsLearn.Pic

/-- What the next byte for the data port is. -/
inductive Phase where
  | icw2
  | icw3
  | icw4
  | ready
  deriving DecidableEq, Repr

structure Chip where
  -- The requests that are latched, the lines in service and the masked ones.
  irr : Fin 8 → Bool
  isr : Fin 8 → Bool
  imr : Fin 8 → Bool
  base : UInt8
  cascade : UInt8
  phase : Phase
  single : Bool
  needs4 : Bool
  -- The end of the interrupt is automatic.
  auto : Bool

def bit (b : UInt8) (i : Nat) : Bool := b.toNat.testBit i

/-- The lines of a mask. -/
def mask (b : UInt8) (i : Fin 8) : Bool := bit b i.val

/-- The non-specific end of interrupt, OCW2. -/
def EOI : UInt8 := 0x20

/-- The line of the highest priority. -/
def first (p : Fin 8 → Bool) : Option (Fin 8) := Fin.find? p

namespace Chip

/-- The line that is passed on. -/
def request (c : Chip) : Option (Fin 8) :=
  match first fun i => c.irr i && !c.imr i with
  | some i => if c.phase = .ready ∧ ∀ j ≤ i, c.isr j = false then some i else none
  | none => none

def raise (c : Chip) (i : Fin 8) : Chip := { c with irr := Function.update c.irr i true }

/-- The request of a line is taken: it is in service from now on. -/
def take (c : Chip) (i : Fin 8) : Chip :=
  { c with
    irr := Function.update c.irr i false
    isr := if c.auto then c.isr else Function.update c.isr i true }

/-- The line in service with the highest priority is so no more. -/
def eoi (c : Chip) : Chip :=
  match first c.isr with
  | some i => { c with isr := Function.update c.isr i false }
  | none => c

/-- A byte for the control port: ICW1, or OCW2. The other commands are left out. -/
def outCtrl (c : Chip) (b : UInt8) : Chip :=
  if bit b 4 then
    { c with
      irr := fun _ => false
      imr := fun _ => false
      phase := .icw2
      single := bit b 1
      needs4 := bit b 0
      auto := false }
  else if b = EOI then c.eoi
  else c

/-- A byte for the data port. -/
def outData (c : Chip) (b : UInt8) : Chip :=
  match c.phase with
  | .icw2 =>
    { c with
      base := b &&& 0xf8
      phase := if c.single then (if c.needs4 then .icw4 else .ready) else .icw3 }
  | .icw3 => { c with cascade := b, phase := if c.needs4 then .icw4 else .ready }
  | .icw4 => { c with auto := bit b 1, phase := .ready }
  | .ready => { c with imr := mask b }

end Chip

structure Pair where
  master : Chip
  slave : Chip

/-- The sixteen lines. Those from 8 on are the lines of the slave, and 2 is no line of a device. -/
abbrev Line := Fin 16

def cascadeLine : Fin 8 := 2

/-- The number of a line at its own controller. -/
def Line.low (l : Line) : Fin 8 := ⟨l.val % 8, Nat.mod_lt _ (by decide)⟩

namespace Pair

def raise (p : Pair) (l : Line) : Pair :=
  if l.val < 8 then { p with master := p.master.raise l.low } else { p with slave := p.slave.raise l.low }

def requested (p : Pair) (l : Line) : Bool :=
  if l.val < 8 then p.master.irr l.low else p.slave.irr l.low

/-- The master with the output of the slave on its line. -/
def wired (p : Pair) : Chip :=
  { p.master with irr := Function.update p.master.irr cascadeLine p.slave.request.isSome }

/-- The processor acknowledges: the line, its vector and the controllers after it. -/
def inta (p : Pair) : Option (Line × UInt8 × Pair) :=
  match p.wired.request with
  | none => none
  | some i =>
    if i = cascadeLine then
      match p.slave.request with
      | some j => some (⟨j.val + 8, by omega⟩, p.slave.base + UInt8.ofNat j.val,
          { master := p.master.take cascadeLine, slave := p.slave.take j })
      | none => none
    else some (⟨i.val, by omega⟩, p.master.base + UInt8.ofNat i.val, { p with master := p.master.take i })

/-- A request that is gone when the processor acknowledges: line 7 stands for it, and is not in service. One
of the slave is in service at the master. -/
def spurious (p : Pair) (ofSlave : Bool) : UInt8 × Pair :=
  if ofSlave then (p.slave.base + 7, { p with master := p.master.take cascadeLine })
  else (p.master.base + 7, p)

/-- `out` to one of the four ports. -/
def out (p : Pair) (port : UInt16) (b : UInt8) : Pair :=
  if port = 0x20 then { p with master := p.master.outCtrl b }
  else if port = 0x21 then { p with master := p.master.outData b }
  else if port = 0xa0 then { p with slave := p.slave.outCtrl b }
  else if port = 0xa1 then { p with slave := p.slave.outData b }
  else p

def outs (p : Pair) (l : List (UInt16 × UInt8)) : Pair := l.foldl (fun p o => p.out o.1 o.2) p

end Pair

/-! ## Priorities -/

theorem first_some (p : Fin 8 → Bool) (i : Fin 8) (h : first p = some i) : p i = true :=
  Fin.eq_true_of_find?_eq_some h

theorem first_least (p : Fin 8 → Bool) (i : Fin 8) (h : first p = some i) (j : Fin 8) (hj : p j = true) : i ≤ j := by
  by_contra hlt
  rw [Fin.eq_false_of_find?_eq_some_of_lt h j (not_le.mp hlt)] at hj
  cases hj

theorem first_none (p : Fin 8 → Bool) (h : ∀ i, p i = false) : first p = none := Fin.find?_eq_none_iff.mpr h

theorem first_isSome (p : Fin 8 → Bool) (i : Fin 8) (h : p i = true) : ∃ j, first p = some j :=
  Option.isSome_iff_exists.mp (Fin.isSome_find?_of_eq_true h)

theorem first_single (p : Fin 8 → Bool) (i : Fin 8) (h : ∀ j, p j = true ↔ j = i) : first p = some i := by
  obtain ⟨j, hj⟩ := first_isSome p i ((h i).mpr rfl)
  rw [hj, (h j).mp (first_some p j hj)]

/-- A line that is passed on is requested and not masked, and no such line comes before it. -/
theorem request_some (c : Chip) (i : Fin 8) (h : c.request = some i) :
    c.irr i = true ∧ c.imr i = false ∧ ∀ j, c.irr j = true → c.imr j = false → i ≤ j := by
  unfold Chip.request at h
  split at h
  · rename_i k hk
    split at h
    · cases h
      have hi := first_some _ _ hk
      simp only [Bool.and_eq_true, Bool.not_eq_true'] at hi
      exact ⟨hi.1, hi.2, fun j h1 h2 => first_least _ _ hk j (by simp [h1, h2])⟩
    · cases h
  · cases h

/-- Nothing in service holds a request back. -/
theorem request_free (c : Chip) (i : Fin 8) (hready : c.phase = .ready) (hisr : ∀ j, c.isr j = false)
    (hirr : c.irr i = true) (himr : c.imr i = false) : ∃ j, c.request = some j := by
  obtain ⟨j, hj⟩ := first_isSome (fun i => c.irr i && !c.imr i) i (by simp [hirr, himr])
  refine ⟨j, ?_⟩
  rw [Chip.request, hj]
  exact if_pos ⟨hready, fun k _ => hisr k⟩

theorem eoi_none (c : Chip) (h : ∀ i, c.isr i = false) : c.eoi = c := by
  rw [Chip.eoi, first_none c.isr h]

/-- The end of the only interrupt in service. -/
theorem eoi_single (c : Chip) (i : Fin 8) (h : ∀ j, c.isr j = true ↔ j = i) :
    c.eoi = { c with isr := fun _ => false } := by
  rw [Chip.eoi, first_single c.isr i h]
  dsimp only
  congr 1
  funext j
  by_cases hj : j = i
  · rw [hj, Function.update_self]
  · rw [Function.update_of_ne hj]
    have := mt (h j).mp hj
    simpa using this

/-! ## The requests of the sixteen lines -/

theorem Line.low_eq (l : Line) (i : Fin 8) : l.low = i ↔ l.val % 8 = i.val := Fin.ext_iff

theorem requested_raise (p : Pair) (l l' : Line) : (p.raise l).requested l' = if l' = l then true else p.requested l' := by
  have hlow : l'.low = l.low ↔ l'.val % 8 = l.val % 8 := Line.low_eq l' l.low
  have hl := l.isLt
  have hl' := l'.isLt
  unfold Pair.raise Pair.requested Chip.raise
  by_cases h8 : l.val < 8
  · rw [if_pos h8]
    by_cases h8' : l'.val < 8
    · by_cases heq : l' = l
      · subst heq
        simp [h8]
      · have hne : ¬ l'.low = l.low := by
          rw [hlow, Nat.mod_eq_of_lt h8, Nat.mod_eq_of_lt h8']
          exact fun h => heq (Fin.ext h)
        simp [h8', heq, Function.update_of_ne hne]
    · have hne : ¬ l' = l := fun h => h8' (h ▸ h8)
      simp [h8', hne]
  · rw [if_neg h8]
    by_cases h8' : l'.val < 8
    · have hne : ¬ l' = l := fun h => h8 (h ▸ h8')
      simp [h8', hne]
    · by_cases heq : l' = l
      · subst heq
        simp [h8]
      · have hne : ¬ l'.low = l.low := by
          rw [hlow]
          exact fun h => heq (Fin.ext (by omega))
        simp [h8', heq, Function.update_of_ne hne]

theorem requested_master_take (p : Pair) (i : Fin 8) (l : Line) :
    { p with master := p.master.take i }.requested l = if l.val = i.val then false else p.requested l := by
  have hi := i.isLt
  unfold Pair.requested Chip.take
  dsimp only
  by_cases h8 : l.val < 8
  · by_cases heq : l.val = i.val
    · have hlow : l.low = i := (Line.low_eq l i).mpr (by omega)
      simp [heq, hlow]
    · have hlow : ¬ l.low = i := fun h => heq (by rw [Line.low_eq] at h; omega)
      simp [h8, heq, Function.update_of_ne hlow]
  · rw [if_neg h8, if_neg h8, if_neg (by omega)]

theorem requested_slave_take (p : Pair) (j : Fin 8) (l : Line) :
    { p with slave := p.slave.take j }.requested l = if l.val = j.val + 8 then false else p.requested l := by
  have hj := j.isLt
  have hl := l.isLt
  unfold Pair.requested Chip.take
  dsimp only
  by_cases h8 : l.val < 8
  · rw [if_pos h8, if_pos h8, if_neg (by omega)]
  · by_cases heq : l.val = j.val + 8
    · have hlow : l.low = j := (Line.low_eq l j).mpr (by omega)
      simp [heq, hlow]
    · have hlow : ¬ l.low = j := fun h => heq (by rw [Line.low_eq] at h; omega)
      simp [h8, heq, Function.update_of_ne hlow]

/-! ## At most one line in service -/

def AtMostOne (isr : Fin 8 → Bool) : Prop := (∀ i, isr i = false) ∨ ∃ i, ∀ j, isr j = true ↔ j = i

theorem atMostOne_none : AtMostOne fun _ => false := .inl fun _ => rfl

theorem eoi_atMostOne (c : Chip) (h : AtMostOne c.isr) : c.eoi = { c with isr := fun _ => false } := by
  obtain h | ⟨i, h⟩ := h
  · have hisr : c.isr = fun _ => false := funext h
    rw [eoi_none c h, ← hisr]
  · exact eoi_single c i h

theorem take_atMostOne (c : Chip) (i : Fin 8) (h : ∀ j, c.isr j = false) : AtMostOne (c.take i).isr := by
  unfold Chip.take
  dsimp only
  split
  · exact .inl h
  · refine .inr ⟨i, fun j => ?_⟩
    by_cases hj : j = i
    · simp [hj]
    · simp [h j, hj]

end OsLearn.Pic
