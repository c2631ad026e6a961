import OsLearn.Device.Text
import OsLearn.Thread.Exclusion
import OsLearn.Thread.Kinds

/-!
# `kernel/main.c` and `device/console.c`

`main` starts two threads that read `kbd_buf` and print what they read on the console. The desk with its keyboard
and the kernel is below: the threads make their calls, and the calls go on as they do.
-/

open OsLearn.Run OsLearn.Queues

namespace OsLearn.Main

/-! ## The program -/

/-- The number of `console_lock` among the locks. -/
def console_lock : Nat := 0

inductive MainPc where
  | thread_start_a
  | thread_start_b
  | intr_enable
  -- `while(1)`
  | loop
  deriving DecidableEq, Repr

/-- Where a thread is in the loop of `k_thread_a` or `k_thread_b`: the next line, or the call it is in. `last` says
that the text is the byte that was read, and not `para`. -/
inductive Pc where
  | intr_disable
  | ioq_empty (old_status : Bool)
  -- In `console_acquire`; `put_str` or `put_char` has `text` to write then.
  | console_acquire (old_status : Bool) (text : List UInt8) (last : Bool)
  | put_str (old_status : Bool) (text : List UInt8) (last : Bool)
  | console_release (old_status : Bool) (last : Bool)
  -- In `ioq_getchar`.
  | ioq_getchar (old_status : Bool)
  | console_put_char (old_status : Bool) (byte : UInt8)
  | intr_set_status (old_status : Bool)
  deriving DecidableEq, Repr

structure State where
  desk : Kbd.Desk
  main : MainPc
  -- `para`
  arg : Tid → List UInt8
  pc : Tid → Pc

namespace State

def machine (s : State) : Machine := s.desk.machine

def cur (s : State) : Tid := s.machine.cur

def setPc (s : State) (pc : Pc) : State := { s with pc := Function.update s.pc s.cur pc }

end State

inductive Entry where
  | desk (e : Kbd.Entry)
  | wrote (t : Tid) (c : UInt8)
  | heard (t : Tid) (byte : UInt8)
  deriving DecidableEq

inductive Action where
  -- The running task's own code goes on.
  | go
  | thread_start (t : Tid)
  -- The running task goes on inside a call.
  | run
  | timer
  | strike (e : Kbd.KeyEvent)
  | irq

def argA : List UInt8 := [0x61, 0x72, 0x67, 0x41]

def argB : List UInt8 := [0x61, 0x72, 0x67, 0x42]

/-- `k_thread_a` and `k_thread_b` have the same body. A line gives the call that it makes, the place behind it and
the characters that it writes. -/
def k_thread (m : Machine) (para : List UInt8) : Pc → Except Stop (Option Call × Pc × List UInt8)
  | .intr_disable => .ok (some .intr_disable, .ioq_empty m.sched.intr, [])
  | .ioq_empty old_status => do
    ASSERT (m.sched.intr = false) .ioq_intr_off
    if ioq_empty (m.ioq Kbd.kbd_buf) then pure (none, .intr_set_status old_status, [])
    else pure (some (.lock_acquire console_lock), .console_acquire old_status para false, [])
  -- A call of `lock_acquire`, `lock_release` or `ioq_getchar` has returned when the stack is empty again.
  | .console_acquire old_status text last => .ok (none, .put_str old_status text last, [])
  | .put_str old_status (c :: text) last => .ok (none, .put_str old_status text last, [c])
  | .put_str old_status [] last => .ok (some (.lock_release console_lock), .console_release old_status last, [])
  | .console_release old_status false => .ok (some (.ioq_getchar Kbd.kbd_buf), .ioq_getchar old_status, [])
  | .console_release old_status true => .ok (none, .intr_set_status old_status, [])
  | .ioq_getchar _ => .error .notNow
  | .console_put_char old_status byte =>
    .ok (some (.lock_acquire console_lock), .console_acquire old_status [byte] true, [])
  | .intr_set_status old_status =>
    .ok (some (if old_status then .intr_enable else .intr_disable), .intr_disable, [])

/-- The byte that `ioq_getchar` returns in a step. -/
def received (evs : List Kbd.Entry) : Option UInt8 :=
  evs.findSome? fun e => match e with
    | .kernel (.got q byte) => if q = Kbd.kbd_buf then some byte else none
    | _ => none

def returned (t : Tid) (evs : List Kbd.Entry) : Pc → Pc × List Entry
  | .ioq_getchar old_status =>
    match received evs with
    | some byte => (.console_put_char old_status byte, [.heard t byte])
    | none => (.ioq_getchar old_status, [])
  | pc => (pc, [])

/-- The desk makes a step, and the program stays where it is. -/
def State.aside (s : State) (a : Kbd.Action) : Except Stop (State × List Entry) := do
  let (desk, evs) ← Kbd.step s.desk a
  pure ({ s with desk := desk }, evs.map .desk)

/-- `thread_start(name, prio, k_thread, arg)` -/
def State.thread_start (s : State) (t : Tid) (prio : Int32) (arg : List UInt8) (next : MainPc) :
    Except Stop (State × List Entry) := do
  let (s, evs) ← s.aside (.kernel (.thread_start t prio))
  pure ({ s with main := next, arg := Function.update s.arg t arg }, evs)

def State.go (s : State) : Except Stop (State × List Entry) :=
  if s.machine.stack s.cur = [] then
    if s.cur = s.machine.sched.main_thread then
      match s.main with
      | .intr_enable => do
        let (s, evs) ← s.aside (.kernel (.call .intr_enable))
        pure ({ s with main := .loop }, evs)
      | .loop => .ok (s, [])
      | _ => .error .notNow
    else do
      let (c, pc, text) ← k_thread s.machine (s.arg s.cur) (s.pc s.cur)
      let (s', evs) ← match c with
        | none => pure (s, [])
        | some c => s.aside (.kernel (.call c))
      pure (s'.setPc pc, evs ++ text.map (.wrote s.cur))
  else .error .notNow

def step (s : State) : Action → Except Stop (State × List Entry)
  | .go => s.go
  | .thread_start t =>
    match s.main with
    | .thread_start_a => s.thread_start t 31 argA .thread_start_b
    | .thread_start_b => s.thread_start t 30 argB .intr_enable
    | _ => .error .notNow
  | .run => do
    let (desk, evs) ← Kbd.step s.desk (.kernel .run)
    let r := returned s.cur evs (s.pc s.cur)
    pure ({ s.setPc r.1 with desk := desk }, evs.map .desk ++ r.2)
  | .timer => s.aside (.kernel .timer)
  | .strike e => s.aside (.strike e)
  | .irq => s.aside .irq

def program : System State Action Entry Stop where
  init s := Kbd.desk.init s.desk ∧ s.main = .thread_start_a ∧ s.pc = fun _ => .intr_disable
  step := step

/-! ## The log -/

def deskLog (log : List Entry) : List Kbd.Entry :=
  log.filterMap fun e => match e with
    | .desk e => some e
    | _ => none

/-- What is on the console. -/
def console (log : List Entry) : List UInt8 :=
  log.filterMap fun e => match e with
    | .wrote _ c => some c
    | _ => none

/-- What a thread has written. -/
def written (t : Tid) (log : List Entry) : List UInt8 :=
  log.filterMap fun e => match e with
    | .wrote u c => if u = t then some c else none
    | _ => none

/-- What a thread has got from `ioq_getchar`. -/
def heard (t : Tid) (log : List Entry) : List UInt8 :=
  log.filterMap fun e => match e with
    | .heard u byte => if u = t then some byte else none
    | _ => none

def careful (log : List Entry) (s : State) (a : Action) : Prop :=
  ∀ e, a = .strike e → Kbd.careful (deskLog log) s.desk (.strike e)

/-- What the call on the console has still to write. -/
def Pc.rest : Pc → List UInt8
  | .console_acquire _ text _ | .put_str _ text _ => text
  | .console_put_char _ byte => [byte]
  | _ => []

/-- `para` is written, or about to be, for a byte that is still to come. -/
def Pc.announced : Pc → Bool
  | .console_acquire _ _ last | .put_str _ _ last | .console_release _ last => !last
  | .ioq_getchar _ => true
  | _ => false

end OsLearn.Main
