import OsLearn.Device.Extended
import OsLearn.Device.Fifo

/-!
# From the keys to the readers of `kbd_buf`

The keyboard beside the kernel: keys are struck at any time, their scan codes wait for an interrupt each, and the
tasks run in between. A sheet of paper says what a typist means: what is on it is what `kbd_buf` holds.
-/

open OsLearn.Run OsLearn.Queues

namespace OsLearn.Kbd

/-! ## The desk -/

/-- The number of `kbd_buf` among the queues. -/
def kbd_buf : Nat := 0

structure Desk where
  keyboard : Keyboard
  machine : Machine
  -- The scan codes that have not been read yet. The last one of each event carries the event.
  line : List (UInt8 × Option KeyEvent)

inductive Entry where
  | strike (e : KeyEvent)
  -- An interrupt reads a scan code, the last one of an event or not, and prints. `full` is what `ioq_full` says.
  | read (last : Option KeyEvent) (full : Bool) (printed : List UInt8)
  | kernel (e : Event)
  deriving DecidableEq

inductive Action where
  | strike (e : KeyEvent)
  | irq
  | kernel (a : Act)

/-- "unknown key\n" -/
def unknown_key : List UInt8 := [0x75, 0x6e, 0x6b, 0x6e, 0x6f, 0x77, 0x6e, 0x20, 0x6b, 0x65, 0x79, 0x0a]

/-- The characters that go to the screen. -/
def printed (effects : List Effect) : List UInt8 :=
  effects.flatMap fun e => match e with
    | .put_char c => [c]
    | .put_str_unknown_key => unknown_key
    | _ => []

/-- The last element of a list is marked. -/
def marked (e : KeyEvent) : List UInt8 → List (UInt8 × Option KeyEvent)
  | [] => []
  | [b] => [(b, some e)]
  | b :: bs => (b, none) :: marked e bs

def step (s : Desk) : Action → Except Stop (Desk × List Entry)
  | .strike e => .ok ({ s with line := s.line ++ marked e e.bytes }, [.strike e])
  | .irq =>
    match s.line with
    | [] => .error .notNow
    | (byte, last) :: line =>
      if s.machine.sched.intr then do
        let full := ioq_full (s.machine.ioq kbd_buf)
        let r := intr_keyboard_handler full s.keyboard byte
        let machine ← (characters r.2).foldlM (fun m c => ioq_store m kbd_buf c) s.machine
        pure ({ keyboard := r.1, machine := machine, line := line }, [.read last full (printed r.2)])
      else .error .notNow
  -- The keyboard's own interrupts are `irq`.
  | .kernel (.keyboard _ _) => .error .notNow
  | .kernel a => do
    let (m, evs) ← OsLearn.step s.machine a
    pure ({ s with machine := m }, evs.map .kernel)

def desk : System Desk Action Entry Stop where
  init s := kernel.init s.machine ∧ s.keyboard = .init ∧ s.line = []
  step := step

def strikes (log : List Entry) : List KeyEvent :=
  log.filterMap fun e => match e with
    | .strike e => some e
    | _ => none

/-- The events that have been read whole. -/
def keys (log : List Entry) : List KeyEvent :=
  log.filterMap fun e => match e with
    | .read last _ _ => last
    | _ => none

/-- The typist strikes keys as a keyboard allows, and no slip. -/
def careful (log : List Entry) (_ : Desk) (a : Action) : Prop :=
  ∀ e, a = .strike e → Allowed (held (strikes log)) e ∧ ¬ Slip (strikes log) e

/-! ## The sheet -/

/-- What a key types. Caps Lock is for the letters only. -/
def glyph (ext : Bool) (code : UInt8) (shift caps : Bool) : Option UInt8 :=
  let (plain, upper) := keymap.getD code.toNat (0, 0)
  if ext ∨ plain = 0 then none
  else if 0x61 ≤ plain ∧ plain ≤ 0x7a then some (if shift = caps then plain else upper)
  else some (if shift then upper else plain)

/-- The keys that the driver knows. -/
def known (ext : Bool) (code : UInt8) : Bool :=
  if ext then code = 0x1d || code = 0x38 else code < 0x3b

/-- What an event types after others. -/
def typed (pre : List KeyEvent) : KeyEvent → Option UInt8
  | .press key | .typematic key =>
    glyph key.ext key.code (held pre shift_l || held pre shift_r) (presses pre % 2 = 1)
  | .release _ => none

/-- The driver prints nothing of its own for an event. -/
def silent : KeyEvent → Bool
  | .press key | .typematic key => known key.ext key.code
  | .release _ => true

/-- A character is shown if there is room for it. -/
def echo (room silent : Bool) : Option UInt8 → List UInt8
  | some c => if room then [c] else []
  | none => if silent then [] else unknown_key

def shown (pre : List KeyEvent) (room : Bool) (e : KeyEvent) : List UInt8 := echo room (silent e) (typed pre e)

/-- The keys that were struck, and the text that nobody has read yet. -/
structure Sheet where
  keys : List KeyEvent
  text : List UInt8
  deriving DecidableEq

def Sheet.room (p : Sheet) : Bool := p.text.length < bufsize - 1

/-- The sheet after an entry of the log, unless the entry contradicts it. -/
def Sheet.next (p : Sheet) : Entry → Option Sheet
  | .strike _ => some p
  | .read none full out => if full = !p.room ∧ out = [] then some p else none
  | .read (some e) full out =>
    if full = !p.room ∧ out = shown p.keys p.room e then
      some { keys := p.keys ++ [e], text := p.text ++ if p.room then (typed p.keys e).toList else [] }
    else none
  | .kernel (.put q c) => some (if q = kbd_buf then { p with text := p.text ++ [c] } else p)
  | .kernel (.got q c) =>
    if q = kbd_buf then if p.text.head? = some c then some { p with text := p.text.tail } else none
    else some p
  | .kernel _ => some p

def replay (log : List Entry) : Option Sheet := log.foldlM Sheet.next ⟨[], []⟩

/-! ## One scan code -/

theorem on_make_effects (full : Bool) (scancode : UInt16) (k : Keyboard) :
    (on_make full scancode k).2 =
      .keymap (scancode &&& 0xff).toUInt8 (shifted scancode k.shift_status k.caps_lock_status) ::
        if full ∨ lookup scancode (shifted scancode k.shift_status k.caps_lock_status) = 0 then []
        else [.put_char (lookup scancode (shifted scancode k.shift_status k.caps_lock_status)),
          .ioq_putchar (lookup scancode (shifted scancode k.shift_status k.caps_lock_status))] := by
  unfold on_make lookup
  dsimp only
  by_cases hchar : keymap_at (scancode &&& 0xff).toUInt8 (shifted scancode k.shift_status k.caps_lock_status) = 0
  · rw [if_neg (not_not.mpr hchar), if_pos (Or.inr hchar)]
    split
    · rfl
    · split
      · rfl
      · split <;> rfl
  · rw [if_pos hchar]
    cases full with
    | false =>
      have hno : ¬ (false = true ∨ keymap_at (scancode &&& 0xff).toUInt8
          (shifted scancode k.shift_status k.caps_lock_status) = 0) := by simpa only [Bool.false_eq_true, false_or]
      rw [if_neg hno]
      rfl
    | true => rfl

set_option maxRecDepth 8000 in
theorem glyph_table : ∀ n < 128, 0 < n → ∀ ext shift caps : Bool,
    known ext (UInt8.ofNat n) = decide (Handled (wide ext (UInt8.ofNat n))) ∧
      (glyph ext (UInt8.ofNat n) shift caps).getD 0 =
        if Handled (wide ext (UInt8.ofNat n)) then
          lookup (wide ext (UInt8.ofNat n)) (shifted (wide ext (UInt8.ofNat n)) shift caps)
        else 0 := by
  decide

set_option maxRecDepth 8000 in
theorem glyph_visible : ∀ n < 128, ∀ ext shift caps : Bool, glyph ext (UInt8.ofNat n) shift caps ≠ some 0 := by
  decide

/-- The byte of a press or a repeat, with the character that its key stands for. -/
theorem handler_types (full : Bool) (k : Keyboard) (b : UInt8) (hlow : 0 < b.toNat) (hhigh : b.toNat < 0x80) :
    characters (intr_keyboard_handler full k b).2 =
        (if full then [] else (glyph k.ext_scancode b k.shift_status k.caps_lock_status).toList) ∧
      printed (intr_keyboard_handler full k b).2 =
        echo (!full) (known k.ext_scancode b) (glyph k.ext_scancode b k.shift_status k.caps_lock_status) := by
  obtain ⟨hnotE0, hmake⟩ := make_table b.toNat hhigh k.ext_scancode
  obtain ⟨hknown, hglyph⟩ := glyph_table b.toNat hhigh hlow k.ext_scancode k.shift_status k.caps_lock_status
  have hvisible := glyph_visible b.toNat hhigh k.ext_scancode k.shift_status k.caps_lock_status
  rw [ofNat_byte] at hnotE0 hmake hknown hglyph hvisible
  rw [handler_eq, if_neg hnotE0, if_neg (not_not.mpr hmake)]
  by_cases hin : Handled (wide k.ext_scancode b)
  · rw [if_pos hin] at hglyph ⊢
    rw [on_make_effects, ← hglyph, hknown, decide_eq_true hin]
    cases hc : glyph k.ext_scancode b k.shift_status k.caps_lock_status with
    | none =>
      have hno : full = true ∨ (none : Option UInt8).getD 0 = 0 := .inr rfl
      rw [if_pos hno]
      cases full <;> exact ⟨rfl, rfl⟩
    | some c =>
      have hne : c ≠ 0 := fun h => hvisible (h ▸ hc)
      cases full with
      | true =>
        have hno : true = true ∨ (some c).getD 0 = 0 := .inl rfl
        rw [if_pos hno]
        exact ⟨rfl, rfl⟩
      | false =>
        have hput : ¬ (false = true ∨ (some c).getD 0 = 0) := by simpa using hne
        rw [if_neg hput]
        exact ⟨rfl, rfl⟩
  · rw [if_neg hin] at hglyph ⊢
    rw [hknown, decide_eq_false hin]
    cases hc : glyph k.ext_scancode b k.shift_status k.caps_lock_status with
    | none => cases full <;> exact ⟨rfl, rfl⟩
    | some c =>
      rw [hc] at hglyph
      exact absurd (congrArg some hglyph) (hc ▸ hvisible)

/-- The prefix does nothing but set its flag. -/
theorem handler_marker (full : Bool) (k : Keyboard) :
    intr_keyboard_handler full k 0xe0 = ({ k with ext_scancode := true }, []) := rfl

theorem handler_releases (full : Bool) (k : Keyboard) (b : UInt8) (hhigh : b.toNat < 0x80) (hne : b.toNat ≠ 0x60) :
    (intr_keyboard_handler full k (b ||| 0x80)).2 = [] := by
  obtain ⟨hnotE0, hbreak, -⟩ := break_table b.toNat hhigh hne k.ext_scancode
  rw [ofNat_byte] at hnotE0 hbreak
  rw [handler_eq, if_neg hnotE0, if_pos hbreak]

/-! ## One event -/

def KeyEvent.key : KeyEvent → Key
  | .press key | .typematic key | .release key => key

/-- The last scan code of an event. -/
def KeyEvent.last : KeyEvent → UInt8
  | .press key | .typematic key => key.code
  | .release key => key.code ||| 0x80

theorem marked_bytes (e : KeyEvent) :
    marked e e.bytes = if e.key.ext then [(0xe0, none), (e.last, some e)] else [(e.last, some e)] := by
  have hbytes : e.bytes = e.key.bytes e.last := by cases e <;> rfl
  rw [hbytes]
  unfold Key.bytes
  split <;> rfl

/-- The last scan code of an event, when the flags follow the keys. -/
theorem handler_event (full : Bool) (k : Keyboard) (pre : List KeyEvent) (e : KeyEvent)
    (hext : k.ext_scancode = e.key.ext) (hflags : Flags pre { k with ext_scancode := false }) :
    (intr_keyboard_handler full k e.last).1 = after { k with ext_scancode := false } e ∧
      characters (intr_keyboard_handler full k e.last).2 = (if full then [] else (typed pre e).toList) ∧
      printed (intr_keyboard_handler full k e.last).2 = shown pre (!full) e := by
  have hshift : k.shift_status = (held pre shift_l || held pre shift_r) := by
    have := ((follows_iff _ _).mpr hflags).shift
    exact Bool.eq_iff_iff.mpr (by simpa using this)
  have hcaps : k.caps_lock_status = decide (presses pre % 2 = 1) := by
    have := ((follows_iff _ _).mpr hflags).caps
    exact Bool.eq_iff_iff.mpr (by simpa using this)
  have hmake : ∀ key : Key, k.ext_scancode = key.ext →
      characters (intr_keyboard_handler full k key.code).2 = (if full then [] else (typed pre (.press key)).toList) ∧
        printed (intr_keyboard_handler full k key.code).2 = shown pre (!full) (.press key) := by
    intro key hkey
    obtain ⟨hchars, hout⟩ := handler_types full k key.code key.valid.1 key.valid.2.1
    rw [hkey, hshift, hcaps] at hchars hout
    exact ⟨hchars, hout⟩
  cases e with
  | press key =>
    refine ⟨?_, hmake key hext⟩
    exact (handler_make full k _ key.valid.1 key.valid.2.1).trans (by rw [hext]; rfl)
  | typematic key =>
    refine ⟨?_, hmake key hext⟩
    exact (handler_make full k _ key.valid.1 key.valid.2.1).trans (by rw [hext]; rfl)
  | release key =>
    have hne : key.code.toNat ≠ 0x60 := fun h => key.valid.2.2 (UInt8.toNat_inj.mp h)
    have hnone := handler_releases full k key.code key.valid.2.1 hne
    refine ⟨?_, ?_, congrArg printed hnone⟩
    · exact (handler_break full k _ key.valid.2.1 hne).trans (by rw [hext]; rfl)
    · refine (congrArg characters hnone).trans ?_
      cases full <;> rfl

/-! ## The log and the sheet -/

theorem strikes_append (log evs : List Entry) : strikes (log ++ evs) = strikes log ++ strikes evs :=
  List.filterMap_append

theorem keys_append (log evs : List Entry) : keys (log ++ evs) = keys log ++ keys evs := List.filterMap_append

theorem strikes_kernel (evs : List Event) : strikes (evs.map .kernel) = [] := by
  apply List.filterMap_eq_nil_iff.mpr
  simp

theorem keys_kernel (evs : List Event) : keys (evs.map .kernel) = [] := by
  apply List.filterMap_eq_nil_iff.mpr
  simp

theorem replay_append (log evs : List Entry) :
    replay (log ++ evs) = (replay log).bind fun p => evs.foldlM Sheet.next p := List.foldlM_append

/-- Events that do not touch `kbd_buf`. -/
theorem next_quiet (p : Sheet) (evs : List Event) (hp : puts kbd_buf evs = []) (hg : gots kbd_buf evs = []) :
    (evs.map .kernel).foldlM Sheet.next p = some p := by
  induction evs with
  | nil => rfl
  | cons e evs ih =>
    have hputs := List.append_eq_nil_iff.mp ((puts_append kbd_buf [e] evs).symm.trans hp)
    have hgots := List.append_eq_nil_iff.mp ((gots_append kbd_buf [e] evs).symm.trans hg)
    have hnext : p.next (.kernel e) = some p := by
      cases e with
      | put q c =>
        have hq : q ≠ kbd_buf := by
          rintro rfl
          simp [puts] at hputs
        simp only [Sheet.next, if_neg hq]
      | got q c =>
        have hq : q ≠ kbd_buf := by
          rintro rfl
          simp [gots] at hgots
        simp only [Sheet.next, if_neg hq]
      | created | down | up | acquired | released => rfl
    rw [List.map_cons, List.foldlM_cons, hnext]
    exact ih hputs.2 hgots.2

/-- What the tasks do to `kbd_buf`, they do to the sheet. -/
theorem next_queue (ks : List KeyEvent) (q q' : IoQueue) (evs : List Event) (hwf : q.Wf)
    (h : QueueMove kbd_buf q q' evs) :
    (evs.map .kernel).foldlM Sheet.next ⟨ks, q.pending⟩ = some ⟨ks, q'.pending⟩ := by
  cases h with
  | stay _ hb hh ht hp hg =>
    rw [next_quiet _ evs hp hg, IoQueue.pending, IoQueue.pending, hb, hh, ht]
  | put c hf hb hh ht =>
    have hpend : q'.pending = q.pending ++ [c] := by
      rw [← stored_pending q c hwf hf, IoQueue.pending, hb, hh, ht]
      rfl
    rw [hpend]
    rfl
  | got he hb hh ht =>
    have hpend : q.pending = q.buf q.tail :: q'.pending := by
      rw [taken_pending q hwf he]
      congr 1
      simp only [IoQueue.pending, hb, hh, ht]
      rfl
    rw [hpend]
    simp [Sheet.next]

theorem room_eq (ks : List KeyEvent) (q : IoQueue) (hwf : q.Wf) : Sheet.room ⟨ks, q.pending⟩ = !ioq_full q := by
  have hle := pending_length q hwf
  have hfull := ioq_full_iff q hwf
  unfold Sheet.room
  cases hq : ioq_full q with
  | true => simp [hfull.mp hq]
  | false =>
    have hne : q.pending.length ≠ bufsize - 1 := fun h => by simp [hfull.mpr h] at hq
    simpa using Nat.lt_of_le_of_ne hle hne

/-- A character that the handler puts is one interrupt of the kernel's keyboard. -/
theorem store_step (m m' : Machine) (c : UInt8) (hintr : m.sched.intr = true) (hfull : ioq_full (m.ioq kbd_buf) = false)
    (h : [c].foldlM (fun m c => ioq_store m kbd_buf c) m = .ok m') :
    OsLearn.step m (.keyboard kbd_buf c) = .ok (m', [.put kbd_buf c]) := by
  have hstore : ioq_store m kbd_buf c = .ok m' := by simpa using h
  simp only [OsLearn.step, hintr, if_true, keyboard_char, hfull, Bool.false_eq_true, if_false, hstore]
  rfl

/-- The handler puts a character where there is room for it. -/
theorem store_typed (klog : List Event) (m m' : Machine) (o : Option UInt8) (hr : Reach kernel anyStep klog m)
    (hintr : m.sched.intr = true)
    (h : (if ioq_full (m.ioq kbd_buf) then [] else o.toList).foldlM (fun m c => ioq_store m kbd_buf c) m = .ok m') :
    (∃ klog', Reach kernel anyStep klog' m') ∧
      (m'.ioq kbd_buf).pending = (m.ioq kbd_buf).pending ++ if ioq_full (m.ioq kbd_buf) then [] else o.toList := by
  cases hfull : ioq_full (m.ioq kbd_buf) with
  | true =>
    rw [hfull] at h
    obtain rfl := Except.ok.inj h
    exact ⟨⟨klog, hr⟩, by simp⟩
  | false =>
    rw [hfull] at h
    cases o with
    | none =>
      obtain rfl := Except.ok.inj h
      exact ⟨⟨klog, hr⟩, by simp⟩
    | some c =>
      have hstep := store_step m m' c hintr hfull h
      have hnext : Reach kernel anyStep (klog ++ [.put kbd_buf c]) m' :=
        .step klog m (Act.keyboard kbd_buf c) m' _ hr trivial hstep
      refine ⟨⟨_, hnext⟩, ?_⟩
      have hwf := (reach_fifo kbd_buf _ klog m hr).wf
      have hmv := spec_of_ok _ _ _ (step_moves m _ (reach_inv klog m hr)) (m', _) hstep
      have hsheet := next_queue [] _ _ _ hwf (moves_queue kbd_buf m m' _ _ hmv)
      simpa [Sheet.next] using hsheet.symm

/-! ## Whole runs -/

def scancodes (es : List KeyEvent) : List (UInt8 × Option KeyEvent) := es.flatMap fun e => marked e e.bytes

/-- The line holds the scan codes of some events, or all but the first one, a prefix. -/
inductive Waiting : Bool → List KeyEvent → List (UInt8 × Option KeyEvent) → Prop
  | whole (es : List KeyEvent) : Waiting false es (scancodes es)
  | half (e : KeyEvent) (es : List KeyEvent) : e.key.ext = true → Waiting true (e :: es) ((e.last, some e) :: scancodes es)

theorem Waiting.strike (ext : Bool) (es : List KeyEvent) (line : List (UInt8 × Option KeyEvent))
    (h : Waiting ext es line) (e : KeyEvent) : Waiting ext (es ++ [e]) (line ++ marked e e.bytes) := by
  have hsnoc : ∀ es, scancodes es ++ marked e e.bytes = scancodes (es ++ [e]) := by
    intro es
    simp [scancodes]
  cases h with
  | whole es =>
    rw [hsnoc]
    exact .whole _
  | half e' es hext =>
    rw [List.cons_append, List.cons_append, hsnoc]
    exact .half e' _ hext

/-- The next scan code is a prefix, or the last one of the first event. -/
theorem Waiting.head (ext : Bool) (es : List KeyEvent) (byte : UInt8) (last : Option KeyEvent)
    (line : List (UInt8 × Option KeyEvent)) (h : Waiting ext es ((byte, last) :: line)) :
    byte = 0xe0 ∧ last = none ∧ Waiting true es line ∨
      ∃ e es', es = e :: es' ∧ ext = e.key.ext ∧ byte = e.last ∧ last = some e ∧ Waiting false es' line := by
  generalize hl : (byte, last) :: line = l at h
  cases h with
  | whole es =>
    cases es with
    | nil => cases hl
    | cons e es =>
      have hcons : scancodes (e :: es) = marked e e.bytes ++ scancodes es := List.flatMap_cons
      rw [hcons, marked_bytes] at hl
      cases hext : e.key.ext with
      | true =>
        rw [hext] at hl
        cases hl
        exact .inl ⟨rfl, rfl, .half e es hext⟩
      | false =>
        rw [hext] at hl
        cases hl
        exact .inr ⟨e, es, rfl, hext.symm, rfl, rfl, .whole es⟩
  | half e es hext =>
    cases hl
    exact .inr ⟨e, es, rfl, hext.symm, rfl, rfl, .whole es⟩

structure Kept (log : List Entry) (s : Desk) : Prop where
  kernel : ∃ klog, Reach kernel anyStep klog s.machine
  legal : ∀ pre e, pre ++ [e] <+: strikes log → Allowed (held pre) e ∧ ¬ Slip pre e
  line : ∃ rest, strikes log = keys log ++ rest ∧ Waiting s.keyboard.ext_scancode rest s.line
  flags : { s.keyboard with ext_scancode := false } = (keys log).foldl after .init
  replay : replay log = some ⟨keys log, (s.machine.ioq kbd_buf).pending⟩

theorem Kept.strike (log : List Entry) (s : Desk) (h : Kept log s) (e : KeyEvent)
    (he : Allowed (held (strikes log)) e ∧ ¬ Slip (strikes log) e) :
    Kept (log ++ [.strike e]) { s with line := s.line ++ marked e e.bytes } := by
  have hstrikes : strikes (log ++ [.strike e]) = strikes log ++ [e] := strikes_append log _
  have hkeys : keys (log ++ [.strike e]) = keys log := (keys_append log _).trans (List.append_nil _)
  obtain ⟨rest, hrest, hwait⟩ := h.line
  refine ⟨h.kernel, ?_, ⟨rest ++ [e], ?_, hwait.strike _ _ _ e⟩, ?_, ?_⟩
  · intro pre e' hpre
    rw [hstrikes] at hpre
    obtain heq | hpre := List.prefix_concat_iff.mp hpre
    · obtain ⟨rfl, hlast⟩ := List.append_inj' heq rfl
      obtain rfl := List.singleton_inj.mp hlast
      exact he
    · exact h.legal pre e' hpre
  · rw [hstrikes, hkeys, hrest, List.append_assoc]
  · rw [hkeys]
    exact h.flags
  · rw [hkeys, replay_append, h.replay]
    rfl

theorem Kept.task (log : List Entry) (s : Desk) (h : Kept log s) (a : Act) (m : Machine) (evs : List Event)
    (hs : OsLearn.step s.machine a = .ok (m, evs)) : Kept (log ++ evs.map .kernel) { s with machine := m } := by
  have hstrikes : strikes (log ++ evs.map .kernel) = strikes log := by
    rw [strikes_append, strikes_kernel, List.append_nil]
  have hkeys : keys (log ++ evs.map .kernel) = keys log := by rw [keys_append, keys_kernel, List.append_nil]
  obtain ⟨klog, hr⟩ := h.kernel
  have hnext : Reach OsLearn.kernel anyStep (klog ++ evs) m := .step klog s.machine a m evs hr trivial hs
  have hmv := spec_of_ok _ _ _ (step_moves s.machine a (reach_inv klog _ hr)) (m, evs) hs
  refine ⟨⟨_, hnext⟩, ?_, ?_, ?_, ?_⟩
  · rw [hstrikes]
    exact h.legal
  · rw [hstrikes, hkeys]
    exact h.line
  · rw [hkeys]
    exact h.flags
  · rw [hkeys, replay_append, h.replay]
    exact next_queue _ _ _ evs (reach_fifo kbd_buf _ klog _ hr).wf (moves_queue kbd_buf _ _ a evs hmv)

/-- What an interrupt reads and does. -/
theorem irq_step (s s' : Desk) (evs : List Entry) (hs : step s .irq = .ok (s', evs)) :
    ∃ byte last line machine full, s.line = (byte, last) :: line ∧ s.machine.sched.intr = true ∧
      ioq_full (s.machine.ioq kbd_buf) = full ∧
      (characters (intr_keyboard_handler full s.keyboard byte).2).foldlM (fun m c => ioq_store m kbd_buf c) s.machine =
        .ok machine ∧
      s' = { keyboard := (intr_keyboard_handler full s.keyboard byte).1, machine := machine, line := line } ∧
      evs = [.read last full (printed (intr_keyboard_handler full s.keyboard byte).2)] := by
  obtain ⟨keyboard, m, line⟩ := s
  obtain _ | ⟨⟨byte, last⟩, line⟩ := line
  · contradiction
  cases hintr : m.sched.intr with
  | false => simp [step, hintr] at hs
  | true =>
    simp only [step, hintr, if_true] at hs
    cases hm : (characters (intr_keyboard_handler (ioq_full (m.ioq kbd_buf)) keyboard byte).2).foldlM
        (fun m c => ioq_store m kbd_buf c) m with
    | error stop =>
      rw [hm] at hs
      contradiction
    | ok machine =>
      rw [hm] at hs
      obtain ⟨rfl, rfl⟩ := Prod.mk.inj (Except.ok.inj hs)
      exact ⟨byte, last, line, machine, _, rfl, rfl, rfl, hm, rfl, rfl⟩

theorem handler_chars (full : Bool) (k : Keyboard) (byte : UInt8) :
    characters (intr_keyboard_handler full k byte).2 = [] ∨
      full = false ∧ ∃ c, characters (intr_keyboard_handler full k byte).2 = [c] := by
  rw [handler_eq]
  split
  · exact .inl rfl
  · split
    · exact .inl rfl
    · split
      · rw [on_make_effects]
        cases full with
        | true => exact .inl rfl
        | false =>
          split
          · exact .inl rfl
          · exact .inr ⟨rfl, _, rfl⟩
      · exact .inl rfl

theorem irq_machine (s s' : Desk) (evs : List Entry) (hs : step s .irq = .ok (s', evs)) :
    s'.machine = s.machine ∨
      ∃ c, OsLearn.step s.machine (.keyboard kbd_buf c) = .ok (s'.machine, [.put kbd_buf c]) := by
  obtain ⟨byte, last, line, machine, full, -, hintr, hfull, hstore, rfl, -⟩ := irq_step s s' evs hs
  rcases handler_chars full s.keyboard byte with hnone | ⟨rfl, c, hc⟩
  · rw [hnone] at hstore
    exact .inl (Except.ok.inj hstore).symm
  · rw [hc] at hstore
    exact .inr ⟨c, store_step _ _ c hintr hfull hstore⟩

theorem clear_eq (k : Keyboard) (h : k.ext_scancode = false) : { k with ext_scancode := false } = k := by
  rw [← h]

theorem Kept.half (log : List Entry) (s s' : Desk) (full : Bool) (h : Kept log s)
    (hfull : ioq_full (s.machine.ioq kbd_buf) = full)
    (hkeyboard : s'.keyboard = { s.keyboard with ext_scancode := true }) (hmachine : s'.machine = s.machine)
    (hline : ∃ rest, strikes log = keys log ++ rest ∧ Waiting true rest s'.line) :
    Kept (log ++ [.read none full []]) s' := by
  have hstrikes : strikes (log ++ [.read none full []]) = strikes log :=
    (strikes_append log _).trans (List.append_nil _)
  have hkeys : keys (log ++ [.read none full []]) = keys log := (keys_append log _).trans (List.append_nil _)
  obtain ⟨klog, hr⟩ := h.kernel
  have hwf := (reach_fifo kbd_buf _ klog _ hr).wf
  refine ⟨⟨klog, hmachine ▸ hr⟩, ?_, ?_, ?_, ?_⟩
  · rw [hstrikes]
    exact h.legal
  · rw [hstrikes, hkeys, hkeyboard]
    exact hline
  · rw [hkeyboard, hkeys]
    exact h.flags
  · rw [hmachine, hkeys, replay_append, h.replay]
    simp [Sheet.next, room_eq _ _ hwf, hfull]

theorem Kept.irq (log : List Entry) (s s' : Desk) (evs : List Entry) (h : Kept log s)
    (hs : step s .irq = .ok (s', evs)) : Kept (log ++ evs) s' := by
  obtain ⟨byte, last, line, machine, full, hline, hintr, hfull, hstore, rfl, rfl⟩ := irq_step s s' evs hs
  obtain ⟨rest, hrest, hwait⟩ := h.line
  rw [hline] at hwait
  obtain ⟨rfl, rfl, hnext⟩ | ⟨e, es, rfl, hext, rfl, rfl, hnext⟩ := hwait.head _ _ _ _ _
  · rw [handler_marker] at hstore
    exact h.half log s _ full hfull rfl (Except.ok.inj hstore).symm ⟨rest, hrest, hnext⟩
  -- The last scan code of an event: what the handler does is what the sheet says.
  · have hpre : keys log <+: strikes log := ⟨_, hrest.symm⟩
    have hflags := flags_run (strikes log) (fun pre e hp => (h.legal pre e hp).1) (fun pre e hp => (h.legal pre e hp).2)
      (keys log) hpre
    rw [← h.flags] at hflags
    obtain ⟨hafter, hchars, hout⟩ := handler_event full s.keyboard (keys log) e hext hflags
    rw [hchars, ← hfull] at hstore
    obtain ⟨klog, hr⟩ := h.kernel
    obtain ⟨hkernel, hpending⟩ := store_typed klog _ _ _ hr hintr hstore
    have hwf := (reach_fifo kbd_buf _ klog _ hr).wf
    rw [hout, hafter]
    have hstrikes (out : List UInt8) : strikes (log ++ [.read (some e) full out]) = strikes log :=
      (strikes_append log _).trans (List.append_nil _)
    have hkeys (out : List UInt8) : keys (log ++ [.read (some e) full out]) = keys log ++ [e] := keys_append log _
    refine ⟨hkernel, ?_, ⟨es, ?_, ?_⟩, ?_, ?_⟩
    · rw [hstrikes]
      exact h.legal
    · rw [hstrikes, hkeys, hrest, List.append_assoc]
      rfl
    · rw [after_ext]
      exact hnext
    · rw [hkeys, List.foldl_append, ← h.flags]
      exact clear_eq _ (after_ext _ _)
    · rw [hkeys, replay_append, h.replay, hpending, hfull]
      have hroom := room_eq (keys log) _ hwf
      rw [hfull] at hroom
      cases full <;> simp [Sheet.next, hroom]

theorem task_step (s : Desk) (a : Act) (s' : Desk) (evs : List Entry) (hs : step s (.kernel a) = .ok (s', evs)) :
    ∃ m evs', OsLearn.step s.machine a = .ok (m, evs') ∧ s' = { s with machine := m } ∧ evs = evs'.map .kernel := by
  cases hm : OsLearn.step s.machine a with
  | error stop => cases a <;> simp [step, hm, bind, Except.bind] at hs
  | ok r =>
    refine ⟨r.1, r.2, rfl, ?_⟩
    cases a with
    | keyboard q byte => simp [step] at hs
    | _ =>
      simp only [step, hm] at hs
      obtain ⟨rfl, rfl⟩ := Prod.mk.inj (Except.ok.inj hs)
      exact ⟨rfl, rfl⟩

theorem reach_kept (log : List Entry) (s : Desk) (h : Reach desk careful log s) : Kept log s := by
  apply reach_invariant desk careful Kept _ _ log s h
  · rintro ⟨keyboard, m, line⟩ ⟨hm, rfl, rfl⟩
    refine ⟨⟨[], .init m hm⟩, fun pre e hpre => ?_, ⟨[], rfl, .whole []⟩, rfl, ?_⟩
    · simpa [strikes] using List.prefix_nil.mp hpre
    · obtain ⟨-, hfifo⟩ := reach_fifo kbd_buf anyStep [] m (.init m hm)
      have hpending : (m.ioq kbd_buf).pending = [] := hfifo.symm
      rw [hpending]
      rfl
  · intro log s a s' evs hk hok hs
    cases a with
    | strike e =>
      obtain ⟨rfl, rfl⟩ := Prod.mk.inj (Except.ok.inj hs)
      exact hk.strike log s e (hok e rfl)
    | irq => exact hk.irq log s s' evs hs
    | kernel a =>
      obtain ⟨m, evs', hm, rfl, rfl⟩ := task_step s a s' evs hs
      exact hk.task log s a m evs' hm

def key_a : Key := ⟨false, 0x1e, by decide⟩

def quiet : Desk := { keyboard := .init, machine := zeroed, line := [] }

def sampleLog : List Entry :=
  [.strike (.press key_a), .strike (.release key_a), .read (some (.press key_a)) false [0x61],
    .read (some (.release key_a)) false []]

theorem sample_reach : ∃ s : Desk, Reach desk careful sampleLog s := by
  have hinit : desk.init quiet := ⟨(kernel_init_iff _).mpr ⟨_, _, _, _, _, rfl⟩, rfl, rfl⟩
  have hpress : ∀ s, careful [] s (.strike (.press key_a)) := by
    rintro s e ⟨⟩
    exact ⟨rfl, not_false⟩
  have hrelease : ∀ s, careful [.strike (.press key_a)] s (.strike (.release key_a)) := by
    rintro s e ⟨⟩
    refine ⟨rfl, ?_⟩
    rintro ⟨twin, -, -, hnone, -⟩
    exact hnone rfl
  have hirq : ∀ log s, careful log s .irq := by rintro log s e ⟨⟩
  have htask : ∀ log s, careful log s (.kernel (.call .intr_enable)) := by rintro log s e ⟨⟩
  have h₁ := Reach.step (S := desk) [] quiet (.strike (.press key_a)) _ _ (.init _ hinit) (hpress _) rfl
  have h₂ := Reach.step (S := desk) _ _ (.strike (.release key_a)) _ _ h₁ (hrelease _) rfl
  have h₃ := Reach.step (S := desk) _ _ (.kernel (.call .intr_enable)) _ _ h₂ (htask _ _) rfl
  have h₄ := Reach.step (S := desk) _ _ .irq _ _ h₃ (hirq _ _) rfl
  have h₅ := Reach.step (S := desk) _ _ .irq _ _ h₄ (hirq _ _) rfl
  exact ⟨_, h₅⟩

end OsLearn.Kbd
