import OsLearn.Device.Keyboard
import Mathlib.Data.List.Induction
import Mathlib.Logic.Function.Basic

/-!
# The modifier flags and the keys that are held
-/

namespace OsLearn.Kbd

/-! ## Keys -/

/-- A key by its make code in the first set, with or without the prefix. The code 0x60 is not used: with the
bit of a release it would be the prefix. -/
structure Key where
  ext : Bool
  code : UInt8
  valid : 0 < code.toNat ∧ code.toNat < 0x80 ∧ code ≠ 0x60
  deriving DecidableEq

def shift_l : Key := ⟨false, 0x2a, by decide⟩
def shift_r : Key := ⟨false, 0x36, by decide⟩
def ctrl_l : Key := ⟨false, 0x1d, by decide⟩
def ctrl_r : Key := ⟨true, 0x1d, by decide⟩
def alt_l : Key := ⟨false, 0x38, by decide⟩
def alt_r : Key := ⟨true, 0x38, by decide⟩
def caps_lock : Key := ⟨false, 0x3a, by decide⟩

inductive Control where
  | ctrl
  | shift
  | alt
  | caps
  deriving DecidableEq, Repr

/-- What kind of control key has a code. -/
def control (ext : Bool) (code : UInt8) : Option Control :=
  if code = 0x1d then some .ctrl
  else if code = 0x38 then some .alt
  else if ext then none
  else if code = 0x2a ∨ code = 0x36 then some .shift
  else if code = 0x3a then some .caps
  else none

def Key.control (key : Key) : Option Control := Kbd.control key.ext key.code

/-! ## Events -/

inductive KeyEvent where
  | press (key : Key)
  -- A repeat while the key is held.
  | typematic (key : Key)
  | release (key : Key)
  deriving DecidableEq

def Key.bytes (key : Key) (b : UInt8) : List UInt8 := if key.ext then [0xe0, b] else [b]

/-- The scan codes of an event. -/
def KeyEvent.bytes : KeyEvent → List UInt8
  | .press key => key.bytes key.code
  | .typematic key => key.bytes key.code
  | .release key => key.bytes (key.code ||| 0x80)

def stream (es : List KeyEvent) : List UInt8 := es.flatMap KeyEvent.bytes

/-- An event changes which keys are held. -/
def hold (held : Key → Bool) : KeyEvent → Key → Bool
  | .press key => Function.update held key true
  | .typematic _ => held
  | .release key => Function.update held key false

def held (es : List KeyEvent) : Key → Bool := es.foldl hold fun _ => false

/-- A key is pressed when it is up, and repeats and is released when it is down. -/
def Allowed (held : Key → Bool) : KeyEvent → Prop
  | .press key => held key = false
  | .typematic key => held key = true
  | .release key => held key = true

/-- Every key alternates: it is pressed, repeats, and is released. -/
def Legal (es : List KeyEvent) : Prop := ∀ pre e, pre ++ [e] <+: es → Allowed (held pre) e

/-- How often Caps Lock was pressed. -/
def presses (es : List KeyEvent) : Nat := es.count (.press caps_lock)

/-- The flags say which keys are held. -/
structure Follows (es : List KeyEvent) (k : Keyboard) : Prop where
  shift : k.shift_status = true ↔ held es shift_l = true ∨ held es shift_r = true
  ctrl : k.ctrl_status = true ↔ held es ctrl_l = true ∨ held es ctrl_r = true
  alt : k.alt_status = true ↔ held es alt_l = true ∨ held es alt_r = true
  caps : k.caps_lock_status = true ↔ presses es % 2 = 1

/-- A control key is released while another one of its kind is held, or Caps Lock repeats. -/
def Slip (pre : List KeyEvent) : KeyEvent → Prop
  | .press _ => False
  | .typematic key => key.control = some .caps
  | .release key => ∃ twin, twin ≠ key ∧ twin.control = key.control ∧ key.control ≠ none ∧ held pre twin = true

/-! ## What the handler does with an event -/

namespace Keyboard

def pressed (c : Option Control) (k : Keyboard) : Keyboard :=
  match c with
  | none => k
  | some .ctrl => { k with ctrl_status := true }
  | some .shift => { k with shift_status := true }
  | some .alt => { k with alt_status := true }
  | some .caps => { k with caps_lock_status := !k.caps_lock_status }

def released (c : Option Control) (k : Keyboard) : Keyboard :=
  match c with
  | some .ctrl => { k with ctrl_status := false }
  | some .shift => { k with shift_status := false }
  | some .alt => { k with alt_status := false }
  | _ => k

end Keyboard

/-- The scan code that a byte is merged into. -/
def wide (ext : Bool) (b : UInt8) : UInt16 := if ext then b.toUInt16 ||| 0xe000 else b.toUInt16

def Handled (scancode : UInt16) : Prop :=
  0 < scancode ∧ scancode < 0x3b ∨ alt_r_make = scancode ∨ ctrl_r_make = scancode

instance (scancode : UInt16) : Decidable (Handled scancode) := inferInstanceAs (Decidable (_ ∨ _))

def lookup (scancode : UInt16) (shift : Bool) : UInt8 := keymap_at (scancode &&& 0xff).toUInt8 shift

/-- The control key of a pressed code, once its character is 0. -/
def makeControl (scancode : UInt16) : Control :=
  if ctrl_l_make = scancode ∨ ctrl_r_make = scancode then .ctrl
  else if shift_l_make = scancode ∨ shift_r_make = scancode then .shift
  else if alt_l_make = scancode ∨ alt_r_make = scancode then .alt
  else .caps

def breakControl (make_code : UInt16) : Option Control :=
  if ctrl_l_make = make_code ∨ ctrl_r_make = make_code then some .ctrl
  else if shift_l_make = make_code ∨ shift_r_make = make_code then some .shift
  else if alt_l_make = make_code ∨ alt_r_make = make_code then some .alt
  else none

theorem on_make_eq (full : Bool) (scancode : UInt16) (k : Keyboard) :
    (on_make full scancode k).1 =
      if lookup scancode (shifted scancode k.shift_status k.caps_lock_status) ≠ 0 then k
      else k.pressed (some (makeControl (scancode &&& 0xff))) := by
  unfold on_make lookup
  dsimp only
  by_cases hchar : keymap_at (scancode &&& 0xff).toUInt8 (shifted scancode k.shift_status k.caps_lock_status) ≠ 0
  · rw [if_pos hchar, if_pos hchar]
  · rw [if_neg hchar, if_neg hchar]
    unfold makeControl
    split
    · rfl
    · split
      · rfl
      · split <;> rfl

theorem on_break_eq (scancode : UInt16) (k : Keyboard) :
    on_break scancode k = k.released (breakControl (scancode &&& 0xff7f)) := by
  unfold on_break breakControl
  dsimp only
  split
  · rfl
  · split
    · rfl
    · split <;> rfl

/-! The codes one by one. -/

set_option maxRecDepth 8000 in
theorem make_table : ∀ n < 128, ∀ ext : Bool,
    (UInt8.ofNat n).toUInt16 ≠ 0xe0 ∧ 0x80 &&& wide ext (UInt8.ofNat n) = 0 := by
  decide

set_option maxRecDepth 8000 in
theorem lookup_table : ∀ n < 128, ∀ ext : Bool, Handled (wide ext (UInt8.ofNat n)) → ∀ shift : Bool,
    control ext (UInt8.ofNat n) = if lookup (wide ext (UInt8.ofNat n)) shift ≠ 0 then none
      else some (makeControl (wide ext (UInt8.ofNat n) &&& 0xff)) := by
  decide

set_option maxRecDepth 8000 in
theorem unknown_table : ∀ n < 128, 0 < n → ∀ ext : Bool, ¬ Handled (wide ext (UInt8.ofNat n)) →
    control ext (UInt8.ofNat n) = none := by
  decide

set_option maxRecDepth 8000 in
theorem break_table : ∀ n < 128, n ≠ 0x60 → ∀ ext : Bool,
    (UInt8.ofNat n ||| 0x80).toUInt16 ≠ 0xe0 ∧ 0x80 &&& wide ext (UInt8.ofNat n ||| 0x80) ≠ 0 ∧
      breakControl (wide ext (UInt8.ofNat n ||| 0x80) &&& 0xff7f) =
        (control ext (UInt8.ofNat n)).filter (· ≠ .caps) := by
  decide

/-! ## The handler and the keys -/

theorem handler_eq (full : Bool) (k : Keyboard) (byte : UInt8) :
    intr_keyboard_handler full k byte =
      if byte.toUInt16 = 0xe0 then ({ k with ext_scancode := true }, [])
      else if 0x80 &&& wide k.ext_scancode byte ≠ 0 then
        (on_break (wide k.ext_scancode byte) { k with ext_scancode := false }, [])
      else if Handled (wide k.ext_scancode byte) then
        on_make full (wide k.ext_scancode byte) { k with ext_scancode := false }
      else ({ k with ext_scancode := false }, [.put_str_unknown_key]) := rfl

theorem ofNat_byte (b : UInt8) : UInt8.ofNat b.toNat = b := UInt8.ofNat_toNat

/-- A byte below 0x80. -/
theorem handler_make (full : Bool) (k : Keyboard) (b : UInt8) (hlow : 0 < b.toNat) (hhigh : b.toNat < 0x80) :
    (intr_keyboard_handler full k b).1 =
      { k with ext_scancode := false }.pressed (control k.ext_scancode b) := by
  obtain ⟨hnotE0, hmake⟩ := make_table b.toNat hhigh k.ext_scancode
  have hlookup := lookup_table b.toNat hhigh k.ext_scancode
  have hunknown := unknown_table b.toNat hhigh hlow k.ext_scancode
  rw [ofNat_byte] at hnotE0 hmake hlookup hunknown
  rw [handler_eq, if_neg hnotE0, if_neg (not_not.mpr hmake)]
  by_cases hin : Handled (wide k.ext_scancode b)
  · rw [if_pos hin, on_make_eq, hlookup hin (shifted (wide k.ext_scancode b) k.shift_status k.caps_lock_status)]
    split <;> rfl
  · rw [if_neg hin, hunknown hin]
    rfl

theorem released_filter (k : Keyboard) (c : Option Control) : k.released (c.filter (· ≠ .caps)) = k.released c := by
  obtain _ | c := c
  · rfl
  · cases c <;> rfl

/-- The byte of a release. -/
theorem handler_break (full : Bool) (k : Keyboard) (b : UInt8) (hhigh : b.toNat < 0x80) (hne : b.toNat ≠ 0x60) :
    (intr_keyboard_handler full k (b ||| 0x80)).1 =
      { k with ext_scancode := false }.released (control k.ext_scancode b) := by
  obtain ⟨hnotE0, hbreak, hcontrol⟩ := break_table b.toNat hhigh hne k.ext_scancode
  rw [ofNat_byte] at hnotE0 hbreak hcontrol
  rw [handler_eq, if_neg hnotE0, if_pos hbreak]
  dsimp only
  rw [on_break_eq, hcontrol, released_filter]

/-! ## Events and the flags -/

/-- What an event does to the flags. -/
def after (k : Keyboard) : KeyEvent → Keyboard
  | .press key => k.pressed key.control
  | .typematic key => k.pressed key.control
  | .release key => k.released key.control

theorem consume_append (input more : List (UInt8 × Bool)) (k : Keyboard) :
    (consume (input ++ more) k).1 = (consume more (consume input k).1).1 := by
  induction input generalizing k with
  | nil => rfl
  | cons x input ih => exact ih _

/-- The one or two bytes of a key reach the handler with the prefix merged. -/
theorem consume_key (key : Key) (b : UInt8) (k : Keyboard) (hext : k.ext_scancode = false)
    (input : List (UInt8 × Bool)) (hin : input.map Prod.fst = key.bytes b) :
    ∃ full, (consume input k).1 = (intr_keyboard_handler full { k with ext_scancode := key.ext } b).1 := by
  unfold Key.bytes at hin
  cases hkey : key.ext with
  | false =>
    rw [hkey, if_neg Bool.false_ne_true] at hin
    obtain ⟨⟨_, full⟩, rfl, rfl⟩ := List.map_eq_singleton_iff.mp hin
    refine ⟨full, ?_⟩
    rw [← hext]
    rfl
  | true =>
    rw [hkey, if_pos rfl] at hin
    obtain ⟨⟨_, full₀⟩, rest, rfl, rfl, hrest⟩ := List.map_eq_cons_iff.mp hin
    obtain ⟨⟨_, full⟩, rfl, rfl⟩ := List.map_eq_singleton_iff.mp hrest
    exact ⟨full, rfl⟩

theorem pressed_ext (c : Option Control) (k : Keyboard) : (k.pressed c).ext_scancode = k.ext_scancode := by
  obtain _ | c := c
  · rfl
  · cases c <;> rfl

theorem released_ext (c : Option Control) (k : Keyboard) : (k.released c).ext_scancode = k.ext_scancode := by
  obtain _ | c := c
  · rfl
  · cases c <;> rfl

theorem after_ext (k : Keyboard) (e : KeyEvent) : (after k e).ext_scancode = k.ext_scancode := by
  cases e with
  | press key => exact pressed_ext _ _
  | typematic key => exact pressed_ext _ _
  | release key => exact released_ext _ _

theorem consume_event (e : KeyEvent) (k : Keyboard) (hext : k.ext_scancode = false) (input : List (UInt8 × Bool))
    (hin : input.map Prod.fst = e.bytes) : (consume input k).1 = after k e := by
  have hclear : ({ k with ext_scancode := false } : Keyboard) = k := by rw [← hext]
  have hmake : ∀ key : Key, input.map Prod.fst = key.bytes key.code → (consume input k).1 = k.pressed key.control := by
    intro key hkey
    obtain ⟨full, hrun⟩ := consume_key key _ k hext input hkey
    rw [hrun, handler_make full _ key.code key.valid.1 key.valid.2.1]
    exact congrArg _ hclear
  cases e with
  | press key => exact hmake key hin
  | typematic key => exact hmake key hin
  | release key =>
    obtain ⟨full, hrun⟩ := consume_key key _ k hext input hin
    have hne : key.code.toNat ≠ 0x60 := fun h => key.valid.2.2 (UInt8.toNat_inj.mp h)
    rw [hrun, handler_break full _ key.code key.valid.2.1 hne]
    exact congrArg _ hclear

/-- The flags after a stream of whole events. -/
theorem consume_stream (es : List KeyEvent) (input : List (UInt8 × Bool)) (hin : input.map Prod.fst = stream es) :
    (consume input .init).1 = es.foldl after .init ∧ (es.foldl after .init).ext_scancode = false := by
  induction es using List.reverseRecOn generalizing input with
  | nil =>
    rw [List.map_eq_nil_iff.mp hin]
    exact ⟨rfl, rfl⟩
  | append_singleton es e ih =>
    unfold stream at hin
    rw [List.flatMap_append, List.flatMap_singleton] at hin
    obtain ⟨before, last, rfl, hbefore, hlast⟩ := List.map_eq_append_iff.mp hin
    obtain ⟨hrun, hext⟩ := ih before hbefore
    rw [List.foldl_append, List.foldl_cons, List.foldl_nil, consume_append, hrun, after_ext]
    exact ⟨consume_event e _ hext last hlast, hext⟩

/-! ## Which keys hold a flag up -/

def flag (c : Control) (k : Keyboard) : Bool :=
  match c with
  | .ctrl => k.ctrl_status
  | .shift => k.shift_status
  | .alt => k.alt_status
  | .caps => k.caps_lock_status

/-- A key of that kind is held. -/
def Down (es : List KeyEvent) (c : Control) : Prop := ∃ key : Key, key.control = some c ∧ held es key = true

theorem control_some (ext : Bool) (code : UInt8) (c : Control) (h : control ext code = some c) :
    c = .ctrl ∧ code = 0x1d ∨ c = .alt ∧ code = 0x38 ∨ c = .shift ∧ ext = false ∧ (code = 0x2a ∨ code = 0x36) ∨
      c = .caps ∧ ext = false ∧ code = 0x3a := by
  unfold control at h
  split at h
  · next hcode => exact .inl ⟨(Option.some.inj h).symm, hcode⟩
  split at h
  · next hcode => exact .inr (.inl ⟨(Option.some.inj h).symm, hcode⟩)
  split at h
  · contradiction
  next hext =>
  split at h
  · next hcode => exact .inr (.inr (.inl ⟨(Option.some.inj h).symm, Bool.eq_false_iff.mpr hext, hcode⟩))
  split at h
  · next hcode => exact .inr (.inr (.inr ⟨(Option.some.inj h).symm, Bool.eq_false_iff.mpr hext, hcode⟩))
  · contradiction

theorem control_shift (key : Key) : key.control = some .shift ↔ key = shift_l ∨ key = shift_r := by
  refine ⟨fun h => ?_, by rintro (rfl | rfl) <;> rfl⟩
  obtain ⟨ext, code, valid⟩ := key
  obtain ⟨hc, -⟩ | ⟨hc, -⟩ | ⟨-, rfl, rfl | rfl⟩ | ⟨hc, -⟩ := control_some ext code _ h
  · contradiction
  · contradiction
  · exact .inl rfl
  · exact .inr rfl
  · contradiction

theorem control_ctrl (key : Key) : key.control = some .ctrl ↔ key = ctrl_l ∨ key = ctrl_r := by
  refine ⟨fun h => ?_, by rintro (rfl | rfl) <;> rfl⟩
  obtain ⟨ext, code, valid⟩ := key
  obtain ⟨-, rfl⟩ | ⟨hc, -⟩ | ⟨hc, -⟩ | ⟨hc, -⟩ := control_some ext code _ h
  · cases ext
    · exact .inl rfl
    · exact .inr rfl
  all_goals contradiction

theorem control_alt (key : Key) : key.control = some .alt ↔ key = alt_l ∨ key = alt_r := by
  refine ⟨fun h => ?_, by rintro (rfl | rfl) <;> rfl⟩
  obtain ⟨ext, code, valid⟩ := key
  obtain ⟨hc, -⟩ | ⟨-, rfl⟩ | ⟨hc, -⟩ | ⟨hc, -⟩ := control_some ext code _ h
  · contradiction
  · cases ext
    · exact .inl rfl
    · exact .inr rfl
  all_goals contradiction

theorem control_caps (key : Key) : key.control = some .caps ↔ key = caps_lock := by
  refine ⟨fun h => ?_, by rintro rfl; rfl⟩
  obtain ⟨ext, code, valid⟩ := key
  obtain ⟨hc, -⟩ | ⟨hc, -⟩ | ⟨hc, -⟩ | ⟨-, rfl, rfl⟩ := control_some ext code _ h
  · contradiction
  · contradiction
  · contradiction
  · rfl

/-- The same for all kinds at once. -/
structure Flags (es : List KeyEvent) (k : Keyboard) : Prop where
  down : ∀ c, c ≠ .caps → (flag c k = true ↔ Down es c)
  caps : k.caps_lock_status = true ↔ presses es % 2 = 1

theorem down_pair (es : List KeyEvent) (c : Control) (l r : Key) (h : ∀ key : Key, key.control = some c ↔ key = l ∨ key = r) :
    Down es c ↔ held es l = true ∨ held es r = true := by
  constructor
  · rintro ⟨key, hc, hheld⟩
    obtain rfl | rfl := (h key).mp hc
    · exact .inl hheld
    · exact .inr hheld
  · rintro (hheld | hheld)
    · exact ⟨l, (h l).mpr (.inl rfl), hheld⟩
    · exact ⟨r, (h r).mpr (.inr rfl), hheld⟩

theorem follows_iff (es : List KeyEvent) (k : Keyboard) : Follows es k ↔ Flags es k := by
  have hshift := down_pair es .shift shift_l shift_r control_shift
  have hctrl := down_pair es .ctrl ctrl_l ctrl_r control_ctrl
  have halt := down_pair es .alt alt_l alt_r control_alt
  constructor
  · intro h
    refine ⟨fun c hc => ?_, h.caps⟩
    cases c with
    | ctrl => exact h.ctrl.trans hctrl.symm
    | shift => exact h.shift.trans hshift.symm
    | alt => exact h.alt.trans halt.symm
    | caps => contradiction
  · intro h
    exact ⟨(h.down .shift nofun).trans hshift, (h.down .ctrl nofun).trans hctrl, (h.down .alt nofun).trans halt, h.caps⟩

/-! ## One event -/

theorem held_snoc (es : List KeyEvent) (e : KeyEvent) : held (es ++ [e]) = hold (held es) e := by
  unfold held
  rw [List.foldl_append, List.foldl_cons, List.foldl_nil]

theorem presses_snoc (es : List KeyEvent) (e : KeyEvent) :
    presses (es ++ [e]) = presses es + if e = .press caps_lock then 1 else 0 := by
  unfold presses
  rw [List.count_append, List.count_singleton]
  simp only [beq_iff_eq]

theorem flag_pressed (c : Control) (hc : c ≠ .caps) (c' : Option Control) (k : Keyboard) :
    flag c (k.pressed c') = true ↔ c' = some c ∨ flag c k = true := by
  obtain _ | c' := c'
  · exact ⟨.inr, fun h => h.resolve_left nofun⟩
  · cases c' <;> cases c <;> simp [flag, Keyboard.pressed] at hc ⊢

theorem flag_released (c : Control) (hc : c ≠ .caps) (c' : Option Control) (k : Keyboard) :
    flag c (k.released c') = true ↔ c' ≠ some c ∧ flag c k = true := by
  obtain _ | c' := c'
  · exact ⟨fun h => ⟨nofun, h⟩, fun h => h.2⟩
  · cases c' <;> cases c <;> simp [flag, Keyboard.released] at hc ⊢

theorem caps_pressed (c : Option Control) (k : Keyboard) :
    (k.pressed c).caps_lock_status = if c = some .caps then !k.caps_lock_status else k.caps_lock_status := by
  obtain _ | c := c
  · rfl
  · cases c <;> rfl

theorem caps_released (c : Option Control) (k : Keyboard) : (k.released c).caps_lock_status = k.caps_lock_status := by
  obtain _ | c := c
  · rfl
  · cases c <;> rfl

theorem flags_press (es : List KeyEvent) (key : Key) (k : Keyboard) (h : Flags es k) :
    Flags (es ++ [.press key]) (after k (.press key)) := by
  refine ⟨fun c hc => ?_, ?_⟩
  · rw [after, flag_pressed c hc, h.down c hc]
    unfold Down
    rw [held_snoc]
    constructor
    · rintro (hkey | ⟨key', hkey', hheld⟩)
      · exact ⟨key, hkey, Function.update_self _ _ _⟩
      · refine ⟨key', hkey', ?_⟩
        show Function.update (held es) key true key' = true
        by_cases heq : key' = key
        · rw [heq, Function.update_self]
        · rw [Function.update_of_ne heq, hheld]
    · rintro ⟨key', hkey', hheld⟩
      by_cases heq : key' = key
      · exact .inl (heq ▸ hkey')
      · change Function.update (held es) key true key' = true at hheld
        rw [Function.update_of_ne heq] at hheld
        exact .inr ⟨key', hkey', hheld⟩
  · rw [after, caps_pressed, presses_snoc]
    by_cases hcaps : key = caps_lock
    · rw [if_pos ((control_caps key).mpr hcaps), if_pos (by rw [hcaps]), Bool.not_eq_true', ← Bool.not_eq_true, h.caps]
      omega
    · rw [if_neg fun hk => hcaps ((control_caps key).mp hk), if_neg (by simpa using hcaps), Nat.add_zero]
      exact h.caps

theorem flags_typematic (es : List KeyEvent) (key : Key) (k : Keyboard) (h : Flags es k) (hheld : held es key = true)
    (hcaps : key.control ≠ some .caps) : Flags (es ++ [.typematic key]) (after k (.typematic key)) := by
  refine ⟨fun c hc => ?_, ?_⟩
  · have hsame : Down (es ++ [.typematic key]) c ↔ Down es c := by
      unfold Down
      rw [held_snoc]
      rfl
    rw [after, flag_pressed c hc, hsame, h.down c hc]
    refine ⟨fun hor => hor.elim (fun hkey => ⟨key, hkey, hheld⟩) id, .inr⟩
  · rw [after, caps_pressed, if_neg hcaps, presses_snoc, if_neg nofun]
    exact h.caps

theorem down_release (es : List KeyEvent) (key : Key) (c : Control) :
    Down (es ++ [.release key]) c ↔ ∃ key', key' ≠ key ∧ key'.control = some c ∧ held es key' = true := by
  unfold Down
  rw [held_snoc]
  constructor
  · rintro ⟨key', hkey', hheld⟩
    change Function.update (held es) key false key' = true at hheld
    by_cases heq : key' = key
    · rw [heq, Function.update_self] at hheld
      contradiction
    · rw [Function.update_of_ne heq] at hheld
      exact ⟨key', heq, hkey', hheld⟩
  · rintro ⟨key', hne, hkey', hheld⟩
    exact ⟨key', hkey', (Function.update_of_ne hne _ _).trans hheld⟩

theorem flags_release (es : List KeyEvent) (key : Key) (k : Keyboard) (h : Flags es k)
    (hslip : ¬ Slip es (.release key)) : Flags (es ++ [.release key]) (after k (.release key)) := by
  refine ⟨fun c hc => ?_, ?_⟩
  · rw [after, flag_released c hc, h.down c hc, down_release]
    constructor
    · rintro ⟨hne, key', hkey', hheld⟩
      refine ⟨key', ?_, hkey', hheld⟩
      rintro rfl
      exact hne hkey'
    · rintro ⟨key', hne, hkey', hheld⟩
      refine ⟨fun hkey => hslip ⟨key', hne, ?_, ?_, hheld⟩, key', hkey', hheld⟩
      · rw [hkey', hkey]
      · rw [hkey]
        nofun
  · rw [after, caps_released, presses_snoc, if_neg nofun]
    exact h.caps

/-- A slip shows at once. -/
theorem slip_breaks (es : List KeyEvent) (e : KeyEvent) (k : Keyboard) (h : Flags es k) (hslip : Slip es e) :
    ¬ Flags (es ++ [e]) (after k e) := by
  intro h'
  cases e with
  | press key => exact hslip
  | typematic key =>
    have hcaps := h'.caps
    have hkey : key.control = some .caps := hslip
    rw [after, caps_pressed, if_pos hkey, presses_snoc, if_neg nofun, Nat.add_zero, ← h.caps] at hcaps
    cases hk : k.caps_lock_status <;> rw [hk] at hcaps <;> simp at hcaps
  | release key =>
    obtain ⟨twin, hne, hsame, hsome, hheld⟩ := hslip
    obtain ⟨c, hc⟩ := Option.ne_none_iff_exists'.mp hsome
    rw [hc] at hsame
    have hcaps : c ≠ .caps := by
      rintro rfl
      exact hne (((control_caps twin).mp hsame).trans ((control_caps key).mp hc).symm)
    have hflag := (h'.down c hcaps).mpr ((down_release es key c).mpr ⟨twin, hne, hsame, hheld⟩)
    rw [after, flag_released c hcaps] at hflag
    exact hflag.1 hc

/-! ## All streams -/

theorem flags_run (es : List KeyEvent) (hleg : Legal es) (hslip : ∀ pre e, pre ++ [e] <+: es → ¬ Slip pre e)
    (pre : List KeyEvent) (hpre : pre <+: es) : Flags pre (pre.foldl after .init) := by
  induction pre using List.reverseRecOn with
  | nil =>
    refine ⟨fun c hc => ⟨fun h => ?_, fun ⟨key, _, hheld⟩ => absurd hheld Bool.false_ne_true⟩, ?_⟩
    · cases c <;> contradiction
    · exact ⟨nofun, nofun⟩
  | append_singleton pre e ih =>
    have h := ih ((List.prefix_append pre [e]).trans hpre)
    have hl := hleg pre e hpre
    have hs := hslip pre e hpre
    rw [List.foldl_append, List.foldl_cons, List.foldl_nil]
    cases e with
    | press key => exact flags_press pre key _ h
    | typematic key => exact flags_typematic pre key _ h hl hs
    | release key => exact flags_release pre key _ h hs

/-- **Modifiers.** The flags follow the keys through a whole stream exactly when no key is released while its
twin is held, and Caps Lock does not repeat. -/
theorem modifiers_follow (es : List KeyEvent) (hleg : Legal es) :
    (∀ pre, pre <+: es → ∀ input : List (UInt8 × Bool), input.map Prod.fst = stream pre →
      Follows pre (consume input .init).1) ↔ ∀ pre e, pre ++ [e] <+: es → ¬ Slip pre e := by
  constructor
  · intro h pre e hpre hslip
    have hflags : ∀ pre, pre <+: es → Flags pre (pre.foldl after .init) := by
      intro pre hpre
      have hin : ((stream pre).map fun b => (b, false)).map Prod.fst = stream pre := by
        rw [List.map_map]
        exact List.map_id _
      rw [← follows_iff, ← (consume_stream pre _ hin).1]
      exact h pre hpre _ hin
    have hbreak := slip_breaks pre e _ (hflags pre ((List.prefix_append pre [e]).trans hpre)) hslip
    have hnext := hflags _ hpre
    rw [List.foldl_append, List.foldl_cons, List.foldl_nil] at hnext
    exact hbreak hnext
  · intro hslip pre hpre input hin
    rw [(consume_stream pre input hin).1, follows_iff]
    exact flags_run es hleg hslip pre hpre

theorem legal_snoc (es : List KeyEvent) (e : KeyEvent) (h : Legal es) (he : Allowed (held es) e) :
    Legal (es ++ [e]) := by
  intro pre e' hpre
  obtain heq | hpre := List.prefix_concat_iff.mp hpre
  · obtain ⟨rfl, hlast⟩ := List.append_inj' heq rfl
    obtain rfl := List.singleton_inj.mp hlast
    exact he
  · exact h pre e' hpre

theorem legal_nil : Legal [] := fun pre e hpre => absurd (List.prefix_nil.mp hpre) (by simp)

theorem modifiers_follow_shift : Follows [.press shift_l] (consume [(0x2a, false)] .init).1 := by
  have hleg : Legal [.press shift_l] := legal_snoc [] _ legal_nil rfl
  refine (modifiers_follow [.press shift_l] hleg).mpr (fun pre e hpre => ?_) _ List.prefix_rfl _ rfl
  have hmem : e ∈ [.press shift_l] := hpre.subset (List.mem_append_right _ (List.mem_singleton_self e))
  rw [List.mem_singleton.mp hmem]
  exact not_false

/-- Both shift keys are pressed, and the right one is released. -/
def twoShifts : List KeyEvent := [.press shift_l, .press shift_r, .release shift_r]

theorem shift_lost :
    Legal twoShifts ∧ held twoShifts shift_l = true ∧ stream twoShifts = [0x2a, 0x36, 0xb6] ∧
      (consume [(0x2a, false), (0x36, false), (0xb6, false)] .init).1.shift_status = false := by
  refine ⟨?_, by decide, by decide, by decide⟩
  exact legal_snoc [.press shift_l, .press shift_r] _
    (legal_snoc [.press shift_l] _ (legal_snoc [] _ legal_nil rfl) rfl) rfl

end OsLearn.Kbd
