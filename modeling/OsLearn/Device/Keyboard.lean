import Mathlib.Tactic.Common
import Mathlib.Algebra.Group.Nat.Defs

/-!
# `device/keyboard.c`: `intr_keyboard_handler`

Both keys of a kind share one flag. A code behind the prefix 0xe0 comes with the next interrupt.
-/

namespace OsLearn.Kbd

/-! ## Codes -/

def esc : UInt8 := 0x1b
def backspace : UInt8 := 0x08
def tab : UInt8 := 0x09
def enter : UInt8 := 0x0d

def char_invisible : UInt8 := 0

def shift_l_make : UInt16 := 0x2a
def shift_r_make : UInt16 := 0x36
def alt_l_make : UInt16 := 0x38
def alt_r_make : UInt16 := 0xe038
def ctrl_l_make : UInt16 := 0x1d
def ctrl_r_make : UInt16 := 0xe01d

/-- The characters by make code, without and with shift. -/
def keymap : List (UInt8 × UInt8) :=
  [(0, 0), (esc, esc), (0x31, 0x21), (0x32, 0x40), (0x33, 0x23), (0x34, 0x24), (0x35, 0x25), (0x36, 0x5e),
   (0x37, 0x26), (0x38, 0x2a), (0x39, 0x28), (0x30, 0x29), (0x2d, 0x5f), (0x3d, 0x2b), (backspace, backspace),
   (tab, tab),
   -- 0x10: q, w, e, r, t, y, u, i, o, p, [, ], enter, ctrl, a, s
   (0x71, 0x51), (0x77, 0x57), (0x65, 0x45), (0x72, 0x52), (0x74, 0x54), (0x79, 0x59), (0x75, 0x55), (0x69, 0x49),
   (0x6f, 0x4f), (0x70, 0x50), (0x5b, 0x7b), (0x5d, 0x7d), (enter, enter), (char_invisible, char_invisible),
   (0x61, 0x41), (0x73, 0x53),
   -- 0x20: d, f, g, h, j, k, l, ;, ', grave, shift, backslash, z, x, c, v
   (0x64, 0x44), (0x66, 0x46), (0x67, 0x47), (0x68, 0x48), (0x6a, 0x4a), (0x6b, 0x4b), (0x6c, 0x4c), (0x3b, 0x3a),
   (0x27, 0x22), (0x60, 0x7e), (char_invisible, char_invisible), (0x5c, 0x7c), (0x7a, 0x5a), (0x78, 0x58),
   (0x63, 0x43), (0x76, 0x56),
   -- 0x30: b, n, m, comma, dot, slash, shift, *, alt, space, caps lock
   (0x62, 0x42), (0x6e, 0x4e), (0x6d, 0x4d), (0x2c, 0x3c), (0x2e, 0x3e), (0x2f, 0x3f),
   (char_invisible, char_invisible), (0x2a, 0x2a), (char_invisible, char_invisible), (0x20, 0x20),
   (char_invisible, char_invisible)]

/-- `keymap[index][shift]` -/
def keymap_at (index : UInt8) (shift : Bool) : UInt8 :=
  let pair := keymap.getD index.toNat (0, 0)
  if shift then pair.2 else pair.1

/-! ## The handler -/

structure Keyboard where
  ctrl_status : Bool
  shift_status : Bool
  alt_status : Bool
  caps_lock_status : Bool
  ext_scancode : Bool
  deriving DecidableEq, Repr

/-- All flags are false at first. -/
def Keyboard.init : Keyboard := ⟨false, false, false, false, false⟩

/-- What the handler does besides. -/
inductive Effect where
  -- A lookup `keymap[index][shift]`.
  | keymap (index : UInt8) (shift : Bool)
  | put_char (c : UInt8)
  | ioq_putchar (c : UInt8)
  -- The text "unknown key\n".
  | put_str_unknown_key
  deriving DecidableEq, Repr

/-- The keys whose character depends on shift alone. -/
def symbol (scancode : UInt16) : Bool :=
  scancode < 0x0e || scancode = 0x1a || scancode = 0x1b ||
    scancode = 0x2b || scancode = 0x27 || scancode = 0x28 || scancode = 0x29 ||
    scancode = 0x33 || scancode = 0x34 || scancode = 0x35

/-- The `shift` of a lookup. -/
def shifted (scancode : UInt16) (shift_down_last caps_lock_last : Bool) : Bool :=
  if symbol scancode then shift_down_last
  else if shift_down_last && caps_lock_last then false
  else if shift_down_last || caps_lock_last then true
  else false

/-- The branch of a released key. -/
def on_break (scancode : UInt16) (k : Keyboard) : Keyboard :=
  let make_code := scancode &&& 0xff7f
  if ctrl_l_make = make_code ∨ ctrl_r_make = make_code then { k with ctrl_status := false }
  else if shift_l_make = make_code ∨ shift_r_make = make_code then { k with shift_status := false }
  else if alt_l_make = make_code ∨ alt_r_make = make_code then { k with alt_status := false }
  else k

/-- The branch of a pressed key that `keymap` has. `full` is the answer of `ioq_full`. -/
def on_make (full : Bool) (scancode : UInt16) (k : Keyboard) : Keyboard × List Effect :=
  let shift := shifted scancode k.shift_status k.caps_lock_status
  let scancode := scancode &&& 0xff
  let index := scancode.toUInt8
  let cur_char := keymap_at index shift
  if cur_char ≠ 0 then
    (k, .keymap index shift :: if full then [] else [.put_char cur_char, .ioq_putchar cur_char])
  else if ctrl_l_make = scancode ∨ ctrl_r_make = scancode then
    ({ k with ctrl_status := true }, [.keymap index shift])
  else if shift_l_make = scancode ∨ shift_r_make = scancode then
    ({ k with shift_status := true }, [.keymap index shift])
  else if alt_l_make = scancode ∨ alt_r_make = scancode then
    ({ k with alt_status := true }, [.keymap index shift])
  else ({ k with caps_lock_status := !k.caps_lock_status }, [.keymap index shift])

/-- One interrupt, with the byte from port 0x60. -/
def intr_keyboard_handler (full : Bool) (k : Keyboard) (byte : UInt8) : Keyboard × List Effect :=
  let scancode := byte.toUInt16
  if scancode = 0xe0 then ({ k with ext_scancode := true }, [])
  else
    let scancode := if k.ext_scancode then scancode ||| 0xe000 else scancode
    let k := { k with ext_scancode := false }
    let break_code := 0x80 &&& scancode
    if break_code ≠ 0 then (on_break scancode k, [])
    else if 0 < scancode ∧ scancode < 0x3b ∨ alt_r_make = scancode ∨ ctrl_r_make = scancode then
      on_make full scancode k
    else (k, [.put_str_unknown_key])

/-- A stream of bytes, each with the answer of `ioq_full`. -/
def consume : List (UInt8 × Bool) → Keyboard → Keyboard × List Effect
  | [], k => (k, [])
  | (byte, full) :: input, k =>
    let (k, effects) := intr_keyboard_handler full k byte
    let (k, more) := consume input k
    (k, effects ++ more)

example : keymap.length = 0x3b := by decide

end OsLearn.Kbd
