import OsLearn.Device.Modifiers
import OsLearn.Lib.Feed
import OsLearn.Thread.Moves

/-!
# Keys behind the prefix 0xe0

Apart from the right Ctrl and the right Alt no key behind the prefix is in `keymap`, and the handler
does nothing for it but print a line.
-/

open OsLearn.Feed

namespace OsLearn.Kbd

/-! ## The keyboard and its buffer -/

structure Console where
  keyboard : Keyboard
  kbd_buf : IoQueue

/-- What happens to `kbd_buf` in an interrupt. -/
def entered (q : IoQueue) (effects : List Effect) : IoQueue :=
  effects.foldl (fun q e => match e with
    | .ioq_putchar c => q.stored c
    | _ => q) q

inductive Input where
  | scancode (byte : UInt8)
  -- What other code does to `kbd_buf` between two interrupts.
  | other (f : IoQueue → IoQueue)

def Console.step (s : Console) : Input → Console × List Effect
  | .scancode byte =>
    let r := intr_keyboard_handler (ioq_full s.kbd_buf) s.keyboard byte
    (⟨r.1, entered s.kbd_buf r.2⟩, r.2)
  | .other f => (⟨s.keyboard, f s.kbd_buf⟩, [])

/-- The answers that `ioq_full` gives make it a stream for `consume`. -/
theorem feed_consume (s : Console) (inputs : List Input) :
    ∃ input : List (UInt8 × Bool),
      input.map Prod.fst = inputs.filterMap (fun i => match i with
        | .scancode byte => some byte
        | .other _ => none) ∧
      (feed Console.step s inputs).1.keyboard = (consume input s.keyboard).1 ∧
      (feed Console.step s inputs).2 = (consume input s.keyboard).2 := by
  induction inputs generalizing s with
  | nil => exact ⟨[], rfl, rfl, rfl⟩
  | cons i inputs ih =>
    obtain ⟨input, hbytes, hkeys, hout⟩ := ih (s.step i).1
    cases i with
    | scancode byte =>
      refine ⟨(byte, ioq_full s.kbd_buf) :: input, congrArg (byte :: ·) hbytes, hkeys, ?_⟩
      exact congrArg ((s.step (.scancode byte)).2 ++ ·) hout
    | other f => exact ⟨input, hbytes, hkeys, hout⟩

/-! ## The streams -/

/-- The second byte of a pair that may be put in. -/
def Inert (x : UInt8) : Prop := x ≠ 0xe0 ∧ x ≠ 0x1d ∧ x ≠ 0x9d ∧ x ≠ 0x38 ∧ x ≠ 0xb8

instance (x : UInt8) : Decidable (Inert x) := inferInstanceAs (Decidable (_ ∧ _))

/-- Whether a prefix is pending after an input. -/
def pending (p : Bool) : Input → Bool
  | .scancode byte => byte = 0xe0
  | .other _ => p

/-- A pair comes in where no prefix is pending. Other code may run between its two bytes. -/
inductive Pair : Bool → List Input → List Input → Prop
  | mk (fs : List (IoQueue → IoQueue)) (x : UInt8) : Inert x →
      Pair false (fs.map .other) (.scancode 0xe0 :: fs.map .other ++ [.scancode x])

/-- `ys` is `xs` with pairs put in. -/
abbrev Inserted (p : Bool) (xs ys : List Input) : Prop := Replaced pending Pair p xs ys

/-! ## What a run shows -/

/-- The text "unknown key\n" goes to the screen. -/
def seen (e : Effect) : Bool := e ≠ .put_str_unknown_key

/-- The characters that are put into `kbd_buf`. -/
def characters (effects : List Effect) : List UInt8 :=
  effects.filterMap fun e => match e with
    | .ioq_putchar c => some c
    | _ => none

/-- The lookups in `keymap`. -/
def lookups (effects : List Effect) : List (UInt8 × Bool) :=
  effects.filterMap fun e => match e with
    | .keymap index shift => some (index, shift)
    | _ => none

/-- What is read off the effects that are seen is read off all of them. -/
theorem filterMap_seen {β : Type} (f : Effect → Option β) (h : f .put_str_unknown_key = none) (effects : List Effect) :
    (effects.filter seen).filterMap f = effects.filterMap f := by
  rw [List.filterMap_filter]
  congr 1
  funext e
  cases e with
  | put_str_unknown_key => exact h.symm
  | keymap index shift | put_char c | ioq_putchar c => rfl

theorem characters_seen (effects : List Effect) : characters (effects.filter seen) = characters effects :=
  filterMap_seen _ rfl effects

theorem lookups_seen (effects : List Effect) : lookups (effects.filter seen) = lookups effects :=
  filterMap_seen _ rfl effects

/-! ## One interrupt -/

set_option maxRecDepth 8000 in
theorem inert_table : ∀ n < 256, Inert (UInt8.ofNat n) →
    (UInt8.ofNat n).toUInt16 ≠ 0xe0 ∧
      (0x80 &&& wide true (UInt8.ofNat n) ≠ 0 → breakControl (wide true (UInt8.ofNat n) &&& 0xff7f) = none) ∧
      ¬ Handled (wide true (UInt8.ofNat n)) := by
  decide

set_option maxRecDepth 8000 in
theorem index_table : ∀ n < 256, ∀ ext : Bool, Handled (wide ext (UInt8.ofNat n)) →
    (wide ext (UInt8.ofNat n) &&& 0xff).toUInt8 < 0x3b := by
  decide

/-- The prefix is pending after its own byte only. -/
theorem handler_pending (full : Bool) (k : Keyboard) (byte : UInt8) :
    (intr_keyboard_handler full k byte).1.ext_scancode = decide (byte = 0xe0) := by
  have hsame : byte.toUInt16 = 0xe0 ↔ byte = 0xe0 := by
    rw [← UInt16.toNat_inj, UInt8.toNat_toUInt16, ← UInt8.toNat_inj]
    rfl
  rw [handler_eq]
  by_cases he0 : byte.toUInt16 = 0xe0
  · rw [if_pos he0, decide_eq_true (hsame.mp he0)]
  · rw [if_neg he0, decide_eq_false fun h => he0 (hsame.mpr h)]
    split
    · rw [on_break_eq, released_ext]
    · split
      · rw [on_make_eq]
        split
        · rfl
        · rw [pressed_ext]
      · rfl

/-- The second byte of a pair changes nothing, and at most prints. -/
theorem handler_inert (full : Bool) (k : Keyboard) (x : UInt8) (hx : Inert x) :
    (intr_keyboard_handler full { k with ext_scancode := true } x).1 = { k with ext_scancode := false } ∧
      ∀ e ∈ (intr_keyboard_handler full { k with ext_scancode := true } x).2, e = .put_str_unknown_key := by
  obtain ⟨hne, hbreak, hmake⟩ := inert_table x.toNat x.toNat_lt (by rwa [ofNat_byte])
  rw [ofNat_byte] at hne hbreak hmake
  rw [handler_eq, if_neg hne]
  by_cases hbit : 0x80 &&& wide true x ≠ 0
  · rw [if_pos hbit, on_break_eq, hbreak hbit]
    exact ⟨rfl, fun e he => absurd he List.not_mem_nil⟩
  · rw [if_neg hbit, if_neg hmake]
    exact ⟨rfl, fun e he => List.mem_singleton.mp he⟩

/-- A lookup in `keymap` is in its 0x3b entries. -/
def InKeymap : Effect → Prop
  | .keymap index _ => index < 0x3b
  | _ => True

theorem on_make_in_keymap (full : Bool) (ext : Bool) (b : UInt8) (k : Keyboard) (h : Handled (wide ext b)) :
    ∀ e ∈ (on_make full (wide ext b) k).2, InKeymap e := by
  have hindex := index_table b.toNat b.toNat_lt ext (by rwa [ofNat_byte])
  rw [ofNat_byte] at hindex
  unfold on_make
  dsimp only
  intro e he
  have hcases : e = .keymap (wide ext b &&& 0xff).toUInt8 (shifted (wide ext b) k.shift_status k.caps_lock_status) ∨
      InKeymap e := by
    split at he
    · rcases List.mem_cons.mp he with he | he
      · exact .inl he
      · split at he
        · exact absurd he List.not_mem_nil
        · rcases List.mem_cons.mp he with rfl | he
          · exact .inr trivial
          · rw [List.mem_singleton.mp he]
            exact .inr trivial
    · split at he
      · exact .inl (List.mem_singleton.mp he)
      · split at he
        · exact .inl (List.mem_singleton.mp he)
        · split at he
          · exact .inl (List.mem_singleton.mp he)
          · exact .inl (List.mem_singleton.mp he)
  rcases hcases with rfl | h
  · exact hindex
  · exact h

theorem handler_in_keymap (full : Bool) (k : Keyboard) (byte : UInt8) :
    ∀ e ∈ (intr_keyboard_handler full k byte).2, InKeymap e := by
  rw [handler_eq]
  split
  · exact fun e he => absurd he List.not_mem_nil
  · split
    · exact fun e he => absurd he List.not_mem_nil
    · split
      · next h => exact on_make_in_keymap full k.ext_scancode byte _ h
      · intro e he
        rw [List.mem_singleton.mp he]
        trivial

/-! ## Streams -/

theorem step_pending (p : Bool) (s : Console) (i : Input) (h : s.keyboard.ext_scancode = p) :
    (s.step i).1.keyboard.ext_scancode = pending p i := by
  cases i with
  | scancode byte => exact handler_pending _ _ _
  | other f => exact h

/-- Other code does not see the keyboard. -/
theorem feed_other (s : Console) (fs : List (IoQueue → IoQueue)) :
    ∃ q, ∀ k, feed Console.step ⟨k, s.kbd_buf⟩ (fs.map .other) = (⟨k, q⟩, []) := by
  induction fs generalizing s with
  | nil => exact ⟨s.kbd_buf, fun k => rfl⟩
  | cons f fs ih =>
    obtain ⟨q, hq⟩ := ih ⟨s.keyboard, f s.kbd_buf⟩
    refine ⟨q, fun k => ?_⟩
    have hstep : feed Console.step ⟨k, s.kbd_buf⟩ (Input.other f :: fs.map .other) =
        ((feed Console.step ⟨k, f s.kbd_buf⟩ (fs.map .other)).1,
          [] ++ (feed Console.step ⟨k, f s.kbd_buf⟩ (fs.map .other)).2) := rfl
    rw [List.map_cons, hstep, hq]
    rfl

theorem entered_unknown (q : IoQueue) (effects : List Effect) (h : ∀ e ∈ effects, e = .put_str_unknown_key) :
    entered q effects = q := by
  induction effects with
  | nil => rfl
  | cons e effects ih =>
    rw [h e List.mem_cons_self]
    exact ih fun e he => h e (List.mem_cons_of_mem _ he)

/-- A pair leaves the state as it was, and shows nothing. -/
theorem pair_alike (p : Bool) (s : Console) (us vs : List Input) (hp : s.keyboard.ext_scancode = p)
    (h : Pair p us vs) :
    Alike seen (feed Console.step s us) (feed Console.step s vs) ∧
      (feed Console.step s us).1.keyboard.ext_scancode = p := by
  obtain ⟨fs, x, hx⟩ := h
  obtain ⟨q, hq⟩ := feed_other s fs
  have hus : feed Console.step s (fs.map .other) = (⟨s.keyboard, q⟩, []) := hq s.keyboard
  have hclear : ({ s.keyboard with ext_scancode := false } : Keyboard) = s.keyboard := by rw [← hp]
  have hfirst : (s.step (.scancode 0xe0)) = (⟨{ s.keyboard with ext_scancode := true }, s.kbd_buf⟩, []) := rfl
  obtain ⟨hkeys, hout⟩ := handler_inert (ioq_full q) s.keyboard x hx
  have hlast : Console.step ⟨{ s.keyboard with ext_scancode := true }, q⟩ (.scancode x) =
      (⟨s.keyboard, q⟩, (intr_keyboard_handler (ioq_full q) { s.keyboard with ext_scancode := true } x).2) := by
    unfold Console.step
    dsimp only
    rw [hkeys, hclear, entered_unknown q _ hout]
  have hvs : feed Console.step s (.scancode 0xe0 :: fs.map .other ++ [.scancode x]) =
      (⟨s.keyboard, q⟩, (intr_keyboard_handler (ioq_full q) { s.keyboard with ext_scancode := true } x).2) := by
    rw [List.cons_append, feed, hfirst, feed_append, hq]
    dsimp only
    rw [feed, feed, hlast, List.nil_append, List.nil_append, List.append_nil]
  rw [hus, hvs]
  refine ⟨⟨rfl, List.filter_eq_nil_iff.mpr fun e he => ?_⟩, hp⟩
  rw [hout e he]
  decide

/-- **Extended keys are inert.** Pairs that are put into a stream change neither the flags, nor the characters
that go into `kbd_buf`, nor the lookups in `keymap`, which stay inside it. -/
theorem extended_inert (s : Console) (xs ys : List Input) (h : Inserted s.keyboard.ext_scancode xs ys) :
    (feed Console.step s ys).1 = (feed Console.step s xs).1 ∧
      characters (feed Console.step s ys).2 = characters (feed Console.step s xs).2 ∧
      lookups (feed Console.step s ys).2 = lookups (feed Console.step s xs).2 ∧
      ∀ l ∈ lookups (feed Console.step s ys).2, l.1 < 0x3b := by
  obtain ⟨hstate, hout⟩ := feed_replaced Console.step seen pending Pair (fun p s => s.keyboard.ext_scancode = p)
    step_pending pair_alike _ s xs ys h rfl
  refine ⟨hstate, ?_, ?_, ?_⟩
  · rw [← characters_seen, hout, characters_seen]
  · rw [← lookups_seen, hout, lookups_seen]
  · have hall : ∀ e ∈ (feed Console.step s ys).2, InKeymap e := by
      refine feed_all Console.step InKeymap (fun s i => ?_) s ys
      cases i with
      | scancode byte => exact handler_in_keymap _ _ _
      | other f => exact fun e he => absurd he List.not_mem_nil
    intro l hl
    obtain ⟨e, he, hlookup⟩ := List.mem_filterMap.mp hl
    cases e with
    | keymap index shift =>
      obtain rfl := Option.some.inj hlookup
      exact hall _ he
    | put_char c => cases hlookup
    | ioq_putchar c => cases hlookup
    | put_str_unknown_key => cases hlookup

/-- The keyboard and an empty buffer. -/
def console0 : Console := ⟨.init, ioqueue_init fun _ => 0⟩

/-- The arrow up is put in before an `a`. -/
theorem extended_inert_arrow :
    characters (feed Console.step console0 [.scancode 0xe0, .other id, .scancode 0x48, .scancode 0x1e]).2 = [0x61] := by
  have hins : Inserted false [.other id, .scancode 0x1e] [.scancode 0xe0, .other id, .scancode 0x48, .scancode 0x1e] :=
    .part false _ _ _ _ (Pair.mk [id] 0x48 (by decide)) (.same false (Input.scancode 0x1e) [] [] (.nil _))
  exact (extended_inert console0 _ _ hins).2.1.trans (by decide)

end OsLearn.Kbd
