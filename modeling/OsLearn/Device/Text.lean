import OsLearn.Device.Typing

/-!
# A text that is typed is read

Characters have keys, whatever the state of Caps Lock, and the strokes of a text bring the text to the readers.
-/

open OsLearn.Run

namespace OsLearn.Kbd

/-! ## A text -/

/-- What the events type one after the other. -/
def meant : List KeyEvent → List KeyEvent → List UInt8
  | _, [] => []
  | pre, e :: es => (typed pre e).toList ++ meant (pre ++ [e]) es

theorem meant_append (pre es more : List KeyEvent) :
    meant pre (es ++ more) = meant pre es ++ meant (pre ++ es) more := by
  induction es generalizing pre with
  | nil => simp [meant]
  | cons e es ih => simp [meant, ih]

/-- Strokes that type a text: each character by a key of its own, with a shift key where one is needed. -/
inductive Strokes (caps : Bool) : List KeyEvent → List UInt8 → Prop
  | nil : Strokes caps [] []
  | plain (key : Key) (c : UInt8) (es : List KeyEvent) (text : List UInt8) :
      glyph key.ext key.code false caps = some c → Strokes caps es text →
      Strokes caps (.press key :: .release key :: es) (c :: text)
  | shifted (shift key : Key) (c : UInt8) (es : List KeyEvent) (text : List UInt8) :
      shift = shift_l ∨ shift = shift_r → glyph key.ext key.code true caps = some c → Strokes caps es text →
      Strokes caps (.press shift :: .press key :: .release key :: .release shift :: es) (c :: text)

/-- The characters of `keymap`. -/
def Typeable (c : UInt8) : Prop := c ≠ 0 ∧ ∃ p ∈ keymap, c = p.1 ∨ c = p.2

def putByTasks (log : List Entry) : List UInt8 :=
  puts kbd_buf (log.filterMap fun e => match e with
    | .kernel e => some e
    | _ => none)

def read (log : List Entry) : List UInt8 :=
  gots kbd_buf (log.filterMap fun e => match e with
    | .kernel e => some e
    | _ => none)

/-- No character is dropped. -/
def NoneDropped (log : List Entry) : Prop :=
  ∀ pre e out, pre ++ [.read (some e) true out] <+: log → typed (keys pre) e = none

set_option maxRecDepth 8000 in
theorem glyph_plain : ∀ n < 128, ∀ ext shift caps : Bool,
    glyph ext (UInt8.ofNat n) shift caps ≠ none → control ext (UInt8.ofNat n) = none := by
  decide

theorem glyph_control (key : Key) (shift caps : Bool) (c : UInt8) (h : glyph key.ext key.code shift caps = some c) :
    key.control = none := by
  have htable := glyph_plain key.code.toNat key.valid.2.1 key.ext shift caps
  rw [ofNat_byte, h] at htable
  exact htable (Option.some_ne_none c)

set_option maxRecDepth 8000 in
theorem keymap_glyph : ∀ n < keymap.length, ∀ caps : Bool, ∀ upper : Bool, keymap_at (UInt8.ofNat n) upper ≠ 0 →
    0 < n ∧ n < 0x60 ∧ ∃ shift : Bool, glyph false (UInt8.ofNat n) shift caps = some (keymap_at (UInt8.ofNat n) upper) := by
  decide

/-- No shift key is held, and Caps Lock stands as `caps` says. -/
structure Settled (caps : Bool) (pre : List KeyEvent) : Prop where
  left : held pre shift_l = false
  right : held pre shift_r = false
  lock : decide (presses pre % 2 = 1) = caps

theorem held_append (pre es : List KeyEvent) : held (pre ++ es) = es.foldl hold (held pre) := List.foldl_append

theorem presses_more (pre es : List KeyEvent) (h : .press caps_lock ∉ es) : presses (pre ++ es) = presses pre := by
  unfold presses
  rw [List.count_append, List.count_eq_zero.mpr h, Nat.add_zero]

theorem ne_of_control (key key' : Key) (h : key.control ≠ key'.control) : key ≠ key' := fun heq => h (congrArg _ heq)

theorem settled_plain (caps : Bool) (pre : List KeyEvent) (key : Key) (h : Settled caps pre) (hkey : key.control = none) :
    Settled caps (pre ++ [.press key, .release key]) := by
  have hl : shift_l ≠ key := ne_of_control _ _ (by rw [hkey]; decide)
  have hr : shift_r ≠ key := ne_of_control _ _ (by rw [hkey]; decide)
  have hcaps : caps_lock ≠ key := ne_of_control _ _ (by rw [hkey]; decide)
  refine ⟨?_, ?_, ?_⟩
  · simpa [held_append, hold, hl] using h.left
  · simpa [held_append, hold, hr] using h.right
  · rw [presses_more]
    · exact h.lock
    · simp [hcaps]

theorem settled_shifted (caps : Bool) (pre : List KeyEvent) (shift key : Key) (h : Settled caps pre)
    (hshift : shift.control = some .shift) (hkey : key.control = none) :
    Settled caps (pre ++ [.press shift, .press key, .release key, .release shift]) := by
  have hl : shift_l ≠ key := ne_of_control _ _ (by rw [hkey]; decide)
  have hr : shift_r ≠ key := ne_of_control _ _ (by rw [hkey]; decide)
  have hcaps : caps_lock ≠ key := ne_of_control _ _ (by rw [hkey]; decide)
  have hcaps' : caps_lock ≠ shift := ne_of_control _ _ (by rw [hshift]; decide)
  refine ⟨?_, ?_, ?_⟩
  · by_cases hs : shift_l = shift
    · simp [held_append, hold, hs]
    · simpa [held_append, hold, hl, hs] using h.left
  · by_cases hs : shift_r = shift
    · simp [held_append, hold, hs]
    · simpa [held_append, hold, hr, hs] using h.right
  · rw [presses_more]
    · exact h.lock
    · simp [hcaps, hcaps']

theorem typed_release (pre : List KeyEvent) (key : Key) : typed pre (.release key) = none := rfl

/-- Strokes type their text. -/
theorem meant_strokes (caps : Bool) (es : List KeyEvent) (text : List UInt8) (h : Strokes caps es text)
    (pre : List KeyEvent) (hpre : Settled caps pre) : meant pre es = text := by
  induction h generalizing pre with
  | nil => rfl
  | plain key c es text hkey _ ih =>
    have hnext := settled_plain caps pre key hpre (glyph_control key _ _ c hkey)
    have htail := ih _ hnext
    have hc : typed pre (.press key) = some c := by
      simp [typed, hpre.left, hpre.right, hpre.lock, hkey]
    simpa [meant, hc, typed_release] using htail
  | shifted shift key c es text hshift hkey _ ih =>
    have hcontrol := (control_shift shift).mpr hshift
    have hplain := glyph_control key _ _ c hkey
    have htail := ih _ (settled_shifted caps pre shift key hpre hcontrol hplain)
    have hnone : typed pre (.press shift) = none := by
      cases hg : typed pre (.press shift) with
      | none => rfl
      | some c' =>
        rw [glyph_control shift _ _ c' hg] at hcontrol
        contradiction
    have hc : typed (pre ++ [.press shift]) (.press key) = some c := by
      have hdown : (held (pre ++ [.press shift]) shift_l || held (pre ++ [.press shift]) shift_r) = true := by
        rw [held_snoc]
        rcases hshift with rfl | rfl <;> simp [hold]
      have hlock : decide (presses (pre ++ [.press shift]) % 2 = 1) = caps := by
        rw [presses_more]
        · exact hpre.lock
        · have hne : caps_lock ≠ shift := ne_of_control _ _ (by rw [hcontrol]; decide)
          simpa using hne
      simp only [typed, hdown, hlock, hkey]
    simpa [meant, hnone, hc, typed_release] using htail

theorem strokes_exist (caps : Bool) (text : List UInt8) (h : ∀ c ∈ text, Typeable c) : ∃ es, Strokes caps es text := by
  induction text with
  | nil => exact ⟨[], .nil⟩
  | cons c text ih =>
    obtain ⟨es, hes⟩ := ih fun c hc => h c (List.mem_cons_of_mem _ hc)
    obtain ⟨hne, p, hp, hor⟩ := h c List.mem_cons_self
    obtain ⟨n, hn, rfl⟩ := List.mem_iff_getElem.mp hp
    have hn' : n < 0x3b := hn
    have hcode : (UInt8.ofNat n).toNat = n := UInt8.toNat_ofNat_of_lt' (Nat.lt_trans hn' (by decide))
    have hc : ∃ upper : Bool, keymap_at (UInt8.ofNat n) upper = c := by
      have hget : keymap.getD (UInt8.ofNat n).toNat (0, 0) = keymap[n] := by
        rw [hcode, List.getD_eq_getElem?_getD, List.getElem?_eq_getElem hn]
        rfl
      rcases hor with rfl | rfl
      · exact ⟨false, congrArg Prod.fst hget⟩
      · exact ⟨true, congrArg Prod.snd hget⟩
    obtain ⟨upper, rfl⟩ := hc
    obtain ⟨hpos, -, shift, hglyph⟩ := keymap_glyph n hn caps upper hne
    have hvalid : UInt8.ofNat n ≠ 0x60 := by
      intro heq
      rw [heq] at hcode
      have : (0x60 : UInt8).toNat = 0x60 := rfl
      omega
    let key : Key := ⟨false, UInt8.ofNat n, by omega, by omega, hvalid⟩
    cases shift with
    | false => exact ⟨_, .plain key _ es text hglyph hes⟩
    | true => exact ⟨_, .shifted shift_l key _ es text (.inl rfl) hglyph hes⟩

theorem putByTasks_append (log evs : List Entry) : putByTasks (log ++ evs) = putByTasks log ++ putByTasks evs := by
  unfold putByTasks
  rw [List.filterMap_append, puts_append]

theorem read_append (log evs : List Entry) : read (log ++ evs) = read log ++ read evs := by
  unfold read
  rw [List.filterMap_append, gots_append]

theorem meant_snoc (es : List KeyEvent) (e : KeyEvent) : meant [] (es ++ [e]) = meant [] es ++ (typed es e).toList := by
  rw [meant_append, List.nil_append]
  simp [meant]

/-- What was read and what is on the sheet are all that was meant, when nothing is dropped and nobody else writes. -/
theorem sheet_text (log : List Entry) (p : Sheet) (hp : replay log = some p) (hdrop : NoneDropped log)
    (hput : putByTasks log = []) : p.keys = keys log ∧ read log ++ p.text = meant [] (keys log) := by
  induction log using List.reverseRecOn generalizing p with
  | nil =>
    obtain rfl := Option.some.inj hp
    exact ⟨rfl, rfl⟩
  | append_singleton log x ih =>
    rw [replay_append] at hp
    obtain ⟨p₀, hp₀, hx⟩ := Option.bind_eq_some_iff.mp hp
    rw [putByTasks_append, List.append_eq_nil_iff] at hput
    obtain ⟨hkeys, htext⟩ := ih p₀ hp₀ (fun pre e out h => hdrop pre e out (h.trans (List.prefix_append _ _))) hput.1
    rw [keys_append, read_append]
    cases x with
    | strike e =>
      obtain rfl := Option.some.inj hx
      simpa [keys, read, gots] using And.intro hkeys htext
    | read last full out =>
      cases last with
      | none =>
        simp [Sheet.next] at hx
        obtain ⟨-, rfl⟩ := hx
        simpa [keys, read, gots] using And.intro hkeys htext
      | some e =>
        simp [Sheet.next] at hx
        obtain ⟨⟨rfl, -⟩, rfl⟩ := hx
        refine ⟨by rw [hkeys]; rfl, ?_⟩
        have hkeep : (if p₀.room then (typed p₀.keys e).toList else []) = (typed (keys log) e).toList := by
          rw [hkeys]
          cases hroom : p₀.room with
          | true => rfl
          | false =>
            rw [hroom] at hdrop
            rw [hdrop log e out List.prefix_rfl]
            rfl
        have hone : keys [.read (some e) (!p₀.room) out] = [e] := rfl
        rw [hone, meant_snoc, ← htext, List.append_assoc, ← hkeep]
        simp [read, gots]
    | kernel ev =>
      have hnone : keys [.kernel ev] = [] := rfl
      rw [hnone, List.append_nil]
      cases ev with
      | put q c =>
        by_cases hq : q = kbd_buf
        · simp [putByTasks, puts, hq] at hput
        · simp [Sheet.next, hq] at hx
          subst hx
          simpa [read, gots] using And.intro hkeys htext
      | got q c =>
        by_cases hq : q = kbd_buf
        · simp [Sheet.next, hq] at hx
          obtain ⟨hhead, rfl⟩ := hx
          refine ⟨hkeys, ?_⟩
          obtain ⟨rest, hrest⟩ := List.head?_eq_some_iff.mp hhead
          rw [← htext, hrest]
          simp [read, gots, hq]
        · simp [Sheet.next, hq] at hx
          subst hx
          simpa [read, gots, hq] using And.intro hkeys htext
      | created t | down t q | up t q | acquired t l | released t l =>
        obtain rfl := Option.some.inj hx
        simpa [read, gots] using And.intro hkeys htext

end OsLearn.Kbd
