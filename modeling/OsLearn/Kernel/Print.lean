import OsLearn.Lib.Bytes
import OsLearn.Lib.Regs
import OsLearn.Lib.Terminal
import Mathlib.Data.List.Induction

/-!
# `lib/kernel/print.S`: `put_char` and `put_str`

The cursor is kept by the controller of the screen. The code works on it in `bx`, doubled where it is the
offset of a cell.
-/

open OsLearn.Regs

namespace OsLearn.Print

/-! ## The screen -/

/-- The segment of `SELECTOR_VIDEO`, which the loader has moved to the kernel half. -/
def gsBase : Nat := 0xc00b8000

/-- Its limit of 7 pages, as the last offset. -/
def gsLimit : Nat := 0x7fff

/-- Why a routine does not come back. -/
inductive Stop where
  -- An offset behind the limit of the segment.
  | general_protection (offset : Nat)
  -- The bound on the rounds of a loop is used up.
  | unfinished
  deriving DecidableEq, Repr

structure Screen where
  -- The Address Register of the controller, and the registers that it selects.
  index : UInt8
  crtc : UInt8 → UInt8
  mem : Mem
  -- All addresses that were written, the last one first.
  written : List Nat

namespace Screen

/-- `out` to port 0x3d4. -/
def outIndex (s : Screen) (al : UInt8) : Screen := { s with index := al }

/-- `in` from port 0x3d5. -/
def inData (s : Screen) : UInt8 := s.crtc s.index

/-- `out` to port 0x3d5. -/
def outData (s : Screen) (al : UInt8) : Screen := { s with crtc := Function.update s.crtc s.index al }

def store (s : Screen) (a : Nat) (b : UInt8) : Screen :=
  { s with mem := Function.update s.mem a b, written := a :: s.written }

/-- `mov byte [gs:offset], b` -/
def gsByte (s : Screen) (offset : Nat) (b : UInt8) : Except Stop Screen :=
  if offset ≤ gsLimit then .ok (s.store (gsBase + offset) b) else .error (.general_protection offset)

/-- `mov word [gs:offset], w` -/
def gsWord (s : Screen) (offset : Nat) (w : UInt16) : Except Stop Screen :=
  if offset + 1 ≤ gsLimit then
    .ok ((s.store (gsBase + offset) w.toUInt8).store (gsBase + offset + 1) (w >>> 8).toUInt8)
  else .error (.general_protection offset)

def movsd (s : Screen) (esi edi : Nat) : Screen :=
  { s with
    mem := write32 s.mem edi (read32 s.mem esi)
    written := [edi + 3, edi + 2, edi + 1, edi] ++ s.written }

end Screen

/-! ## `put_char` -/

/-- The cursor comes into `bx`. -/
def get_cursor (s : Screen) : UInt16 × Screen :=
  let s := s.outIndex 0x0e
  let ah := s.inData
  let s := s.outIndex 0x0f
  let al := s.inData
  (ah.toUInt16 <<< 8 ||| al.toUInt16, s)

/-- `.set_cursor` -/
def set_cursor (bx : UInt16) (s : Screen) : Screen :=
  let s := s.outIndex 0x0e
  let s := s.outData (bx >>> 8).toUInt8
  let s := s.outIndex 0x0f
  s.outData bx.toUInt8

/-- `rep movsd`, with `ecx`. -/
def rep_movsd : Nat → UInt32 → UInt32 → Screen → Screen
  | 0, _, _, s => s
  | ecx + 1, esi, edi, s => rep_movsd ecx (esi + 4) (edi + 4) (s.movsd esi.toNat edi.toNat)

def cls : Nat → UInt32 → Screen → Except Stop Screen
  | 0, _, s => pure s
  | ecx + 1, ebx, s => do
    let s ← s.gsWord ebx.toNat 0x0720
    cls ecx (ebx + 2) s

def roll_screen (s : Screen) : Except Stop Screen := do
  let s := rep_movsd 960 0xc00b80a0 0xc00b8000 s
  let s ← cls 80 3840 s
  pure (set_cursor 1920 s)

def is_carriage_return_end (bx : UInt16) (s : Screen) : Except Stop Screen :=
  let bx := bx + 80
  if slt16 bx 2000 then pure (set_cursor bx s) else roll_screen s

def is_carriage_return (bx : UInt16) (s : Screen) : Except Stop Screen :=
  -- The remainder of `div si`.
  let dx := bx % 80
  is_carriage_return_end (bx - dx) s

/-- The two labels are at one place. -/
def is_line_feed (bx : UInt16) (s : Screen) : Except Stop Screen := is_carriage_return bx s

def put_other (cl : UInt8) (bx : UInt16) (s : Screen) : Except Stop Screen := do
  let bx := bx <<< 1
  let s ← s.gsByte bx.toNat cl
  let bx := bx + 1
  let s ← s.gsByte bx.toNat 0x07
  let bx := bx >>> 1
  let bx := bx + 1
  if slt16 bx 2000 then pure (set_cursor bx s) else is_line_feed bx s

def is_backspace (bx : UInt16) (s : Screen) : Except Stop Screen := do
  let bx := bx - 1
  let bx := bx <<< 1
  let s ← s.gsByte bx.toNat 0x20
  let bx := bx + 1
  let s ← s.gsByte bx.toNat 0x07
  let bx := bx >>> 1
  pure (set_cursor bx s)

def put_char (cl : UInt8) (s : Screen) : Except Stop Screen :=
  let (bx, s) := get_cursor s
  if cl = 0xd then is_carriage_return bx s
  else if cl = 0xa then is_line_feed bx s
  else if cl = 0x8 then is_backspace bx s
  else put_other cl bx s

/-! ## `put_str` -/

/-- `.goon`, with a bound on the rounds. -/
def put_str : Nat → UInt32 → Screen → Except Stop Screen
  | 0, _, _ => .error .unfinished
  | fuel + 1, ebx, s => do
    let cl := s.mem ebx.toNat
    if cl = 0 then pure s
    else
      let s ← put_char cl s
      put_str fuel (ebx + 1) s

/-! ## The cells and the cursor -/

/-- Character and attribute. -/
abbrev Cell := UInt8 × UInt8

def blank : Cell := (0x20, 0x07)

def Screen.cell (s : Screen) (i : Nat) : Cell := (s.mem (gsBase + 2 * i), s.mem (gsBase + 2 * i + 1))

def Screen.cursor (s : Screen) : Nat := (s.crtc 0x0e).toNat * 256 + (s.crtc 0x0f).toNat

/-- The 4000 bytes of the text page. -/
def InText (a : Nat) : Prop := gsBase ≤ a ∧ a < gsBase + 4000

instance (a : Nat) : Decidable (InText a) := inferInstanceAs (Decidable (_ ∧ _))

theorem inText_iff (k : Nat) : InText (gsBase + k) ↔ k < 4000 := by
  unfold InText
  omega

/-! ## What is written -/

/-- Only the text page is written. -/
structure Paints (s s' : Screen) : Prop where
  written : ∃ as, s'.written = as ++ s.written ∧ ∀ a ∈ as, InText a
  other : ∀ a, ¬ InText a → s'.mem a = s.mem a

theorem Paints.refl (s : Screen) : Paints s s := ⟨⟨[], rfl, fun _ ha => absurd ha List.not_mem_nil⟩, fun _ _ => rfl⟩

theorem Paints.trans {s s₁ s₂ : Screen} (h₁ : Paints s s₁) (h₂ : Paints s₁ s₂) : Paints s s₂ := by
  obtain ⟨as, has, hin⟩ := h₁.written
  obtain ⟨bs, hbs, hin'⟩ := h₂.written
  refine ⟨⟨bs ++ as, by rw [hbs, has, List.append_assoc], fun a ha => ?_⟩, fun a ha => ?_⟩
  · rcases List.mem_append.mp ha with ha | ha
    · exact hin' a ha
    · exact hin a ha
  · rw [h₂.other a ha, h₁.other a ha]

theorem paints_store (s : Screen) (a : Nat) (b : UInt8) (ha : InText a) : Paints s (s.store a b) := by
  refine ⟨⟨[a], rfl, fun x hx => ?_⟩, fun x hx => ?_⟩
  · rw [List.mem_singleton.mp hx]
    exact ha
  · have hne : x ≠ a := by
      rintro rfl
      exact hx ha
    exact Function.update_of_ne hne _ _

theorem paints_movsd (s : Screen) (esi edi : Nat) (h : InText edi) (h' : InText (edi + 3)) :
    Paints s (s.movsd esi edi) := by
  unfold InText at h h'
  refine ⟨⟨_, rfl, fun a ha => ?_⟩, fun a ha => ?_⟩
  · simp only [List.mem_cons, List.not_mem_nil, or_false] at ha
    unfold InText
    omega
  · unfold InText at ha
    exact write32_other _ _ _ _ (by omega)

/-- The registers of the controller do not count. -/
theorem paints_set_cursor (bx : UInt16) (s : Screen) : Paints s (set_cursor bx s) :=
  ⟨⟨[], rfl, fun _ ha => absurd ha List.not_mem_nil⟩, fun _ _ => rfl⟩

/-! ## The cursor -/

theorem get_cursor_toNat (s : Screen) : (get_cursor s).1.toNat = s.cursor := by
  have hhigh := (s.crtc 0x0e).toNat_lt
  have hlow := (s.crtc 0x0f).toNat_lt
  show ((s.crtc 0x0e).toUInt16 <<< 8 ||| (s.crtc 0x0f).toUInt16).toNat = _
  have hshift : ((s.crtc 0x0e).toUInt16 <<< 8).toNat = 2 ^ 8 * (s.crtc 0x0e).toNat := by
    rw [UInt16.toNat_shiftLeft, UInt8.toNat_toUInt16]
    show (s.crtc 0x0e).toNat <<< 8 % 2 ^ 16 = _
    rw [Nat.shiftLeft_eq]
    omega
  rw [UInt16.toNat_or, hshift, UInt8.toNat_toUInt16, nat_or_add _ _ _ hlow]
  unfold Screen.cursor
  omega

theorem set_cursor_cursor (bx : UInt16) (s : Screen) : (set_cursor bx s).cursor = bx.toNat := by
  have hbx := bx.toNat_lt
  have hhigh : (set_cursor bx s).crtc 0x0e = (bx >>> 8).toUInt8 := rfl
  have hlow : (set_cursor bx s).crtc 0x0f = bx.toUInt8 := rfl
  unfold Screen.cursor
  rw [hhigh, hlow, UInt16.toNat_toUInt8, UInt16.toNat_toUInt8, UInt16.toNat_shiftRight]
  show bx.toNat >>> 8 % 2 ^ 8 * 256 + bx.toNat % 2 ^ 8 = _
  rw [Nat.shiftRight_eq_div_pow]
  omega

theorem set_cursor_cell (bx : UInt16) (s : Screen) (i : Nat) : (set_cursor bx s).cell i = s.cell i := rfl

/-! ## Cells -/

/-- Both bytes of a cell. -/
theorem store_cell (s : Screen) (i : Nat) (c : Cell) (j : Nat) :
    ((s.store (gsBase + 2 * i) c.1).store (gsBase + (2 * i + 1)) c.2).cell j = if j = i then c else s.cell j := by
  unfold Screen.cell Screen.store
  dsimp only
  by_cases hj : j = i
  · rw [if_pos hj, hj, Function.update_of_ne (by omega), Function.update_self, Nat.add_assoc, Function.update_self]
  · rw [if_neg hj, Function.update_of_ne (by omega), Function.update_of_ne (by omega), Function.update_of_ne (by omega),
      Function.update_of_ne (by omega)]

theorem paints_cell (s : Screen) (i : Nat) (c : Cell) (hi : i < 2000) :
    Paints s ((s.store (gsBase + 2 * i) c.1).store (gsBase + (2 * i + 1)) c.2) :=
  (paints_store s _ _ ((inText_iff _).mpr (by omega))).trans (paints_store _ _ _ ((inText_iff _).mpr (by omega)))

/-! ## Scrolling -/

theorem read32_bytes (mem : Mem) (a b k : Nat) (hk : k < 4) : write32 mem a (read32 mem b) (a + k) = mem (b + k) := by
  have h0 := (mem b).toNat_lt
  have h1 := (mem (b + 1)).toNat_lt
  have h2 := (mem (b + 2)).toNat_lt
  have h3 := (mem (b + 3)).toNat_lt
  have hread : (read32 mem b).toNat = (mem b).toNat + 0x100 * (mem (b + 1)).toNat + 0x10000 * (mem (b + 2)).toNat +
      0x1000000 * (mem (b + 3)).toNat := UInt32.toNat_ofNat_of_lt' (by show _ < 2 ^ 32; omega)
  unfold write32
  rw [hread]
  obtain rfl | rfl | rfl | rfl : k = 0 ∨ k = 1 ∨ k = 2 ∨ k = 3 := by omega
  all_goals
    rw [← UInt8.toNat_inj]
    simp <;> omega

/-- The copy goes up by one row, from low addresses to high ones. -/
theorem rep_movsd_mem (n : Nat) (esi edi : UInt32) (s : Screen) (hsrc : esi.toNat = edi.toNat + 160)
    (hlt : edi.toNat + 4 * n + 160 < 2 ^ 32) (x : Nat) :
    (rep_movsd n esi edi s).mem x =
      if edi.toNat ≤ x ∧ x < edi.toNat + 4 * n then s.mem (x + 160) else s.mem x := by
  induction n generalizing esi edi s with
  | zero => rw [if_neg (by omega)]; rfl
  | succ n ih =>
    have hedi : (edi + 4).toNat = edi.toNat + 4 := toNat_add_small edi 4 (by omega)
    have hesi : (esi + 4).toNat = esi.toNat + 4 := toNat_add_small esi 4 (by omega)
    have hmem : ∀ y, (s.movsd esi.toNat edi.toNat).mem y =
        if edi.toNat ≤ y ∧ y < edi.toNat + 4 then s.mem (y + 160) else s.mem y := by
      intro y
      show write32 s.mem edi.toNat (read32 s.mem esi.toNat) y = _
      split
      · next hy =>
        obtain ⟨k, rfl⟩ := Nat.exists_eq_add_of_le hy.1
        rw [read32_bytes _ _ _ _ (by omega), hsrc]
        congr 1
        omega
      · next hy => exact write32_other _ _ _ _ (by omega)
    rw [rep_movsd, ih _ _ _ (by omega) (by omega), hedi]
    by_cases hx : edi.toNat + 4 ≤ x ∧ x < edi.toNat + 4 + 4 * n
    · rw [if_pos hx, if_pos (by omega), hmem, if_neg (by omega)]
    · rw [if_neg hx, hmem]
      by_cases hx' : edi.toNat ≤ x ∧ x < edi.toNat + 4
      · rw [if_pos hx', if_pos (by omega)]
      · rw [if_neg hx', if_neg (by omega)]

theorem paints_rep_movsd (n : Nat) (esi edi : UInt32) (s : Screen) (hlow : gsBase ≤ edi.toNat)
    (hhigh : edi.toNat + 4 * n ≤ gsBase + 4000) : Paints s (rep_movsd n esi edi s) := by
  have hbase : gsBase + 4000 < 2 ^ 32 := by decide
  induction n generalizing esi edi s with
  | zero => exact Paints.refl s
  | succ n ih =>
    have hedi : (edi + 4).toNat = edi.toNat + 4 := toNat_add_small edi 4 (by omega)
    have hstep := paints_movsd s esi.toNat edi.toNat ⟨hlow, by omega⟩ ⟨by omega, by omega⟩
    exact hstep.trans (ih _ _ _ (by omega) (by omega))

/-- `cls` from cell `k` on. -/
theorem cls_spec (n k : Nat) (ebx : UInt32) (s : Screen) (hebx : ebx.toNat = 2 * k) (hk : k + n ≤ 2000) :
    ∃ s', cls n ebx s = .ok s' ∧ Paints s s' ∧ ∀ i, s'.cell i = if k ≤ i ∧ i < k + n then blank else s.cell i := by
  induction n generalizing k ebx s with
  | zero => exact ⟨s, rfl, Paints.refl s, fun i => by rw [if_neg (by omega)]⟩
  | succ n ih =>
    have hnext : (ebx + 2).toNat = ebx.toNat + 2 := toNat_add_small ebx 2 (by omega)
    have hword : s.gsWord ebx.toNat 0x0720 =
        .ok ((s.store (gsBase + 2 * k) blank.1).store (gsBase + (2 * k + 1)) blank.2) := by
      unfold Screen.gsWord
      rw [hebx]
      exact if_pos (by unfold gsLimit; omega)
    obtain ⟨s', hrun, hpaint, hcells⟩ := ih (k + 1) (ebx + 2) _ (by omega) (by omega)
    refine ⟨s', by rw [cls, hword]; exact hrun, (paints_cell s k blank (by omega)).trans hpaint, fun i => ?_⟩
    rw [hcells, store_cell]
    by_cases hi : i = k
    · rw [if_neg (by omega), if_pos hi, if_pos (by omega)]
    · by_cases hi' : k + 1 ≤ i ∧ i < k + 1 + n
      · rw [if_pos hi', if_pos (by omega)]
      · rw [if_neg hi', if_neg hi, if_neg (by omega)]

theorem roll_screen_spec (s : Screen) :
    ∃ s', roll_screen s = .ok s' ∧ Paints s s' ∧ s'.cursor = 1920 ∧
      ∀ i < 2000, s'.cell i = if i < 1920 then s.cell (i + 80) else blank := by
  have hmove := paints_rep_movsd 960 0xc00b80a0 0xc00b8000 s (by decide) (by decide)
  obtain ⟨s', hcls, hpaint, hcells⟩ := cls_spec 80 1920 3840 (rep_movsd 960 0xc00b80a0 0xc00b8000 s) rfl (by omega)
  refine ⟨set_cursor 1920 s', ?_, (hmove.trans hpaint).trans (paints_set_cursor _ _), set_cursor_cursor _ _,
    fun i hi => ?_⟩
  · unfold roll_screen
    dsimp only
    rw [hcls]
    rfl
  · rw [set_cursor_cell, hcells]
    by_cases hup : i < 1920
    · have hmem := rep_movsd_mem 960 0xc00b80a0 0xc00b8000 s (by decide) (by decide)
      have hedi : (0xc00b8000 : UInt32).toNat = gsBase := rfl
      rw [if_neg (by omega), if_pos hup]
      unfold Screen.cell
      rw [hmem, hmem, hedi, if_pos (by omega), if_pos (by omega)]
      congr 2
    · rw [if_pos (by omega), if_neg hup]

/-! ## What one character does to the screen -/

structure Displays (s : Screen) (v : Window Cell) : Prop where
  cells : ∀ i < 2000, s.cell i = v.cells i
  cursor : s.cursor = v.cursor

/-- One character on a screen of 25 rows of 80 cells. -/
def feed (cl : UInt8) (v : Window Cell) : Window Cell :=
  if cl = 0xd ∨ cl = 0xa then v.newline 80 25 blank
  else if cl = 0x8 then v.erase blank
  else v.put 80 25 blank (cl, 0x07)

theorem is_carriage_return_spec (bx : UInt16) (s : Screen) (v : Window Cell) (hbx : bx.toNat ≤ 2000)
    (hv : ∀ i < 2000, s.cell i = v.cells i) :
    ∃ s', is_carriage_return bx s = .ok s' ∧ Paints s s' ∧
      Displays s' (Window.settle 80 25 blank { v with cursor := min ((bx.toNat / 80 + 1) * 80) 2000 }) := by
  have hmod : (bx % 80).toNat = bx.toNat % 80 := UInt16.toNat_mod _ _
  have hrow : (bx - bx % 80).toNat = bx.toNat / 80 * 80 := by
    rw [UInt16.toNat_sub_of_le _ _ (by rw [UInt16.le_iff_toNat_le, hmod]; exact Nat.mod_le _ _), hmod]
    omega
  have hnext : (bx - bx % 80 + 80).toNat = (bx.toNat / 80 + 1) * 80 := by
    rw [UInt16.toNat_add, hrow]
    show (bx.toNat / 80 * 80 + 80) % 2 ^ 16 = _
    omega
  have hlt := slt16_iff (bx - bx % 80 + 80) 2000 (by omega) (by decide)
  rw [hnext] at hlt
  change _ ↔ _ < 2000 at hlt
  unfold is_carriage_return is_carriage_return_end
  dsimp only
  by_cases hfit : (bx.toNat / 80 + 1) * 80 < 2000
  · rw [if_pos (hlt.mpr hfit)]
    refine ⟨_, rfl, paints_set_cursor _ _, ?_⟩
    unfold Window.settle
    rw [if_pos (by show min _ 2000 < 25 * 80; omega)]
    exact ⟨hv, by rw [set_cursor_cursor, hnext]; dsimp only; omega⟩
  · rw [if_neg fun h => hfit (hlt.mp h)]
    obtain ⟨s', hroll, hpaint, hcur, hcells⟩ := roll_screen_spec s
    refine ⟨s', hroll, hpaint, ?_⟩
    unfold Window.settle
    rw [if_neg (by show ¬ min _ 2000 < 25 * 80; omega)]
    refine ⟨fun i hi => ?_, ?_⟩
    · rw [hcells i hi]
      show _ = if i < (25 - 1) * 80 then v.cells (i + 80) else blank
      split
      · next hup => exact hv _ (by omega)
      · rfl
    · show _ = min _ 2000 - 80
      omega

theorem newline_eq (v : Window Cell) (h : v.cursor < 2000) :
    v.newline 80 25 blank = Window.settle 80 25 blank { v with cursor := min ((v.cursor / 80 + 1) * 80) 2000 } := by
  unfold Window.newline
  rw [Nat.min_eq_left (by omega)]

/-- The offsets of a cell, with `bx` doubled and halved again. -/
theorem put_cell (bx : UInt16) (s : Screen) (i : Nat) (hi : bx.toNat = i) (hlt : i < 2000) :
    (∀ b, s.gsByte (bx <<< 1).toNat b = .ok (s.store (gsBase + 2 * i) b)) ∧
      (∀ b, s.gsByte (bx <<< 1 + 1).toNat b = .ok (s.store (gsBase + (2 * i + 1)) b)) ∧
      ((bx <<< 1 + 1) >>> 1).toNat = i := by
  have hdouble : (bx <<< 1).toNat = 2 * i := by
    rw [UInt16.toNat_shiftLeft, hi]
    show i <<< 1 % 2 ^ 16 = _
    rw [Nat.shiftLeft_eq]
    omega
  have hodd : (bx <<< 1 + 1).toNat = 2 * i + 1 := by
    rw [UInt16.toNat_add, hdouble]
    show (2 * i + 1) % 2 ^ 16 = _
    omega
  have hhalf : ((bx <<< 1 + 1) >>> 1).toNat = i := by
    rw [UInt16.toNat_shiftRight, hodd]
    show (2 * i + 1) >>> 1 = _
    rw [Nat.shiftRight_eq_div_pow]
    omega
  refine ⟨fun b => ?_, fun b => ?_, hhalf⟩
  · unfold Screen.gsByte
    rw [hdouble, if_pos (by unfold gsLimit; omega)]
  · unfold Screen.gsByte
    rw [hodd, if_pos (by unfold gsLimit; omega)]

theorem is_backspace_spec (bx : UInt16) (s : Screen) (v : Window Cell) (hv : ∀ i < 2000, s.cell i = v.cells i)
    (hbx : bx.toNat = v.cursor) (hpos : 0 < v.cursor) (hlt : v.cursor < 2000) :
    ∃ s', is_backspace bx s = .ok s' ∧ Paints s s' ∧ Displays s' (v.erase blank) := by
  have hpred : (bx - 1).toNat = v.cursor - 1 := by
    rw [UInt16.toNat_sub_of_le _ _ (by rw [UInt16.le_iff_toNat_le]; show 1 ≤ bx.toNat; omega), hbx]
    rfl
  obtain ⟨hchar, -, hhalf⟩ := put_cell (bx - 1) s (v.cursor - 1) hpred (by omega)
  obtain ⟨-, hattr, -⟩ := put_cell (bx - 1) (s.store (gsBase + 2 * (v.cursor - 1)) 0x20) (v.cursor - 1) hpred (by omega)
  have hcell := paints_cell s (v.cursor - 1) blank (by omega)
  refine ⟨_, ?_, hcell.trans (paints_set_cursor ((((bx - 1) <<< 1) + 1) >>> 1) _), fun i hi => ?_, ?_⟩
  · unfold is_backspace
    dsimp only
    rw [hchar]
    show (do let s ← Screen.gsByte _ _ _; _) = _
    rw [hattr]
    rfl
  · rw [set_cursor_cell, store_cell]
    show _ = Function.update v.cells (v.cursor - 1) blank i
    by_cases hi' : i = v.cursor - 1
    · rw [if_pos hi', hi', Function.update_self]
    · rw [if_neg hi', Function.update_of_ne hi', hv i hi]
  · rw [set_cursor_cursor, hhalf]
    rfl

theorem put_other_spec (cl : UInt8) (bx : UInt16) (s : Screen) (v : Window Cell)
    (hv : ∀ i < 2000, s.cell i = v.cells i) (hbx : bx.toNat = v.cursor) (hlt : v.cursor < 2000) :
    ∃ s', put_other cl bx s = .ok s' ∧ Paints s s' ∧ Displays s' (v.put 80 25 blank (cl, 0x07)) := by
  obtain ⟨hchar, -, hhalf⟩ := put_cell bx s v.cursor hbx hlt
  obtain ⟨-, hattr, -⟩ := put_cell bx (s.store (gsBase + 2 * v.cursor) cl) v.cursor hbx hlt
  have hcell := paints_cell s v.cursor (cl, 0x07) hlt
  have hcells := store_cell s v.cursor (cl, 0x07)
  generalize hs₁ : ((s.store (gsBase + 2 * v.cursor) cl).store (gsBase + (2 * v.cursor + 1)) 0x07) = s₁
    at hcell hcells
  have hnext : ((bx <<< 1 + 1) >>> 1 + 1).toNat = v.cursor + 1 := by
    rw [UInt16.toNat_add, hhalf]
    show (v.cursor + 1) % 2 ^ 16 = _
    omega
  have hrun : put_other cl bx s =
      if slt16 ((bx <<< 1 + 1) >>> 1 + 1) 2000 then pure (set_cursor ((bx <<< 1 + 1) >>> 1 + 1) s₁)
      else is_line_feed ((bx <<< 1 + 1) >>> 1 + 1) s₁ := by
    unfold put_other
    dsimp only
    rw [hchar]
    show (do let s ← Screen.gsByte _ _ _; _) = _
    rw [hattr, ← hs₁]
    rfl
  have hv₁ : ∀ i < 2000, s₁.cell i = Function.update v.cells v.cursor (cl, 0x07) i := by
    intro i hi
    rw [hcells]
    by_cases hi' : i = v.cursor
    · rw [if_pos hi', hi', Function.update_self]
    · rw [if_neg hi', Function.update_of_ne hi', hv i hi]
  have hjl := slt16_iff ((bx <<< 1 + 1) >>> 1 + 1) 2000 (by omega) (by decide)
  rw [hnext] at hjl
  change _ ↔ _ < 2000 at hjl
  rw [hrun]
  by_cases hfit : v.cursor + 1 < 2000
  · rw [if_pos (hjl.mpr hfit)]
    refine ⟨_, rfl, hcell.trans (paints_set_cursor _ _), ?_⟩
    unfold Window.put Window.settle
    rw [if_pos hfit]
    exact ⟨hv₁, by rw [set_cursor_cursor, hnext]⟩
  · -- The last cell of the last row.
    obtain ⟨s', hret, hpaint, hshow⟩ := is_carriage_return_spec ((bx <<< 1 + 1) >>> 1 + 1) s₁
      { cells := Function.update v.cells v.cursor (cl, 0x07), cursor := v.cursor + 1 } (by omega) hv₁
    rw [if_neg fun h => hfit (hjl.mp h)]
    refine ⟨s', hret, hcell.trans hpaint, ?_⟩
    rw [hnext, show min (((v.cursor + 1) / 80 + 1) * 80) 2000 = v.cursor + 1 by omega] at hshow
    exact hshow

/-- One call, but a backspace at the start of the screen. -/
theorem put_char_spec (cl : UInt8) (s : Screen) (v : Window Cell) (h : Displays s v) (hlt : v.cursor < 2000)
    (hbs : ¬ (cl = 0x8 ∧ v.cursor = 0)) :
    ∃ s', put_char cl s = .ok s' ∧ Paints s s' ∧ Displays s' (feed cl v) := by
  have hbx : (get_cursor s).1.toNat = v.cursor := (get_cursor_toNat s).trans h.cursor
  have hv : ∀ i < 2000, (get_cursor s).2.cell i = v.cells i := h.cells
  have hread : Paints s (get_cursor s).2 := ⟨⟨[], rfl, fun _ ha => absurd ha List.not_mem_nil⟩, fun _ _ => rfl⟩
  have hline : ∃ s', is_carriage_return (get_cursor s).1 (get_cursor s).2 = .ok s' ∧ Paints s s' ∧
      Displays s' (v.newline 80 25 blank) := by
    obtain ⟨s', hret, hpaint, hshow⟩ := is_carriage_return_spec (get_cursor s).1 _ v (by omega) hv
    rw [hbx, ← newline_eq v hlt] at hshow
    exact ⟨s', hret, hread.trans hpaint, hshow⟩
  unfold put_char feed
  dsimp only
  by_cases hcr : cl = 0xd
  · rw [if_pos hcr, if_pos (.inl hcr)]
    exact hline
  by_cases hlf : cl = 0xa
  · rw [if_neg hcr, if_pos hlf, if_pos (.inr hlf)]
    exact hline
  have hnl : ¬ (cl = 0xd ∨ cl = 0xa) := not_or.mpr ⟨hcr, hlf⟩
  rw [if_neg hcr, if_neg hlf, if_neg hnl]
  by_cases hb : cl = 0x8
  · rw [if_pos hb, if_pos hb]
    obtain ⟨s', hret, hpaint, hshow⟩ := is_backspace_spec _ _ v hv hbx
      (Nat.pos_of_ne_zero fun h0 => hbs ⟨hb, h0⟩) hlt
    exact ⟨s', hret, hread.trans hpaint, hshow⟩
  · rw [if_neg hb, if_neg hb]
    obtain ⟨s', hret, hpaint, hshow⟩ := put_other_spec cl _ _ v hv hbx hlt
    exact ⟨s', hret, hread.trans hpaint, hshow⟩

/-- `dec bx` wraps, and the offset is behind the segment. -/
theorem put_char_backspace (s : Screen) (h : s.cursor = 0) : put_char 0x8 s = .error (.general_protection 0xfffe) := by
  have hbx : (get_cursor s).1 = 0 := by
    rw [← UInt16.toNat_inj, get_cursor_toNat, h]
    rfl
  unfold put_char
  dsimp only
  rw [if_neg (by decide), if_neg (by decide), if_pos rfl, hbx]
  rfl

/-- Onto the next row, or up by one row. -/
theorem settle_lt (cells : Nat → Cell) (n : Nat) (h : n ≤ 2000) :
    (Window.settle 80 25 blank { cells := cells, cursor := n }).cursor < 2000 := by
  unfold Window.settle
  split
  · next hlt => exact hlt
  · show n - 80 < 2000
    omega

theorem feed_lt (cl : UInt8) (v : Window Cell) (h : v.cursor < 2000) : (feed cl v).cursor < 2000 := by
  unfold feed
  split
  · exact settle_lt _ _ (by omega)
  · split
    · show v.cursor - 1 < 2000
      omega
    · exact settle_lt _ _ (by omega)

/-! ## All calls of `put_char` -/

def put_chars : List UInt8 → Screen → Except Stop Screen
  | [], s => pure s
  | cl :: cls, s => do
    let s ← put_char cl s
    put_chars cls s

/-- The cursor is on the screen, and what was written is in the text page. -/
structure OnScreen (s s' : Screen) : Prop where
  cursor : s'.cursor < 2000
  written : ∃ as, s'.written = as ++ s.written ∧ ∀ a ∈ as, InText a

theorem OnScreen.trans {s s₁ s₂ : Screen} (h₁ : OnScreen s s₁) (h₂ : OnScreen s₁ s₂) : OnScreen s s₂ := by
  obtain ⟨as, has, hin⟩ := h₁.written
  obtain ⟨bs, hbs, hin'⟩ := h₂.written
  refine ⟨h₂.cursor, bs ++ as, by rw [hbs, has, List.append_assoc], fun a ha => ?_⟩
  rcases List.mem_append.mp ha with ha | ha
  · exact hin' a ha
  · exact hin a ha

theorem put_char_on_screen (cl : UInt8) (s : Screen) (hlt : s.cursor < 2000) (hbs : ¬ (cl = 0x8 ∧ s.cursor = 0)) :
    ∃ s', put_char cl s = .ok s' ∧ OnScreen s s' := by
  obtain ⟨s', hret, hpaint, hshow⟩ := put_char_spec cl s { cells := s.cell, cursor := s.cursor }
    ⟨fun _ _ => rfl, rfl⟩ hlt hbs
  exact ⟨s', hret, hshow.cursor ▸ feed_lt cl _ hlt, hpaint.written⟩

theorem put_chars_snoc (cls : List UInt8) (cl : UInt8) (s : Screen) :
    put_chars (cls ++ [cl]) s = (do let s ← put_chars cls s; put_char cl s) := by
  induction cls generalizing s with
  | nil => exact bind_pure _
  | cons c cls ih =>
    show (do let s ← put_char c s; put_chars (cls ++ [cl]) s) =
      (do let s ← (do let s ← put_char c s; put_chars cls s); put_char cl s)
    rw [bind_assoc]
    congr 1
    funext s₁
    exact ih s₁

/-- No backspace comes while the cursor is at the start of the screen. -/
def Guarded (cls : List UInt8) (s : Screen) : Prop :=
  ∀ pre cl, pre ++ [cl] <+: cls → ∀ s', put_chars pre s = .ok s' → ¬ (cl = 0x8 ∧ s'.cursor = 0)

theorem put_chars_guarded (cls : List UInt8) (s : Screen) (hlt : s.cursor < 2000) (h : Guarded cls s) (pre : List UInt8)
    (hpre : pre <+: cls) : ∃ s', put_chars pre s = .ok s' ∧ OnScreen s s' := by
  induction pre using List.reverseRecOn with
  | nil => exact ⟨s, rfl, hlt, [], rfl, fun _ ha => absurd ha List.not_mem_nil⟩
  | append_singleton pre cl ih =>
    obtain ⟨s₁, hrun, hon⟩ := ih ((List.prefix_append pre [cl]).trans hpre)
    obtain ⟨s₂, hstep, hon'⟩ := put_char_on_screen cl s₁ hon.cursor (h pre cl hpre s₁ hrun)
    exact ⟨s₂, by rw [put_chars_snoc, hrun]; exact hstep, hon.trans hon'⟩

/-- **The screen is left exactly by a backspace at its start.** -/
theorem put_chars_on_screen (cls : List UInt8) (s : Screen) (hlt : s.cursor < 2000) :
    (∀ pre, pre <+: cls → ∃ s', put_chars pre s = .ok s' ∧ OnScreen s s') ↔ Guarded cls s := by
  constructor
  · rintro h pre cl hpre s' hrun ⟨rfl, hzero⟩
    obtain ⟨s'', hok, -⟩ := h _ hpre
    rw [put_chars_snoc, hrun] at hok
    have := (put_char_backspace s' hzero).symm.trans hok
    contradiction
  · exact put_chars_guarded cls s hlt

/-- The cursor at the start. -/
def screen0 : Screen := ⟨0, fun _ => 0, fun _ => 0, []⟩

theorem put_chars_on_screen_a : ∃ s', put_chars [0x61] screen0 = .ok s' ∧ OnScreen screen0 s' := by
  refine (put_chars_on_screen [0x61] screen0 (by decide)).mpr (fun pre cl hpre s' _ hbs => ?_) [0x61] List.prefix_rfl
  have hmem : cl ∈ [0x61] := hpre.subset (List.mem_append_right _ (List.mem_singleton_self cl))
  rw [hbs.1] at hmem
  exact absurd hmem (by decide)

theorem backspace_leaves : screen0.cursor < 2000 ∧ put_chars [0x8] screen0 = .error (.general_protection 0xfffe) :=
  ⟨by decide, rfl⟩

end OsLearn.Print
