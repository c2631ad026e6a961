import OsLearn.Kernel.Print

/-!
# `put_str` shows what a terminal without end shows
-/

namespace OsLearn.Print

/-! ## The reference -/

/-- One character on a terminal of 80 columns with a window of 25 rows. -/
def type (t : Terminal Cell) (cl : UInt8) : Terminal Cell :=
  if cl = 0xd ∨ cl = 0xa then t.newline 80 25 else t.put 80 25 (cl, 0x07)

/-- The rows begin with those of the screen. -/
def terminal (s : Screen) : Terminal Cell where
  cells i := if i < 2000 then s.cell i else blank
  pos := s.cursor
  top := 0

/-! ## The string -/

/-- The bytes at `a` up to the NUL, which are not on the screen. -/
def StringAt (mem : Mem) : UInt32 → List UInt8 → Prop
  | a, [] => ¬ InText a.toNat ∧ mem a.toNat = 0
  | a, cl :: cls => ¬ InText a.toNat ∧ mem a.toNat = cl ∧ StringAt mem (a + 1) cls

theorem stringAt_paints {s s' : Screen} (h : Paints s s') (a : UInt32) (cls : List UInt8) (hs : StringAt s.mem a cls) :
    StringAt s'.mem a cls := by
  induction cls generalizing a with
  | nil => exact ⟨hs.1, (h.other _ hs.1).trans hs.2⟩
  | cons cl cls ih => exact ⟨hs.1, (h.other _ hs.1).trans hs.2.1, ih _ hs.2.2⟩

/-! ## One character -/

/-- The screen is the window of the terminal. -/
structure Mirrors (s : Screen) (t : Terminal Cell) : Prop where
  settled : t.Settled 80 25 blank
  cells : ∀ i < 2000, s.cell i = t.view 80 i
  cursor : s.cursor = t.cursor 80

theorem terminal_mirrors (s : Screen) (h : s.cursor < 2000) : Mirrors s (terminal s) := by
  refine ⟨⟨?_, ?_, fun i hi => ?_⟩, fun i hi => ?_, ?_⟩
  · exact (Nat.zero_mul 80).symm ▸ Nat.zero_le _
  · show s.cursor < (0 + 25) * 80
    omega
  · exact if_neg (by change (0 + 25) * 80 ≤ i at hi; omega)
  · unfold Terminal.view terminal
    dsimp only
    rw [Nat.zero_mul, Nat.zero_add, if_pos hi]
  · rfl

theorem type_shown (cl : UInt8) (v : Window Cell) (t : Terminal Cell) (h : Shown 80 25 blank v t) (hbs : cl ≠ 0x8) :
    Shown 80 25 blank (feed cl v) (type t cl) := by
  unfold feed type
  by_cases hnl : cl = 0xd ∨ cl = 0xa
  · rw [if_pos hnl, if_pos hnl]
    exact h.newline (by decide) (by decide)
  · rw [if_neg hnl, if_neg hnl, if_neg hbs]
    exact h.put (by decide) (by decide) (cl, 0x07)

theorem put_char_mirrors (cl : UInt8) (s : Screen) (t : Terminal Cell) (h : Mirrors s t) (hbs : cl ≠ 0x8) :
    ∃ s', put_char cl s = .ok s' ∧ Paints s s' ∧ Mirrors s' (type t cl) := by
  have hlt : t.cursor 80 < 2000 := by
    have habove := h.settled.above
    have hbelow := h.settled.below
    unfold Terminal.cursor
    omega
  obtain ⟨s', hret, hpaint, hshow⟩ := put_char_spec cl s { cells := t.view 80, cursor := t.cursor 80 }
    ⟨h.cells, h.cursor⟩ hlt fun hb => hbs hb.1
  have hshown := type_shown cl { cells := t.view 80, cursor := t.cursor 80 } t ⟨h.settled, fun _ _ => rfl, rfl⟩ hbs
  exact ⟨s', hret, hpaint, hshown.settled, fun i hi => (hshow.cells i hi).trans (hshown.cells i hi),
    hshow.cursor.trans hshown.cursor⟩

/-! ## The whole string -/

theorem put_str_run (cls : List UInt8) (hcls : ∀ cl ∈ cls, cl ≠ 0 ∧ cl ≠ 0x8) (str : UInt32) (s : Screen)
    (t : Terminal Cell) (h : Mirrors s t) (hstr : StringAt s.mem str cls) :
    ∃ s', (∀ fuel, cls.length < fuel → put_str fuel str s = .ok s') ∧ Mirrors s' (cls.foldl type t) := by
  induction cls generalizing str s t with
  | nil =>
    refine ⟨s, fun fuel hfuel => ?_, h⟩
    obtain ⟨n, rfl⟩ := Nat.exists_eq_succ_of_ne_zero (Nat.ne_of_gt hfuel)
    rw [put_str]
    exact if_pos hstr.2
  | cons cl cls ih =>
    obtain ⟨hne, hbs⟩ := hcls cl List.mem_cons_self
    obtain ⟨s₁, hret, hpaint, hmirror⟩ := put_char_mirrors cl s t h hbs
    obtain ⟨s', hrun, hend⟩ := ih (fun c hc => hcls c (List.mem_cons_of_mem _ hc)) (str + 1) s₁ (type t cl) hmirror
      (stringAt_paints hpaint _ _ hstr.2.2)
    refine ⟨s', fun fuel hfuel => ?_, hend⟩
    rw [List.length_cons] at hfuel
    obtain ⟨n, rfl⟩ := Nat.exists_eq_succ_of_ne_zero (Nat.ne_of_gt (Nat.zero_lt_of_lt hfuel))
    rw [put_str, hstr.2.1, if_neg hne, hret]
    exact hrun n (by omega)

/-- **Layout and scrolling.** After `put_str` the screen and the cursor are those of the terminal. -/
theorem put_str_terminal (s : Screen) (cls : List UInt8) (str : UInt32) (hcur : s.cursor < 2000)
    (hcls : ∀ cl ∈ cls, cl ≠ 0 ∧ cl ≠ 0x8) (hstr : StringAt s.mem str cls) :
    ∃ s', (∀ fuel, cls.length < fuel → put_str fuel str s = .ok s') ∧
      (∀ i < 2000, s'.cell i = (cls.foldl type (terminal s)).view 80 i) ∧
      s'.cursor = (cls.foldl type (terminal s)).cursor 80 := by
  obtain ⟨s', hrun, hmirror⟩ := put_str_run cls hcls str s (terminal s) (terminal_mirrors s hcur) hstr
  exact ⟨s', hrun, hmirror.cells, hmirror.cursor⟩

/-- The cursor on the last cell, and the string of a line feed and an `a` at address 0. -/
def lastCell : Screen where
  index := 0
  crtc r := if r = 0x0e then 0x07 else if r = 0x0f then 0xcf else 0
  mem a := if a = 0 then 0xa else if a = 1 then 0x61 else 0
  written := []

theorem put_str_terminal_scroll :
    ∃ s', (∀ fuel, 2 < fuel → put_str fuel 0 lastCell = .ok s') ∧ s'.cursor = 1921 := by
  obtain ⟨s', hrun, -, hcur⟩ := put_str_terminal lastCell [0xa, 0x61] 0 (by decide) (by simp)
    ⟨by decide, rfl, by decide, rfl, by decide, rfl⟩
  exact ⟨s', hrun, hcur.trans rfl⟩

end OsLearn.Print
