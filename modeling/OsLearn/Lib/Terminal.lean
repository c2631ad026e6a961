import Mathlib.Tactic.Common
import Mathlib.Algebra.Group.Nat.Defs
import Mathlib.Algebra.Order.Ring.Nat
import Mathlib.Logic.Function.Basic

/-!
# Terminals

A terminal has rows without end and a window of `h` rows of `w` cells on them. A screen has these `h` rows
only, and moves them up. The screen shows what is in the window.
-/

namespace OsLearn

/-! ## The screen -/

structure Window (α : Type) where
  cells : Nat → α
  cursor : Nat

namespace Window

variable {α : Type} (w h : Nat) (blank : α)

/-- All rows go up by one. -/
def scroll (v : Window α) : Window α where
  cells i := if i < (h - 1) * w then v.cells (i + w) else blank
  cursor := v.cursor - w

/-- Back onto the screen. -/
def settle (v : Window α) : Window α := if v.cursor < h * w then v else v.scroll w h blank

def put (c : α) (v : Window α) : Window α :=
  settle w h blank { cells := Function.update v.cells v.cursor c, cursor := v.cursor + 1 }

def newline (v : Window α) : Window α := settle w h blank { v with cursor := (v.cursor / w + 1) * w }

/-- The cell before the cursor is cleared. -/
def erase (v : Window α) : Window α where
  cells := Function.update v.cells (v.cursor - 1) blank
  cursor := v.cursor - 1

end Window

/-! ## The terminal -/

structure Terminal (α : Type) where
  cells : Nat → α
  pos : Nat
  -- The first row of the window.
  top : Nat

namespace Terminal

variable {α : Type} (w h : Nat) (blank : α)

/-- The window goes down as far as it must, for the row of `pos` to be in it. -/
def follow (t : Terminal α) : Terminal α := { t with top := max t.top (t.pos / w + 1 - h) }

def put (c : α) (t : Terminal α) : Terminal α :=
  follow w h { t with cells := Function.update t.cells t.pos c, pos := t.pos + 1 }

def newline (t : Terminal α) : Terminal α := follow w h { t with pos := (t.pos / w + 1) * w }

/-- Cell `i` of the window. -/
def view (t : Terminal α) (i : Nat) : α := t.cells (t.top * w + i)

def cursor (t : Terminal α) : Nat := t.pos - t.top * w

/-- `pos` is in the window, and all rows behind it are blank. -/
structure Settled (t : Terminal α) : Prop where
  above : t.top * w ≤ t.pos
  below : t.pos < (t.top + h) * w
  rest : ∀ i, (t.top + h) * w ≤ i → t.cells i = blank

end Terminal

/-! ## The screen shows the window -/

structure Shown {α : Type} (w h : Nat) (blank : α) (v : Window α) (t : Terminal α) : Prop where
  settled : t.Settled w h blank
  cells : ∀ i < h * w, v.cells i = t.view w i
  cursor : v.cursor = t.cursor w

namespace Shown

variable {α : Type} {w h : Nat} {blank : α} {v : Window α} {t : Terminal α}

/-- A move by at most one row: both settle in the same way. -/
theorem of_move (hw : 0 < w) (hh : 0 < h) (cells vcells : Nat → α) (pos top : Nat) (habove : top * w ≤ pos)
    (hbelow : pos ≤ (top + h) * w) (hrest : ∀ i, (top + h) * w ≤ i → cells i = blank)
    (hcells : ∀ i < h * w, vcells i = cells (top * w + i)) :
    Shown w h blank (Window.settle w h blank { cells := vcells, cursor := pos - top * w })
      (Terminal.follow w h { cells := cells, pos := pos, top := top }) := by
  have hsum : (top + h) * w = top * w + h * w := Nat.add_mul _ _ _
  have hnext : (top + 1) * w = top * w + w := Nat.succ_mul _ _
  unfold Window.settle Terminal.follow
  dsimp only
  by_cases hlt : pos < (top + h) * w
  · have hrow : pos / w < top + h := (Nat.div_lt_iff_lt_mul hw).mpr hlt
    rw [if_pos (by omega), Nat.max_eq_left (by omega)]
    exact ⟨⟨habove, hlt, hrest⟩, hcells, rfl⟩
  · obtain rfl : pos = (top + h) * w := by omega
    have hheight : h * w = (h - 1) * w + w := by rw [← Nat.succ_mul, Nat.succ_eq_add_one, Nat.sub_add_cancel hh]
    have hsum' : (top + 1 + h) * w = top * w + w + h * w := by rw [Nat.add_mul, hnext]
    rw [if_neg (by omega), Nat.mul_div_cancel _ hw, Nat.max_eq_right (by omega),
      show top + h + 1 - h = top + 1 by omega]
    refine ⟨⟨?_, ?_, fun i hi => ?_⟩, fun i hi => ?_, ?_⟩
    · show (top + 1) * w ≤ (top + h) * w
      omega
    · show (top + h) * w < (top + 1 + h) * w
      omega
    · change (top + 1 + h) * w ≤ i at hi
      exact hrest i (by omega)
    · show (if i < (h - 1) * w then vcells (i + w) else blank) = cells ((top + 1) * w + i)
      split
      · next hup =>
        rw [hcells (i + w) (by omega)]
        congr 1
        omega
      · next hlast => exact (hrest _ (by omega)).symm
    · show (top + h) * w - top * w - w = (top + h) * w - (top + 1) * w
      omega

theorem put (hw : 0 < w) (hh : 0 < h) (c : α) (hs : Shown w h blank v t) :
    Shown w h blank (v.put w h blank c) (t.put w h c) := by
  have habove := hs.settled.above
  have hbelow := hs.settled.below
  have hsum : (t.top + h) * w = t.top * w + h * w := Nat.add_mul _ _ _
  have hcur : v.cursor = t.pos - t.top * w := hs.cursor
  have hmove := of_move hw hh (Function.update t.cells t.pos c) (Function.update v.cells v.cursor c) (t.pos + 1) t.top
    (by omega) (by omega)
    (fun i hi => by rw [Function.update_of_ne (by omega), hs.settled.rest i hi])
    (fun i hi => by
      by_cases hi' : i = v.cursor
      · rw [hi', Function.update_self, show t.top * w + v.cursor = t.pos by omega, Function.update_self]
      · rw [Function.update_of_ne hi', Function.update_of_ne (by omega), hs.cells i hi]
        rfl)
  rwa [show t.pos + 1 - t.top * w = v.cursor + 1 by omega] at hmove

theorem newline (hw : 0 < w) (hh : 0 < h) (hs : Shown w h blank v t) :
    Shown w h blank (v.newline w h blank) (t.newline w h) := by
  have habove := hs.settled.above
  have hcur : v.cursor = t.pos - t.top * w := hs.cursor
  have hlow : t.top ≤ t.pos / w := (Nat.le_div_iff_mul_le hw).mpr habove
  have hhigh : t.pos / w < t.top + h := (Nat.div_lt_iff_lt_mul hw).mpr hs.settled.below
  have hrow : v.cursor / w = t.pos / w - t.top := by rw [hcur, Nat.mul_comm, Nat.sub_mul_div]
  have hnext : (v.cursor / w + 1) * w = (t.pos / w + 1) * w - t.top * w := by
    rw [← Nat.sub_mul, hrow]
    congr 1
    omega
  have hmove := of_move hw hh t.cells v.cells ((t.pos / w + 1) * w) t.top (Nat.mul_le_mul_right w (by omega))
    (Nat.mul_le_mul_right w (by omega)) hs.settled.rest hs.cells
  rwa [← hnext] at hmove

end Shown

end OsLearn
