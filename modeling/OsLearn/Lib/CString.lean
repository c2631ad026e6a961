import OsLearn.Lib.Bytes
import OsLearn.Lib.Bits
import OsLearn.Lib.Spec
import Mathlib.Data.List.Nodup
import Mathlib.Data.List.Range

/-!
# NUL-terminated strings

The string that a pointer shows, the positions where it has a character, and its order.
-/

namespace OsLearn.CString

/-! ## Strings in memory -/

/-- The characters from address `p` on. None of them is 0. -/
def CharsAt (mem : Mem) : Nat → List UInt8 → Prop
  | _, [] => True
  | p, c :: s => c ≠ 0 ∧ mem p = c ∧ CharsAt mem (p + 1) s

theorem charsAt_append (mem : Mem) (p : Nat) (s t : List UInt8) :
    CharsAt mem p (s ++ t) ↔ CharsAt mem p s ∧ CharsAt mem (p + s.length) t := by
  induction s generalizing p with
  | nil => exact ⟨fun h => ⟨trivial, h⟩, And.right⟩
  | cons c s ih =>
    rw [List.cons_append, CharsAt, CharsAt, ih (p + 1), List.length_cons, Nat.add_assoc p 1, Nat.add_comm 1]
    simp only [and_assoc]

theorem CharsAt.congr {mem mem' : Mem} {p : Nat} {s : List UInt8} (h : CharsAt mem p s)
    (hmem : ∀ x, p ≤ x → x < p + s.length → mem' x = mem x) : CharsAt mem' p s := by
  induction s generalizing p with
  | nil => trivial
  | cons c s ih =>
    rw [List.length_cons] at hmem
    obtain ⟨hc, hp, hs⟩ := h
    refine ⟨hc, ?_, ih hs fun x h1 h2 => hmem x (by omega) (by omega)⟩
    rw [hmem p (by omega) (by omega), hp]

theorem CharsAt.not_mem {mem : Mem} {p : Nat} {s : List UInt8} (h : CharsAt mem p s) : 0 ∉ s := by
  induction s generalizing p with
  | nil => exact List.not_mem_nil
  | cons c s ih =>
    rw [List.mem_cons, not_or]
    exact ⟨h.1.symm, ih h.2.2⟩

theorem charsAt_writeBytes (mem : Mem) (p : Nat) (s rest : List UInt8) (h : 0 ∉ s) :
    CharsAt (writeBytes mem p (s ++ rest)) p s := by
  induction s generalizing mem p with
  | nil => trivial
  | cons c s ih =>
    rw [List.mem_cons, not_or] at h
    rw [List.cons_append, writeBytes_cons]
    refine ⟨fun h0 => h.1 h0.symm, ?_, ih _ _ h.2⟩
    rw [writeBytes_other _ _ _ _ (by omega), Function.update_self]

/-- A string that a `char*` can point to. -/
structure CStr (mem : Mem) (p : UInt32) (s : List UInt8) : Prop where
  not_null : p ≠ 0
  fits : p.toNat + s.length < 2 ^ 32
  chars : CharsAt mem p.toNat s
  nul : mem (p.toNat + s.length) = 0

namespace CStr

variable {mem : Mem} {p : UInt32} {s : List UInt8}

theorem end_eq (h : CStr mem p []) : mem p.toNat = 0 := h.nul

theorem head_eq {c : UInt8} (h : CStr mem p (c :: s)) : mem p.toNat = c := h.chars.2.1

theorem head_ne {c : UInt8} (h : CStr mem p (c :: s)) : c ≠ 0 := h.chars.1

theorem next_toNat {c : UInt8} (h : CStr mem p (c :: s)) : (p + 1).toNat = p.toNat + 1 := by
  have hfits := h.fits
  rw [List.length_cons] at hfits
  exact toNat_add_small p 1 (by omega)

theorem tail {c : UInt8} (h : CStr mem p (c :: s)) : CStr mem (p + 1) s := by
  have hnext := h.next_toNat
  have hfits := h.fits
  have hnul := h.nul
  rw [List.length_cons] at hfits hnul
  refine ⟨?_, by omega, ?_, ?_⟩
  · rw [ne_eq, ← UInt32.toNat_inj, hnext]
    exact Nat.succ_ne_zero _
  · rw [hnext]
    exact h.chars.2.2
  · rw [hnext, Nat.add_assoc, Nat.add_comm 1]
    exact hnul

theorem at_toNat (h : CStr mem p s) (i : Nat) (hi : i ≤ s.length) : (p + UInt32.ofNat i).toNat = p.toNat + i :=
  toNat_add_small p i (by have hfits := h.fits; omega)

theorem congr {mem' : Mem} (h : CStr mem p s) (hmem : ∀ x, p.toNat ≤ x → x ≤ p.toNat + s.length → mem' x = mem x) :
    CStr mem' p s where
  not_null := h.not_null
  fits := h.fits
  chars := h.chars.congr fun x h1 h2 => hmem x h1 (by omega)
  nul := (hmem _ (by omega) (Nat.le_refl _)).trans h.nul

/-- A loop that stops at the end of a string. It may write, as long as the rest of the string stays. -/
theorem rounds {motive : Nat → Mem → UInt32 → List UInt8 → Prop}
    (stop : ∀ fuel mem p, CStr mem p [] → motive (fuel + 1) mem p [])
    (round : ∀ fuel mem p c s, CStr mem p (c :: s) →
      (∀ mem', CStr mem' (p + 1) s → motive fuel mem' (p + 1) s) → motive (fuel + 1) mem p (c :: s))
    (fuel : Nat) (h : CStr mem p s) (hfuel : s.length < fuel) : motive fuel mem p s :=
  rounds_over (motive := fun fuel s => ∀ mem p, CStr mem p s → motive fuel mem p s) stop
    (fun fuel c s ih mem p h => round fuel mem p c s h fun mem' h' => ih mem' (p + 1) h') fuel s hfuel mem p h

/-- A pointer shows one string. -/
theorem unique {t : List UInt8} (h : CStr mem p s) (h' : CStr mem p t) : s = t := by
  induction s generalizing p t with
  | nil =>
    cases t with
    | nil => rfl
    | cons d t => exact absurd (h'.head_eq.symm.trans h.end_eq) h'.head_ne
  | cons c s ih =>
    cases t with
    | nil => exact absurd (h.head_eq.symm.trans h'.end_eq) h.head_ne
    | cons d t => rw [← h.head_eq, ← h'.head_eq, ih h.tail h'.tail]

end CStr

/-! ## Where an element stands -/

section Positions

variable {α : Type} (p : α → Bool)

/-- The positions of the elements that meet `p`. -/
def positions (s : List α) : List Nat := (List.range s.length).filter fun i => s[i]?.any p

@[simp] theorem positions_nil : positions p [] = [] := rfl

theorem positions_cons (c : α) (s : List α) :
    positions p (c :: s) = if p c then 0 :: (positions p s).map (· + 1) else (positions p s).map (· + 1) := by
  unfold positions
  rw [List.length_cons, List.range_succ_eq_map, List.filter_cons, List.filter_map]
  rfl

theorem positions_congr (q : α → Bool) (s : List α) (h : ∀ c ∈ s, p c = q c) : positions p s = positions q s := by
  induction s with
  | nil => rfl
  | cons c s ih =>
    rw [positions_cons, positions_cons, h c List.mem_cons_self, ih fun d hd => h d (List.mem_cons_of_mem c hd)]

theorem positions_eq_nil (s : List α) : positions p s = [] ↔ ∀ c ∈ s, p c = false := by
  induction s with
  | nil => simp
  | cons c s ih =>
    rw [positions_cons]
    cases hc : p c <;> simp [hc, ih]

theorem lt_of_mem_positions (s : List α) (i : Nat) (h : i ∈ positions p s) : i < s.length :=
  List.mem_range.mp (List.mem_filter.mp h).1

theorem nodup_positions (s : List α) : (positions p s).Nodup := List.nodup_range.filter _

end Positions

/-- In a list without duplicates the first element is the last one when there is no other. -/
theorem head?_eq_getLast?_iff {α : Type} (l : List α) (h : l.Nodup) : l.head? = l.getLast? ↔ l.length ≤ 1 := by
  match l, h with
  | [], _ => simp
  | [a], _ => simp
  | a :: b :: l, h =>
    constructor
    · intro heq
      rw [List.head?_cons, List.getLast?_cons_cons] at heq
      have hmem : a ∈ b :: l := List.mem_of_getLast? heq.symm
      exact absurd hmem (List.nodup_cons.mp h).1
    · intro hle
      simp at hle

/-! ## Order -/

def sign : Ordering → Int
  | .lt => -1
  | .eq => 0
  | .gt => 1

theorem sign_inj (o o' : Ordering) : sign o = sign o' ↔ o = o' := by cases o <;> cases o' <;> decide

theorem sign_swap (o : Ordering) : sign o.swap = - sign o := by cases o <;> rfl

theorem sign_nonpos (o : Ordering) : sign o ≤ 0 ↔ o.isLE = true := by cases o <;> decide

/-- A comparison whose result is negative, 0 or positive is a total order on the elements of `S`. -/
structure Orders {α : Type} (S : α → Prop) (cmp : α → α → Int) : Prop where
  zero : ∀ a b, S a → S b → (cmp a b = 0 ↔ a = b)
  antisymm : ∀ a b, S a → S b → cmp b a = - cmp a b
  trans : ∀ a b c, S a → S b → S c → cmp a b ≤ 0 → cmp b c ≤ 0 → cmp a c ≤ 0

section Overtakes

variable {α β : Type} (P : α → Prop)

/-- `t` goes on where `s` ends, with an element that meets `P`. -/
def Overtakes (s t : List α) : Prop := ∃ c r, t = s ++ c :: r ∧ P c

theorem overtakes_nil (s : List α) : ¬ Overtakes P s [] := by
  rintro ⟨c, r, heq, -⟩
  simp at heq

theorem nil_overtakes (c : α) (t : List α) : Overtakes P [] (c :: t) ↔ P c := by
  unfold Overtakes
  simp

theorem overtakes_cons (c d : α) (s t : List α) : Overtakes P (c :: s) (d :: t) ↔ c = d ∧ Overtakes P s t := by
  unfold Overtakes
  simp only [List.cons_append, List.cons.injEq]
  constructor
  · rintro ⟨a, r, ⟨rfl, rfl⟩, hlt⟩
    exact ⟨rfl, a, r, rfl, hlt⟩
  · rintro ⟨rfl, a, r, rfl, hlt⟩
    exact ⟨a, r, ⟨rfl, rfl⟩, hlt⟩

theorem overtakes_map (f : β → α) (hf : Function.Injective f) (s t : List β) :
    Overtakes P (s.map f) (t.map f) ↔ Overtakes (fun c => P (f c)) s t := by
  induction s generalizing t with
  | nil =>
    cases t with
    | nil => exact iff_of_false (overtakes_nil _ _) (overtakes_nil _ _)
    | cons d t => rw [List.map_nil, List.map_cons, nil_overtakes, nil_overtakes]
  | cons c s ih =>
    cases t with
    | nil => exact iff_of_false (overtakes_nil _ _) (overtakes_nil _ _)
    | cons d t => rw [List.map_cons, List.map_cons, overtakes_cons, overtakes_cons, hf.eq_iff, ih]

end Overtakes

section Compare

variable {α β : Type} [Ord α] [Std.TransOrd α] [Std.LawfulEqOrd α]

theorem orders_sign (S : β → Prop) (key : β → α) (hkey : Function.Injective key) :
    Orders S fun a b => sign (compare (key a) (key b)) where
  zero a b _ _ := by
    rw [show (0 : Int) = sign .eq from rfl, sign_inj, Std.LawfulEqOrd.compare_eq_iff_eq]
    exact hkey.eq_iff
  antisymm a b _ _ := by
    rw [← sign_swap]
    exact congrArg sign Std.OrientedOrd.eq_swap
  trans a b c _ _ _ h1 h2 := by
    rw [sign_nonpos] at h1 h2 ⊢
    exact Std.TransOrd.isLE_trans h1 h2

/-- With a mark `z` at their ends two lists compare as without it, unless one goes on before the mark. -/
theorem compare_marked_iff (z : α) (s t : List α) (hs : z ∉ s) (ht : z ∉ t) :
    compare (s ++ [z]) (t ++ [z]) = compare s t ↔
      ¬ Overtakes (fun c => compare c z = .lt) s t ∧ ¬ Overtakes (fun c => compare c z = .lt) t s := by
  induction s generalizing t with
  | nil =>
    cases t with
    | nil => simp [overtakes_nil, Std.ReflOrd.compare_self]
    | cons d t =>
      have hne : compare d z ≠ .eq := fun heq =>
        ht (List.mem_cons.mpr (.inl (Std.LawfulEqOrd.eq_of_compare heq).symm))
      rw [nil_overtakes, List.nil_append, List.cons_append, List.compare_cons_cons, List.compare_nil_cons,
        Std.OrientedOrd.eq_swap (a := z)]
      simp only [overtakes_nil, not_false_eq_true, and_true]
      cases h : compare d z <;> simp_all [Ordering.swap, Ordering.then]
  | cons c s ih =>
    cases t with
    | nil =>
      have hne : compare c z ≠ .eq := fun heq =>
        hs (List.mem_cons.mpr (.inl (Std.LawfulEqOrd.eq_of_compare heq).symm))
      rw [nil_overtakes, List.nil_append, List.cons_append, List.compare_cons_cons, List.compare_cons_nil]
      simp only [overtakes_nil, not_false_eq_true, true_and]
      cases h : compare c z <;> simp_all [Ordering.then]
    | cons d t =>
      rw [List.mem_cons, not_or] at hs ht
      rw [List.cons_append, List.cons_append, List.compare_cons_cons, List.compare_cons_cons, overtakes_cons,
        overtakes_cons]
      cases h : compare c d with
      | eq =>
        have heq : c = d := Std.LawfulEqOrd.eq_of_compare h
        simp only [heq, true_and]
        exact ih t hs.2 ht.2
      | lt | gt =>
        have hne : c ≠ d := fun heq => by simp [heq, Std.ReflOrd.compare_self] at h
        simp [hne, hne.symm]

end Compare

end OsLearn.CString
