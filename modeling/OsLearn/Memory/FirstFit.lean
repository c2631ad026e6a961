import OsLearn.Memory.Scan

/-!
# First fit

`bitmap_scan` again, now in the words of the machine and with the bytes it reads. Up to 2^31 bits it is
the scan of `Bitmap.lean`.
-/

namespace OsLearn

/-- A value, and the bytes of the bitmap that were read for it. -/
structure Reading (α : Type) where
  value : α
  reads : List Nat

def skip_full_words (btmp : Bitmap) : Nat → UInt32 → Reading UInt32
  -- The byte is read before the index is compared with the length.
  | 0, idx_byte => ⟨idx_byte, [idx_byte.toNat]⟩
  | left + 1, idx_byte =>
    if btmp.bits idx_byte.toNat = 0xff then
      let rest := skip_full_words btmp left (idx_byte + 1)
      ⟨rest.value, idx_byte.toNat :: rest.reads⟩
    else ⟨idx_byte, [idx_byte.toNat]⟩

def scan_run_words (btmp : Bitmap) (cnt : UInt32) : Nat → UInt32 → UInt32 → Reading Int32
  | 0, _, _ => ⟨-1, []⟩
  | bit_left + 1, next_bit, count =>
    let count := if bitmap_scan_test btmp next_bit.toNat = false then count + 1 else 0
    if cnt = count then ⟨(next_bit - cnt + 1).toInt32, [next_bit.toNat / 8]⟩
    else
      let rest := scan_run_words btmp cnt bit_left (next_bit + 1) count
      ⟨rest.value, next_bit.toNat / 8 :: rest.reads⟩

def bitmap_scan_words (ndebug : Bool) (btmp : Bitmap) (cnt : UInt32) : Reading (Except Stop Int32) :=
  let len := UInt32.ofNat btmp.btmp_bytes_len
  let skip := skip_full_words btmp len.toNat 0
  let idx_byte := skip.value
  match ASSERT_in ndebug (idx_byte < len) .bitmap_scan_idx_byte with
  | .error e => ⟨.error e, skip.reads⟩
  | .ok _ =>
    if idx_byte = len then ⟨.ok (-1), skip.reads⟩
    else
      let idx_bit := clear_bit (btmp.bits idx_byte.toNat) 8 0
      let bit_idx_start := idx_byte * 8 + UInt32.ofNat idx_bit
      let reads := skip.reads ++ [idx_byte.toNat]
      if cnt = 1 then ⟨.ok bit_idx_start.toInt32, reads⟩
      else
        let run := scan_run_words btmp cnt (len * 8 - bit_idx_start).toNat (bit_idx_start + 1) 1
        ⟨.ok run.value, reads ++ run.reads⟩

/-! ## The loops in words -/

theorem skip_full_words_spec (btmp : Bitmap) (left : Nat) (idx : UInt32) (h : idx.toNat + left < 2 ^ 32) :
    (skip_full_words btmp left idx).value.toNat = skip_full btmp left idx.toNat ∧
      ∀ i ∈ (skip_full_words btmp left idx).reads, i ≤ skip_full btmp left idx.toNat := by
  induction left generalizing idx with
  | zero =>
    unfold skip_full_words skip_full
    exact ⟨rfl, by simp⟩
  | succ left ih =>
    have hsucc : (idx + 1).toNat = idx.toNat + 1 := toNat_add_small idx 1 (by omega)
    obtain ⟨hvalue, hreads⟩ := ih (idx + 1) (by omega)
    rw [hsucc] at hvalue hreads
    unfold skip_full_words skip_full
    split
    · obtain ⟨hge, -, -⟩ := skip_full_spec btmp left (idx.toNat + 1)
      refine ⟨hvalue, fun i hi => ?_⟩
      rcases List.mem_cons.mp hi with rfl | hrest
      · omega
      · exact hreads i hrest
    · exact ⟨rfl, by simp⟩

theorem found_words (next cnt : UInt32) (hle : cnt.toNat ≤ next.toNat + 1) :
    (next - cnt + 1).toInt32 = Int32.ofNat (next.toNat + 1 - cnt.toNat) := by
  have heq : next - cnt + 1 = UInt32.ofNat (next.toNat + 1 - cnt.toNat) := by
    apply UInt32.toNat_inj.mp
    have := cnt.toNat_lt
    rw [UInt32.toNat_add, UInt32.toNat_sub, UInt32.toNat_ofNat']
    change _ = (_ - _) % 4294967296
    change ((4294967296 - cnt.toNat + next.toNat) % 4294967296 + 1) % 4294967296 = _
    omega
  rw [heq, UInt32.toInt32_ofNat']

/-- The last loop in words ends as it does in numbers, and reads no bit behind the run it finds. -/
def SameRun (cnt : UInt32) (next : Nat) (run : Option Nat) (words : Reading Int32) : Prop :=
  match run with
  | some s => next < s + cnt.toNat ∧ words.value = Int32.ofNat s ∧ ∀ i ∈ words.reads, 8 * i < s + cnt.toNat
  | none => words.value = -1

theorem SameRun.later (cnt : UInt32) (next : Nat) (run : Option Nat) (words : Reading Int32)
    (h : SameRun cnt (next + 1) run words) : SameRun cnt next run ⟨words.value, next / 8 :: words.reads⟩ := by
  unfold SameRun at h ⊢
  cases run with
  | none => exact h
  | some s =>
    obtain ⟨hnext, hvalue, hreads⟩ := h
    refine ⟨by omega, hvalue, fun i hi => ?_⟩
    rcases List.mem_cons.mp hi with rfl | hrest
    · omega
    · exact hreads i hrest

theorem scan_run_words_spec (btmp : Bitmap) (cnt : UInt32) (left : Nat) (next count : UInt32)
    (hend : next.toNat + left < 2 ^ 32) (hle : count.toNat ≤ next.toNat) :
    SameRun cnt next.toNat (scan_run btmp cnt.toNat left next.toNat count.toNat)
      (scan_run_words btmp cnt left next count) := by
  induction left generalizing next count with
  | zero =>
    unfold scan_run scan_run_words
    rfl
  | succ left ih =>
    have hnext : (next + 1).toNat = next.toNat + 1 := toNat_add_small next 1 (by omega)
    -- one bit, whatever the count is after it
    have hstep : ∀ c : UInt32, c.toNat ≤ next.toNat + 1 → SameRun cnt next.toNat
        (if cnt.toNat = c.toNat then some (next.toNat + 1 - cnt.toNat)
          else scan_run btmp cnt.toNat left (next.toNat + 1) c.toNat)
        (if cnt = c then ⟨(next - cnt + 1).toInt32, [next.toNat / 8]⟩
          else ⟨(scan_run_words btmp cnt left (next + 1) c).value,
            next.toNat / 8 :: (scan_run_words btmp cnt left (next + 1) c).reads⟩) := by
      intro c hc
      by_cases hfound : cnt = c
      · rw [if_pos hfound, if_pos (congrArg UInt32.toNat hfound)]
        rw [← hfound] at hc
        refine ⟨by omega, found_words next cnt hc, fun i hi => ?_⟩
        rw [List.mem_singleton.mp hi]
        omega
      · rw [if_neg hfound, if_neg (fun h => hfound (UInt32.toNat_inj.mp h))]
        apply SameRun.later
        rw [← hnext]
        exact ih (next + 1) c (by omega) (by omega)
    have hcount : (count + 1).toNat = count.toNat + 1 := toNat_add_small count 1 (by omega)
    unfold scan_run scan_run_words
    dsimp only
    split
    · rw [← hcount]
      exact hstep (count + 1) (by omega)
    · exact hstep 0 (Nat.zero_le _)

/-! ## The scan in words -/

theorem ofNat_toNat_lt (n : Nat) (h : n < 2 ^ 32) : (UInt32.ofNat n).toNat = n := UInt32.toNat_ofNat_of_lt' h

section

variable (ndebug : Bool) (btmp : Bitmap) (cnt : UInt32) (hlen : 8 * btmp.btmp_bytes_len < 2 ^ 31)
  (hclear : skip_full btmp btmp.btmp_bytes_len 0 ≠ btmp.btmp_bytes_len)

include hlen hclear

theorem bitmap_scan_words_eq :
    ∃ reads, (∀ i ∈ reads, 8 * i ≤ first_clear btmp) ∧
      bitmap_scan_words ndebug btmp cnt = if cnt = 1 then ⟨.ok (Int32.ofNat (first_clear btmp)), reads⟩
        else
          let run := scan_run_words btmp cnt (btmp.btmp_bytes_len * 8 - first_clear btmp)
            (UInt32.ofNat (first_clear btmp + 1)) 1
          ⟨.ok run.value, reads ++ run.reads⟩ := by
  obtain ⟨hlt, -, -⟩ := first_clear_spec btmp hclear
  obtain ⟨-, hle, -⟩ := skip_full_spec btmp btmp.btmp_bytes_len 0
  have hl := ofNat_toNat_lt btmp.btmp_bytes_len (by omega)
  obtain ⟨hvalue, hreads⟩ := skip_full_words_spec btmp btmp.btmp_bytes_len 0 (by
    change 0 + _ < _
    omega)
  change _ = skip_full btmp btmp.btmp_bytes_len 0 at hvalue
  change ∀ i ∈ _, i ≤ skip_full btmp btmp.btmp_bytes_len 0 at hreads
  unfold Bitmap.bitLen at hlt
  unfold bitmap_scan_words first_clear
  unfold first_clear at hlt
  dsimp only at hlt ⊢
  rw [hl]
  generalize skip_full_words btmp btmp.btmp_bytes_len 0 = skip at *
  generalize skip_full btmp btmp.btmp_bytes_len 0 = idx at *
  have hassert : skip.value < UInt32.ofNat btmp.btmp_bytes_len := by
    rw [UInt32.lt_iff_toNat_lt, hl]
    omega
  have hne : skip.value ≠ UInt32.ofNat btmp.btmp_bytes_len := by
    intro h
    rw [h, hl] at hvalue
    omega
  refine ⟨skip.reads ++ [skip.value.toNat], fun i hi => ?_, ?_⟩
  · rcases List.mem_append.mp hi with hskip | hlast
    · have := hreads i hskip
      omega
    · rw [List.mem_singleton.mp hlast, hvalue]
      omega
  · rw [ASSERT_in_of _ _ _ hassert]
    dsimp only
    rw [if_neg hne, hvalue]
    generalize clear_bit (btmp.bits idx) 8 0 = k at *
    have hstart : skip.value * 8 + UInt32.ofNat k = UInt32.ofNat (idx * 8 + k) := by
      rw [UInt32.ofNat_add, UInt32.ofNat_mul, ← hvalue, UInt32.ofNat_toNat]
      rfl
    have hleft : (UInt32.ofNat btmp.btmp_bytes_len * 8 - UInt32.ofNat (idx * 8 + k)).toNat =
        btmp.btmp_bytes_len * 8 - (idx * 8 + k) := by
      rw [UInt32.toNat_sub, UInt32.toNat_mul, hl, ofNat_toNat_lt _ (by omega)]
      change (4294967296 - _ + btmp.btmp_bytes_len * 8 % 4294967296) % 4294967296 = _
      omega
    rw [hstart, hleft, UInt32.toInt32_ofNat', UInt32.ofNat_add (idx * 8 + k) 1]
    rfl

/-- The scan in words finds what the scan in numbers finds, and reads no bit behind it. -/
theorem bitmap_scan_words_spec (s : Nat) (hs : bitmap_scan ndebug btmp cnt.toNat = .ok (some s)) :
    (bitmap_scan_words ndebug btmp cnt).value = .ok (Int32.ofNat s) ∧
      ∀ i ∈ (bitmap_scan_words ndebug btmp cnt).reads, 8 * i < s + cnt.toNat := by
  obtain ⟨hlt, -, -⟩ := first_clear_spec btmp hclear
  obtain ⟨reads, hreads, hwords⟩ := bitmap_scan_words_eq ndebug btmp cnt hlen hclear
  unfold Bitmap.bitLen at hlt
  rw [bitmap_scan_eq ndebug btmp _ hclear] at hs
  have hiff : cnt = 1 ↔ cnt.toNat = 1 := UInt32.toNat_inj.symm
  rw [hwords]
  by_cases hone : cnt.toNat = 1
  · rw [if_pos (hiff.mpr hone)]
    rw [if_pos hone] at hs
    obtain rfl : first_clear btmp = s := by simpa using hs
    refine ⟨rfl, fun i hi => ?_⟩
    have := hreads i hi
    omega
  · rw [if_neg (fun h => hone (hiff.mp h))]
    rw [if_neg hone] at hs
    have hnext := ofNat_toNat_lt (first_clear btmp + 1) (by omega)
    have hrun := scan_run_words_spec btmp cnt (btmp.btmp_bytes_len * 8 - first_clear btmp)
      (UInt32.ofNat (first_clear btmp + 1)) 1 (by omega) (by rw [hnext]; exact Nat.le_add_left 1 _)
    have hcount : (1 : UInt32).toNat = 1 := rfl
    rw [hnext, hcount, Except.ok.inj hs] at hrun
    obtain ⟨hend, hvalue, hrest⟩ := hrun
    refine ⟨congrArg Except.ok hvalue, fun i hi => ?_⟩
    rcases List.mem_append.mp hi with hfirst | hlast
    · have := hreads i hfirst
      omega
    · exact hrest i hlast

end

/-- **First fit.** A run of clear bits inside the bitmap is found: the scan passes its ASSERT, gives the
first run, and reads the bytes of the bitmap only. -/
theorem first_fit (ndebug : Bool) (btmp : Bitmap) (cnt : UInt32) (hlen : 8 * btmp.btmp_bytes_len < 2 ^ 31)
    (hcnt : 1 ≤ cnt.toNat) (hrun : btmp.HasRun cnt.toNat) :
    ∃ s : Nat, (bitmap_scan_words ndebug btmp cnt).value = .ok (Int32.ofNat s) ∧ (Int32.ofNat s).toInt = s ∧
      (s + cnt.toNat ≤ btmp.bitLen ∧ btmp.FreeRun cnt.toNat s) ∧
      (∀ s' < s, ¬ btmp.FreeRun cnt.toNat s') ∧
      ∀ i ∈ (bitmap_scan_words ndebug btmp cnt).reads, i < btmp.btmp_bytes_len := by
  have hfull : ¬ btmp.Full := by
    intro hfull
    obtain ⟨s, hin, hclear⟩ := hrun
    have := hclear 0 hcnt
    rw [hfull _ (by omega)] at this
    cases this
  have hno : ¬ btmp.EndRun cnt.toNat := fun hend => hend.2.2.2 hrun
  rcases bitmap_scan_first ndebug btmp cnt.toNat hcnt hfull with ⟨s, hs, -⟩ | ⟨hs, -⟩
  · obtain ⟨hin, hfree, hleast⟩ := bitmap_scan_inside ndebug btmp cnt.toNat s hcnt hno hs
    obtain ⟨hvalue, hreads⟩ :=
      bitmap_scan_words_spec ndebug btmp cnt hlen (fun h => hfull ((skip_full_eq_iff btmp).mp h)) s hs
    have hbits : btmp.bitLen = 8 * btmp.btmp_bytes_len := rfl
    refine ⟨s, hvalue, Int32.toInt_ofNat_of_lt (by omega), ⟨hin, hfree⟩, fun s' hlt hrun' => ?_, fun i hi => ?_⟩
    · have := hleast s' hrun'
      omega
    · have := hreads i hi
      omega
  · exact absurd hrun (bitmap_scan_none ndebug btmp cnt.toNat hcnt hs)

theorem first_fit_two : ∃ s : Nat, (bitmap_scan_words false ⟨2, fun i => if i = 0 then 0x7f else 0xf3⟩ 2).value =
      .ok (Int32.ofNat s) ∧ (Int32.ofNat s).toInt = s ∧
    (s + 2 ≤ 16 ∧ Bitmap.FreeRun ⟨2, fun i => if i = 0 then 0x7f else 0xf3⟩ 2 s) ∧
    (∀ s' < s, ¬ Bitmap.FreeRun ⟨2, fun i => if i = 0 then 0x7f else 0xf3⟩ 2 s') ∧
    ∀ i ∈ (bitmap_scan_words false ⟨2, fun i => if i = 0 then 0x7f else 0xf3⟩ 2).reads, i < 2 :=
  first_fit false ⟨2, fun i => if i = 0 then 0x7f else 0xf3⟩ 2 (by decide) (by decide)
    ⟨10, by decide, by unfold Bitmap.FreeRun; decide⟩

end OsLearn
