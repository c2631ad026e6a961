import OsLearn.Memory.Isolation

/-!
# What `bitmap_scan` finds

The scan finds the first run of clear bits. Its last loop tests one bit too many, the one behind the
bitmap.
-/

namespace OsLearn

namespace Bitmap

variable (btmp : Bitmap)

def bitLen : Nat := 8 * btmp.btmp_bytes_len

def Full : Prop := ∀ i < btmp.bitLen, bitmap_scan_test btmp i = true

def FreeRun (cnt s : Nat) : Prop := ∀ k < cnt, bitmap_scan_test btmp (s + k) = false

def HasRun (cnt : Nat) : Prop := ∃ s, s + cnt ≤ btmp.bitLen ∧ btmp.FreeRun cnt s

/-- The last `cnt - 1` bits are clear, and no `cnt` bits in a row are. -/
def EndRun (cnt : Nat) : Prop :=
  2 ≤ cnt ∧ cnt ≤ btmp.bitLen + 1 ∧ btmp.FreeRun (cnt - 1) (btmp.bitLen + 1 - cnt) ∧ ¬ btmp.HasRun cnt

end Bitmap

/-! ## The first clear bit -/

theorem skip_full_before (btmp : Bitmap) (left idx j : Nat) (h1 : idx ≤ j) (h2 : j < skip_full btmp left idx) :
    btmp.bits j = 0xff := by
  induction left generalizing idx with
  | zero =>
    unfold skip_full at h2
    omega
  | succ left ih =>
    unfold skip_full at h2
    split at h2
    · rename_i hfull
      by_cases hj : j = idx
      · rw [hj]
        exact hfull
      · exact ih (idx + 1) (by omega) h2
    · omega

theorem clear_bit_before (byte : UInt8) (j : Nat) (hj : j < clear_bit byte 8 0) : byte.toNat.testBit j = true := by
  have hlt : clear_bit byte 8 0 ≤ 8 := by
    have : ∀ b : Fin 256, clear_bit (UInt8.ofNat b.val) 8 0 ≤ 8 := by decide +kernel
    simpa using this ⟨byte.toNat, byte.toNat_lt⟩
  have hset : ∀ (b : Fin 256) (k : Fin 8), k.val < clear_bit (UInt8.ofNat b.val) 8 0 →
      (UInt8.ofNat b.val).toNat.testBit k.val = true := by decide +kernel
  have h := hset ⟨byte.toNat, byte.toNat_lt⟩ ⟨j, by omega⟩
  simp only [UInt8.ofNat_toNat] at h
  exact h hj

theorem full_byte_test (btmp : Bitmap) (i : Nat) (h : btmp.bits (i / 8) = 0xff) : bitmap_scan_test btmp i = true := by
  have hall : ∀ k : Fin 8, Nat.testBit 255 k.val = true := by decide
  rw [bitmap_scan_test_eq, h]
  exact hall ⟨i % 8, Nat.mod_lt _ (by omega)⟩

def first_clear (btmp : Bitmap) : Nat :=
  let idx_byte := skip_full btmp btmp.btmp_bytes_len 0
  idx_byte * 8 + clear_bit (btmp.bits idx_byte) 8 0

theorem first_clear_spec (btmp : Bitmap) (h : skip_full btmp btmp.btmp_bytes_len 0 ≠ btmp.btmp_bytes_len) :
    first_clear btmp < btmp.bitLen ∧ bitmap_scan_test btmp (first_clear btmp) = false ∧
      ∀ i < first_clear btmp, bitmap_scan_test btmp i = true := by
  obtain ⟨-, hle, hbyte⟩ := skip_full_spec btmp btmp.btmp_bytes_len 0
  have hbefore := skip_full_before btmp btmp.btmp_bytes_len 0
  unfold first_clear Bitmap.bitLen
  dsimp only
  generalize skip_full btmp btmp.btmp_bytes_len 0 = idx at *
  obtain ⟨hlt, hclear⟩ := clear_bit_spec _ (hbyte (by omega))
  have hset := clear_bit_before (btmp.bits idx)
  generalize clear_bit (btmp.bits idx) 8 0 = k at *
  refine ⟨by omega, ?_, fun i hi => ?_⟩
  · rw [bitmap_scan_test_eq, show (idx * 8 + k) / 8 = idx from by omega, show (idx * 8 + k) % 8 = k from by omega]
    exact hclear
  · by_cases hidx : i / 8 = idx
    · rw [bitmap_scan_test_eq, hidx]
      exact hset _ (by omega)
    · exact full_byte_test btmp i (hbefore _ (by omega) (by omega))

theorem skip_full_eq_iff (btmp : Bitmap) : skip_full btmp btmp.btmp_bytes_len 0 = btmp.btmp_bytes_len ↔ btmp.Full := by
  constructor
  · intro heq i hi
    unfold Bitmap.bitLen at hi
    exact full_byte_test btmp i (skip_full_before btmp btmp.btmp_bytes_len 0 _ (by omega) (by omega))
  · intro hfull
    by_contra hne
    obtain ⟨hlt, hclear, -⟩ := first_clear_spec btmp hne
    rw [hfull _ hlt] at hclear
    cases hclear

/-! ## The run -/

/-- What the last loop knows at `next_bit`: the clear bits right before it number `count`, and no run
of `cnt` ends before it. -/
structure AtBit (btmp : Bitmap) (cnt next_bit count : Nat) : Prop where
  lt : count < cnt
  le : count ≤ next_bit
  clear : ∀ j, next_bit - count ≤ j → j < next_bit → bitmap_scan_test btmp j = false
  most : ∀ s ≤ next_bit, (∀ j, s ≤ j → j < next_bit → bitmap_scan_test btmp j = false) → next_bit - count ≤ s
  none : ∀ s, btmp.FreeRun cnt s → next_bit < s + cnt

theorem AtBit.clear_step (btmp : Bitmap) (cnt next count : Nat) (h : AtBit btmp cnt next count)
    (ht : bitmap_scan_test btmp next = false) (hne : cnt ≠ count + 1) : AtBit btmp cnt (next + 1) (count + 1) := by
  have hlt := h.lt
  have hle := h.le
  refine ⟨by omega, by omega, fun j h1 h2 => ?_, fun s hs hclear => ?_, fun s hs => ?_⟩
  · by_cases hj : j = next
    · rw [hj]
      exact ht
    · exact h.clear j (by omega) (by omega)
  · by_cases hsn : s ≤ next
    · have := h.most s hsn fun j h1 h2 => hclear j h1 (by omega)
      omega
    · omega
  · have hend := h.none s hs
    by_contra hge
    have := h.most s (by omega) fun j h1 h2 => by
      have := hs (j - s) (by omega)
      rwa [show s + (j - s) = j from by omega] at this
    omega

theorem AtBit.set_step (btmp : Bitmap) (cnt next count : Nat) (h : AtBit btmp cnt next count)
    (ht : bitmap_scan_test btmp next = true) : AtBit btmp cnt (next + 1) 0 := by
  have hlt := h.lt
  refine ⟨by omega, by omega, fun j h1 h2 => by omega, fun s hs hclear => ?_, fun s hs => ?_⟩
  · by_contra hlt'
    have := hclear next (by omega) (by omega)
    rw [ht] at this
    cases this
  · have hend := h.none s hs
    by_contra hge
    have := hs (next - s) (by omega)
    rw [show s + (next - s) = next from by omega, ht] at this
    cases this

theorem scan_run_first (btmp : Bitmap) (cnt left next count : Nat) (h : AtBit btmp cnt next count) :
    match scan_run btmp cnt left next count with
    | some s => btmp.FreeRun cnt s ∧ s + cnt ≤ next + left ∧ ∀ s', btmp.FreeRun cnt s' → s ≤ s'
    | none => ∀ s, btmp.FreeRun cnt s → next + left < s + cnt := by
  induction left generalizing next count with
  | zero =>
    unfold scan_run
    exact h.none
  | succ left ih =>
    unfold scan_run
    dsimp only
    have hlt := h.lt
    have hle := h.le
    cases ht : bitmap_scan_test btmp next with
    | false =>
      rw [if_pos rfl]
      by_cases hfound : cnt = count + 1
      · rw [if_pos hfound]
        refine ⟨fun k hk => ?_, by omega, fun s' hs' => ?_⟩
        · by_cases hlast : k = count
          · rw [show next + 1 - cnt + k = next from by omega]
            exact ht
          · exact h.clear _ (by omega) (by omega)
        · have := h.none s' hs'
          omega
      · rw [if_neg hfound]
        have := ih (next + 1) (count + 1) (h.clear_step btmp cnt next count ht hfound)
        rwa [show next + 1 + left = next + (left + 1) from by omega] at this
    | true =>
      have hreset : (if true = false then count + 1 else 0) = 0 := if_neg (by simp)
      rw [hreset, if_neg (by omega)]
      have := ih (next + 1) 0 (h.set_step btmp cnt next count ht)
      rwa [show next + 1 + left = next + (left + 1) from by omega] at this

theorem AtBit.first (btmp : Bitmap) (cnt : Nat) (hcnt : 2 ≤ cnt)
    (h : skip_full btmp btmp.btmp_bytes_len 0 ≠ btmp.btmp_bytes_len) : AtBit btmp cnt (first_clear btmp + 1) 1 := by
  obtain ⟨-, hclear, hset⟩ := first_clear_spec btmp h
  generalize first_clear btmp = b at *
  have hge : ∀ j, bitmap_scan_test btmp j = false → b ≤ j := by
    intro j hj
    by_contra hlt
    rw [hset j (by omega)] at hj
    cases hj
  refine ⟨by omega, by omega, fun j h1 h2 => ?_, fun s hs hall => ?_, fun s hs => ?_⟩
  · rw [show j = b from by omega]
    exact hclear
  · by_cases hsb : s ≤ b
    · have := hge s (hall s (by omega) (by omega))
      omega
    · omega
  · have := hge (s + 0) (hs 0 (by omega))
    omega

/-- How far the last bit of a run can be: one bit behind the bitmap, if the run has two bits or more. -/
def Bitmap.limit (btmp : Bitmap) (cnt : Nat) : Nat := if cnt = 1 then btmp.bitLen else btmp.bitLen + 1

theorem bitmap_scan_eq (ndebug : Bool) (btmp : Bitmap) (cnt : Nat)
    (h : skip_full btmp btmp.btmp_bytes_len 0 ≠ btmp.btmp_bytes_len) :
    bitmap_scan ndebug btmp cnt = if cnt = 1 then .ok (some (first_clear btmp))
      else .ok (scan_run btmp cnt (btmp.btmp_bytes_len * 8 - first_clear btmp) (first_clear btmp + 1) 1) := by
  obtain ⟨-, hle, -⟩ := skip_full_spec btmp btmp.btmp_bytes_len 0
  unfold bitmap_scan
  dsimp only
  rw [ASSERT_in_of _ _ _ (show skip_full btmp btmp.btmp_bytes_len 0 < btmp.btmp_bytes_len by omega)]
  show (if _ then _ else _) = _
  rw [if_neg h]
  rfl

theorem bitmap_scan_first (ndebug : Bool) (btmp : Bitmap) (cnt : Nat) (hcnt : 0 < cnt) (h : ¬ btmp.Full) :
    (∃ s, bitmap_scan ndebug btmp cnt = .ok (some s) ∧ btmp.FreeRun cnt s ∧ s + cnt ≤ btmp.limit cnt ∧
      ∀ s', btmp.FreeRun cnt s' → s ≤ s') ∨
    bitmap_scan ndebug btmp cnt = .ok none ∧ ∀ s, btmp.FreeRun cnt s → btmp.limit cnt < s + cnt := by
  rw [← skip_full_eq_iff] at h
  obtain ⟨hlt, hclear, hset⟩ := first_clear_spec btmp h
  rw [bitmap_scan_eq ndebug btmp cnt h]
  unfold Bitmap.limit
  by_cases hone : cnt = 1
  · rw [if_pos hone, if_pos hone]
    subst hone
    refine .inl ⟨_, rfl, fun k hk => ?_, hlt, fun s' hs' => ?_⟩
    · rw [show k = 0 from by omega]
      exact hclear
    · by_contra hlt'
      have := hs' 0 (by omega)
      rw [hset _ (by omega)] at this
      cases this
  · rw [if_neg hone, if_neg hone]
    have hend : first_clear btmp + 1 + (btmp.btmp_bytes_len * 8 - first_clear btmp) = btmp.bitLen + 1 := by
      unfold Bitmap.bitLen at hlt ⊢
      omega
    have hrun := scan_run_first btmp cnt (btmp.btmp_bytes_len * 8 - first_clear btmp) _ 1
      (AtBit.first btmp cnt (by omega) h)
    rw [hend] at hrun
    split at hrun
    · rename_i s hs
      rw [hs]
      exact .inl ⟨s, rfl, hrun⟩
    · rename_i hs
      rw [hs]
      exact .inr ⟨rfl, hrun⟩

theorem bitmap_scan_full (ndebug : Bool) (btmp : Bitmap) (cnt : Nat) (h : btmp.Full) :
    bitmap_scan ndebug btmp cnt = if ndebug then .ok none else .error (.panic .bitmap_scan_idx_byte) := by
  rw [← skip_full_eq_iff] at h
  unfold bitmap_scan ASSERT_in ASSERT
  dsimp only
  rw [h, if_neg (Nat.lt_irrefl _)]
  cases ndebug with
  | true =>
    show (if _ then _ else _) = _
    rw [if_pos rfl]
    rfl
  | false => rfl

/-- What a scan finds comes before every other run. -/
theorem bitmap_scan_least (ndebug : Bool) (btmp : Bitmap) (cnt s : Nat) (hcnt : 0 < cnt)
    (hs : bitmap_scan ndebug btmp cnt = .ok (some s)) : ∀ s', btmp.FreeRun cnt s' → s ≤ s' := by
  by_cases hfull : btmp.Full
  · rw [bitmap_scan_full ndebug btmp cnt hfull] at hs
    cases ndebug <;> simp at hs
  · rcases bitmap_scan_first ndebug btmp cnt hcnt hfull with ⟨s₁, heq, -, -, hleast⟩ | ⟨heq, -⟩
    · rw [hs] at heq
      obtain rfl : s = s₁ := by simpa using heq
      exact hleast
    · rw [hs] at heq
      simp at heq

/-! ## Inside the bitmap -/

/-- The same bitmap, with other memory behind it. -/
def SameInside (btmp btmp' : Bitmap) : Prop :=
  btmp'.btmp_bytes_len = btmp.btmp_bytes_len ∧ ∀ i < btmp.btmp_bytes_len, btmp'.bits i = btmp.bits i

/-- The scan, and the loop of `vaddr_get` after it, stay inside the bitmap. -/
structure ScanInside (btmp : Bitmap) (cnt : Nat) : Prop where
  found : ∀ ndebug s, bitmap_scan ndebug btmp cnt = .ok (some s) → s + cnt ≤ btmp.bitLen ∧ btmp.FreeRun cnt s
  marked : ∀ ndebug s, bitmap_scan ndebug btmp cnt = .ok (some s) →
    ∀ i, btmp.btmp_bytes_len ≤ i → (set_run btmp s cnt).bits i = btmp.bits i
  unread : ∀ ndebug btmp', SameInside btmp btmp' → bitmap_scan ndebug btmp' cnt = bitmap_scan ndebug btmp cnt

section

variable (btmp btmp' : Bitmap) (h : SameInside btmp btmp')

include h

theorem SameInside.bitLen : btmp'.bitLen = btmp.bitLen := by
  unfold Bitmap.bitLen
  rw [h.1]

theorem SameInside.test (i : Nat) (hi : i < btmp.bitLen) : bitmap_scan_test btmp' i = bitmap_scan_test btmp i := by
  unfold Bitmap.bitLen at hi
  unfold bitmap_scan_test
  rw [h.2 (i / 8) (by omega)]

theorem SameInside.full : btmp'.Full ↔ btmp.Full := by
  unfold Bitmap.Full
  rw [h.bitLen]
  exact forall₂_congr fun i hi => by rw [h.test btmp btmp' i hi]

theorem SameInside.freeRun (cnt s : Nat) (hs : s + cnt ≤ btmp.bitLen) : btmp'.FreeRun cnt s ↔ btmp.FreeRun cnt s := by
  unfold Bitmap.FreeRun
  exact forall₂_congr fun k hk => by rw [h.test btmp btmp' _ (by omega)]

theorem SameInside.hasRun (cnt : Nat) : btmp'.HasRun cnt ↔ btmp.HasRun cnt := by
  unfold Bitmap.HasRun
  rw [h.bitLen]
  exact exists_congr fun s => and_congr_right fun hs => h.freeRun btmp btmp' cnt s hs

theorem SameInside.endRun (cnt : Nat) : btmp'.EndRun cnt ↔ btmp.EndRun cnt := by
  unfold Bitmap.EndRun
  rw [h.bitLen, h.hasRun btmp btmp']
  refine and_congr_right fun h2 => and_congr_right fun hle => ?_
  rw [h.freeRun btmp btmp' _ _ (by omega)]

end

theorem SameInside.symm (btmp btmp' : Bitmap) (h : SameInside btmp btmp') : SameInside btmp' btmp :=
  ⟨h.1.symm, fun i hi => (h.2 i (h.1 ▸ hi)).symm⟩

/-- Without a run at the end that lacks one bit, the scan finds the first run inside. -/
theorem bitmap_scan_inside (ndebug : Bool) (btmp : Bitmap) (cnt s : Nat) (hcnt : 0 < cnt) (h : ¬ btmp.EndRun cnt)
    (hs : bitmap_scan ndebug btmp cnt = .ok (some s)) :
    s + cnt ≤ btmp.bitLen ∧ btmp.FreeRun cnt s ∧ ∀ s', btmp.FreeRun cnt s' → s ≤ s' := by
  have hrun := (spec_of_ok _ _ _ (bitmap_scan_spec ndebug btmp cnt) _ hs).1 s rfl
  have hleast := bitmap_scan_least ndebug btmp cnt s hcnt hs
  have hlast := hrun.inside
  have hone := hrun.one
  refine ⟨?_, hrun.clear, hleast⟩
  by_contra hout
  unfold Bitmap.bitLen at hout
  refine h ⟨by omega, by unfold Bitmap.bitLen; omega, fun k hk => ?_, ?_⟩
  · rw [show btmp.bitLen + 1 - cnt = s from by unfold Bitmap.bitLen; omega]
    exact hrun.clear k (by omega)
  · rintro ⟨s', hin, hrun'⟩
    have := hleast s' hrun'
    unfold Bitmap.bitLen at hin
    omega

theorem bitmap_scan_none (ndebug : Bool) (btmp : Bitmap) (cnt : Nat) (hcnt : 0 < cnt)
    (hs : bitmap_scan ndebug btmp cnt = .ok none) : ¬ btmp.HasRun cnt := by
  rintro ⟨s, hin, hrun⟩
  by_cases hfull : btmp.Full
  · have := hrun 0 hcnt
    rw [hfull _ (by omega)] at this
    cases this
  · rcases bitmap_scan_first ndebug btmp cnt hcnt hfull with ⟨s₁, heq, -⟩ | ⟨-, hall⟩
    · rw [hs] at heq
      simp at heq
    · have := hall s hrun
      unfold Bitmap.limit at this
      split at this <;> omega

theorem bitmap_scan_unread (ndebug : Bool) (btmp btmp' : Bitmap) (cnt : Nat) (hcnt : 0 < cnt) (h : ¬ btmp.EndRun cnt)
    (hsame : SameInside btmp btmp') : bitmap_scan ndebug btmp' cnt = bitmap_scan ndebug btmp cnt := by
  by_cases hfull : btmp.Full
  · rw [bitmap_scan_full _ _ _ hfull, bitmap_scan_full _ _ _ ((hsame.full btmp btmp').mpr hfull)]
  · have h' : ¬ btmp'.EndRun cnt := fun he => h ((hsame.endRun btmp btmp' cnt).mp he)
    have hfull' : ¬ btmp'.Full := fun hf => hfull ((hsame.full btmp btmp').mp hf)
    rcases bitmap_scan_first ndebug btmp cnt hcnt hfull with ⟨s, hs, -⟩ | ⟨hs, -⟩ <;>
      rcases bitmap_scan_first ndebug btmp' cnt hcnt hfull' with ⟨s', hs', -⟩ | ⟨hs', -⟩
    · obtain ⟨hin, hrun, hleast⟩ := bitmap_scan_inside ndebug btmp cnt s hcnt h hs
      obtain ⟨hin', hrun', hleast'⟩ := bitmap_scan_inside ndebug btmp' cnt s' hcnt h' hs'
      rw [hsame.bitLen] at hin'
      have h1 := hleast s' ((hsame.freeRun btmp btmp' cnt s' hin').mp hrun')
      have h2 := hleast' s ((hsame.freeRun btmp btmp' cnt s hin).mpr hrun)
      rw [hs, hs', show s' = s from by omega]
    · obtain ⟨hin, hrun, -⟩ := bitmap_scan_inside ndebug btmp cnt s hcnt h hs
      exact absurd ((hsame.hasRun btmp btmp' cnt).mpr ⟨s, hin, hrun⟩) (bitmap_scan_none ndebug btmp' cnt hcnt hs')
    · obtain ⟨hin, hrun, -⟩ := bitmap_scan_inside ndebug btmp' cnt s' hcnt h' hs'
      exact absurd ((hsame.hasRun btmp btmp' cnt).mp ⟨s', hin, hrun⟩) (bitmap_scan_none ndebug btmp cnt hcnt hs)
    · rw [hs, hs']

theorem set_run_bits (btmp : Bitmap) (s cnt i : Nat) (h : ∀ k < cnt, (s + k) / 8 ≠ i) :
    (set_run btmp s cnt).bits i = btmp.bits i := by
  induction cnt with
  | zero => rfl
  | succ cnt ih =>
    unfold set_run bitmap_set
    dsimp only
    rw [Function.update_of_ne (h cnt (by omega)).symm]
    exact ih fun k hk => h k (by omega)

def Bitmap.behind (btmp : Bitmap) (byte : UInt8) : Bitmap :=
  { btmp with bits := Function.update btmp.bits btmp.btmp_bytes_len byte }

theorem behind_same (btmp : Bitmap) (byte : UInt8) : SameInside btmp (btmp.behind byte) :=
  ⟨rfl, fun i hi => Function.update_of_ne (by omega) _ _⟩

theorem behind_test (btmp : Bitmap) (byte : UInt8) :
    bitmap_scan_test (btmp.behind byte) btmp.bitLen = byte.toNat.testBit 0 := by
  have hidx : btmp.bitLen / 8 = btmp.btmp_bytes_len ∧ btmp.bitLen % 8 = 0 := by
    unfold Bitmap.bitLen
    omega
  rw [bitmap_scan_test_eq, hidx.1, hidx.2]
  unfold Bitmap.behind
  dsimp only
  rw [Function.update_self]

/-- A run at the end that lacks one bit is found when the bit behind the bitmap is clear. -/
theorem endRun_some (ndebug : Bool) (btmp : Bitmap) (cnt : Nat) (h : btmp.EndRun cnt)
    (hb : bitmap_scan_test btmp btmp.bitLen = false) : ∃ s, bitmap_scan ndebug btmp cnt = .ok (some s) := by
  obtain ⟨h2, hle, hrun, -⟩ := h
  have hfull : ¬ btmp.Full := by
    intro hfull
    have := hrun 0 (by omega)
    rw [hfull _ (by omega)] at this
    cases this
  have hall : btmp.FreeRun cnt (btmp.bitLen + 1 - cnt) := by
    intro k hk
    by_cases hlast : k = cnt - 1
    · rw [show btmp.bitLen + 1 - cnt + k = btmp.bitLen from by omega]
      exact hb
    · exact hrun k (by omega)
  rcases bitmap_scan_first ndebug btmp cnt (by omega) hfull with ⟨s, hs, -⟩ | ⟨-, hnone⟩
  · exact ⟨s, hs⟩
  · have := hnone _ hall
    unfold Bitmap.limit at this
    rw [if_neg (by omega)] at this
    omega

/-- It is not found when that bit is set. -/
theorem endRun_none (ndebug : Bool) (btmp : Bitmap) (cnt s : Nat) (h : btmp.EndRun cnt)
    (hb : bitmap_scan_test btmp btmp.bitLen = true) : bitmap_scan ndebug btmp cnt ≠ .ok (some s) := by
  intro hs
  obtain ⟨h2, -, -, hnone⟩ := h
  obtain ⟨hin, -, hclear⟩ := (spec_of_ok _ _ _ (bitmap_scan_spec ndebug btmp cnt) _ hs).1 s rfl
  by_cases hlast : s + cnt ≤ btmp.bitLen
  · exact hnone ⟨s, hlast, hclear⟩
  · have := hclear (cnt - 1) (by omega)
    unfold Bitmap.bitLen at hlast hb
    rw [show s + (cnt - 1) = 8 * btmp.btmp_bytes_len from by omega, hb] at this
    cases this

/-- **The scan stays inside the bitmap**, except for a run at its end that lacks one bit: the scan
takes the bit behind the bitmap for the missing one. -/
theorem scan_inside (btmp : Bitmap) (cnt : Nat) (hcnt : 0 < cnt) : ScanInside btmp cnt ↔ ¬ btmp.EndRun cnt := by
  constructor
  · intro h hend
    obtain ⟨s, hs⟩ := endRun_some false (btmp.behind 0) cnt (((behind_same btmp 0).endRun _ _ cnt).mpr hend)
      (by rw [(behind_same btmp 0).bitLen, behind_test]; rfl)
    refine endRun_none false (btmp.behind 0xff) cnt s (((behind_same btmp 0xff).endRun _ _ cnt).mpr hend)
      (by rw [(behind_same btmp 0xff).bitLen, behind_test]; rfl) ?_
    rw [h.unread false _ (behind_same btmp 0xff), ← h.unread false _ (behind_same btmp 0), hs]
  · intro h
    refine ⟨fun ndebug s hs => ?_, fun ndebug s hs i hi => ?_, fun ndebug btmp' => ?_⟩
    · obtain ⟨hin, hrun, -⟩ := bitmap_scan_inside ndebug btmp cnt s hcnt h hs
      exact ⟨hin, hrun⟩
    · obtain ⟨hin, -, -⟩ := bitmap_scan_inside ndebug btmp cnt s hcnt h hs
      unfold Bitmap.bitLen at hin
      exact set_run_bits btmp s cnt i fun k hk => by omega
    · exact bitmap_scan_unread ndebug btmp btmp' cnt hcnt h

theorem scan_inside_two : ScanInside { btmp_bytes_len := 1, bits := fun _ => 0x3f } 2 := by
  refine (scan_inside _ 2 (by decide)).mpr ?_
  rintro ⟨-, -, -, hnone⟩
  exact hnone ⟨6, by decide, by unfold Bitmap.FreeRun; decide⟩

/-- Only bit 7 is clear, and the memory behind is zero: two bits are found at bit 7. -/
theorem scan_outside : bitmap_scan false { btmp_bytes_len := 1, bits := fun i => if i = 0 then 0x7f else 0 } 2 =
      .ok (some 7) ∧
    ¬ ScanInside { btmp_bytes_len := 1, bits := fun i => if i = 0 then 0x7f else 0 } 2 := by
  have hs : bitmap_scan false { btmp_bytes_len := 1, bits := fun i => if i = 0 then 0x7f else 0 } 2 = .ok (some 7) := by
    decide
  refine ⟨hs, fun h => ?_⟩
  exact absurd (h.found false 7 hs).1 (by decide)

/-! ## Nothing left -/

/-- A call that returns `NULL` exactly when there is nothing to give, and then changes nothing. -/
def Reports (x : Except Stop (UInt32 × Mm)) (s : Mm) (nothing : Prop) : Prop :=
  ((∃ s', x = .ok (NULL, s')) ↔ nothing) ∧ ∀ s', x = .ok (NULL, s') → s' = s

theorem reports_iff (x : Except Stop (UInt32 × Mm)) (s : Mm) (none nothing : Prop)
    (h : ∀ s', x = .ok (NULL, s') ↔ none ∧ s' = s) : Reports x s nothing ↔ (none ↔ nothing) := by
  unfold Reports
  simp only [h]
  constructor
  · rintro ⟨hiff, -⟩
    rw [← hiff]
    exact ⟨fun hn => ⟨s, hn, rfl⟩, fun ⟨_, hn, _⟩ => hn⟩
  · intro hiff
    rw [← hiff]
    exact ⟨⟨fun ⟨_, hn, _⟩ => hn, fun hn => ⟨s, hn, rfl⟩⟩, fun _ hs => hs.2⟩

theorem palloc_null_iff (s : Mm) (pf : PoolFlags) (hl : Layout s) (s' : Mm) :
    palloc false s pf = .ok (NULL, s') ↔ bitmap_scan false (s.pool pf).pool_bitmap 1 = .ok none ∧ s' = s := by
  have hspec := bitmap_scan_spec false (s.pool pf).pool_bitmap 1
  unfold palloc
  dsimp only
  generalize bitmap_scan false (s.pool pf).pool_bitmap 1 = scan at hspec ⊢
  rcases scan with e | _ | i
  · exact ⟨nofun, fun h => nomatch h.1⟩
  · show Except.ok (NULL, s) = _ ↔ _
    simp [eq_comm]
  · have haddr := hl.phyaddr s pf i ((hspec.1 i rfl).one rfl)
    have hbot := hl.bottom pf
    refine ⟨fun h => ?_, fun h => nomatch h.1⟩
    have hnull : UInt32.ofNat i * PG_SIZE + (s.pool pf).phy_addr_start = NULL := (Prod.mk.inj (Except.ok.inj h)).1
    rw [hnull] at haddr
    change 0 = _ at haddr
    omega

theorem vaddr_get_null_iff (s : Mm) (pf : PoolFlags) (n : Nat) (hn : 0 < n) (hl : Layout s) (s' : Mm) :
    vaddr_get false s pf n = .ok (NULL, s') ↔ bitmap_scan false (s.vaddrs pf).vaddr_bitmap n = .ok none ∧ s' = s := by
  have hspec := bitmap_scan_spec false (s.vaddrs pf).vaddr_bitmap n
  unfold vaddr_get
  dsimp only
  generalize bitmap_scan false (s.vaddrs pf).vaddr_bitmap n = scan at hspec ⊢
  rcases scan with e | _ | i
  · exact ⟨nofun, fun h => nomatch h.1⟩
  · show Except.ok (NULL, s) = _ ↔ _
    simp [eq_comm]
  · obtain ⟨lo, haddr, hlo, -⟩ := hl.page_range s pf n i (hspec.1 i rfl) hn
    have hne : (s.vaddrs pf).vaddr_start + UInt32.ofNat i * PG_SIZE ≠ NULL := by
      intro hnull
      rw [hnull] at haddr
      change 0 = _ at haddr
      omega
    refine ⟨fun h => absurd ?_ hne, fun h => nomatch h.1⟩
    cases pf with
    | PF_KERNEL => exact (Prod.mk.inj (Except.ok.inj h)).1
    | PF_USER =>
      simp only [if_true, ASSERT_in_false, bind, Except.bind] at h
      split at h
      · cases h
      · exact (Prod.mk.inj (Except.ok.inj h)).1

theorem full_iff_no_run (btmp : Bitmap) : btmp.Full ↔ ¬ btmp.HasRun 1 := by
  constructor
  · rintro hfull ⟨s, hin, hrun⟩
    have := hrun 0 (by omega)
    rw [hfull _ (by omega)] at this
    cases this
  · intro hno i hi
    by_contra hclear
    refine hno ⟨i, hi, fun k hk => ?_⟩
    rw [show k = 0 from by omega]
    exact Bool.eq_false_iff.mpr hclear

/-- When `bitmap_scan` returns -1 exactly if there is no run. -/
theorem scan_none_iff (btmp : Bitmap) (cnt : Nat) (hcnt : 0 < cnt) :
    (bitmap_scan false btmp cnt = .ok none ↔ ¬ btmp.HasRun cnt) ↔
      ¬ btmp.Full ∧ ¬ (btmp.EndRun cnt ∧ bitmap_scan_test btmp btmp.bitLen = false) := by
  by_cases hfull : btmp.Full
  · have hno : ¬ btmp.HasRun cnt := by
      rintro ⟨s, hin, hrun⟩
      exact (full_iff_no_run btmp).mp hfull ⟨s, by omega, fun k hk => hrun k (by omega)⟩
    rw [bitmap_scan_full false btmp cnt hfull]
    exact ⟨fun h => (nomatch h.mpr hno), fun h => absurd hfull h.1⟩
  · constructor
    · intro h
      refine ⟨hfull, fun ⟨hend, hb⟩ => ?_⟩
      obtain ⟨s, hs⟩ := endRun_some false btmp cnt hend hb
      rw [h.mpr hend.2.2.2] at hs
      cases hs
    · rintro ⟨-, hend⟩
      refine ⟨bitmap_scan_none false btmp cnt hcnt, fun hno => ?_⟩
      rcases bitmap_scan_first false btmp cnt hcnt hfull with ⟨s, -, hrun, hle, -⟩ | ⟨hs, -⟩
      · exfalso
        have hout : ¬ s + cnt ≤ btmp.bitLen := fun hin => hno ⟨s, hin, hrun⟩
        unfold Bitmap.limit at hle
        split at hle
        · exact hout hle
        · refine hend ⟨⟨by omega, by omega, fun k hk => ?_, hno⟩, ?_⟩
          · rw [show btmp.bitLen + 1 - cnt = s from by omega]
            exact hrun k (by omega)
          · rw [show btmp.bitLen = s + (cnt - 1) from by omega]
            exact hrun _ (by omega)
      · exact hs

/-- **Exhaustion** is reported unless the bitmap is full: then the scan stops at its ASSERT, before it
can return -1. `vaddr_get` moreover takes the bit behind the bitmap for a free page. -/
theorem exhaustion_reported (btmp : Bitmap) (cnt : Nat) (hcnt : 0 < cnt) :
    ((btmp.Full → bitmap_scan false btmp cnt = .ok none) ↔ ¬ btmp.Full) ∧
    (∀ s pf, Layout s → (Reports (palloc false s pf) s (s.pool pf).pool_bitmap.Full ↔ ¬ (s.pool pf).pool_bitmap.Full)) ∧
    ∀ s pf, Layout s → (Reports (vaddr_get false s pf cnt) s (¬ (s.vaddrs pf).vaddr_bitmap.HasRun cnt) ↔
      ¬ (s.vaddrs pf).vaddr_bitmap.Full ∧ ¬ ((s.vaddrs pf).vaddr_bitmap.EndRun cnt ∧
        bitmap_scan_test (s.vaddrs pf).vaddr_bitmap (s.vaddrs pf).vaddr_bitmap.bitLen = false)) := by
  refine ⟨⟨fun h hfull => ?_, fun h hfull => absurd hfull h⟩, fun s pf hl => ?_, fun s pf hl => ?_⟩
  · have hs := h hfull
    rw [bitmap_scan_full false btmp cnt hfull] at hs
    cases hs
  · rw [reports_iff _ s _ _ (palloc_null_iff s pf hl), full_iff_no_run, scan_none_iff _ 1 (by omega), full_iff_no_run]
    exact and_iff_left fun h => absurd h.1.1 (by omega)
  · rw [reports_iff _ s _ _ (vaddr_get_null_iff s pf cnt hcnt hl)]
    exact scan_none_iff _ cnt hcnt

theorem exhaustion_reported_boot :
    Reports (palloc false (zeroMemory 0x210000) .PF_KERNEL) (zeroMemory 0x210000)
      ((zeroMemory 0x210000).pool .PF_KERNEL).pool_bitmap.Full ∧
    Reports (vaddr_get false (zeroMemory 0x210000) .PF_KERNEL 2) (zeroMemory 0x210000)
      (¬ ((zeroMemory 0x210000).vaddrs .PF_KERNEL).vaddr_bitmap.HasRun 2) := by
  obtain ⟨-, hp, hv⟩ := exhaustion_reported { btmp_bytes_len := 1, bits := fun _ => 0 } 2 (by decide)
  have hl : Layout (zeroMemory 0x210000) := mem_init_layout _ _ _ _
  have hrun : ((zeroMemory 0x210000).vaddrs .PF_KERNEL).vaddr_bitmap.HasRun 2 :=
    ⟨0, by decide, by unfold Bitmap.FreeRun; decide⟩
  refine ⟨(hp _ _ hl).mpr fun hfull => ?_, (hv _ _ hl).mpr ⟨fun hfull => ?_, fun hend => hend.1.2.2.2 hrun⟩⟩
  · exact absurd (hfull 0 (by decide)) (by decide)
  · exact absurd (hfull 0 (by decide)) (by decide)

/-- A full bitmap of one byte: not -1, but a failed ASSERT. -/
theorem exhaustion_fatal : Bitmap.Full { btmp_bytes_len := 1, bits := fun _ => 0xff } ∧
    bitmap_scan false { btmp_bytes_len := 1, bits := fun _ => 0xff } 1 = .error (.panic .bitmap_scan_idx_byte) := by
  have hfull : Bitmap.Full { btmp_bytes_len := 1, bits := fun _ => 0xff } := by
    unfold Bitmap.Full
    decide
  exact ⟨hfull, by decide⟩

end OsLearn
