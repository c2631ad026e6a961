import OsLearn.Memory.Failure
import OsLearn.Memory.Scan

/-!
# Address ranges: what the calls mark in them

Nothing here needs the tables to be in order.
-/

namespace OsLearn

/-! ## What leaves the ranges alone -/

structure SameRanges (s s' : Mm) : Prop where
  cur : s'.cur = s.cur
  pgdir : s'.pgdir = s.pgdir
  kernel_vaddr : s'.kernel_vaddr = s.kernel_vaddr
  userprog_vaddr : s'.userprog_vaddr = s.userprog_vaddr

theorem SameRanges.refl (s : Mm) : SameRanges s s := ⟨rfl, rfl, rfl, rfl⟩

theorem SameRanges.trans (s s₁ s₂ : Mm) (h : SameRanges s s₁) (h' : SameRanges s₁ s₂) : SameRanges s s₂ :=
  ⟨h'.cur.trans h.cur, h'.pgdir.trans h.pgdir, h'.kernel_vaddr.trans h.kernel_vaddr,
    h'.userprog_vaddr.trans h.userprog_vaddr⟩

theorem SameRanges.vaddrs (s s' : Mm) (h : SameRanges s s') (pf : PoolFlags) : s'.vaddrs pf = s.vaddrs pf := by
  cases pf
  · exact h.kernel_vaddr
  · unfold Mm.vaddrs
    rw [h.userprog_vaddr, h.cur]

theorem SameRanges.setVaddrs (s s' : Mm) (h : SameRanges s s') (pf : PoolFlags) (va : VirtualAddr) :
    SameRanges (s.setVaddrs pf va) (s'.setVaddrs pf va) := by
  cases pf
  · exact ⟨h.cur, h.pgdir, rfl, h.userprog_vaddr⟩
  · refine ⟨h.cur, h.pgdir, h.kernel_vaddr, ?_⟩
    unfold Mm.setVaddrs
    dsimp only
    rw [h.userprog_vaddr, h.cur]

theorem SameMemory.sameRanges (s s' : Mm) (h : SameMemory s s') : SameRanges s s' :=
  ⟨h.cur, h.pgdir, h.kernel_vaddr, h.userprog_vaddr⟩

theorem Keeps.sameRanges (s s' : Mm) (h : Keeps s s') : SameRanges s s' :=
  ⟨h.cur, h.pgdir, h.kernel_vaddr, h.userprog_vaddr⟩

/-- Not the check of `get_a_page`. -/
def OtherStop (e : Stop) : Prop := e ≠ .panic .get_a_page_bit_idx

theorem otherStop_panic (site : Site) (h : site ≠ .get_a_page_bit_idx) : OtherStop (.panic site) := fun heq =>
  h (Stop.panic.inj heq)

theorem load_ranges (s : Mm) (v : UInt32) : Spec (s.load v) (fun _ => True) OtherStop := by
  unfold Mm.load
  split
  · trivial
  · exact otherStop_panic _ (by decide)

theorem store_ranges (s : Mm) (v w : UInt32) : Spec (s.store v w) (SameRanges s) OtherStop := by
  unfold Mm.store
  split
  · exact (Keeps.withRam s _).sameRanges
  · exact otherStop_panic _ (by decide)

theorem memset_ranges (s : Mm) (v : UInt32) (n : Nat) : Spec (s.memset_zero v n) (SameRanges s) OtherStop := by
  induction n generalizing s v with
  | zero => exact SameRanges.refl s
  | succ n ih =>
    unfold Mm.memset_zero
    split
    · split
      · exact otherStop_panic _ (by decide)
      · exact spec_mono _ _ _ _ _ (ih _ _) (fun s' h => (Keeps.withRam s _).sameRanges.trans _ _ _ h) fun _ he => he
    · exact otherStop_panic _ (by decide)

section

variable (ndebug : Bool)

theorem palloc_ranges (s : Mm) (pf : PoolFlags) : Spec (palloc ndebug s pf) (fun r => SameRanges s r.2) OtherStop := by
  unfold palloc
  rw [spec_bind]
  refine spec_mono _ _ _ _ _ (bitmap_scan_spec ndebug _ 1) ?_ ?_
  · rintro (_ | i) -
    · exact SameRanges.refl s
    · exact (Keeps.take s pf i).sameRanges
  · rintro e ⟨-, rfl⟩
    exact otherStop_panic _ (by decide)

theorem page_table_add_ranges (s : Mm) (v a : UInt32) :
    Spec (page_table_add ndebug s v a) (SameRanges s) OtherStop := by
  unfold page_table_add
  rw [spec_bind]
  refine spec_mono _ _ _ _ _ (load_ranges s _) (fun pde _ => ?_) fun _ he => he
  have hstore : ∀ s₁, SameRanges s s₁ → Spec (s₁.store (pte_ptr v) (a ||| PG_ATTR)) (SameRanges s) OtherStop :=
    fun s₁ h => spec_mono _ _ _ _ _ (store_ranges s₁ _ _) (fun s₂ h₂ => h.trans _ _ _ h₂) fun _ he => he
  dsimp only
  split
  · rw [spec_bind]
    refine spec_mono _ _ _ _ _ (load_ranges s _) (fun pte _ => ?_) fun _ he => he
    rw [spec_bind, spec_ASSERT_in]
    refine ⟨fun _ => ?_, fun _ _ => otherStop_panic _ (by decide)⟩
    rw [spec_bind]
    refine spec_mono _ _ _ _ _ (load_ranges s _) (fun pte _ => ?_) fun _ he => he
    split
    · exact otherStop_panic _ (by decide)
    · exact hstore s (SameRanges.refl s)
  · rw [spec_bind]
    refine spec_mono _ _ _ _ _ (palloc_ranges ndebug s .PF_KERNEL) ?_ fun _ he => he
    rintro ⟨pde_phyaddr, s₁⟩ h₁
    rw [spec_bind]
    refine spec_mono _ _ _ _ _ (store_ranges s₁ _ _) (fun s₂ h₂ => ?_) fun _ he => he
    rw [spec_bind]
    refine spec_mono _ _ _ _ _ (memset_ranges s₂ _ _) (fun s₃ h₃ => ?_) fun _ he => he
    rw [spec_bind]
    refine spec_mono _ _ _ _ _ (load_ranges s₃ _) (fun pte _ => ?_) fun _ he => he
    rw [spec_bind, spec_ASSERT_in]
    refine ⟨fun _ => hstore s₃ (((h₁.trans _ _ _ h₂)).trans _ _ _ h₃), fun _ _ => ?_⟩
    exact otherStop_panic _ (by decide)

theorem map_pages_ranges (pf : PoolFlags) (s : Mm) (v : UInt32) (n : Nat) :
    Spec (map_pages ndebug pf s v n) (fun r => SameRanges s r.2) OtherStop := by
  induction n generalizing s v with
  | zero => exact SameRanges.refl s
  | succ n ih =>
    unfold map_pages
    rw [spec_bind]
    refine spec_mono _ _ _ _ _ (palloc_ranges ndebug s pf) ?_ fun _ he => he
    rintro ⟨page_phyaddr, s₁⟩ h₁
    dsimp only
    split
    · exact h₁
    · rw [spec_bind]
      refine spec_mono _ _ _ _ _ (page_table_add_ranges ndebug s₁ v page_phyaddr) (fun s₂ h₂ => ?_) fun _ he => he
      exact spec_mono _ _ _ _ _ (ih s₂ _) (fun r h₃ => (h₁.trans _ _ _ h₂).trans _ _ _ h₃) fun _ he => he

/-- The state with the bits `i`, .., `i + n - 1` of the range set. -/
def Mm.markRun (s : Mm) (pf : PoolFlags) (i n : Nat) : Mm :=
  s.setVaddrs pf { s.vaddrs pf with vaddr_bitmap := set_run (s.vaddrs pf).vaddr_bitmap i n }

/-- `v` is the address of the run of `n` pages that the scan finds, and the run is marked. -/
def Marked (s : Mm) (pf : PoolFlags) (n : Nat) (v : UInt32) (s' : Mm) : Prop :=
  ∃ i, bitmap_scan ndebug (s.vaddrs pf).vaddr_bitmap n = .ok (some i) ∧
    v = (s.vaddrs pf).vaddr_start + UInt32.ofNat i * PG_SIZE ∧ SameRanges (s.markRun pf i n) s'

theorem vaddr_get_ranges (s : Mm) (pf : PoolFlags) (n : Nat) :
    Spec (vaddr_get ndebug s pf n) (fun r => r.1 = NULL ∨ Marked ndebug s pf n r.1 r.2) fun _ => True := by
  unfold vaddr_get Marked
  rw [spec_bind]
  generalize bitmap_scan ndebug (s.vaddrs pf).vaddr_bitmap n = scan
  rcases scan with e | _ | i
  · trivial
  · exact .inl rfl
  · rw [spec_ok]
    dsimp only
    cases pf with
    | PF_KERNEL => exact .inr ⟨i, rfl, rfl, SameRanges.refl _⟩
    | PF_USER =>
      rw [if_pos rfl, spec_bind, spec_ASSERT_in]
      exact ⟨fun _ => .inr ⟨i, rfl, rfl, SameRanges.refl _⟩, fun _ _ => trivial⟩

theorem malloc_page_ranges (s : Mm) (pf : PoolFlags) (n : Nat) :
    Spec (malloc_page ndebug s pf n) (fun r => r.1 = NULL ∨ Marked ndebug s pf n r.1 r.2) fun _ => True := by
  unfold malloc_page
  rw [spec_bind, spec_ASSERT_in]
  refine ⟨fun _ => ?_, fun _ _ => trivial⟩
  rw [spec_bind]
  refine spec_mono _ _ _ _ _ (vaddr_get_ranges ndebug s pf n) ?_ fun _ _ => trivial
  rintro ⟨v, s₁⟩ h₁
  dsimp only
  split
  · exact .inl rfl
  · rename_i hne
    obtain ⟨i, hi, hv, hsame⟩ := h₁.resolve_left hne
    rw [spec_bind]
    refine spec_mono _ _ _ _ _ (map_pages_ranges ndebug pf s₁ v n) ?_ fun _ _ => trivial
    rintro ⟨done, s₂⟩ h₂
    cases done
    · exact .inl rfl
    · exact .inr ⟨i, hi, hv, hsame.trans _ _ _ h₂⟩

theorem get_user_pages_ranges (s : Mm) (n : Nat) :
    Spec (get_user_pages ndebug s n) (fun r => r.1 = NULL ∨ Marked ndebug s .PF_USER n r.1 r.2) fun _ => True := by
  unfold get_user_pages
  rw [spec_bind]
  refine spec_mono _ _ _ _ _ (pool_acquire_spec ndebug s .PF_USER) ?_ fun _ _ => trivial
  rintro s₁ ⟨hmem, -⟩
  have h₁ := hmem.sameRanges
  unfold user_pages
  rw [spec_bind, spec_bind]
  refine spec_mono _ _ _ _ _ (malloc_page_ranges ndebug s₁ .PF_USER n) ?_ fun _ _ => trivial
  rintro ⟨v, s₂⟩ h₂
  dsimp only
  rw [spec_bind]
  refine spec_mono _ _ _ _ _ (memset_ranges s₂ v n) (fun s₃ h₃ => ?_) fun _ _ => trivial
  rw [spec_pure]
  dsimp only
  rw [spec_bind]
  refine spec_mono _ _ _ _ _ (pool_release_spec ndebug s₃ .PF_USER) (fun s₄ h₄ => ?_) fun _ _ => trivial
  refine h₂.imp id ?_
  rintro ⟨i, hi, hv, hsame⟩
  rw [h₁.vaddrs] at hi hv
  have hmark : SameRanges (s.markRun .PF_USER i n) (s₁.markRun .PF_USER i n) := by
    unfold Mm.markRun
    rw [h₁.vaddrs]
    exact h₁.setVaddrs s s₁ .PF_USER _
  exact ⟨i, hi, hv, (hmark.trans _ _ _ hsame).trans _ _ _ (h₃.trans _ _ _ h₄.sameRanges)⟩

theorem pool_release_ranges (s : Mm) (pf : PoolFlags) : Spec (pool_release ndebug s pf) (SameRanges s) OtherStop := by
  have hstop : Spec (pool_release ndebug s pf) (fun _ => True) OtherStop := by
    unfold pool_release lock_release
    simp only [spec_bind, spec_ASSERT_in]
    refine ⟨fun _ => ?_, fun _ _ => otherStop_panic _ (by decide)⟩
    split
    · trivial
    · simp only [spec_bind, spec_ASSERT_in]
      refine ⟨fun _ => ⟨fun _ => ⟨fun _ => trivial, ?_⟩, ?_⟩, ?_⟩
      all_goals exact fun _ _ => otherStop_panic _ (by decide)
  have hsame := pool_release_spec ndebug s pf
  generalize pool_release ndebug s pf = x at *
  cases x with
  | error e => exact hstop
  | ok s' => exact hsame.sameRanges

end

/-! ## `get_a_page` -/

/-- The combinations that `get_a_page` allows: a process with its own range, a thread with the kernel's. -/
def Allowed (s : Mm) (pf : PoolFlags) : Prop := (s.pgdir s.cur ≠ NULL ∧ pf = .PF_USER) ∨ (s.pgdir s.cur = NULL ∧ pf = .PF_KERNEL)

/-- `bit_idx` of `get_a_page`. -/
def VirtualAddr.bitIdx (va : VirtualAddr) (vaddr : UInt32) : UInt32 := (vaddr - va.vaddr_start) / PG_SIZE

/-- The state with bit `i` of the range set. -/
def Mm.mark (s : Mm) (pf : PoolFlags) (i : Nat) : Mm :=
  s.setVaddrs pf { s.vaddrs pf with vaddr_bitmap := bitmap_set (s.vaddrs pf).vaddr_bitmap i true }

theorem a_page_ranges (ndebug : Bool) (s : Mm) (pf : PoolFlags) (vaddr : UInt32) (h : Allowed s pf) :
    Spec (a_page ndebug s pf vaddr) (fun r => SameRanges (s.mark pf ((s.vaddrs pf).bitIdx vaddr).toNat) r.2.2)
      fun e => e = .panic .get_a_page_bit_idx → (s.vaddrs pf).bitIdx vaddr = 0 := by
  have hother : ∀ e, OtherStop e → e = .panic .get_a_page_bit_idx → (s.vaddrs pf).bitIdx vaddr = 0 :=
    fun e he heq => absurd heq he
  unfold Allowed at h
  unfold a_page
  dsimp only
  rw [if_pos h, spec_bind, spec_ASSERT_in]
  refine ⟨fun _ => ?_, fun _ hzero _ => ?_⟩
  · rw [spec_bind, spec_pure, spec_bind]
    refine spec_mono _ _ _ _ _ (palloc_ranges ndebug _ pf) ?_ hother
    rintro ⟨page_phyaddr, s₁⟩ h₁
    dsimp only
    split
    · exact h₁
    · rw [spec_bind]
      refine spec_mono _ _ _ _ _ (page_table_add_ranges ndebug s₁ vaddr page_phyaddr) (fun s₂ h₂ => ?_) hother
      exact h₁.trans _ _ _ h₂
  · exact UInt32.le_zero_iff.mp (UInt32.not_lt.mp hzero)

theorem a_page_rejects (s : Mm) (pf : PoolFlags) (vaddr : UInt32) (h : Allowed s pf)
    (hzero : (s.vaddrs pf).bitIdx vaddr = 0) : a_page false s pf vaddr = .error (.panic .get_a_page_bit_idx) := by
  unfold Allowed at h
  unfold VirtualAddr.bitIdx at hzero
  unfold a_page
  dsimp only
  rw [if_pos h, hzero]
  rfl

theorem get_a_page_eq (ndebug : Bool) (s s₀ : Mm) (pf : PoolFlags) (vaddr : UInt32) (h : pool_acquire ndebug s pf = .ok s₀) :
    get_a_page ndebug s pf vaddr = (do
      let (page, done, s) ← a_page ndebug s₀ pf vaddr
      if done then
        let s ← pool_release ndebug s pf
        pure (page, s)
      else pure (page, s)) := by
  unfold get_a_page
  rw [h]
  rfl

theorem get_a_page_acquires (ndebug : Bool) (s : Mm) (pf : PoolFlags) (vaddr : UInt32) (r : UInt32 × Mm)
    (h : get_a_page ndebug s pf vaddr = .ok r) : ∃ s₀, pool_acquire ndebug s pf = .ok s₀ := by
  unfold get_a_page at h
  cases hacq : pool_acquire ndebug s pf with
  | error e =>
    rw [hacq] at h
    cases h
  | ok s₀ => exact ⟨s₀, rfl⟩

theorem get_a_page_ranges (ndebug : Bool) (s s₀ : Mm) (pf : PoolFlags) (vaddr : UInt32)
    (h : pool_acquire ndebug s pf = .ok s₀) (ha : Allowed s pf) :
    Spec (get_a_page ndebug s pf vaddr) (fun r => SameRanges (s.mark pf ((s.vaddrs pf).bitIdx vaddr).toNat) r.2)
      fun e => e = .panic .get_a_page_bit_idx → (s.vaddrs pf).bitIdx vaddr = 0 := by
  have hsame : SameRanges s s₀ := (spec_of_ok _ _ _ (pool_acquire_spec ndebug s pf) _ h).1.sameRanges
  have hmark : ∀ i, SameRanges (s.mark pf i) (s₀.mark pf i) := by
    intro i
    unfold Mm.mark
    rw [hsame.vaddrs]
    exact hsame.setVaddrs s s₀ pf _
  have ha₀ : Allowed s₀ pf := by
    unfold Allowed
    rw [hsame.pgdir, hsame.cur]
    exact ha
  rw [get_a_page_eq ndebug s s₀ pf vaddr h, spec_bind]
  rw [← hsame.vaddrs]
  refine spec_mono _ _ _ _ _ (a_page_ranges ndebug s₀ pf vaddr ha₀) ?_ fun _ he => he
  rintro ⟨page, done, s₁⟩ h₁
  dsimp only
  split
  · rw [spec_bind]
    refine spec_mono _ _ _ _ _ (pool_release_ranges ndebug s₁ pf) (fun s₂ h₂ => ?_) fun e he heq => absurd heq he
    exact (hmark _).trans _ _ _ (h₁.trans _ _ _ h₂)
  · exact (hmark _).trans _ _ _ h₁

/-! ## Pages of a range -/

/-- The range starts at a page and ends inside the address space. -/
structure VirtualAddr.Fits (va : VirtualAddr) : Prop where
  aligned : va.vaddr_start.toNat % 4096 = 0
  stop : va.vaddr_start.toNat + va.vaddr_bitmap.bitLen * 4096 ≤ 2 ^ 32

/-- `vaddr` is in page `k` from the start of the range on. -/
def VirtualAddr.pageAt (va : VirtualAddr) (vaddr : UInt32) (k : Nat) : Prop :=
  va.vaddr_start.toNat + k * 4096 ≤ vaddr.toNat ∧ vaddr.toNat < va.vaddr_start.toNat + (k + 1) * 4096

theorem Layout.fits (s : Mm) (h : Layout s) (pf : PoolFlags) (hlen : (s.vaddrs pf).vaddr_bitmap.btmp_bytes_len ≠ 0) :
    (s.vaddrs pf).Fits := by
  cases pf with
  | PF_KERNEL =>
    obtain ⟨hstart, hlt⟩ := h.heap
    have hn : K_HEAP_START.toNat = 0xc0100000 := by decide
    unfold Mm.vaddrs
    refine ⟨?_, ?_⟩ <;> dsimp only <;> rw [hstart, hn]
    unfold Bitmap.bitLen
    omega
  | PF_USER =>
    rcases h.user s.cur with h0 | ⟨hstart, heq⟩
    · exact absurd h0 hlen
    · have hn : USER_VADDR_START.toNat = 0x8048000 := by decide
      unfold user_bytes_len at heq
      unfold Mm.vaddrs
      refine ⟨?_, ?_⟩ <;> dsimp only <;> rw [hstart, hn]
      unfold Bitmap.bitLen
      rw [heq]
      omega

section

variable (va : VirtualAddr) (vaddr : UInt32) (h : va.Fits)

include h

omit h in
theorem VirtualAddr.bitIdx_pageAt (k : Nat) (hk : va.pageAt vaddr k) : (va.bitIdx vaddr).toNat = k := by
  obtain ⟨h1, h2⟩ := hk
  have hle : va.vaddr_start ≤ vaddr := by
    rw [UInt32.le_iff_toNat_le]
    omega
  unfold VirtualAddr.bitIdx
  rw [UInt32.toNat_div, UInt32.toNat_sub_of_le _ _ hle]
  change _ / 4096 = k
  omega

/-- Below the range the difference wraps around, to an index behind the range. -/
theorem VirtualAddr.Fits.bitIdx_below (hlt : vaddr.toNat < va.vaddr_start.toNat) :
    0 < (va.bitIdx vaddr).toNat ∧ va.vaddr_bitmap.bitLen ≤ (va.bitIdx vaddr).toNat := by
  have hal := h.aligned
  have hstop := h.stop
  have hs := va.vaddr_start.toNat_lt
  unfold VirtualAddr.bitIdx
  rw [UInt32.toNat_div, UInt32.toNat_sub]
  change 0 < (2 ^ 32 - _ + _) % 2 ^ 32 / 4096 ∧ _ ≤ (2 ^ 32 - _ + _) % 2 ^ 32 / 4096
  omega

theorem VirtualAddr.Fits.bitIdx_zero (hzero : va.bitIdx vaddr = 0) : va.pageAt vaddr 0 := by
  by_cases hlt : vaddr.toNat < va.vaddr_start.toNat
  · have hpos := (h.bitIdx_below va vaddr hlt).1
    rw [hzero] at hpos
    exact absurd hpos (Nat.lt_irrefl 0)
  · have hpage : va.pageAt vaddr ((vaddr.toNat - va.vaddr_start.toNat) / 4096) := ⟨by omega, by omega⟩
    have hidx := va.bitIdx_pageAt vaddr _ hpage
    rw [hzero] at hidx
    change 0 = _ at hidx
    rwa [← hidx] at hpage

end

/-- The bits of the range of a process, or of the kernel. -/
def Mm.rangeBit (s : Mm) : Option Tid → Nat → Bool
  | none, i => bitmap_scan_test s.kernel_vaddr.vaddr_bitmap i
  | some t, i => bitmap_scan_test (s.userprog_vaddr t).vaddr_bitmap i

def Mm.rangeOf (s : Mm) : PoolFlags → Option Tid
  | .PF_KERNEL => none
  | .PF_USER => some s.cur

/-- `get_a_page` stops at its ASSERT outside the pages 1, 2, .. of the range, and inside marks its own page only. -/
structure RangeChecked (s : Mm) (pf : PoolFlags) (vaddr : UInt32) : Prop where
  outside : (∀ k, 1 ≤ k → k < (s.vaddrs pf).vaddr_bitmap.bitLen → ¬ (s.vaddrs pf).pageAt vaddr k) →
    get_a_page false s pf vaddr = .error (.panic .get_a_page_bit_idx)
  inside : ∀ k, 1 ≤ k → k < (s.vaddrs pf).vaddr_bitmap.bitLen → (s.vaddrs pf).pageAt vaddr k →
    ∀ page s', get_a_page false s pf vaddr = .ok (page, s') →
      ∀ o i, s'.rangeBit o i = (s.rangeBit o i || decide (o = s.rangeOf pf ∧ i = k))

theorem mark_rangeBit (s : Mm) (pf : PoolFlags) (k : Nat) (o : Option Tid) (i : Nat) :
    (s.mark pf k).rangeBit o i = (s.rangeBit o i || decide (o = s.rangeOf pf ∧ i = k)) := by
  cases pf with
  | PF_KERNEL =>
    cases o with
    | none =>
      unfold Mm.rangeOf
      rw [show decide ((none : Option Tid) = none ∧ i = k) = decide (i = k) from by simp]
      exact bitmap_set_test _ k i
    | some t =>
      unfold Mm.rangeOf
      rw [decide_eq_false (by simp), Bool.or_false]
      rfl
  | PF_USER =>
    cases o with
    | none =>
      unfold Mm.rangeOf
      rw [decide_eq_false (by simp), Bool.or_false]
      rfl
    | some t =>
      unfold Mm.rangeOf Mm.mark Mm.setVaddrs Mm.rangeBit Mm.vaddrs
      dsimp only
      by_cases ht : t = s.cur
      · rw [ht, Function.update_self, bitmap_set_test]
        simp
      · rw [Function.update_of_ne ht, decide_eq_false (fun h => ht (Option.some.inj h.1)), Bool.or_false]

theorem SameRanges.rangeBit (s s' : Mm) (h : SameRanges s s') (o : Option Tid) (i : Nat) :
    s'.rangeBit o i = s.rangeBit o i := by
  unfold Mm.rangeBit
  cases o
  · rw [h.kernel_vaddr]
  · rw [h.userprog_vaddr]

end OsLearn
