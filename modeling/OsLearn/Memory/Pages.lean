import OsLearn.Memory.Frames

/-!
# Pages: what the allocation functions do to the frames

One spec per function of `kernel/memory.c`. A call that stops in a check or a fault has no next state.
-/

namespace OsLearn

variable {booted : Nat → Prop} {dirs : List Nat}

/-! ## Mapping -/

theorem Mm.store_table (s : Mm) (v : UInt32) (t : Nat) (hself : SelfMap s.ram s.dir) (hv : v.toNat / 2 ^ 22 < 1023)
    (ht : t < 2 ^ 20) :
    ∃ s₁, s.store (pde_ptr v) (entry t) = .ok s₁ ∧ s₁.memset_zero (pte_ptr v &&& 0xfffff000) 1 =
      if t < 0x100 then PANIC .kernel_image
      else .ok (s.withRam ((s.ram.set s.dir (v.toNat / 2 ^ 22) (entry t)).zero t)) := by
  refine ⟨_, s.store_pde v hself _, ?_⟩
  have hlast : s.ram.set s.dir (v.toNat / 2 ^ 22) (entry t) s.dir 1023 = s.ram s.dir 1023 := by
    rw [Ram.set_apply, if_neg (by omega)]
  have hself₁ : SelfMap (s.ram.set s.dir (v.toNat / 2 ^ 22) (entry t)) s.dir := by
    constructor
    · rw [hlast, hself.here]
    · rw [hlast, hself.frame]
  have htarget : target (s.ram.set s.dir (v.toNat / 2 ^ 22) (entry t) s.dir (v.toNat / 2 ^ 22)) = some t := by
    rw [Ram.set_apply, if_pos ⟨rfl, rfl⟩, target_entry t ht]
  exact Mm.memset_table (s.withRam _) v hself₁ t htarget

theorem Frames.new_table (s : Mm) (v : UInt32) (p t : Nat) (h : Frames booted dirs [t, p] s) (hne : t ≠ p)
    (h1 : 0x8048 ≤ v.toNat / 2 ^ 12) (hlow : v.toNat / 2 ^ 22 < 768)
    (hnone : target (s.ram s.dir (v.toNat / 2 ^ 22)) = none) (hu : (s.pool .PF_KERNEL).Used t) (s' : Mm)
    (hs' : s' = s.withRam ((s.ram.set s.dir (v.toNat / 2 ^ 22) (entry t)).zero t)) :
    Frames booted dirs [p] s' ∧ Maps booted dirs s (v.toNat / 2 ^ 12) 0 s' ∧
      target (s'.ram s.dir (v.toNat / 2 ^ 22)) = some t ∧ (∀ j, s'.ram t j = 0) ∧
      (∀ pf, s'.pool pf = s.pool pf) := by
  subst hs'
  have hd := h.active
  obtain ⟨ht1, ht2⟩ := h.layout.used_range s .PF_KERNEL t hu
  have hfresh := (h.held t List.mem_cons_self).2
  have htd : s.dir ≠ t := fun heq => h.spaces.fresh_not_table t ht1 hfresh (.inl (heq ▸ hd))
  obtain ⟨hsp, hroles⟩ := h.spaces.add_table s.dir _ t hd (by omega) hlow hnone ht1 ht2 hfresh
  refine ⟨h.place s t (by simpa using hne) _ (.page_table s.dir _) hsp hu hroles, ⟨Keeps.withRam s _, ?_, ?_⟩, ?_, ?_, ?_⟩
  · exact fun q r hr => (hroles q r).mpr (.inl hr)
  · intro q r hr
    rcases (hroles q r).mp hr with hr | ⟨-, rfl⟩
    · exact .inl hr
    · exact .inr (.inl ⟨_, rfl⟩)
  · rw [s.withRam_ram, Ram.zero_of_ne _ _ _ htd, Ram.set_apply, if_pos ⟨rfl, rfl⟩, target_entry t ht2]
  · exact fun j => Ram.zero_self _ _ _
  · exact s.withRam_pool _

theorem page_table_add_spec (ndebug : Bool) (s : Mm) (v a : UInt32) (p : Nat) (h : Frames booted dirs [p] s)
    (ha : a.toNat = p * 2 ^ 12) (h1 : 0x8048 ≤ v.toNat / 2 ^ 12) (h2 : v.toNat / 2 ^ 12 < 0xffc00)
    (hu : (s.pool (pageRole s.dir (v.toNat / 2 ^ 12)).pool).Used p) :
    Spec (page_table_add ndebug s v a)
      (fun s' => Frames booted dirs [] s' ∧ Maps booted dirs s (v.toNat / 2 ^ 12) 1 s' ∧
        frameAt s.ram s.dir (v.toNat / 2 ^ 12) = none ∧ frameAt s'.ram s.dir (v.toNat / 2 ^ 12) = some p)
      fun _ => True := by
  have hself := h.spaces.selfMap s.dir h.active
  have hentry := or_PG_ATTR a p ha
  have hidx : v.toNat / 2 ^ 12 / 2 ^ 10 = v.toNat / 2 ^ 22 := by omega
  unfold page_table_add
  simp only [spec_bind, s.load_pde v hself, spec_ok, and_one_iff, hentry]
  cases hpde : target (s.ram s.dir (v.toNat / 2 ^ 22)) with
  | some t =>
    rw [if_pos (by simp)]
    simp only [spec_bind, spec_ASSERT_in, s.load_pte v hself t hpde, spec_ok]
    refine ⟨fun _ => ?_, fun _ _ => trivial⟩
    split
    · trivial
    · rename_i hpte
      obtain ⟨s', hs', hpost⟩ := h.store_pte s v p t h1 h2 hpde (by simpa using hpte) hu
      rw [spec_bind, spec_pure, hs', spec_ok]
      exact hpost
  | none =>
    have hlow : v.toNat / 2 ^ 22 < 768 := by
      by_contra hge
      rw [h.spaces.target_kernel s.dir _ h.active (by omega) (by omega)] at hpde
      cases hpde
    rw [if_neg (by simp)]
    simp only [spec_bind]
    refine spec_mono _ _ _ _ _ (palloc_spec ndebug s .PF_KERNEL h) ?_ fun _ _ => trivial
    rintro ⟨b, s₀⟩ (⟨heq, -⟩ | ⟨t, hb, hpal⟩)
    · -- no frame for the table: frame 0 takes its place, and the kernel is overwritten
      obtain ⟨rfl, rfl⟩ := Prod.mk.inj heq
      obtain ⟨s₁, h₁, h₂⟩ := s₀.store_table v 0 hself (by omega) (by omega)
      rw [or_PG_ATTR NULL 0 rfl]
      simp only [h₁, spec_ok, h₂]
      trivial
    · have hd₀ : s₀.dir = s.dir := hpal.keeps.dir
      have hself₀ := hpal.frames.spaces.selfMap _ hpal.frames.active
      obtain ⟨ht1, ht2⟩ := hpal.frames.layout.used_range s₀ .PF_KERNEL t hpal.used
      have htp : t ≠ p := fun heq => hpal.fresh (heq ▸ List.mem_singleton_self _)
      obtain ⟨s₁, h₁, h₂⟩ := s₀.store_table v t hself₀ (by omega) ht2
      obtain ⟨hfr, hmaps, htab, hzero, hpools⟩ := hpal.frames.new_table s₀ v p t htp h1 hlow
        (by rw [hpal.ram, hd₀, hpde]) hpal.used _ rfl
      rw [if_neg (by omega)] at h₂
      simp only [or_PG_ATTR b t hb, h₁, spec_ok, h₂, spec_ASSERT_in, spec_pure]
      generalize s₀.withRam _ = s₂ at *
      have hd₂ : s₂.dir = s₀.dir := hmaps.keeps.dir
      have hself₂ := hfr.spaces.selfMap _ hfr.active
      rw [← hd₂] at htab
      have hnone₂ : target (s₂.ram t (v.toNat / 2 ^ 12 % 2 ^ 10)) = none := by rw [hzero, target_zero]
      obtain ⟨s', hs', hfr', hmaps', -, hmapped⟩ := hfr.store_pte s₂ v p t h1 h2 htab hnone₂
        (by rw [hpools, hd₂, hd₀]; exact hpal.more _ _ hu)
      rw [s₂.load_pte v hself₂ t htab, spec_ok, hs', spec_ok]
      refine ⟨fun _ => ⟨hfr', ?_, ?_, by rw [← hd₀, ← hd₂, hmapped]⟩, fun _ _ => trivial⟩
      · have h₀ : Maps booted dirs s (v.toNat / 2 ^ 12) 0 s₀ := .ram s s₀ _ hpal.keeps hpal.ram
        exact (h₀.trans _ _ _ _ _ _ hmaps).trans _ _ _ _ _ _ hmaps'
      · unfold frameAt
        rw [hidx, hpde]
        rfl

/-- The role of the pages that the calls for `pf` map. -/
def InRange (pf : PoolFlags) (page : Nat) : Prop :=
  match pf with
  | .PF_KERNEL => 0xc0000 ≤ page ∧ page < 0xffc00
  | .PF_USER => 0x8048 ≤ page ∧ page < 0xc0000

theorem InRange.bounds (pf : PoolFlags) (page : Nat) (h : InRange pf page) : 0x8048 ≤ page ∧ page < 0xffc00 := by
  cases pf <;> simp only [InRange] at h <;> omega

theorem InRange.pool (pf : PoolFlags) (d page : Nat) (h : InRange pf page) : (pageRole d page).pool = pf := by
  unfold pageRole
  cases pf <;> simp only [InRange] at h
  · rw [if_neg (by omega)]
    rfl
  · rw [if_pos h.2]
    rfl

/-- `page_table_add` does not map a page twice. -/
theorem page_table_add_mapped (ndebug : Bool) (s : Mm) (v a : UInt32) (hself : SelfMap s.ram s.dir)
    (hm : frameAt s.ram s.dir (v.toNat / 2 ^ 12) ≠ none) :
    Spec (page_table_add ndebug s v a) (fun _ => False) fun _ => True := by
  obtain ⟨p, hp⟩ := Option.ne_none_iff_exists'.mp hm
  obtain ⟨t, ht, hpte⟩ := (frameAt_some _ _ _ _).mp hp
  rw [show v.toNat / 2 ^ 12 / 2 ^ 10 = v.toNat / 2 ^ 22 from by omega] at ht
  unfold page_table_add
  simp only [spec_bind, s.load_pde v hself, spec_ok, and_one_iff]
  rw [if_pos (by rw [ht]; simp)]
  simp only [spec_bind, s.load_pte v hself t ht, spec_ok, spec_ASSERT_in]
  refine ⟨fun _ => ?_, fun _ _ => trivial⟩
  rw [if_pos (by rw [hpte]; simp)]
  trivial

theorem DirShape.low_mapped (ram : Ram) (h : DirShape booted dirs ram) (d : Nat) (hd : d ∈ dirs) :
    frameAt ram d 0xc0000 ≠ none := by
  rw [h.shared d _ hd (by omega) (by omega)]
  unfold frameAt
  rw [h.target_kernel _ _ h.boot (by omega) (by omega)]
  show target (ram (kernelTable 768) 0) ≠ none
  rw [h.identity 0 (by omega), target_entry _ (by omega)]
  simp

theorem map_pages_spec (ndebug : Bool) (pf : PoolFlags) (n : Nat) (s : Mm) (v : UInt32) (lo : Nat)
    (h : Frames booted dirs [] s) (hv : v.toNat = lo * 2 ^ 12)
    (hrange : ∀ k < n, InRange pf (lo + k) ∨ lo + k = 0xc0000) :
    Spec (map_pages ndebug pf s v n)
      (fun r => Frames booted dirs [] r.2 ∧ Maps booted dirs s lo n r.2 ∧ (r.1 = false → ndebug = true) ∧
        (r.1 = true → ∀ k < n, frameAt s.ram s.dir (lo + k) = none ∧ frameAt r.2.ram s.dir (lo + k) ≠ none))
      fun _ => True := by
  induction n generalizing s v lo with
  | zero => exact ⟨h, .ram s s lo (Keeps.refl s) rfl, by simp, fun _ k hk => by omega⟩
  | succ n ih =>
    unfold map_pages
    rw [spec_bind]
    refine spec_mono _ _ _ _ _ (palloc_spec ndebug s pf h) ?_ fun _ _ => trivial
    rintro ⟨a, s₀⟩ (⟨heq, hd⟩ | ⟨p, ha, hpal⟩)
    · obtain ⟨rfl, rfl⟩ := Prod.mk.inj heq
      exact ⟨h, Maps.mono _ _ _ 0 _ (.ram _ _ lo (Keeps.refl _) rfl) (by omega), fun _ => hd, fun hf => by cases hf⟩
    · have hd₀ : s₀.dir = s.dir := hpal.keeps.dir
      obtain ⟨hp1, -⟩ := hpal.frames.layout.used_range s₀ pf p hpal.used
      have hne : a ≠ NULL := by
        rintro rfl
        have : p * 2 ^ 12 = 0 := ha.symm
        omega
      have hpage : v.toNat / 2 ^ 12 = lo := by omega
      have hself₀ := hpal.frames.spaces.selfMap _ hpal.frames.active
      simp only [hne, if_false, spec_bind]
      rcases hrange 0 (by omega) with hin | hlow
      · rw [Nat.add_zero] at hin
        obtain ⟨h1, h2⟩ := hin.bounds
        have hadd := page_table_add_spec ndebug s₀ v a p hpal.frames ha (by omega) (by omega)
          (by rw [hpage, hin.pool]; exact hpal.used)
        rw [hpage, hd₀, hpal.ram] at hadd
        refine spec_mono _ _ _ _ _ hadd ?_ fun _ _ => trivial
        rintro s₁ ⟨hfr₁, hmaps₁, hnone, hsome⟩
        have hm₁ : Maps booted dirs s lo 1 s₁ :=
          (Maps.ram s s₀ lo hpal.keeps hpal.ram).trans _ _ _ _ _ _ hmaps₁
        have hd₁ : s₁.dir = s.dir := hm₁.keeps.dir
        have hb := hrange n (by omega)
        have hv' : (v + PG_SIZE).toNat = (lo + 1) * 2 ^ 12 := by
          have : (v + PG_SIZE).toNat = v.toNat + 4096 := toNat_add_small v 4096 (by omega)
          omega
        refine spec_mono _ _ _ _ _ (ih s₁ (v + PG_SIZE) (lo + 1) hfr₁ hv' fun k hk => ?_) ?_ fun _ _ => trivial
        · have := hrange (k + 1) (by omega)
          rwa [show lo + 1 + k = lo + (k + 1) from by omega]
        · rintro ⟨done, s₂⟩ ⟨hfr₂, hmaps₂, hnd, hdone⟩
          have hm₂ := hm₁.trans _ _ _ _ _ _ hmaps₂
          rw [Nat.add_comm 1 n] at hm₂
          refine ⟨hfr₂, hm₂, hnd, fun hd k hk => ?_⟩
          by_cases hk0 : k = 0
          · subst hk0
            refine ⟨hnone, ?_⟩
            exact hmaps₂.mapped s₁ s₂ _ _ hfr₁ hfr₂ s.dir lo p h.active h1 h2 hsome
          · obtain ⟨k, rfl⟩ : ∃ j, k = j + 1 := ⟨k - 1, by omega⟩
            obtain ⟨hn, hs⟩ := hdone hd k (by omega)
            rw [hd₁, show lo + 1 + k = lo + (k + 1) from by omega] at hn hs
            refine ⟨?_, hs⟩
            by_contra hold
            obtain ⟨q, hq⟩ := Option.ne_none_iff_exists'.mp hold
            have hb : 0x8048 ≤ lo + (k + 1) ∧ lo + (k + 1) < 0xffc00 := by
              rcases hrange (k + 1) hk with hin | hlow
              · exact hin.bounds
              · omega
            exact hm₁.mapped s s₁ _ _ h hfr₁ s.dir _ q h.active hb.1 hb.2 hq hn
      · refine spec_mono _ _ _ _ _ (page_table_add_mapped ndebug s₀ v a hself₀ ?_) ?_ fun _ _ => trivial
        · rw [hpage, show lo = 0xc0000 from hlow]
          exact hpal.frames.spaces.low_mapped _ _ hpal.frames.active
        · exact fun _ hf => hf.elim

/-! ## Addresses -/

theorem set_run_test (btmp : Bitmap) (i n j : Nat) :
    bitmap_scan_test (set_run btmp i n) j = (bitmap_scan_test btmp j || decide (i ≤ j ∧ j < i + n)) := by
  induction n with
  | zero =>
    rw [set_run, show decide (i ≤ j ∧ j < i + 0) = false from decide_eq_false (by omega), Bool.or_false]
  | succ n ih =>
    rw [set_run, bitmap_set_test, ih, Bool.or_assoc]
    congr 1
    rw [← Bool.decide_or, decide_eq_decide]
    omega

theorem set_run_len (btmp : Bitmap) (i n : Nat) : (set_run btmp i n).btmp_bytes_len = btmp.btmp_bytes_len := by
  induction n with
  | zero => rfl
  | succ n ih => exact ih

theorem Frames.setVaddrs (held : List Nat) (s : Mm) (h : Frames booted dirs held s) (pf : PoolFlags) (va : VirtualAddr)
    (hstart : va.vaddr_start = (s.vaddrs pf).vaddr_start)
    (hlen : va.vaddr_bitmap.btmp_bytes_len = (s.vaddrs pf).vaddr_bitmap.btmp_bytes_len) :
    Frames booted dirs held (s.setVaddrs pf va) := by
  cases pf with
  | PF_KERNEL =>
    refine { h with layout := { h.layout with heap := ?_ } }
    show va.vaddr_start = _ ∧ va.vaddr_bitmap.btmp_bytes_len < 4096
    rw [hstart, hlen]
    exact h.layout.heap
  | PF_USER =>
    refine { h with layout := { h.layout with user := fun t => ?_ } }
    have hcur := h.layout.user s.cur
    show (Function.update s.userprog_vaddr s.cur va t).vaddr_bitmap.btmp_bytes_len = 0 ∨
      (Function.update s.userprog_vaddr s.cur va t).vaddr_start = _ ∧
        (Function.update s.userprog_vaddr s.cur va t).vaddr_bitmap.btmp_bytes_len = _
    by_cases ht : t = s.cur
    · subst ht
      rw [Function.update_self, hstart, hlen]
      exact hcur
    · rw [Function.update_of_ne ht]
      exact h.layout.user t

theorem Layout.page_range (s : Mm) (h : Layout s) (pf : PoolFlags) (n i : Nat)
    (hrun : ClearRun (s.vaddrs pf).vaddr_bitmap n i) (hn : 0 < n) :
    ∃ lo, ((s.vaddrs pf).vaddr_start + UInt32.ofNat i * PG_SIZE).toNat = lo * 2 ^ 12 ∧ 0x8048 ≤ lo ∧
      ∀ k < n, InRange pf (lo + k) ∨ lo + k = 0xc0000 := by
  have hin := hrun.inside
  have hone := hrun.one
  have hi : i < 2 ^ 20 := by
    cases pf with
    | PF_KERNEL =>
      have := h.heap.2
      simp only [Mm.vaddrs] at hin
      omega
    | PF_USER =>
      have := h.user s.cur
      simp only [Mm.vaddrs, user_bytes_len] at hin this
      omega
  have hmul : (UInt32.ofNat i * PG_SIZE).toNat = i * 2 ^ 12 := by
    rw [UInt32.toNat_mul, UInt32.toNat_ofNat_of_lt' (by show i < 2 ^ 32; omega)]
    show i * 4096 % 2 ^ 32 = _
    omega
  cases pf with
  | PF_KERNEL =>
    have hlen := h.heap.2
    simp only [Mm.vaddrs] at hin
    refine ⟨0xc0100 + i, ?_, by omega, fun k hk => .inl ⟨by omega, by omega⟩⟩
    rw [UInt32.toNat_add, hmul, show s.vaddrs .PF_KERNEL = s.kernel_vaddr from rfl, h.heap.1]
    show (0xc0100000 + i * 2 ^ 12) % 2 ^ 32 = _
    omega
  | PF_USER =>
    simp only [Mm.vaddrs] at hin hone
    obtain ⟨hstart, hlen⟩ : (s.userprog_vaddr s.cur).vaddr_start = USER_VADDR_START ∧
        (s.userprog_vaddr s.cur).vaddr_bitmap.btmp_bytes_len = user_bytes_len := by
      rcases h.user s.cur with h0 | hu
      · omega
      · exact hu
    unfold user_bytes_len at hlen
    refine ⟨0x8048 + i, ?_, by omega, fun k hk => ?_⟩
    · rw [UInt32.toNat_add, hmul, show s.vaddrs .PF_USER = s.userprog_vaddr s.cur from rfl, hstart]
      show (0x8048000 + i * 2 ^ 12) % 2 ^ 32 = _
      omega
    · simp only [InRange]
      omega

theorem vaddr_get_spec (ndebug : Bool) (s : Mm) (pf : PoolFlags) (n : Nat) (hn : 0 < n)
    (h : Frames booted dirs [] s) :
    Spec (vaddr_get ndebug s pf n)
      (fun r => r = (NULL, s) ∧ bitmap_scan ndebug (s.vaddrs pf).vaddr_bitmap n = .ok none ∨
        ∃ lo i, r.1.toNat = lo * 2 ^ 12 ∧ 0x8048 ≤ lo ∧
        (∀ k < n, InRange pf (lo + k) ∨ lo + k = 0xc0000) ∧ ClearRun (s.vaddrs pf).vaddr_bitmap n i ∧
        r.2 = s.setVaddrs pf { s.vaddrs pf with vaddr_bitmap := set_run (s.vaddrs pf).vaddr_bitmap i n })
      fun _ => True := by
  have hspec := bitmap_scan_spec ndebug (s.vaddrs pf).vaddr_bitmap n
  unfold vaddr_get
  simp only [spec_bind]
  generalize hscan : bitmap_scan ndebug (s.vaddrs pf).vaddr_bitmap n = scan at hspec ⊢
  rcases scan with _ | _ | i
  · trivial
  · exact .inl ⟨rfl, rfl⟩
  · have hclear := hspec.1 i rfl
    rw [spec_ok]
    obtain ⟨lo, hv, hlo, hrange⟩ := h.layout.page_range s pf n i hclear hn
    cases pf with
    | PF_KERNEL => exact .inr ⟨lo, i, hv, hlo, hrange, hclear, rfl⟩
    | PF_USER =>
      simp only [if_true, spec_bind, spec_ASSERT_in]
      exact ⟨fun _ => .inr ⟨lo, i, hv, hlo, hrange, hclear, rfl⟩, fun _ _ => trivial⟩

end OsLearn
