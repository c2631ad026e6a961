import OsLearn.Memory.Pages

/-!
# Requests: `get_kernel_pages`, `get_user_pages`, `get_a_page`, `create_page_dir`

A request gives a range of pages that were not mapped before, or `NULL`.
-/

namespace OsLearn

variable {booted : Nat → Prop} {dirs : List Nat}

/-- What a request that maps pages from `lo` to `lo + n` leaves alone, and the roles that it adds. -/
structure Grows (booted : Nat → Prop) (dirs : List Nat) (s : Mm) (lo n : Nat) (s' : Mm) : Prop where
  cr3 : s'.cr3 = s.cr3
  cur : s'.cur = s.cur
  pgdir : s'.pgdir = s.pgdir
  old : ∀ q r, HasRole booted dirs s.ram q r → HasRole booted dirs s'.ram q r
  new : ∀ q r, HasRole booted dirs s'.ram q r →
    HasRole booted dirs s.ram q r ∨ (∃ i, r = .page_table s.dir i) ∨ ∃ k < n, r = pageRole s.dir (lo + k)

/-- The pages from `lo` to `lo + n` are new in the active directory. -/
structure Returned (s : Mm) (pf : PoolFlags) (lo n : Nat) (s' : Mm) : Prop where
  range : ∀ k < n, InRange pf (lo + k)
  before : ∀ k < n, frameAt s.ram s.dir (lo + k) = none
  after : ∀ k < n, frameAt s'.ram s.dir (lo + k) ≠ none

/-- The result of a request for `n` pages in `s`. -/
def Request (booted : Nat → Prop) (dirs : List Nat) (ndebug : Bool) (pf : PoolFlags) (s : Mm) (n : Nat)
    (r : UInt32 × Mm) : Prop :=
  Frames booted dirs [] r.2 ∧ ∃ lo, Grows booted dirs s lo n r.2 ∧
    (r.1 = NULL ∧ (r.2 = s ∨ ndebug = true) ∨ r.1.toNat / 2 ^ 12 = lo ∧ 0x8048 ≤ lo ∧ Returned s pf lo n r.2)

theorem Grows.refl (s : Mm) (lo n : Nat) : Grows booted dirs s lo n s :=
  ⟨rfl, rfl, rfl, fun _ _ hr => hr, fun _ _ hr => .inl hr⟩

theorem setVaddrs_ram (s : Mm) (pf : PoolFlags) (va : VirtualAddr) : (s.setVaddrs pf va).ram = s.ram := by
  cases pf <;> rfl

theorem setVaddrs_dir (s : Mm) (pf : PoolFlags) (va : VirtualAddr) : (s.setVaddrs pf va).dir = s.dir := by
  cases pf <;> rfl

theorem setVaddrs_vaddrs (s : Mm) (pf : PoolFlags) (va : VirtualAddr) : (s.setVaddrs pf va).vaddrs pf = va := by
  cases pf
  · rfl
  · exact Function.update_self _ _ _

theorem setVaddrs_pool (s : Mm) (pf : PoolFlags) (va : VirtualAddr) (pf' : PoolFlags) :
    (s.setVaddrs pf va).pool pf' = s.pool pf' := by
  cases pf <;> cases pf' <;> rfl

theorem setVaddrs_keeps (s : Mm) (pf : PoolFlags) (va : VirtualAddr) :
    (s.setVaddrs pf va).cr3 = s.cr3 ∧ (s.setVaddrs pf va).cur = s.cur ∧ (s.setVaddrs pf va).pgdir = s.pgdir := by
  cases pf <;> exact ⟨rfl, rfl, rfl⟩

theorem Maps.grows (s : Mm) (pf : PoolFlags) (va : VirtualAddr) (lo n : Nat) (s' : Mm)
    (h : Maps booted dirs (s.setVaddrs pf va) lo n s') : Grows booted dirs s lo n s' := by
  obtain ⟨h1, h2, h3⟩ := setVaddrs_keeps s pf va
  have hold := h.old
  have hnew := h.new
  rw [setVaddrs_ram] at hold hnew
  rw [setVaddrs_dir] at hnew
  exact ⟨h.keeps.cr3.trans h1, h.keeps.cur.trans h2, h.keeps.pgdir.trans h3, hold, hnew⟩

theorem malloc_page_spec (ndebug : Bool) (s : Mm) (pf : PoolFlags) (n : Nat) (hn : 0 < n)
    (h : Frames booted dirs [] s) :
    Spec (malloc_page ndebug s pf n)
      (fun r => Request booted dirs ndebug pf s n r ∧ r.1.toNat % 2 ^ 12 = 0 ∧
        (r.1 = NULL → bitmap_scan ndebug (s.vaddrs pf).vaddr_bitmap n = .ok none ∨ r.2.vaddrs pf ≠ s.vaddrs pf))
      fun _ => True := by
  unfold malloc_page
  simp only [spec_bind, spec_ASSERT_in]
  refine ⟨fun _ => ?_, fun _ _ => trivial⟩
  refine spec_mono _ _ _ _ _ (vaddr_get_spec ndebug s pf n hn h) ?_ fun _ _ => trivial
  rintro ⟨v, s₀⟩ (⟨heq, hscan⟩ | ⟨lo, i, hv, hlo, hrange, hrun, hs₀⟩)
  · obtain ⟨rfl, rfl⟩ := Prod.mk.inj heq
    exact ⟨⟨h, 0, Grows.refl _ _ _, .inl ⟨rfl, .inl rfl⟩⟩, rfl, fun _ => .inl hscan⟩
  · dsimp only at hv hs₀ ⊢
    have hne : v ≠ NULL := by
      rintro rfl
      have : lo * 2 ^ 12 = 0 := hv.symm
      omega
    have hfr₀ : Frames booted dirs [] s₀ := by
      rw [hs₀]
      exact h.setVaddrs [] s pf _ rfl (set_run_len _ _ _)
    rw [if_neg hne, spec_bind]
    refine spec_mono _ _ _ _ _ (map_pages_spec ndebug pf n s₀ v lo hfr₀ hv hrange) ?_ fun _ _ => trivial
    rintro ⟨done, s₁⟩ ⟨hfr₁, hmaps, hnd, hdone⟩
    rw [hs₀] at hmaps hdone
    have hgrows := hmaps.grows s pf _ lo n s₁
    cases done with
    | false =>
      refine ⟨⟨hfr₁, lo, hgrows, .inl ⟨rfl, .inr (hnd rfl)⟩⟩, rfl, fun _ => .inr fun hsame => ?_⟩
      -- the first bit of the run was clear, and it is set now
      have hclear := hrun.clear 0 hn
      dsimp only at hsame
      rw [hmaps.keeps.vaddrs, setVaddrs_vaddrs] at hsame
      rw [← hsame, set_run_test, Nat.add_zero, decide_eq_true (by omega), Bool.or_true] at hclear
      cases hclear
    | true =>
      refine ⟨⟨hfr₁, lo, hgrows, .inr ⟨by dsimp only; omega, hlo, ?_⟩⟩, by dsimp only; omega, fun hnull => absurd hnull hne⟩
      have hd := hdone rfl
      rw [setVaddrs_ram, setVaddrs_dir] at hd
      refine ⟨fun k hk => ?_, fun k hk => (hd k hk).1, fun k hk => (hd k hk).2⟩
      rcases hrange k hk with hin | hlow
      · exact hin
      · refine absurd (hd k hk).1 ?_
        rw [hlow]
        exact h.spaces.low_mapped _ _ h.active

/-! ## Zeroing the new pages -/

theorem Frames.agree (held : List Nat) (s : Mm) (h : Frames booted dirs held s) (ram' : Ram)
    (hag : ∀ t, IsTable dirs s.ram t → ram' t = s.ram t) :
    Frames booted dirs held (s.withRam ram') ∧
      (∀ p r, HasRole booted dirs ram' p r ↔ HasRole booted dirs s.ram p r) ∧
      ∀ d ∈ dirs, ∀ v, 0x8048 ≤ v → v < 0xffc00 → frameAt ram' d v = frameAt s.ram d v := by
  obtain ⟨hsp, hroles, hframe⟩ := h.spaces.agree ram' hag
  refine ⟨{ spaces := hsp, layout := h.layout.keeps s _ (Keeps.withRam s ram'), active := h.active, pgdir := ?_,
            used := ?_, role := ?_, held := ?_ }, hroles, hframe⟩
  · intro t ht
    obtain ⟨d, hd, v, hv, hr⟩ := h.pgdir t ht
    exact ⟨d, hd, v, hv, (hroles _ _).mpr hr⟩
  · intro p r hr
    rw [s.withRam_pool]
    exact h.used p r ((hroles p r).mp hr)
  · intro pf p hu
    rw [s.withRam_pool] at hu
    rcases h.role pf p hu with hm | ⟨r, hr⟩
    · exact .inl hm
    · exact .inr ⟨r, (hroles p r).mpr hr⟩
  · intro p hp
    obtain ⟨⟨pf, hu⟩, hno⟩ := h.held p hp
    exact ⟨⟨pf, by rw [s.withRam_pool]; exact hu⟩, fun r hr => hno r ((hroles p r).mp hr)⟩

theorem IsTable.congr (ram ram' : Ram) (h : ∀ d ∈ dirs, ram' d = ram d) (t : Nat) :
    IsTable dirs ram' t ↔ IsTable dirs ram t := by
  unfold IsTable
  refine or_congr Iff.rfl (exists_congr fun d => ?_)
  constructor
  · rintro ⟨hd, hi⟩
    exact ⟨hd, by rwa [h d hd] at hi⟩
  · rintro ⟨hd, hi⟩
    exact ⟨hd, by rwa [h d hd]⟩

theorem memset_zero_spec (n : Nat) (s : Mm) (v : UInt32) (lo : Nat) (h : Frames booted dirs [] s)
    (hv : v.toNat = lo * 2 ^ 12) (hlo : 0x8048 ≤ lo) (hhi : lo + n ≤ 0xffc00)
    (hpage : ∀ k < n, ∀ f, frameAt s.ram s.dir (lo + k) = some f → ¬ IsTable dirs s.ram f) :
    Spec (s.memset_zero v n)
      (fun s' => ∃ ram', s' = s.withRam ram' ∧ (∀ t, IsTable dirs s.ram t → ram' t = s.ram t) ∧
        (∀ f, (∀ i, s.ram f i = 0) → ∀ i, ram' f i = 0) ∧
        ∀ k < n, ∀ f, frameAt s.ram s.dir (lo + k) = some f → ∀ i, ram' f i = 0)
      fun _ => ∃ k < n, ∀ f, frameAt s.ram s.dir (lo + k) = some f → f < 0x100 := by
  induction n generalizing s v lo with
  | zero => exact ⟨s.ram, rfl, fun _ _ => rfl, fun _ hf => hf, fun k hk => by omega⟩
  | succ n ih =>
    unfold Mm.memset_zero
    have hw : walk s.ram s.dir v = frameAt s.ram s.dir lo := by
      rw [walk_eq]
      congr 1
      omega
    rw [hw]
    cases hf : frameAt s.ram s.dir lo with
    | none => exact ⟨0, by omega, fun f hf' => by rw [Nat.add_zero, hf] at hf'; cases hf'⟩
    | some f =>
      dsimp only
      split
      · rename_i hlow
        exact ⟨0, by omega, fun g hg => by rw [Nat.add_zero, hf] at hg; rwa [← Option.some.inj hg]⟩
      · have hnt := hpage 0 (by omega) f hf
        have hag : ∀ t, IsTable dirs s.ram t → s.ram.zero f t = s.ram t := by
          intro t ht
          exact Ram.zero_of_ne _ _ _ fun heq => hnt (heq ▸ ht)
        obtain ⟨hfr₁, -, hframe⟩ := h.agree [] s _ hag
        have htab := IsTable.congr s.ram (s.ram.zero f) fun d hd => hag d (.inl hd)
        have hv' : (v + PG_SIZE).toNat = (lo + 1) * 2 ^ 12 := by
          have : (v + PG_SIZE).toNat = v.toNat + 4096 := toNat_add_small v 4096 (by omega)
          omega
        refine spec_mono _ _ _ _ _ (ih (s.withRam (s.ram.zero f)) (v + PG_SIZE) (lo + 1) hfr₁ hv' (by omega)
          (by omega) fun k hk g hg => ?_) ?_ ?_
        · rw [s.withRam_ram] at hg ⊢
          rw [s.withRam_dir, hframe s.dir h.active _ (by omega) (by omega), Nat.add_assoc, Nat.add_comm 1 k] at hg
          exact fun ht => hpage (k + 1) (by omega) g hg ((htab g).mp ht)
        · rintro s' ⟨ram', rfl, hag', hz', hzero'⟩
          simp only [s.withRam_ram, s.withRam_dir, s.withRam_withRam] at hag' hz' hzero' ⊢
          have hff : ∀ i, ram' f i = 0 := hz' f fun i => Ram.zero_self _ _ _
          refine ⟨ram', rfl, fun t ht => ?_, fun g hg i => ?_, fun k hk g hg => ?_⟩
          · rw [hag' t ((htab t).mpr ht), hag t ht]
          · by_cases hgf : g = f
            · rw [hgf]
              exact hff i
            · exact hz' g (fun j => by rw [Ram.zero_of_ne _ _ _ hgf]; exact hg j) i
          · by_cases hk0 : k = 0
            · subst hk0
              rw [Nat.add_zero, hf] at hg
              rw [← Option.some.inj hg]
              exact hff
            · obtain ⟨j, rfl⟩ : ∃ j, k = j + 1 := ⟨k - 1, by omega⟩
              refine hzero' j (by omega) g ?_
              rw [hframe s.dir h.active _ (by omega) (by omega), Nat.add_assoc, Nat.add_comm 1 j]
              exact hg
        · rintro - ⟨k, hk, hlow⟩
          refine ⟨k + 1, by omega, fun g hg => hlow g ?_⟩
          rw [s.withRam_ram, s.withRam_dir, hframe s.dir h.active _ (by omega) (by omega), Nat.add_assoc,
            Nat.add_comm 1 k]
          exact hg

/-- The pages at `NULL` are not mapped, or they hold the kernel. -/
theorem memset_null (s : Mm) (n : Nat) (hn : 0 < n) (h : Frames booted dirs [] s) :
    Spec (s.memset_zero NULL n) (fun _ => False) fun _ => True := by
  obtain ⟨n, rfl⟩ : ∃ m, n = m + 1 := ⟨n - 1, by omega⟩
  unfold Mm.memset_zero
  rw [walk_eq, show NULL.toNat / 2 ^ 12 = 0 from rfl]
  cases hf : frameAt s.ram s.dir 0 with
  | none => trivial
  | some f =>
    obtain ⟨t, ht, hp⟩ := (frameAt_some _ _ _ _).mp hf
    rw [Nat.zero_div] at ht
    rw [Nat.zero_mod] at hp
    obtain ⟨hd, -⟩ := h.spaces.low s.dir h.active 0 (by omega) (by rw [ht]; simp)
    rw [hd, h.spaces.first, target_kernelTable _ (by omega)] at ht
    rw [← Option.some.inj ht, h.spaces.identity 0 (by omega), target_entry 0 (by omega)] at hp
    dsimp only
    rw [if_pos (by have := Option.some.inj hp; omega)]
    trivial

theorem Returned.role (s s' : Mm) (pf : PoolFlags) (lo n : Nat) (h : Returned s pf lo n s')
    (hf : Frames booted dirs [] s) (hf' : Frames booted dirs [] s') (k f : Nat) (hk : k < n)
    (hp : frameAt s'.ram s.dir (lo + k) = some f) : HasRole booted dirs s'.ram f (pageRole s.dir (lo + k)) := by
  obtain ⟨h1, h2⟩ := (h.range k hk).bounds
  refine (hf'.spaces.hasRole_page s.dir _ f hf.active h1 h2).mpr ⟨?_, hp⟩
  rintro ⟨hhigh, hb⟩
  refine (hf.spaces.mapped _ hb).2.2 ?_
  rw [← hf.spaces.shared s.dir _ hf.active hhigh h2]
  exact h.before k hk

/-- A page that a request has mapped is no directory and no table. -/
theorem Returned.not_table (s s' : Mm) (pf : PoolFlags) (lo n : Nat) (h : Returned s pf lo n s')
    (hg : Grows booted dirs s lo n s') (hf : Frames booted dirs [] s) (hf' : Frames booted dirs [] s') (k f : Nat)
    (hk : k < n) (hp : frameAt s'.ram s.dir (lo + k) = some f) : f ∉ dirs ∧ ¬ IsTable dirs s'.ram f := by
  obtain ⟨h1, h2⟩ := (h.range k hk).bounds
  have hbefore := h.before k hk
  have hr := h.role s s' pf lo n hf hf' k f hk hp
  have hnd : f ∉ dirs := by
    intro hmem
    rcases hf.spaces.dir_role f hmem with heq | ⟨w, hw⟩
    · have := hf'.spaces.high _ _ hr
      unfold PAGE_DIR_FRAME at heq
      omega
    · -- a directory had a role before, and it still has it
      have hrole := hf'.spaces.unique _ _ _ hr (hg.old _ _ hw)
      rw [hrole.symm, hf.spaces.hasRole_page s.dir _ f hf.active h1 h2, hbefore] at hw
      exact absurd hw.2 (by simp)
  exact ⟨hnd, hf'.spaces.page_not_table f _ _ hr hnd⟩

theorem Request.memset (ndebug : Bool) (pf : PoolFlags) (s : Mm) (n : Nat) (v : UInt32) (s' : Mm)
    (hf : Frames booted dirs [] s) (hn : 0 < n) (hreq : Request booted dirs ndebug pf s n (v, s'))
    (hal : v.toNat % 2 ^ 12 = 0) (hne : v ≠ NULL) :
    Spec (s'.memset_zero v n)
      (fun s'' => Request booted dirs ndebug pf s n (v, s'') ∧
        ∀ k < n, ∀ f, frameAt s''.ram s.dir (v.toNat / 2 ^ 12 + k) = some f → f ∉ dirs ∧ ∀ i, s''.ram f i = 0)
      fun _ => True := by
  obtain ⟨hf', lo, hg, ⟨hnull, -⟩ | ⟨hlo, hge, hret⟩⟩ := hreq
  · exact absurd hnull hne
  · dsimp only at hf' hlo hg hret
    have hd : s'.dir = s.dir := by
      unfold Mm.dir
      rw [hg.cr3]
    have htop := ((hret.range (n - 1) (by omega)).bounds).2
    refine spec_mono _ _ _ _ _ (memset_zero_spec n s' v lo hf' (by omega) hge (by omega) ?_) ?_ fun _ _ => trivial
    · rw [hd]
      exact fun k hk f hp => (hret.not_table s s' pf lo n hg hf hf' k f hk hp).2
    · rintro s'' ⟨ram', rfl, hag, -, hzero⟩
      obtain ⟨hfr, hroles, hframe⟩ := hf'.agree [] s' ram' hag
      rw [hd] at hzero
      have hsame : ∀ k < n, frameAt ram' s.dir (lo + k) = frameAt s'.ram s.dir (lo + k) := by
        intro k hk
        obtain ⟨h1, h2⟩ := (hret.range k hk).bounds
        exact hframe s.dir hf.active _ h1 h2
      refine ⟨⟨hfr, lo, ⟨hg.cr3, hg.cur, hg.pgdir, ?_, ?_⟩, .inr ⟨hlo, hge, hret.range, hret.before, ?_⟩⟩, ?_⟩
      · exact fun q r hr => (hroles q r).mpr (hg.old q r hr)
      · exact fun q r hr => hg.new q r ((hroles q r).mp hr)
      · intro k hk
        rw [s'.withRam_ram, hsame k hk]
        exact hret.after k hk
      · intro k hk f hp
        rw [s'.withRam_ram, hlo, hsame k hk] at hp
        exact ⟨(hret.not_table s s' pf lo n hg hf hf' k f hk hp).1, hzero k hk f hp⟩

/-! ## The requests -/

theorem get_kernel_pages_spec (ndebug : Bool) (s : Mm) (n : Nat) (hn : 0 < n) (h : Frames booted dirs [] s) :
    Spec (get_kernel_pages ndebug s n)
      (fun r => Request booted dirs ndebug .PF_KERNEL s n r ∧ r.1.toNat % 2 ^ 12 = 0 ∧
        (r.1 ≠ NULL → ∀ k < n, ∀ f, frameAt r.2.ram s.dir (r.1.toNat / 2 ^ 12 + k) = some f →
          f ∉ dirs ∧ ∀ i, r.2.ram f i = 0))
      fun _ => True := by
  unfold get_kernel_pages
  rw [spec_bind]
  refine spec_mono _ _ _ _ _ (malloc_page_spec ndebug s .PF_KERNEL n hn h) ?_ fun _ _ => trivial
  rintro ⟨v, s'⟩ ⟨hreq, hal, -⟩
  dsimp only at hal ⊢
  split
  · rename_i hne
    rw [spec_bind]
    refine spec_mono _ _ _ _ _ (hreq.memset ndebug _ s n v s' h hn hal hne) ?_ fun _ _ => trivial
    rintro s'' ⟨hreq', hzero⟩
    exact ⟨hreq', hal, fun _ => hzero⟩
  · rename_i hnull
    exact ⟨hreq, hal, fun hne => absurd hne hnull⟩

theorem user_pages_spec (ndebug : Bool) (s : Mm) (n : Nat) (hn : 0 < n) (h : Frames booted dirs [] s) :
    Spec (user_pages ndebug s n) (fun r => r.1 ≠ NULL ∧ Request booted dirs ndebug .PF_USER s n r) fun _ => True := by
  unfold user_pages
  rw [spec_bind]
  refine spec_mono _ _ _ _ _ (malloc_page_spec ndebug s .PF_USER n hn h) ?_ fun _ _ => trivial
  rintro ⟨v, s'⟩ ⟨hreq, hal, -⟩
  dsimp only at hal ⊢
  rw [spec_bind]
  by_cases hne : v = NULL
  · subst hne
    refine spec_mono _ _ _ _ _ (memset_null s' n hn hreq.1) ?_ fun _ _ => trivial
    exact fun _ hf => hf.elim
  · refine spec_mono _ _ _ _ _ (hreq.memset ndebug _ s n v s' h hn hal hne) ?_ fun _ _ => trivial
    rintro s'' ⟨hreq', -⟩
    exact ⟨hne, hreq'⟩

def VirtualAddr.covers (va : VirtualAddr) (v : UInt32) : Prop :=
  va.vaddr_start ≤ v ∧ (v.toNat - va.vaddr_start.toNat) / 2 ^ 12 < 8 * va.vaddr_bitmap.btmp_bytes_len

instance (va : VirtualAddr) (v : UInt32) : Decidable (va.covers v) :=
  inferInstanceAs (Decidable (_ ∧ _))

theorem Layout.covers (s : Mm) (h : Layout s) (pf : PoolFlags) (v : UInt32) (hc : (s.vaddrs pf).covers v) :
    InRange pf (v.toNat / 2 ^ 12) := by
  obtain ⟨hle, hlt⟩ := hc
  rw [UInt32.le_iff_toNat_le] at hle
  cases pf with
  | PF_KERNEL =>
    obtain ⟨hstart, hlen⟩ := h.heap
    simp only [Mm.vaddrs, hstart] at hle hlt
    change 0xc0100000 ≤ v.toNat at hle
    change (v.toNat - 0xc0100000) / 2 ^ 12 < _ at hlt
    simp only [InRange]
    omega
  | PF_USER =>
    simp only [Mm.vaddrs] at hle hlt
    rcases h.user s.cur with h0 | ⟨hstart, hlen⟩
    · omega
    · rw [hstart] at hle hlt
      rw [hlen] at hlt
      change 0x8048000 ≤ v.toNat at hle
      change (v.toNat - 0x8048000) / 2 ^ 12 < 8 * 0x16ff7 at hlt
      simp only [InRange]
      omega

theorem a_page_in_range (ndebug : Bool) (s : Mm) (pf : PoolFlags) (v : UInt32) (hin : InRange pf (v.toNat / 2 ^ 12))
    (h : Frames booted dirs [] s) :
    Spec (a_page ndebug s pf v)
      (fun r => Request booted dirs ndebug pf s 1 (r.1, r.2.2) ∧ (r.2.1 = true ↔ r.1 ≠ NULL) ∧
        (r.2.2.pool pf).lock = (s.pool pf).lock ∧ (r.1 ≠ NULL → r.1 = v) ∧ (r.1 = NULL → ndebug = true))
      fun _ => True := by
  obtain ⟨h1, h2⟩ := hin.bounds
  have hne : v ≠ NULL := by
    rintro rfl
    change 0x8048 ≤ 0 / 2 ^ 12 at h1
    omega
  unfold a_page
  dsimp only
  split
  · simp only [spec_bind, spec_ASSERT_in, spec_pure]
    refine ⟨fun _ => ?_, fun _ _ => trivial⟩
    obtain ⟨va, hva⟩ : ∃ va : VirtualAddr, va =
      { s.vaddrs pf with
        vaddr_bitmap := bitmap_set (s.vaddrs pf).vaddr_bitmap ((v - (s.vaddrs pf).vaddr_start) / PG_SIZE).toNat true } :=
      ⟨_, rfl⟩
    have hfr₀ : Frames booted dirs [] (s.setVaddrs pf va) := by
      rw [hva]
      exact h.setVaddrs [] s pf _ rfl rfl
    rw [← hva]
    refine spec_mono _ _ _ _ _ (palloc_spec ndebug _ pf hfr₀) ?_ fun _ _ => trivial
    rintro ⟨a, s₀⟩ (⟨heq, hd⟩ | ⟨p, ha, hpal⟩)
    · obtain ⟨rfl, rfl⟩ := Prod.mk.inj heq
      refine ⟨⟨hfr₀, 0, ?_, .inl ⟨rfl, .inr hd⟩⟩, by simp, by dsimp only; rw [setVaddrs_pool], fun hn => absurd rfl hn,
        fun _ => hd⟩
      exact (Maps.mono _ _ _ 0 _ (.ram _ _ 0 (Keeps.refl _) rfl) (by omega)).grows s pf va 0 1 _
    · obtain ⟨hp1, -⟩ := hpal.frames.layout.used_range s₀ pf p hpal.used
      have hane : a ≠ NULL := by
        rintro rfl
        have : p * 2 ^ 12 = 0 := ha.symm
        omega
      simp only [hane, if_false, spec_bind]
      refine spec_mono _ _ _ _ _ (page_table_add_spec ndebug s₀ v a p hpal.frames ha h1 h2
        (by rw [hin.pool]; exact hpal.used)) ?_ fun _ _ => trivial
      rintro s₁ ⟨hfr₁, hmaps, hnone, hsome⟩
      have hm := (Maps.ram _ s₀ _ hpal.keeps hpal.ram).trans _ _ _ _ _ _ hmaps
      have hd₀ : s₀.dir = s.dir := by rw [hpal.keeps.dir, setVaddrs_dir]
      rw [hpal.ram, setVaddrs_ram, hd₀] at hnone
      rw [hd₀] at hsome
      refine ⟨⟨hfr₁, _, hm.grows s pf va _ _ s₁, .inr ⟨rfl, h1, ?_, ?_, ?_⟩⟩, by simp [hne],
        by rw [hm.keeps.lock, setVaddrs_pool], fun _ => rfl, fun hnull => absurd hnull hne⟩
      · intro k hk
        rwa [show k = 0 from by omega]
      · intro k hk
        rwa [show k = 0 from by omega]
      · intro k hk
        rw [show k = 0 from by omega]
        exact Option.ne_none_iff_exists'.mpr ⟨p, hsome⟩
  · trivial

theorem a_page_spec (ndebug : Bool) (s : Mm) (pf : PoolFlags) (v : UInt32) (hc : (s.vaddrs pf).covers v)
    (h : Frames booted dirs [] s) :
    Spec (a_page ndebug s pf v)
      (fun r => Request booted dirs ndebug pf s 1 (r.1, r.2.2) ∧ (r.2.1 = true ↔ r.1 ≠ NULL) ∧
        (r.2.2.pool pf).lock = (s.pool pf).lock ∧ (r.1 = NULL → ndebug = true))
      fun _ => True := by
  refine spec_mono _ _ _ _ _ (a_page_in_range ndebug s pf v (h.layout.covers s pf v hc) h) ?_ fun _ _ => trivial
  exact fun r hr => ⟨hr.1, hr.2.1, hr.2.2.1, hr.2.2.2.2⟩

end OsLearn
