import OsLearn.Memory.Failure

/-!
# Contents: what the allocation functions do to the frames that are no tables

They write to directories and tables, and they zero the pages that they give. Nothing else changes.
-/

namespace OsLearn

variable {booted : Nat → Prop} {dirs : List Nat}

/-- Only frames that are tables afterwards have been written to. -/
def Leaves (dirs : List Nat) (s s' : Mm) : Prop := ∀ g, ¬ IsTable dirs s'.ram g → s'.ram g = s.ram g

theorem Leaves.of_ram (s s' : Mm) (h : s'.ram = s.ram) : Leaves dirs s s' := fun g _ => congrFun h g

/-- A table stays a table. -/
theorem Frames.isTable_mono (held held' : List Nat) (s s' : Mm) (h : Frames booted dirs held s)
    (h' : Frames booted dirs held' s') (hold : ∀ q r, HasRole booted dirs s.ram q r → HasRole booted dirs s'.ram q r)
    (t : Nat) (ht : IsTable dirs s.ram t) : IsTable dirs s'.ram t := by
  rcases ht with hd | ⟨d, hd, i, h1, h2, htab⟩
  · exact .inl hd
  · refine .inr ⟨d, hd, i, h1, h2, ?_⟩
    rcases h.spaces.table_range d i t hd h1 h2 htab with ⟨hi, heq⟩ | ⟨-, -, hr⟩
    · rw [heq]
      exact h'.spaces.target_kernel d i hd hi h2
    · obtain ⟨-, -, -, htab'⟩ := hold _ _ hr
      exact htab'

theorem Leaves.trans (s s₁ s₂ : Mm) (h : Leaves dirs s s₁) (h' : Leaves dirs s₁ s₂)
    (hmono : ∀ t, IsTable dirs s₁.ram t → IsTable dirs s₂.ram t) : Leaves dirs s s₂ := by
  intro g hg
  rw [h' g hg, h g fun ht => hg (hmono g ht)]

/-! ## `page_table_add` -/

theorem Leaves.store_table (s : Mm) (d i t j : Nat) (w : UInt32) (hd : d ∈ dirs) (h1 : 32 ≤ i) (h2 : i < 1023)
    (ht : target (s.ram d i) = some t) (hnd : t ∉ dirs) : Leaves dirs s (s.withRam (s.ram.set t j w)) := by
  intro g hg
  have hdt : d ≠ t := fun heq => hnd (heq ▸ hd)
  refine Ram.set_of_ne _ _ _ _ _ fun heq => hg (.inr ⟨d, hd, i, h1, h2, ?_⟩)
  rw [heq, s.withRam_ram, Ram.set_of_ne _ _ _ _ _ hdt, ht]

theorem Leaves.new_table (s s' : Mm) (i t : Nat) (e : UInt32) (hd : s.dir ∈ dirs) (h1 : 32 ≤ i) (h2 : i < 1023)
    (hs' : s' = s.withRam ((s.ram.set s.dir i e).zero t)) (ht : target (s'.ram s.dir i) = some t) :
    Leaves dirs s s' := by
  intro g hg
  have hgt : g ≠ t := fun heq => hg (.inr ⟨_, hd, i, h1, h2, heq ▸ ht⟩)
  have hgd : g ≠ s.dir := fun heq => hg (.inl (heq ▸ hd))
  rw [hs', s.withRam_ram, Ram.zero_of_ne _ _ _ hgt, Ram.set_of_ne _ _ _ _ _ hgd]

theorem page_table_add_leaves (ndebug : Bool) (s : Mm) (v a : UInt32) (p : Nat) (h : Frames booted dirs [p] s)
    (h1 : 0x8048 ≤ v.toNat / 2 ^ 12) (h2 : v.toNat / 2 ^ 12 < 0xffc00) :
    Spec (page_table_add ndebug s v a) (Leaves dirs s) fun _ => True := by
  have hself := h.spaces.selfMap s.dir h.active
  unfold page_table_add
  simp only [spec_bind, s.load_pde v hself, spec_ok, and_one_iff]
  cases hpde : target (s.ram s.dir (v.toNat / 2 ^ 22)) with
  | some t =>
    have hnd := h.spaces.table_not_dir s.dir _ t h.active (by omega) (by omega) hpde
    rw [if_pos (by simp)]
    simp only [spec_bind, spec_ASSERT_in, s.load_pte v hself t hpde, spec_ok]
    refine ⟨fun _ => ?_, fun _ _ => trivial⟩
    split
    · trivial
    · rw [spec_bind, spec_pure, s.store_pte v hself t hpde, spec_ok]
      exact Leaves.store_table s s.dir _ t _ _ h.active (by omega) (by omega) hpde hnd
  | none =>
    have hlow : v.toNat / 2 ^ 22 < 768 := by
      by_contra hge
      rw [h.spaces.target_kernel s.dir _ h.active (by omega) (by omega)] at hpde
      cases hpde
    rw [if_neg (by simp)]
    simp only [spec_bind]
    refine spec_mono _ _ _ _ _ (palloc_spec ndebug s .PF_KERNEL h) ?_ fun _ _ => trivial
    rintro ⟨b, s₀⟩ (⟨heq, -⟩ | ⟨t, hb, hpal⟩)
    · obtain ⟨rfl, rfl⟩ := Prod.mk.inj heq
      obtain ⟨s₁, h₁, h₂⟩ := s₀.store_table v 0 hself (by omega) (by omega)
      rw [or_PG_ATTR NULL 0 rfl]
      simp only [h₁, spec_ok, h₂]
      trivial
    · have hd₀ : s₀.dir = s.dir := hpal.keeps.dir
      have hself₀ := hpal.frames.spaces.selfMap _ hpal.frames.active
      obtain ⟨ht1, ht2⟩ := hpal.frames.layout.used_range s₀ .PF_KERNEL t hpal.used
      have htp : t ≠ p := fun heq => hpal.fresh (heq ▸ List.mem_singleton_self _)
      obtain ⟨s₁, h₁, h₂⟩ := s₀.store_table v t hself₀ (by omega) ht2
      obtain ⟨hfr, hmaps, htab, -, -⟩ := hpal.frames.new_table s₀ v p t htp h1 hlow (by rw [hpal.ram, hd₀, hpde])
        hpal.used _ rfl
      rw [if_neg (by omega)] at h₂
      simp only [or_PG_ATTR b t hb, h₁, spec_ok, h₂, spec_ASSERT_in, spec_pure]
      have hleave₁ := Leaves.new_table s₀ _ (v.toNat / 2 ^ 22) t (entry t) hpal.frames.active (by omega) (by omega) rfl htab
      generalize s₀.withRam _ = s₂ at *
      have hd₂ : s₂.dir = s₀.dir := hmaps.keeps.dir
      have hself₂ := hfr.spaces.selfMap _ hfr.active
      rw [← hd₂] at htab
      have hnd := hfr.spaces.table_not_dir s₂.dir _ t hfr.active (by omega) (by omega) htab
      have hleave₂ := fun w => Leaves.store_table s₂ s₂.dir _ t (v.toNat / 2 ^ 12 % 2 ^ 10) w hfr.active (by omega)
        (by omega) htab hnd
      rw [s₂.load_pte v hself₂ t htab, spec_ok, s₂.store_pte v hself₂ t htab, spec_ok]
      refine ⟨fun _ g hg => ?_, fun _ _ => trivial⟩
      have hsame : ∀ d ∈ dirs, s₂.ram.set t (v.toNat / 2 ^ 12 % 2 ^ 10) (a ||| PG_ATTR) d = s₂.ram d :=
        fun d hd => Ram.set_of_ne _ _ _ _ _ fun heq => hnd (heq ▸ hd)
      rw [hleave₂ _ g hg, hleave₁ g fun ht => hg ((IsTable.congr _ _ hsame g).mpr ht), hpal.ram]

/-! ## `malloc_page` -/

theorem map_pages_leaves (ndebug : Bool) (pf : PoolFlags) (n : Nat) (s : Mm) (v : UInt32) (lo : Nat)
    (h : Frames booted dirs [] s) (hv : v.toNat = lo * 2 ^ 12)
    (hrange : ∀ k < n, InRange pf (lo + k) ∨ lo + k = 0xc0000) :
    Spec (map_pages ndebug pf s v n) (fun r => Leaves dirs s r.2) fun _ => True := by
  induction n generalizing s v lo with
  | zero => exact .of_ram s s rfl
  | succ n ih =>
    unfold map_pages
    rw [spec_bind]
    refine spec_mono _ _ _ _ _ (palloc_spec ndebug s pf h) ?_ fun _ _ => trivial
    rintro ⟨a, s₀⟩ (⟨heq, -⟩ | ⟨p, ha, hpal⟩)
    · obtain ⟨rfl, rfl⟩ := Prod.mk.inj heq
      exact .of_ram _ _ rfl
    · have hpage : v.toNat / 2 ^ 12 = lo := by omega
      have hself₀ := hpal.frames.spaces.selfMap _ hpal.frames.active
      dsimp only
      split
      · exact .of_ram _ _ hpal.ram
      rw [spec_bind]
      rcases hrange 0 (by omega) with hin | hlow
      · rw [Nat.add_zero] at hin
        obtain ⟨h1, h2⟩ := hin.bounds
        have hadd := spec_and _ _ _ _ _
          (page_table_add_spec ndebug s₀ v a p hpal.frames ha (by omega) (by omega) (by rw [hpage, hin.pool]; exact hpal.used))
          (page_table_add_leaves ndebug s₀ v a p hpal.frames (by omega) (by omega))
        refine spec_mono _ _ _ _ _ hadd ?_ fun _ _ => trivial
        rintro s₁ ⟨⟨hfr₁, -, -, -⟩, hleave₁⟩
        have hb := hrange n (by omega)
        have hv' : (v + PG_SIZE).toNat = (lo + 1) * 2 ^ 12 := by
          have : (v + PG_SIZE).toNat = v.toNat + 4096 := toNat_add_small v 4096 (by omega)
          omega
        have hrange' : ∀ k < n, InRange pf (lo + 1 + k) ∨ lo + 1 + k = 0xc0000 := by
          intro k hk
          rw [show lo + 1 + k = lo + (k + 1) from by omega]
          exact hrange (k + 1) (by omega)
        have hrest := spec_and _ _ _ _ _ (map_pages_spec ndebug pf n s₁ (v + PG_SIZE) (lo + 1) hfr₁ hv' hrange')
          (ih s₁ (v + PG_SIZE) (lo + 1) hfr₁ hv' hrange')
        refine spec_mono _ _ _ _ _ hrest ?_ fun _ _ => trivial
        rintro ⟨done, s₂⟩ ⟨⟨hfr₂, hmaps₂, -⟩, hleave₂⟩
        have hleave := hleave₁.trans s₀ s₁ s₂ hleave₂ (hfr₁.isTable_mono _ _ s₁ s₂ hfr₂ hmaps₂.old)
        intro g hg
        rw [hleave g hg, hpal.ram]
      · refine spec_mono _ _ _ _ _ (page_table_add_mapped ndebug s₀ v a hself₀ ?_) ?_ fun _ _ => trivial
        · rw [hpage, show lo = 0xc0000 from hlow]
          exact hpal.frames.spaces.low_mapped _ _ hpal.frames.active
        · exact fun _ hf => hf.elim

theorem malloc_page_leaves (ndebug : Bool) (s : Mm) (pf : PoolFlags) (n : Nat) (hn : 0 < n)
    (h : Frames booted dirs [] s) :
    Spec (malloc_page ndebug s pf n) (fun r => Leaves dirs s r.2) fun _ => True := by
  unfold malloc_page
  simp only [spec_bind, spec_ASSERT_in]
  refine ⟨fun _ => ?_, fun _ _ => trivial⟩
  refine spec_mono _ _ _ _ _ (vaddr_get_spec ndebug s pf n hn h) ?_ fun _ _ => trivial
  rintro ⟨v, s₀⟩ (⟨heq, -⟩ | ⟨lo, i, hv, hlo, hrange, -, hs₀⟩)
  · obtain ⟨rfl, rfl⟩ := Prod.mk.inj heq
    exact .of_ram _ _ rfl
  · dsimp only at hv hs₀ ⊢
    have hne : v ≠ NULL := by
      rintro rfl
      have : lo * 2 ^ 12 = 0 := hv.symm
      omega
    have hfr₀ : Frames booted dirs [] s₀ := by
      rw [hs₀]
      exact h.setVaddrs [] s pf _ rfl (set_run_len _ _ _)
    rw [if_neg hne, spec_bind]
    refine spec_mono _ _ _ _ _ (map_pages_leaves ndebug pf n s₀ v lo hfr₀ hv hrange) ?_ fun _ _ => trivial
    rintro ⟨done, s₁⟩ hleave
    have hram : s₀.ram = s.ram := by rw [hs₀, setVaddrs_ram]
    have hleave' : Leaves dirs s s₁ := fun g hg => (hleave g hg).trans (congrFun hram g)
    cases done with
    | false => exact hleave'
    | true => exact hleave'

/-! ## The pages that are given -/

/-- A page that is new in directory `d` has its role from now on. -/
theorem Frames.role_of_new (dirs' : List Nat) (s s' : Mm) (h : Frames booted dirs [] s) (h' : Frames booted dirs' [] s')
    (d w g : Nat) (hd : d ∈ dirs) (hd' : d ∈ dirs') (h1 : 0x8048 ≤ w) (h2 : w < 0xffc00)
    (hnone : frameAt s.ram d w = none) (hsome : frameAt s'.ram d w = some g) :
    HasRole booted dirs' s'.ram g (pageRole d w) := by
  refine (h'.spaces.hasRole_page d w g hd' h1 h2).mpr ⟨?_, hsome⟩
  rintro ⟨hhigh, hb⟩
  refine (h.spaces.mapped _ hb).2.2 ?_
  rw [← h.spaces.shared d w hd hhigh h2, hnone]

theorem memset_zero_others (n : Nat) (s : Mm) (v : UInt32) (lo : Nat) (h : Frames booted dirs [] s)
    (hv : v.toNat = lo * 2 ^ 12) (hlo : 0x8048 ≤ lo) (hhi : lo + n ≤ 0xffc00)
    (hpage : ∀ k < n, ∀ f, frameAt s.ram s.dir (lo + k) = some f → ¬ IsTable dirs s.ram f) :
    Spec (s.memset_zero v n)
      (fun s' => ∀ g, (∀ k < n, frameAt s.ram s.dir (lo + k) ≠ some g) → s'.ram g = s.ram g) fun _ => True := by
  induction n generalizing s v lo with
  | zero => exact fun _ _ => rfl
  | succ n ih =>
    unfold Mm.memset_zero
    have hw : walk s.ram s.dir v = frameAt s.ram s.dir lo := by
      rw [walk_eq]
      congr 1
      omega
    rw [hw]
    cases hf : frameAt s.ram s.dir lo with
    | none => trivial
    | some f =>
      dsimp only
      split
      · trivial
      · have hag : ∀ t, IsTable dirs s.ram t → s.ram.zero f t = s.ram t := by
          intro t ht
          exact Ram.zero_of_ne _ _ _ fun heq => hpage 0 (by omega) f hf (heq ▸ ht)
        obtain ⟨hfr₁, -, hframe⟩ := h.agree [] s _ hag
        have htab := IsTable.congr s.ram (s.ram.zero f) fun d hd => hag d (.inl hd)
        have hnext : ∀ k < n, frameAt (s.ram.zero f) s.dir (lo + 1 + k) = frameAt s.ram s.dir (lo + (k + 1)) := by
          intro k hk
          rw [hframe s.dir h.active _ (by omega) (by omega), Nat.add_assoc, Nat.add_comm 1 k]
        have hv' : (v + PG_SIZE).toNat = (lo + 1) * 2 ^ 12 := by
          have : (v + PG_SIZE).toNat = v.toNat + 4096 := toNat_add_small v 4096 (by omega)
          omega
        refine spec_mono _ _ _ _ _ (ih (s.withRam (s.ram.zero f)) (v + PG_SIZE) (lo + 1) hfr₁ hv' (by omega)
          (by omega) fun k hk g hg => ?_) ?_ fun _ _ => trivial
        · rw [s.withRam_ram, s.withRam_dir, hnext k hk] at hg
          exact fun ht => hpage (k + 1) (by omega) g hg ((htab g).mp ht)
        · intro s' hothers g hg
          have hgf : g ≠ f := by
            rintro rfl
            exact hg 0 (by omega) hf
          rw [hothers g, s.withRam_ram, Ram.zero_of_ne _ _ _ hgf]
          intro k hk
          rw [s.withRam_ram, s.withRam_dir, hnext k hk]
          exact hg (k + 1) (by omega)

/-- A frame that is no table keeps its contents, or it backs a new page of the active directory, that is
one of `given`, and it is zero. -/
def ZeroesNew (dirs : List Nat) (given : Nat → Prop) (s s' : Mm) : Prop :=
  ∀ g, ¬ IsTable dirs s'.ram g → s'.ram g = s.ram g ∨
    ∃ w, given w ∧ frameAt s.ram s.dir w = none ∧ frameAt s'.ram s.dir w = some g ∧ ∀ i, s'.ram g i = 0

theorem Leaves.zeroesNew (given : Nat → Prop) (s s' : Mm) (h : Leaves dirs s s') : ZeroesNew dirs given s s' :=
  fun g hg => .inl (h g hg)

theorem ZeroesNew.mono (given given' : Nat → Prop) (s s' : Mm) (h : ZeroesNew dirs given s s')
    (hg : ∀ w, given w → given' w) : ZeroesNew dirs given' s s' := by
  intro g hnt
  rcases h g hnt with hsame | ⟨w, hw, hnew⟩
  · exact .inl hsame
  · exact .inr ⟨w, hg w hw, hnew⟩

/-- What is zeroed after a request has its pages from it. -/
theorem Request.memset_zeroes (ndebug : Bool) (pf : PoolFlags) (s : Mm) (n : Nat) (v : UInt32) (s' : Mm)
    (hf : Frames booted dirs [] s) (hn : 0 < n) (hreq : Request booted dirs ndebug pf s n (v, s'))
    (hal : v.toNat % 2 ^ 12 = 0) (hne : v ≠ NULL) (hz : ZeroesNew dirs (InRange pf) s s') :
    Spec (s'.memset_zero v n)
      (fun s'' => ZeroesNew dirs (InRange pf) s s'' ∧
        ∀ k < n, ∀ f, frameAt s''.ram s.dir (v.toNat / 2 ^ 12 + k) = some f → ∀ i, s''.ram f i = 0) fun _ => True := by
  obtain ⟨hf', lo, hg, ⟨hnull, -⟩ | ⟨hlo, hge, hret⟩⟩ := hreq
  · exact absurd hnull hne
  · dsimp only at hf' hlo hg hret
    have hd : s'.dir = s.dir := by
      unfold Mm.dir
      rw [hg.cr3]
    have htop := ((hret.range (n - 1) (by omega)).bounds).2
    have hnt : ∀ k < n, ∀ f, frameAt s'.ram s'.dir (lo + k) = some f → ¬ IsTable dirs s'.ram f := by
      rw [hd]
      exact fun k hk f hp => (hret.not_table s s' pf lo n hg hf hf' k f hk hp).2
    have hspec := spec_and _ _ _ _ _ (memset_zero_spec n s' v lo hf' (by omega) hge (by omega) hnt)
      (memset_zero_others n s' v lo hf' (by omega) hge (by omega) hnt)
    refine spec_mono _ _ _ _ _ hspec ?_ fun _ _ => trivial
    rintro s'' ⟨⟨ram', rfl, hag, -, hzero⟩, hothers⟩
    rw [hd] at hzero hothers
    rw [s'.withRam_ram] at hothers ⊢
    obtain ⟨-, -, hframe⟩ := hf'.agree [] s' ram' hag
    have hsame : ∀ k < n, frameAt ram' s.dir (lo + k) = frameAt s'.ram s.dir (lo + k) := by
      intro k hk
      obtain ⟨h1, h2⟩ := (hret.range k hk).bounds
      exact hframe s.dir hf.active _ h1 h2
    have htab := IsTable.congr s'.ram ram' fun d hd => hag d (.inl hd)
    refine ⟨fun g hgt => ?_, fun k hk f hp => ?_⟩
    · by_cases hpage : ∃ k < n, frameAt s'.ram s.dir (lo + k) = some g
      · obtain ⟨k, hk, hp⟩ := hpage
        refine .inr ⟨lo + k, hret.range k hk, hret.before k hk, ?_, hzero k hk g hp⟩
        rw [s'.withRam_ram, hsame k hk, hp]
      · have hkeep := hothers g fun k hk hp => hpage ⟨k, hk, hp⟩
        rw [s'.withRam_ram] at hgt ⊢
        rcases hz g fun ht => hgt ((htab g).mpr ht) with hold | ⟨w, hw, hnone, hsome, hzero'⟩
        · exact .inl (hkeep.trans hold)
        · obtain ⟨h1, h2⟩ := hw.bounds
          refine .inr ⟨w, hw, hnone, ?_, fun i => ?_⟩
          · rw [hframe s.dir hf.active w h1 h2, hsome]
          · rw [hkeep, hzero' i]
    · rw [hlo, hsame k hk] at hp
      exact hzero k hk f hp

/-! ## The requests -/

theorem get_kernel_pages_zeroes (ndebug : Bool) (s : Mm) (n : Nat) (hn : 0 < n) (h : Frames booted dirs [] s) :
    Spec (get_kernel_pages ndebug s n) (fun r => ZeroesNew dirs (InRange .PF_KERNEL) s r.2) fun _ => True := by
  unfold get_kernel_pages
  rw [spec_bind]
  refine spec_mono _ _ _ _ _ (spec_and _ _ _ _ _ (malloc_page_spec ndebug s .PF_KERNEL n hn h)
    (malloc_page_leaves ndebug s .PF_KERNEL n hn h)) ?_ fun _ _ => trivial
  rintro ⟨v, s'⟩ ⟨⟨hreq, hal, -⟩, hleave⟩
  dsimp only at hal hleave ⊢
  have hz := hleave.zeroesNew (InRange .PF_KERNEL) s s'
  split
  · rename_i hne
    rw [spec_bind]
    exact spec_mono _ _ _ _ _ (hreq.memset_zeroes ndebug _ s n v s' h hn hal hne hz) (fun _ hr => hr.1) fun _ _ => trivial
  · exact hz

theorem user_pages_zeroes (ndebug : Bool) (s : Mm) (n : Nat) (hn : 0 < n) (h : Frames booted dirs [] s) :
    Spec (user_pages ndebug s n)
      (fun r => ZeroesNew dirs (InRange .PF_USER) s r.2 ∧
        ∀ k < n, ∀ f, frameAt r.2.ram s.dir (r.1.toNat / 2 ^ 12 + k) = some f → ∀ i, r.2.ram f i = 0)
      fun _ => True := by
  unfold user_pages
  rw [spec_bind]
  refine spec_mono _ _ _ _ _ (spec_and _ _ _ _ _ (malloc_page_spec ndebug s .PF_USER n hn h)
    (malloc_page_leaves ndebug s .PF_USER n hn h)) ?_ fun _ _ => trivial
  rintro ⟨v, s'⟩ ⟨⟨hreq, hal, -⟩, hleave⟩
  dsimp only at hal hleave ⊢
  rw [spec_bind]
  by_cases hne : v = NULL
  · subst hne
    exact spec_mono _ _ _ _ _ (memset_null s' n hn hreq.1) (fun _ hf => hf.elim) fun _ _ => trivial
  · exact spec_mono _ _ _ _ _ (hreq.memset_zeroes ndebug _ s n v s' h hn hal hne (hleave.zeroesNew _ s s'))
      (fun _ hr => hr) fun _ _ => trivial

theorem a_page_leaves (ndebug : Bool) (s : Mm) (pf : PoolFlags) (v : UInt32) (hc : (s.vaddrs pf).covers v)
    (h : Frames booted dirs [] s) : Spec (a_page ndebug s pf v) (fun r => Leaves dirs s r.2.2) fun _ => True := by
  have hin := h.layout.covers s pf v hc
  obtain ⟨h1, h2⟩ := hin.bounds
  unfold a_page
  dsimp only
  split
  · simp only [spec_bind, spec_ASSERT_in, spec_pure]
    refine ⟨fun _ => ?_, fun _ _ => trivial⟩
    obtain ⟨va, hva⟩ : ∃ va : VirtualAddr, va =
      { s.vaddrs pf with
        vaddr_bitmap := bitmap_set (s.vaddrs pf).vaddr_bitmap ((v - (s.vaddrs pf).vaddr_start) / PG_SIZE).toNat true } :=
      ⟨_, rfl⟩
    have hfr₀ : Frames booted dirs [] (s.setVaddrs pf va) := by
      rw [hva]
      exact h.setVaddrs [] s pf _ rfl rfl
    have hram₀ := setVaddrs_ram s pf va
    rw [← hva]
    refine spec_mono _ _ _ _ _ (palloc_spec ndebug _ pf hfr₀) ?_ fun _ _ => trivial
    rintro ⟨a, s₀⟩ (⟨heq, -⟩ | ⟨p, -, hpal⟩)
    · obtain ⟨rfl, rfl⟩ := Prod.mk.inj heq
      exact .of_ram _ _ hram₀
    · dsimp only
      split
      · exact .of_ram _ _ (hpal.ram.trans hram₀)
      · rw [spec_bind]
        refine spec_mono _ _ _ _ _ (page_table_add_leaves ndebug s₀ v a p hpal.frames h1 h2) ?_ fun _ _ => trivial
        intro s₁ hleave g hg
        rw [hleave g hg, hpal.ram, hram₀]
  · trivial

theorem get_user_pages_zeroes (ndebug : Bool) (s : Mm) (n : Nat) (hn : 0 < n) (h : Frames booted dirs [] s) :
    Spec (get_user_pages ndebug s n)
      (fun r => ZeroesNew dirs (InRange .PF_USER) s r.2 ∧
        ∀ k < n, ∀ f, frameAt r.2.ram s.dir (r.1.toNat / 2 ^ 12 + k) = some f → ∀ i, r.2.ram f i = 0)
      fun _ => True := by
  unfold get_user_pages
  rw [spec_bind]
  refine spec_mono _ _ _ _ _ (pool_acquire_spec ndebug s .PF_USER) ?_ fun _ _ => trivial
  rintro s₁ ⟨hsame, -⟩
  rw [spec_bind]
  refine spec_mono _ _ _ _ _ (user_pages_zeroes ndebug s₁ n hn (hsame.frames s s₁ h)) ?_ fun _ _ => trivial
  rintro ⟨v, s₂⟩ ⟨hz, hzero⟩
  dsimp only
  rw [spec_bind]
  refine spec_mono _ _ _ _ _ (pool_release_spec ndebug s₂ .PF_USER) ?_ fun _ _ => trivial
  intro s₃ hsame'
  rw [hsame.dir] at hzero
  refine ⟨fun g hg => ?_, fun k hk f hp => ?_⟩
  · dsimp only at hg ⊢
    rw [hsame'.ram] at hg ⊢
    rw [← hsame.ram, ← hsame.dir]
    exact hz g hg
  · dsimp only at hp ⊢
    rw [hsame'.ram] at hp ⊢
    exact hzero k hk f hp

theorem get_a_page_leaves (ndebug : Bool) (s : Mm) (pf : PoolFlags) (v : UInt32) (hc : (s.vaddrs pf).covers v)
    (h : Frames booted dirs [] s) : Spec (get_a_page ndebug s pf v) (fun r => Leaves dirs s r.2) fun _ => True := by
  unfold get_a_page
  rw [spec_bind]
  refine spec_mono _ _ _ _ _ (pool_acquire_spec ndebug s pf) ?_ fun _ _ => trivial
  rintro s₁ ⟨hsame, -⟩
  rw [← hsame.vaddrs] at hc
  rw [spec_bind]
  refine spec_mono _ _ _ _ _ (a_page_leaves ndebug s₁ pf v hc (hsame.frames s s₁ h)) ?_ fun _ _ => trivial
  rintro ⟨page, done, s₂⟩ hleave
  dsimp only at hleave ⊢
  have hleave' : Leaves dirs s s₂ := fun g hg => (hleave g hg).trans (congrFun hsame.ram g)
  cases done with
  | false => exact hleave'
  | true =>
    rw [if_pos rfl, spec_bind]
    refine spec_mono _ _ _ _ _ (pool_release_spec ndebug s₂ pf) ?_ fun _ _ => trivial
    intro s₃ hsame' g hg
    dsimp only at hg ⊢
    rw [hsame'.ram] at hg ⊢
    exact hleave' g hg

theorem create_user_vaddr_bitmap_zeroes (ndebug : Bool) (s : Mm) (t : Tid) (h : Frames booted dirs [] s) :
    Spec (create_user_vaddr_bitmap ndebug s t) (fun r => ZeroesNew dirs (InRange .PF_KERNEL) s r.2) fun _ => True := by
  have hn : 0 < (user_bytes_len + 4096 - 1) / 4096 := by decide
  unfold create_user_vaddr_bitmap
  simp only [spec_bind]
  generalize (user_bytes_len + 4096 - 1) / 4096 = n at hn
  refine spec_mono _ _ _ _ _ (spec_and _ _ _ _ _ (get_kernel_pages_spec ndebug s n hn h)
    (get_kernel_pages_zeroes ndebug s n hn h)) ?_ fun _ _ => trivial
  rintro ⟨v, s₁⟩ ⟨⟨hreq, hal, -⟩, hz⟩
  dsimp only at hal hz ⊢
  by_cases hne : v = NULL
  · subst hne
    exact spec_mono _ _ _ _ _ (memset_null s₁ n hn hreq.1) (fun _ hf => hf.elim) fun _ _ => trivial
  · exact spec_mono _ _ _ _ _ (hreq.memset_zeroes ndebug _ s n v s₁ h hn hal hne hz) (fun _ hr => hr.1) fun _ _ => trivial

/-- The new directory is a table afterwards. -/
theorem create_page_dir_zeroes (ndebug : Bool) (s : Mm) (h : Frames booted dirs [] s) :
    Spec (create_page_dir ndebug s)
      (fun r => r.1 = NULL ∧ Request booted dirs ndebug .PF_KERNEL s 1 r ∧ ZeroesNew dirs (InRange .PF_KERNEL) s r.2 ∨
        r.1 ≠ NULL ∧ ∃ f, NewDir booted dirs s r f ∧ Leaves (f :: dirs) s r.2) fun _ => True := by
  cases hget : get_kernel_pages ndebug s 1 with
  | error e =>
    unfold create_page_dir
    rw [spec_bind, hget]
    trivial
  | ok r =>
    obtain ⟨v, s₁⟩ := r
    obtain ⟨⟨hreq, -, -⟩, hz⟩ := spec_of_ok _ _ _ (spec_and _ _ _ _ _ (get_kernel_pages_spec ndebug s 1 (by omega) h)
      (get_kernel_pages_zeroes ndebug s 1 (by omega) h)) _ hget
    by_cases hne : v = NULL
    · unfold create_page_dir
      rw [spec_bind, hget, spec_ok]
      dsimp only
      rw [if_pos hne]
      exact .inl ⟨rfl, hne ▸ hreq, hz⟩
    · obtain ⟨ram, f, hok, hnew, hnd, hnt, hother⟩ := create_page_dir_fills ndebug s v s₁ h hget hne
      rw [hok]
      refine .inr ⟨hne, f, hnew, fun g hg => ?_⟩
      have hgf : g ≠ f := fun heq => hg (.inl (heq ▸ List.mem_cons_self))
      dsimp only at hz hg ⊢
      rw [s₁.withRam_ram] at hg ⊢
      have hnt₁ : ¬ IsTable dirs s₁.ram g := by
        rintro (hd | ⟨d, hd, i, h1, h2, ht⟩)
        · exact hg (.inl (List.mem_cons_of_mem _ hd))
        · refine hg (.inr ⟨d, List.mem_cons_of_mem _ hd, i, h1, h2, ?_⟩)
          rw [hother d fun heq => hnd (heq ▸ hd), ht]
      rcases hz g hnt₁ with hsame | ⟨w, hw, hnone, hsome, -⟩
      · rw [hother g hgf, hsame]
      · -- the only new page is the directory
        obtain ⟨h1, h2⟩ := hw.bounds
        obtain ⟨-, -, hframe⟩ := hreq.1.agree [] s₁ ram fun t ht => hother t fun heq => hnt (heq ▸ ht)
        have hmapped : frameAt ram s.dir w = some g := by rw [hframe s.dir h.active w h1 h2, hsome]
        have hrole := h.role_of_new dirs s _ hnew.page s.dir w g h.active h.active h1 h2 hnone hmapped
        obtain ⟨-, -, -, hf⟩ := hnew.role
        rcases hnew.grows.new g _ hrole with hold | ⟨i, heq⟩ | ⟨k, hk, heq⟩
        · rw [((h.spaces.hasRole_page s.dir w g h.active h1 h2).mp hold).2] at hnone
          cases hnone
        · exact absurd heq (pageRole_ne_table _ _ _ _)
        · obtain ⟨hkw, -⟩ := (pageRole_eq_iff _ _ _ _).mp heq
          simp only [InRange] at hw
          have hshared : frameAt ram s.dir w = frameAt ram PAGE_DIR_FRAME w :=
            hnew.page.spaces.shared s.dir w h.active hw.1 hw.2
          dsimp only at hkw hf
          rw [show v.toNat / 2 ^ 12 = w from by omega] at hf
          exact absurd (Option.some.inj ((hmapped.symm.trans hshared).trans hf)) hgf

end OsLearn
