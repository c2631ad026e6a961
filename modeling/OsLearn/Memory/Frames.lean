import OsLearn.Memory.Mapping

/-!
# Frames: the bitmaps of the pools against the roles
-/

namespace OsLearn

/-! ## Memory through the window -/

namespace Mm

variable (s : Mm) (v : UInt32) (h : SelfMap s.ram s.dir)

include h

theorem load_pde : s.load (pde_ptr v) = .ok (s.ram s.dir (v.toNat / 2 ^ 22)) := by
  obtain ⟨hw, hi⟩ := walk_pde_ptr s.ram s.dir v h
  unfold Mm.load
  rw [hw, hi]

theorem store_pde (w : UInt32) :
    s.store (pde_ptr v) w = .ok (s.withRam (s.ram.set s.dir (v.toNat / 2 ^ 22) w)) := by
  obtain ⟨hw, hi⟩ := walk_pde_ptr s.ram s.dir v h
  unfold Mm.store
  rw [hw, hi]

variable (t : Nat) (ht : target (s.ram s.dir (v.toNat / 2 ^ 22)) = some t)

include ht

theorem walk_pte : walk s.ram s.dir (pte_ptr v) = some t ∧ wordOf (pte_ptr v) = v.toNat / 2 ^ 12 % 2 ^ 10 := by
  have hp : present (s.ram s.dir (v.toNat / 2 ^ 22)) = true := by rw [present_eq, ht, Option.isSome_some]
  obtain ⟨hw, hi⟩ := walk_pte_ptr s.ram s.dir v h hp
  exact ⟨by rw [hw, frameOf_of_target _ _ ht], hi⟩

theorem load_pte : s.load (pte_ptr v) = .ok (s.ram t (v.toNat / 2 ^ 12 % 2 ^ 10)) := by
  obtain ⟨hw, hi⟩ := s.walk_pte v h t ht
  unfold Mm.load
  rw [hw, hi]

theorem store_pte (w : UInt32) :
    s.store (pte_ptr v) w = .ok (s.withRam (s.ram.set t (v.toNat / 2 ^ 12 % 2 ^ 10) w)) := by
  obtain ⟨hw, hi⟩ := s.walk_pte v h t ht
  unfold Mm.store
  rw [hw, hi]

theorem memset_table :
    s.memset_zero (pte_ptr v &&& 0xfffff000) 1 =
      if t < 0x100 then PANIC .kernel_image else .ok (s.withRam (s.ram.zero t)) := by
  have hpage : walk s.ram s.dir (pte_ptr v &&& 0xfffff000) = some t := by
    rw [← (s.walk_pte v h t ht).1, walk_eq, walk_eq, u32_and_page]
    congr 1
    omega
  simp only [memset_zero, hpage]

end Mm

theorem and_one_iff (e : UInt32) : e &&& 1 ≠ 0 ↔ target e ≠ none := by
  rw [← present_iff, present_eq]
  cases target e <;> simp

theorem or_PG_ATTR (a : UInt32) (p : Nat) (h : a.toNat = p * 2 ^ 12) : a ||| PG_ATTR = entry p := by
  unfold entry
  rw [← h, UInt32.ofNat_toNat]

/-! ## The pools -/

def Role.pool : Role → PoolFlags
  | .user_page _ _ => .PF_USER
  | .kernel_page _ | .page_table _ _ => .PF_KERNEL

def Pool.first (m_pool : Pool) : Nat := m_pool.phy_addr_start.toNat / 2 ^ 12

def Pool.Used (m_pool : Pool) (p : Nat) : Prop :=
  ∃ i < 8 * m_pool.pool_bitmap.btmp_bytes_len, p = m_pool.first + i ∧ bitmap_scan_test m_pool.pool_bitmap i = true

/-- Where `mem_pool_init` puts the pools, and the addresses that there are to give. -/
structure Layout (s : Mm) : Prop where
  aligned : ∀ pf, (s.pool pf).phy_addr_start.toNat % 2 ^ 12 = 0
  bottom : ∀ pf, 0x200 ≤ (s.pool pf).first
  top : ∀ pf, (s.pool pf).first + 8 * (s.pool pf).pool_bitmap.btmp_bytes_len ≤ 2 ^ 20
  apart : s.kernel_pool.first + 8 * s.kernel_pool.pool_bitmap.btmp_bytes_len ≤ s.user_pool.first
  heap : s.kernel_vaddr.vaddr_start = K_HEAP_START ∧ s.kernel_vaddr.vaddr_bitmap.btmp_bytes_len < 4096
  user : ∀ t, (s.userprog_vaddr t).vaddr_bitmap.btmp_bytes_len = 0 ∨
    (s.userprog_vaddr t).vaddr_start = USER_VADDR_START ∧
      (s.userprog_vaddr t).vaddr_bitmap.btmp_bytes_len = user_bytes_len

/-- The bitmaps, the tables and the directories agree. `held` are frames that have left the pool and
have no role yet. -/
structure Frames (booted : Nat → Prop) (dirs held : List Nat) (s : Mm) : Prop where
  spaces : Spaces booted dirs s.ram
  layout : Layout s
  active : s.dir ∈ dirs
  pgdir : ∀ t, s.pgdir t ≠ NULL → ∃ d ∈ dirs, ∃ v, (s.pgdir t).toNat = v * 2 ^ 12 ∧
    HasRole booted dirs s.ram d (.kernel_page v)
  used : ∀ p r, HasRole booted dirs s.ram p r → (s.pool r.pool).Used p
  role : ∀ pf p, (s.pool pf).Used p → p ∈ held ∨ ∃ r, HasRole booted dirs s.ram p r
  held : ∀ p ∈ held, (∃ pf, (s.pool pf).Used p) ∧ ∀ r, ¬ HasRole booted dirs s.ram p r

/-- What the steps of an allocation leave alone. -/
structure Keeps (s s' : Mm) : Prop where
  cr3 : s'.cr3 = s.cr3
  cur : s'.cur = s.cur
  pgdir : s'.pgdir = s.pgdir
  userprog_vaddr : s'.userprog_vaddr = s.userprog_vaddr
  kernel_vaddr : s'.kernel_vaddr = s.kernel_vaddr
  pools : ∀ pf, ∃ bits, s'.pool pf =
    { s.pool pf with pool_bitmap := { (s.pool pf).pool_bitmap with bits := bits } }

theorem Keeps.refl (s : Mm) : Keeps s s := ⟨rfl, rfl, rfl, rfl, rfl, fun _ => ⟨_, rfl⟩⟩

theorem Keeps.trans (s s₁ s₂ : Mm) (h : Keeps s s₁) (h' : Keeps s₁ s₂) : Keeps s s₂ := by
  refine ⟨h'.cr3.trans h.cr3, h'.cur.trans h.cur, h'.pgdir.trans h.pgdir,
    h'.userprog_vaddr.trans h.userprog_vaddr, h'.kernel_vaddr.trans h.kernel_vaddr, fun pf => ?_⟩
  obtain ⟨b, hb⟩ := h.pools pf
  obtain ⟨b', hb'⟩ := h'.pools pf
  exact ⟨b', by rw [hb', hb]⟩

theorem Keeps.withRam (s : Mm) (ram : Ram) : Keeps s (s.withRam ram) :=
  ⟨rfl, rfl, rfl, rfl, rfl, fun pf => ⟨_, s.withRam_pool ram pf⟩⟩

theorem Keeps.dir (s s' : Mm) (h : Keeps s s') : s'.dir = s.dir := by
  unfold Mm.dir
  rw [h.cr3]

theorem Keeps.vaddrs (s s' : Mm) (h : Keeps s s') (pf : PoolFlags) : s'.vaddrs pf = s.vaddrs pf := by
  cases pf
  · exact h.kernel_vaddr
  · simp only [Mm.vaddrs, h.userprog_vaddr, h.cur]

theorem Keeps.lock (s s' : Mm) (h : Keeps s s') (pf : PoolFlags) : (s'.pool pf).lock = (s.pool pf).lock := by
  obtain ⟨b, hb⟩ := h.pools pf
  rw [hb]

theorem Keeps.first (s s' : Mm) (h : Keeps s s') (pf : PoolFlags) :
    (s'.pool pf).first = (s.pool pf).first ∧
      (s'.pool pf).pool_bitmap.btmp_bytes_len = (s.pool pf).pool_bitmap.btmp_bytes_len := by
  obtain ⟨b, hb⟩ := h.pools pf
  rw [hb]
  exact ⟨rfl, rfl⟩

theorem Layout.congr (s s' : Mm) (h : Layout s) (hstart : ∀ pf, (s'.pool pf).phy_addr_start = (s.pool pf).phy_addr_start)
    (hlen : ∀ pf, (s'.pool pf).pool_bitmap.btmp_bytes_len = (s.pool pf).pool_bitmap.btmp_bytes_len)
    (hheap : s'.kernel_vaddr = s.kernel_vaddr)
    (huser : ∀ t, (s'.userprog_vaddr t).vaddr_bitmap.btmp_bytes_len = 0 ∨
      (s'.userprog_vaddr t).vaddr_start = USER_VADDR_START ∧
        (s'.userprog_vaddr t).vaddr_bitmap.btmp_bytes_len = user_bytes_len) : Layout s' := by
  have hf : ∀ pf, (s'.pool pf).first = (s.pool pf).first := fun pf => by
    unfold Pool.first
    rw [hstart]
  refine ⟨fun pf => ?_, fun pf => ?_, fun pf => ?_, ?_, hheap ▸ h.heap, huser⟩
  · rw [hstart]
    exact h.aligned pf
  · rw [hf]
    exact h.bottom pf
  · rw [hf, hlen]
    exact h.top pf
  · exact (hf .PF_USER).symm ▸ (hf .PF_KERNEL).symm ▸ (hlen .PF_KERNEL).symm ▸ h.apart

theorem Layout.keeps (s s' : Mm) (h : Layout s) (hk : Keeps s s') : Layout s' := by
  refine h.congr s s' (fun pf => ?_) (fun pf => (hk.first s s' pf).2) hk.kernel_vaddr (hk.userprog_vaddr ▸ h.user)
  obtain ⟨b, hb⟩ := hk.pools pf
  rw [hb]

theorem Layout.used_range (s : Mm) (h : Layout s) (pf : PoolFlags) (p : Nat) (hu : (s.pool pf).Used p) :
    0x200 ≤ p ∧ p < 2 ^ 20 := by
  obtain ⟨i, hi, rfl, -⟩ := hu
  have := h.bottom pf
  have := h.top pf
  omega

theorem Layout.same_pool (s : Mm) (h : Layout s) (pf pf' : PoolFlags) (i j : Nat)
    (hi : i < 8 * (s.pool pf).pool_bitmap.btmp_bytes_len) (hj : j < 8 * (s.pool pf').pool_bitmap.btmp_bytes_len)
    (heq : (s.pool pf).first + i = (s.pool pf').first + j) : pf = pf' ∧ i = j := by
  have := h.apart
  cases pf <;> cases pf' <;> simp only [Mm.pool] at hi hj heq
  · exact ⟨rfl, by omega⟩
  · omega
  · omega
  · exact ⟨rfl, by omega⟩

/-! ## `palloc` -/

def Mm.take (s : Mm) (pf : PoolFlags) (i : Nat) : Mm :=
  s.setPool pf { s.pool pf with pool_bitmap := bitmap_set (s.pool pf).pool_bitmap i true }

theorem Mm.take_pool (s : Mm) (pf : PoolFlags) (i : Nat) (pf' : PoolFlags) :
    (s.take pf i).pool pf' =
      if pf' = pf then { s.pool pf with pool_bitmap := bitmap_set (s.pool pf).pool_bitmap i true } else s.pool pf' := by
  cases pf <;> cases pf' <;> rfl

theorem Mm.take_ram (s : Mm) (pf : PoolFlags) (i : Nat) : (s.take pf i).ram = s.ram := by
  cases pf <;> rfl

theorem Keeps.take (s : Mm) (pf : PoolFlags) (i : Nat) : Keeps s (s.take pf i) := by
  refine ⟨?_, ?_, ?_, ?_, ?_, fun pf' => ?_⟩
  · cases pf <;> rfl
  · cases pf <;> rfl
  · cases pf <;> rfl
  · cases pf <;> rfl
  · cases pf <;> rfl
  · rw [s.take_pool]
    split
    · rename_i heq
      subst heq
      exact ⟨_, rfl⟩
    · exact ⟨_, rfl⟩

theorem Mm.take_used (s : Mm) (pf : PoolFlags) (i : Nat) (hi : i < 8 * (s.pool pf).pool_bitmap.btmp_bytes_len)
    (pf' : PoolFlags) (q : Nat) :
    ((s.take pf i).pool pf').Used q ↔ (s.pool pf').Used q ∨ pf' = pf ∧ q = (s.pool pf).first + i := by
  rw [s.take_pool]
  split
  · rename_i heq
    subst heq
    simp only [Pool.Used, Pool.first, bitmap_set_len, bitmap_set_test, Bool.or_eq_true, decide_eq_true_iff]
    constructor
    · rintro ⟨j, hj, rfl, ht | rfl⟩
      · exact .inl ⟨j, hj, rfl, ht⟩
      · exact .inr ⟨trivial, rfl⟩
    · rintro (⟨j, hj, rfl, ht⟩ | ⟨-, rfl⟩)
      · exact ⟨j, hj, rfl, .inl ht⟩
      · exact ⟨i, hi, rfl, .inr rfl⟩
  · rename_i hne
    simp [hne]

section

variable {booted : Nat → Prop} {dirs held : List Nat}

/-- What the step from `s` to `s'` is when `palloc` hands out frame `p`. -/
structure Palloc (booted : Nat → Prop) (dirs held : List Nat) (pf : PoolFlags) (s : Mm) (p : Nat) (s' : Mm) : Prop where
  frames : Frames booted dirs (p :: held) s'
  keeps : Keeps s s'
  ram : s'.ram = s.ram
  used : (s'.pool pf).Used p
  more : ∀ pf' q, (s.pool pf').Used q → (s'.pool pf').Used q
  fresh : p ∉ held

theorem Frames.take (s : Mm) (h : Frames booted dirs held s) (pf : PoolFlags) (i : Nat)
    (hi : i < 8 * (s.pool pf).pool_bitmap.btmp_bytes_len)
    (hclear : bitmap_scan_test (s.pool pf).pool_bitmap i = false) :
    Palloc booted dirs held pf s ((s.pool pf).first + i) (s.take pf i) := by
  have hk := Keeps.take s pf i
  have hnot : ∀ pf', ¬ (s.pool pf').Used ((s.pool pf).first + i) := by
    rintro pf' ⟨j, hj, heq, ht⟩
    obtain ⟨rfl, rfl⟩ := h.layout.same_pool s pf pf' i j hi hj heq
    rw [hclear] at ht
    cases ht
  refine { frames := ?_, keeps := hk, ram := s.take_ram pf i, used := ?_, more := ?_, fresh := ?_ }
  · refine { spaces := ?_, layout := h.layout.keeps s _ hk, active := ?_, pgdir := ?_, used := ?_, role := ?_,
             held := ?_ }
    · rw [s.take_ram]
      exact h.spaces
    · rw [hk.dir]
      exact h.active
    · rw [hk.pgdir, s.take_ram]
      exact h.pgdir
    · intro p r hr
      rw [s.take_ram] at hr
      exact (s.take_used pf i hi _ p).mpr (.inl (h.used p r hr))
    · intro pf' p hu
      rw [s.take_ram]
      rcases (s.take_used pf i hi pf' p).mp hu with hu | ⟨-, rfl⟩
      · rcases h.role pf' p hu with hm | hr
        · exact .inl (List.mem_cons_of_mem _ hm)
        · exact .inr hr
      · exact .inl List.mem_cons_self
    · rw [s.take_ram]
      rintro p (_ | ⟨_, hm⟩)
      · exact ⟨⟨pf, (s.take_used pf i hi pf _).mpr (.inr ⟨rfl, rfl⟩)⟩, fun r hr => hnot _ (h.used _ r hr)⟩
      · obtain ⟨⟨pf', hu⟩, hr⟩ := h.held p hm
        exact ⟨⟨pf', (s.take_used pf i hi pf' p).mpr (.inl hu)⟩, hr⟩
  · exact (s.take_used pf i hi pf _).mpr (.inr ⟨rfl, rfl⟩)
  · exact fun pf' q hu => (s.take_used pf i hi pf' q).mpr (.inl hu)
  · intro hm
    obtain ⟨⟨pf', hu⟩, -⟩ := h.held _ hm
    exact hnot pf' hu

theorem Layout.phyaddr (s : Mm) (h : Layout s) (pf : PoolFlags) (i : Nat)
    (hi : i < 8 * (s.pool pf).pool_bitmap.btmp_bytes_len) :
    (UInt32.ofNat i * PG_SIZE + (s.pool pf).phy_addr_start).toNat = ((s.pool pf).first + i) * 2 ^ 12 := by
  have h1 := h.aligned pf
  have h2 := h.top pf
  have h3 := (s.pool pf).phy_addr_start.toNat_lt
  unfold Pool.first at h2 ⊢
  rw [UInt32.toNat_add, UInt32.toNat_mul, UInt32.toNat_ofNat_of_lt' (by show i < 2 ^ 32; omega)]
  show (i * 4096 % 2 ^ 32 + _) % 2 ^ 32 = _
  omega

theorem palloc_spec (ndebug : Bool) (s : Mm) (pf : PoolFlags) (h : Frames booted dirs held s) :
    Spec (palloc ndebug s pf)
      (fun r => r = (NULL, s) ∧ ndebug = true ∨
        ∃ p, r.1.toNat = p * 2 ^ 12 ∧ Palloc booted dirs held pf s p r.2) fun _ => True := by
  unfold palloc
  rw [spec_bind]
  refine spec_mono _ _ _ _ _ (bitmap_scan_spec ndebug _ 1) ?_ fun _ _ => trivial
  rintro (_ | i) ⟨hrun, hfull⟩
  · exact .inl ⟨rfl, hfull rfl rfl⟩
  · have hclear := hrun i rfl
    exact .inr ⟨_, h.layout.phyaddr s pf i (hclear.one rfl),
      h.take s pf i (hclear.one rfl) (hclear.clear 0 (by omega))⟩

/-! ## `page_table_add` -/

theorem Frames.place (s : Mm) (p : Nat) (h : Frames booted dirs (p :: held) s) (hp : p ∉ held) (ram' : Ram) (r₀ : Role)
    (hs : Spaces booted dirs ram') (hu : (s.pool r₀.pool).Used p)
    (hroles : ∀ q r, HasRole booted dirs ram' q r ↔ HasRole booted dirs s.ram q r ∨ q = p ∧ r = r₀) :
    Frames booted dirs held (s.withRam ram') := by
  refine { spaces := hs, layout := h.layout.keeps s _ (Keeps.withRam s ram'), active := h.active, pgdir := ?_,
           used := ?_, role := ?_, held := ?_ }
  · intro t ht
    obtain ⟨d, hd, v, hv, hr⟩ := h.pgdir t ht
    exact ⟨d, hd, v, hv, (hroles _ _).mpr (.inl hr)⟩
  · intro q r hr
    rw [s.withRam_pool]
    rcases (hroles q r).mp hr with hr | ⟨rfl, rfl⟩
    · exact h.used q r hr
    · exact hu
  · intro pf q hq
    rw [s.withRam_pool] at hq
    rcases h.role pf q hq with hm | ⟨r, hr⟩
    · rcases List.mem_cons.mp hm with rfl | hm
      · exact .inr ⟨r₀, (hroles _ _).mpr (.inr ⟨rfl, rfl⟩)⟩
      · exact .inl hm
    · exact .inr ⟨r, (hroles _ _).mpr (.inl hr)⟩
  · intro q hq
    obtain ⟨⟨pf, hu'⟩, hr⟩ := h.held q (List.mem_cons_of_mem _ hq)
    refine ⟨⟨pf, by rw [s.withRam_pool]; exact hu'⟩, fun r hr' => ?_⟩
    rcases (hroles q r).mp hr' with hr' | ⟨rfl, -⟩
    · exact hr r hr'
    · exact hp hq

/-- What mapping `n` pages from `lo` on in the active directory does to the roles. -/
structure Maps (booted : Nat → Prop) (dirs : List Nat) (s : Mm) (lo n : Nat) (s' : Mm) : Prop where
  keeps : Keeps s s'
  old : ∀ q r, HasRole booted dirs s.ram q r → HasRole booted dirs s'.ram q r
  new : ∀ q r, HasRole booted dirs s'.ram q r →
    HasRole booted dirs s.ram q r ∨ (∃ i, r = .page_table s.dir i) ∨ ∃ k < n, r = pageRole s.dir (lo + k)

theorem Maps.ram (s s' : Mm) (lo : Nat) (hk : Keeps s s') (hram : s'.ram = s.ram) : Maps booted dirs s lo 0 s' := by
  refine ⟨hk, ?_, ?_⟩ <;> rw [hram]
  · exact fun _ _ hr => hr
  · exact fun _ _ hr => .inl hr

theorem Maps.mono (s s' : Mm) (lo m n : Nat) (h : Maps booted dirs s lo m s') (hmn : m ≤ n) : Maps booted dirs s lo n s' := by
  refine ⟨h.keeps, h.old, fun q r hr => ?_⟩
  rcases h.new q r hr with hr | hi | ⟨k, hk, rfl⟩
  · exact .inl hr
  · exact .inr (.inl hi)
  · exact .inr (.inr ⟨k, by omega, rfl⟩)

theorem Maps.mapped (s s' : Mm) (lo n : Nat) (h : Maps booted dirs s lo n s') (hf : Frames booted dirs held s)
    (hf' : Frames booted dirs [] s') (d v p : Nat) (hd : d ∈ dirs) (h1 : 0x8048 ≤ v) (h2 : v < 0xffc00)
    (hp : frameAt s.ram d v = some p) : frameAt s'.ram d v ≠ none := by
  by_cases hb : 0xc0000 ≤ v ∧ booted v
  · rw [hf'.spaces.shared d v hd hb.1 h2]
    exact (hf'.spaces.mapped v hb.2).2.2
  · have hr := h.old _ _ ((hf.spaces.hasRole_page d v p hd h1 h2).mpr ⟨hb, hp⟩)
    rw [((hf'.spaces.hasRole_page d v p hd h1 h2).mp hr).2]
    simp

theorem Maps.trans (s s₁ s₂ : Mm) (lo m n : Nat) (h : Maps booted dirs s lo m s₁)
    (h' : Maps booted dirs s₁ (lo + m) n s₂) : Maps booted dirs s lo (m + n) s₂ := by
  refine ⟨h.keeps.trans _ _ _ h'.keeps, fun q r hr => h'.old q r (h.old q r hr), fun q r hr => ?_⟩
  rcases h'.new q r hr with hr | ⟨i, rfl⟩ | ⟨k, hk, rfl⟩
  · rcases h.new q r hr with hr | hi | ⟨k, hk, rfl⟩
    · exact .inl hr
    · exact .inr (.inl hi)
    · exact .inr (.inr ⟨k, by omega, rfl⟩)
  · exact .inr (.inl ⟨i, by rw [h.keeps.dir]⟩)
  · exact .inr (.inr ⟨m + k, by omega, by rw [h.keeps.dir, Nat.add_assoc]⟩)

theorem Frames.store_pte (s : Mm) (v : UInt32) (p t : Nat) (h : Frames booted dirs [p] s)
    (h1 : 0x8048 ≤ v.toNat / 2 ^ 12) (h2 : v.toNat / 2 ^ 12 < 0xffc00)
    (ht : target (s.ram s.dir (v.toNat / 2 ^ 22)) = some t)
    (hnone : target (s.ram t (v.toNat / 2 ^ 12 % 2 ^ 10)) = none)
    (hu : (s.pool (pageRole s.dir (v.toNat / 2 ^ 12)).pool).Used p) :
    ∃ s', s.store (pte_ptr v) (entry p) = .ok s' ∧ Frames booted dirs [] s' ∧
      Maps booted dirs s (v.toNat / 2 ^ 12) 1 s' ∧ frameAt s.ram s.dir (v.toNat / 2 ^ 12) = none ∧
        frameAt s'.ram s.dir (v.toNat / 2 ^ 12) = some p := by
  have hidx : v.toNat / 2 ^ 12 / 2 ^ 10 = v.toNat / 2 ^ 22 := by omega
  obtain ⟨hp1, hp2⟩ := h.layout.used_range s _ p hu
  have hfresh := (h.held p List.mem_cons_self).2
  rw [← hidx] at ht
  obtain ⟨hsp, hroles⟩ := h.spaces.map_page s.dir _ t p h.active h1 h2 ht hnone hp1 hp2 hfresh
  have hframe := h.spaces.frameAt_set s.dir _ t p h.active h1 h2 ht hp2 s.dir _ h.active h1 h2
  refine ⟨_, s.store_pte v (h.spaces.selfMap _ h.active) t (by rw [← hidx]; exact ht) _,
    h.place s p (by simp) _ _ hsp hu hroles, ⟨Keeps.withRam s _, ?_, ?_⟩, ?_, ?_⟩
  · exact fun q r hr => (hroles q r).mpr (.inl hr)
  · intro q r hr
    rcases (hroles q r).mp hr with hr | ⟨-, rfl⟩
    · exact .inl hr
    · exact .inr (.inr ⟨0, by omega, rfl⟩)
  · unfold frameAt
    rw [ht]
    exact hnone
  · rw [s.withRam_ram, hframe, if_pos rfl]

end

end OsLearn
