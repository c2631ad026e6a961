import OsLearn.Memory.Requests

/-!
# `userprog/process.c`: page directories
-/

namespace OsLearn

variable {booted : Nat → Prop} {dirs : List Nat}

theorem addr_v2p_eq (s : Mm) (v : UInt32) (f : Nat) (hself : SelfMap s.ram s.dir)
    (hf : frameAt s.ram s.dir (v.toNat / 2 ^ 12) = some f) :
    ∃ a, addr_v2p s v = .ok a ∧ a.toNat = f * 2 ^ 12 + v.toNat % 2 ^ 12 := by
  obtain ⟨t, ht, hp⟩ := (frameAt_some _ _ _ _).mp hf
  rw [show v.toNat / 2 ^ 12 / 2 ^ 10 = v.toNat / 2 ^ 22 from by omega] at ht
  refine ⟨_, by rw [addr_v2p, s.load_pte v hself t ht]; rfl, ?_⟩
  have hframe := frameOf_of_target _ _ hp
  have hlt := target_lt _ _ hp
  unfold frameOf at hframe
  rw [UInt32.toNat_add, u32_and_page, u32_and_offset, hframe]
  omega

/-- A page of the kernel has the same physical address in every address space. -/
theorem Frames.v2p_kernel (s : Mm) (h : Frames booted dirs [] s) (v : UInt32) (d w : Nat) (hv : v.toNat = w * 2 ^ 12)
    (hrole : HasRole booted dirs s.ram d (.kernel_page w)) : ∃ a, addr_v2p s v = .ok a ∧ a.toNat = d * 2 ^ 12 := by
  obtain ⟨-, h1, h2, hf⟩ := hrole
  rw [← h.spaces.shared s.dir w h.active h1 h2] at hf
  have hpage : v.toNat / 2 ^ 12 = w := by omega
  obtain ⟨a, hv2p, ha⟩ := addr_v2p_eq s v d (h.spaces.selfMap _ h.active) (by rw [hpage]; exact hf)
  rw [hv, Nat.mul_mod_left, Nat.add_zero] at ha
  exact ⟨a, hv2p, ha⟩

/-! ## Copying the kernel half -/

theorem walk_dir_word (ram : Ram) (dir j : Nat) (a : UInt32) (h : SelfMap ram dir) (hj : j < 1024)
    (ha : a.toNat = (0xfffff000 + 4 * j) % 2 ^ 32) : walk ram dir a = some dir ∧ wordOf a = j := by
  have hself : target (ram dir 1023) = some dir := by rw [target, h.here, h.frame, if_pos rfl]
  constructor
  · rw [walk_eq, frameAt, show a.toNat / 2 ^ 12 / 2 ^ 10 = 1023 from by omega,
      show a.toNat / 2 ^ 12 % 2 ^ 10 = 1023 from by omega, hself]
    exact hself
  · unfold wordOf
    omega

/-- A copy from the active directory into a page that no walk reads. -/
theorem memcpy_words_eq (n : Nat) (s : Mm) (dst src : UInt32) (lo f j : Nat) (h : Frames booted dirs [] s)
    (hlo : 0x8048 ≤ lo) (hhi : lo < 0xffc00) (hj : j + n ≤ 1024) (hdst : dst.toNat = lo * 2 ^ 12 + 4 * j)
    (hsrc : src.toNat = (0xfffff000 + 4 * j) % 2 ^ 32) (hf : frameAt s.ram s.dir lo = some f)
    (hnt : ¬ IsTable dirs s.ram f) :
    ∃ ram', s.memcpy_words dst src n = .ok (s.withRam ram') ∧ (∀ g, g ≠ f → ram' g = s.ram g) ∧
      ∀ i, ram' f i = if j ≤ i ∧ i < j + n then s.ram s.dir i else s.ram f i := by
  induction n generalizing s dst src j with
  | zero => exact ⟨s.ram, rfl, fun _ _ => rfl, fun i => by rw [if_neg (by omega)]⟩
  | succ n ih =>
    have hself := h.spaces.selfMap _ h.active
    obtain ⟨hw, hi⟩ := walk_dir_word s.ram s.dir j src hself (by omega) hsrc
    have hfd : s.dir ≠ f := fun heq => hnt (.inl (heq ▸ h.active))
    have hload : s.load src = .ok (s.ram s.dir j) := by
      unfold Mm.load
      rw [hw, hi]
    have hstore : s.store dst (s.ram s.dir j) = .ok (s.withRam (s.ram.set f j (s.ram s.dir j))) := by
      unfold Mm.store
      rw [walk_eq, show dst.toNat / 2 ^ 12 = lo from by omega, hf,
        show wordOf dst = j from by unfold wordOf; omega]
    have hag : ∀ t, IsTable dirs s.ram t → s.ram.set f j (s.ram s.dir j) t = s.ram t := by
      intro t ht
      exact Ram.set_of_ne _ _ _ _ _ fun heq => hnt (heq ▸ ht)
    obtain ⟨hfr, -, hframe⟩ := h.agree [] s _ hag
    have htab := IsTable.congr s.ram _ fun d hd => hag d (.inl hd)
    obtain ⟨ram', hok, hother, hword⟩ := ih (s.withRam (s.ram.set f j (s.ram s.dir j))) (dst + 4) (src + 4) (j + 1) hfr
      (by omega)
      ((toNat_add_small dst 4 (by omega)).trans (by omega))
      -- the last step of the source wraps
      (by rw [UInt32.toNat_add]; show (src.toNat + 4) % 2 ^ 32 = _; omega)
      (by rw [s.withRam_ram, s.withRam_dir, hframe s.dir h.active lo hlo hhi]; exact hf)
      (fun ht => hnt ((htab f).mp ht))
    refine ⟨ram', ?_, fun g hg => ?_, fun i => ?_⟩
    · rw [Mm.memcpy_words, hload]
      show (do let s ← s.store dst (s.ram s.dir j); s.memcpy_words (dst + 4) (src + 4) n) = _
      rw [hstore]
      exact hok
    · rw [hother g hg, s.withRam_ram, Ram.set_of_ne _ _ _ _ _ hg]
    · rw [hword i, s.withRam_ram, s.withRam_dir, Ram.set_of_ne _ _ _ _ _ hfd, Ram.set_apply]
      by_cases hij : i = j
      · rw [hij, if_neg (by omega), if_pos ⟨rfl, rfl⟩, if_pos (by omega)]
      · rw [if_neg (show ¬ (f = f ∧ i = j) from fun hh => hij hh.2)]
        by_cases hin : j + 1 ≤ i ∧ i < j + 1 + n
        · rw [if_pos hin, if_pos (by omega)]
        · rw [if_neg hin, if_neg (by omega)]

/-! ## `create_page_dir` -/

theorem Frames.add_dir (s : Mm) (h : Frames booted dirs [] s) (f v : Nat)
    (hr : HasRole booted dirs s.ram f (.kernel_page v)) (hself : s.ram f 1023 = entry f)
    (hkernel : ∀ i, 768 ≤ i → i < 1023 → s.ram f i = entry (kernelTable i))
    (huser : ∀ i < 768, target (s.ram f i) = none) :
    Frames booted (f :: dirs) [] s ∧
      ∀ q r, HasRole booted (f :: dirs) s.ram q r ↔ HasRole booted dirs s.ram q r := by
  obtain ⟨hsp, hroles⟩ := h.spaces.add_dir f v hr hself hkernel huser
  refine ⟨{ spaces := hsp, layout := h.layout, active := List.mem_cons_of_mem _ h.active, pgdir := ?_, used := ?_,
            role := ?_, held := by simp }, hroles⟩
  · intro t ht
    obtain ⟨d, hd, w, hw, hrole⟩ := h.pgdir t ht
    exact ⟨d, List.mem_cons_of_mem _ hd, w, hw, (hroles _ _).mpr hrole⟩
  · exact fun p r hp => h.used p r ((hroles p r).mp hp)
  · intro pf p hu
    rcases h.role pf p hu with hm | ⟨r, hp⟩
    · exact .inl hm
    · exact .inr ⟨r, (hroles p r).mpr hp⟩

theorem Frames.withPcbs (s : Mm) (h : Frames booted dirs [] s) (pgdir : Tid → UInt32)
    (vaddr : Tid → VirtualAddr)
    (hp : ∀ t, pgdir t = s.pgdir t ∨ pgdir t = NULL ∨ ∃ d ∈ dirs, ∃ v, (pgdir t).toNat = v * 2 ^ 12 ∧
      HasRole booted dirs s.ram d (.kernel_page v))
    (hv : ∀ t, vaddr t = s.userprog_vaddr t ∨ (vaddr t).vaddr_bitmap.btmp_bytes_len = 0) :
    Frames booted dirs [] { s with pgdir := pgdir, userprog_vaddr := vaddr } := by
  refine { h with layout := { h.layout with user := fun t => ?_ }, pgdir := fun t ht => ?_ }
  · dsimp only
    obtain heq | hz := hv t
    · rw [heq]
      exact h.layout.user t
    · exact .inl hz
  · dsimp only at ht ⊢
    obtain heq | hz | hd := hp t
    · rw [heq] at ht ⊢
      exact h.pgdir t ht
    · exact absurd hz ht
    · exact hd

theorem Frames.set_pgdir (s : Mm) (t : Tid) (v : UInt32) (h : Frames booted dirs [] s)
    (hv : v ≠ NULL → ∃ d ∈ dirs, ∃ w, v.toNat = w * 2 ^ 12 ∧ HasRole booted dirs s.ram d (.kernel_page w)) :
    Frames booted dirs [] { s with pgdir := Function.update s.pgdir t v } := by
  refine h.withPcbs s _ _ (fun u => ?_) (fun _ => .inl rfl)
  by_cases hu : u = t
  · rw [hu, Function.update_self]
    by_cases hn : v = NULL
    · exact .inr (.inl hn)
    · exact .inr (.inr (hv hn))
  · exact .inl (Function.update_of_ne hu _ _)

/-- A request for one page, and the page filled as a directory in frame `f`. -/
structure NewDir (booted : Nat → Prop) (dirs : List Nat) (s : Mm) (r : UInt32 × Mm) (f : Nat) : Prop where
  page : Frames booted dirs [] r.2
  frames : Frames booted (f :: dirs) [] r.2
  aligned : r.1.toNat % 2 ^ 12 = 0
  role : HasRole booted dirs r.2.ram f (.kernel_page (r.1.toNat / 2 ^ 12))
  roles : ∀ q x, HasRole booted (f :: dirs) r.2.ram q x ↔ HasRole booted dirs r.2.ram q x
  grows : Grows booted dirs s (r.1.toNat / 2 ^ 12) 1 r.2
  returned : Returned s .PF_KERNEL (r.1.toNat / 2 ^ 12) 1 r.2

theorem NewDir.request (ndebug : Bool) (s : Mm) (r : UInt32 × Mm) (f : Nat) (h : NewDir booted dirs s r f) :
    Request booted dirs ndebug .PF_KERNEL s 1 r := by
  have hr := h.returned.range 0 (by omega)
  simp only [InRange] at hr
  exact ⟨h.page, _, h.grows, .inr ⟨rfl, by omega, h.returned⟩⟩

/-- A new page that is filled with the entries of a directory: the kernel half, and itself at the end. -/
theorem NewDir.of_entries (s s₁ : Mm) (v : UInt32) (f lo : Nat) (ram : Ram) (h : Frames booted dirs [] s)
    (h₁ : Frames booted dirs [] s₁) (hg : Grows booted dirs s lo 1 s₁) (hret : Returned s .PF_KERNEL lo 1 s₁)
    (hlo : v.toNat / 2 ^ 12 = lo) (hal : v.toNat % 2 ^ 12 = 0) (hf : frameAt s₁.ram s₁.dir lo = some f)
    (hnt : ¬ IsTable dirs s₁.ram f) (hother : ∀ t, t ≠ f → ram t = s₁.ram t) (hlast : ram f 1023 = entry f)
    (hrow : ∀ i, i ≠ 1023 → ram f i = if 768 ≤ i ∧ i < 768 + 256 then s₁.ram s₁.dir i else 0) :
    NewDir booted dirs s (v, s₁.withRam ram) f := by
  have hd₁ : s₁.dir = s.dir := by
    unfold Mm.dir
    rw [hg.cr3]
  have hrange := hret.range 0 (by omega)
  simp only [InRange, Nat.add_zero] at hrange
  obtain ⟨hfr, hroles, hframe⟩ := h₁.agree [] s₁ ram fun t ht => hother t fun heq => hnt (heq ▸ ht)
  have hf' : frameAt ram s.dir lo = some f := by rw [hframe s.dir h.active lo (by omega) (by omega), ← hd₁, hf]
  have hret' : Returned s .PF_KERNEL lo 1 (s₁.withRam ram) := by
    refine ⟨hret.range, hret.before, fun k hk => ?_⟩
    rw [show k = 0 from by omega]
    exact Option.ne_none_iff_exists'.mpr ⟨f, hf'⟩
  have hrole : HasRole booted dirs ram f (.kernel_page lo) := by
    have hr := hret'.role s _ _ lo 1 h hfr 0 f (by omega) hf'
    rwa [Nat.add_zero, pageRole, if_neg (by omega)] at hr
  obtain ⟨hdir, hsame⟩ := hfr.add_dir (s₁.withRam ram) f lo hrole
    (by rw [s₁.withRam_ram, hlast])
    (fun i h1 h2 => by
      rw [s₁.withRam_ram, hrow i (by omega), if_pos (by omega), h₁.spaces.kernel _ h₁.active i h1 h2])
    (fun i hi => by rw [s₁.withRam_ram, hrow i (by omega), if_neg (by omega), target_zero])
  rw [← hlo] at hrole hg hret'
  refine { page := hfr, frames := hdir, aligned := hal, role := hrole, roles := hsame, grows := ?_, returned := hret' }
  exact ⟨hg.cr3, hg.cur, hg.pgdir, fun q r hr => (hroles q r).mpr (hg.old q r hr),
    fun q r hr => hg.new q r ((hroles q r).mp hr)⟩

/-- The page of `get_kernel_pages` becomes a directory. No other frame is written. -/
theorem create_page_dir_fills (ndebug : Bool) (s : Mm) (v : UInt32) (s₁ : Mm) (h : Frames booted dirs [] s)
    (hget : get_kernel_pages ndebug s 1 = .ok (v, s₁)) (hne : v ≠ NULL) :
    ∃ ram f, create_page_dir ndebug s = .ok (v, s₁.withRam ram) ∧ NewDir booted dirs s (v, s₁.withRam ram) f ∧
      f ∉ dirs ∧ ¬ IsTable dirs s₁.ram f ∧ ∀ t, t ≠ f → ram t = s₁.ram t := by
  obtain ⟨⟨hfr₁, lo, hg, ⟨hnull, -⟩ | ⟨hlo, hge, hret⟩⟩, hal, hzero⟩ :=
    spec_of_ok _ _ _ (get_kernel_pages_spec ndebug s 1 (by omega) h) _ hget
  · exact absurd hnull hne
  dsimp only at hfr₁ hlo hg hret hal hzero
  have hd₁ : s₁.dir = s.dir := by
    unfold Mm.dir
    rw [hg.cr3]
  have hrange := hret.range 0 (by omega)
  simp only [InRange, Nat.add_zero] at hrange
  obtain ⟨f, hf⟩ := Option.ne_none_iff_exists'.mp (hret.after 0 (by omega))
  obtain ⟨hnd, hnt⟩ := hret.not_table s s₁ _ lo 1 hg h hfr₁ 0 f (by omega) hf
  have hz := (hzero hne 0 (by omega) f (by rw [hlo]; exact hf)).2
  rw [← hd₁, Nat.add_zero] at hf
  -- 1: the copy
  obtain ⟨ram₂, hcopy, hother, hword⟩ := memcpy_words_eq 256 s₁ (v + 0x300 * 4) (0xfffff000 + 0x300 * 4) lo f 768 hfr₁
    hge hrange.2 (by omega)
    ((toNat_add_small v 3072 (by omega)).trans (by omega)) (by decide) hf hnt
  have hag₂ : ∀ t, IsTable dirs s₁.ram t → ram₂ t = s₁.ram t := fun t ht => hother t fun heq => hnt (heq ▸ ht)
  obtain ⟨hfr₂, hroles₂, hframe₂⟩ := hfr₁.agree [] s₁ ram₂ hag₂
  have hf₂ : frameAt ram₂ s₁.dir lo = some f := by rw [hframe₂ s₁.dir hfr₁.active lo hge (by omega), hf]
  -- 2: the last entry
  obtain ⟨a, hv2p, ha⟩ := addr_v2p_eq (s₁.withRam ram₂) v f (hfr₂.spaces.selfMap _ hfr₂.active) (by rw [hlo]; exact hf₂)
  have hentry := or_PG_ATTR a f (by rw [ha, hal, Nat.add_zero])
  have hstore : (s₁.withRam ram₂).store (v + 1023 * 4) (entry f) = .ok (s₁.withRam (ram₂.set f 1023 (entry f))) := by
    have hadr : (v + 1023 * 4).toNat = lo * 2 ^ 12 + 4092 := by
      have : (v + 1023 * 4).toNat = v.toNat + 4092 := toNat_add_small v 4092 (by omega)
      omega
    unfold Mm.store
    rw [walk_eq, hadr, show (lo * 2 ^ 12 + 4092) / 2 ^ 12 = lo from by omega, s₁.withRam_ram, s₁.withRam_dir, hf₂,
      show wordOf (v + 1023 * 4) = 1023 from by unfold wordOf; omega]
    rfl
  obtain ⟨ram₃, hram₃⟩ : ∃ ram₃, ram₃ = ram₂.set f 1023 (entry f) := ⟨_, rfl⟩
  rw [← hram₃] at hstore
  have hother₃ : ∀ t, t ≠ f → ram₃ t = s₁.ram t := fun t ht => by rw [hram₃, Ram.set_of_ne _ _ _ _ _ ht, hother t ht]
  refine ⟨ram₃, f, ?_, ?_, hnd, hnt, hother₃⟩
  · unfold create_page_dir
    rw [hget]
    show (if v = NULL then _ else _) = _
    rw [if_neg hne, hcopy]
    show (do let a ← addr_v2p (s₁.withRam ram₂) v; _) = _
    rw [hv2p]
    show (do let s ← (s₁.withRam ram₂).store (v + 1023 * 4) (a ||| PG_ATTR); pure (v, s)) = _
    rw [hentry, hstore]
    rfl
  · apply NewDir.of_entries s s₁ v f lo ram₃ h hfr₁ hg hret hlo hal hf hnt hother₃
    · rw [hram₃, Ram.set_apply, if_pos ⟨rfl, rfl⟩]
    · intro i hi
      rw [hram₃, Ram.set_apply, if_neg (fun hh => hi hh.2), hword i, hz i]

/-- Nothing can go wrong after `get_kernel_pages`. -/
theorem create_page_dir_ok (ndebug : Bool) (s : Mm) (v : UInt32) (s₁ : Mm) (h : Frames booted dirs [] s)
    (hget : get_kernel_pages ndebug s 1 = .ok (v, s₁)) (hne : v ≠ NULL) :
    ∃ ram f, create_page_dir ndebug s = .ok (v, s₁.withRam ram) ∧ NewDir booted dirs s (v, s₁.withRam ram) f ∧
      f ∉ dirs ∧ ∀ t, IsTable dirs s₁.ram t → ram t = s₁.ram t := by
  obtain ⟨ram, f, hok, hnew, hnd, hnt, hother⟩ := create_page_dir_fills ndebug s v s₁ h hget hne
  exact ⟨ram, f, hok, hnew, hnd, fun t ht => hother t fun heq => hnt (heq ▸ ht)⟩

theorem create_page_dir_spec (ndebug : Bool) (s : Mm) (h : Frames booted dirs [] s) :
    Spec (create_page_dir ndebug s)
      (fun r => r.1 = NULL ∧ Request booted dirs ndebug .PF_KERNEL s 1 r ∨
        r.1 ≠ NULL ∧ ∃ f, NewDir booted dirs s r f) fun _ => True := by
  cases hget : get_kernel_pages ndebug s 1 with
  | error e =>
    unfold create_page_dir
    rw [spec_bind, hget]
    trivial
  | ok r =>
    obtain ⟨v, s₁⟩ := r
    by_cases hne : v = NULL
    · have hreq := (spec_of_ok _ _ _ (get_kernel_pages_spec ndebug s 1 (by omega) h) _ hget).1
      unfold create_page_dir
      rw [spec_bind, hget, spec_ok]
      dsimp only
      rw [if_pos hne]
      exact .inl ⟨rfl, hne ▸ hreq⟩
    · obtain ⟨ram, f, hok, hnew, -⟩ := create_page_dir_ok ndebug s v s₁ h hget hne
      rw [hok]
      exact .inr ⟨hne, f, hnew⟩

/-! ## Processes -/

theorem create_user_vaddr_bitmap_spec (ndebug : Bool) (s : Mm) (t : Tid) (h : Frames booted dirs [] s) :
    Spec (create_user_vaddr_bitmap ndebug s t)
      (fun r => r.1 ≠ NULL ∧ Request booted dirs ndebug .PF_KERNEL s ((user_bytes_len + 4096 - 1) / 4096) r)
      fun _ => True := by
  have hn : 0 < (user_bytes_len + 4096 - 1) / 4096 := by decide
  unfold create_user_vaddr_bitmap
  simp only [spec_bind]
  generalize (user_bytes_len + 4096 - 1) / 4096 = n at hn
  refine spec_mono _ _ _ _ _ (get_kernel_pages_spec ndebug s n hn h) ?_ fun _ _ => trivial
  rintro ⟨v, s₁⟩ ⟨hreq, hal, -⟩
  dsimp only at hal ⊢
  by_cases hne : v = NULL
  · subst hne
    refine spec_mono _ _ _ _ _ (memset_null s₁ n hn hreq.1) ?_ fun _ _ => trivial
    exact fun _ hf => hf.elim
  · refine spec_mono _ _ _ _ _ (hreq.memset ndebug _ s n v s₁ h hn hal hne) ?_ fun _ _ => trivial
    rintro s₂ ⟨⟨hfr, lo, hg, hret⟩, -⟩
    refine ⟨hne, ⟨{ hfr with layout := { hfr.layout with user := fun u => ?_ } }, lo, ⟨hg.cr3, hg.cur, hg.pgdir, hg.old,
      hg.new⟩, ?_⟩⟩
    · dsimp only
      by_cases hu : u = t
      · rw [hu, Function.update_self]
        exact .inr ⟨rfl, rfl⟩
      · rw [Function.update_of_ne hu]
        exact hfr.layout.user u
    · rcases hret with ⟨hnull, -⟩ | ⟨hlo, hge, hret⟩
      · exact absurd hnull hne
      · exact .inr ⟨hlo, hge, hret.range, hret.before, hret.after⟩

theorem Frames.activate (s : Mm) (h : Frames booted dirs [] s) (cr3 : UInt32) (cur : Tid) (hd : frameOf cr3 ∈ dirs) :
    Frames booted dirs [] { s with cr3 := cr3, cur := cur } :=
  { h with layout := { h.layout with }, active := hd }

theorem page_dir_activate_spec (s : Mm) (t : Tid) (h : Frames booted dirs [] s) :
    Spec (page_dir_activate s t)
      (fun s' => Frames booted dirs [] s' ∧ ∃ cr3, s' = { s with cr3 := cr3 }) fun _ => True := by
  unfold page_dir_activate
  simp only
  split
  · rename_i hne
    obtain ⟨d, hd, w, hw, hrole⟩ := h.pgdir t hne
    obtain ⟨a, hv2p, ha⟩ := h.v2p_kernel s (s.pgdir t) d w hw hrole
    rw [spec_bind, hv2p, spec_ok]
    have hdir : frameOf a = d := by
      unfold frameOf
      omega
    exact ⟨h.activate s a s.cur (hdir ▸ hd), a, rfl⟩
  · exact ⟨h.activate s _ s.cur h.spaces.boot, _, rfl⟩

end OsLearn
