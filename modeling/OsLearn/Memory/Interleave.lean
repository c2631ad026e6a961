import OsLearn.Memory.Race

/-!
# Every interleaving of the calls
-/

namespace OsLearn

/-! ## The steps that set no shared bit -/

theorem SameMemory.sameBitmaps (s s' : Mm) (h : SameMemory s s') : SameBitmaps s s' :=
  ⟨h.layout s s', h.kernel_vaddr, h.first s s', h.bitmap⟩

theorem store_sameBitmaps (s : Mm) (v w : UInt32) : Spec (s.store v w) (SameBitmaps s) fun _ => True := by
  unfold Mm.store
  split
  · exact SameBitmaps.withRam s _
  · trivial

theorem memset_sameBitmaps (s₀ s : Mm) (h : SameBitmaps s₀ s) (v : UInt32) (n : Nat) :
    Spec (s.memset_zero v n) (SameBitmaps s₀) fun _ => True := by
  induction n generalizing s v with
  | zero => exact h
  | succ n ih =>
    simp only [Mm.memset_zero]
    split
    · split
      · trivial
      · exact ih _ (h.trans _ _ _ (SameBitmaps.withRam s _)) _
    · trivial

theorem user_sameBitmaps (s : Mm) (i : Nat) (va : VirtualAddr) (hva : va = s.vaddrs .PF_USER) :
    SameBitmaps s (s.setVaddrs .PF_USER { va with vaddr_bitmap := bitmap_set va.vaddr_bitmap i true }) := by
  refine ⟨fun h => h.congr s _ ?_ ?_ rfl fun t => ?_, rfl, ?_, ?_⟩
  · exact fun pf => by rw [setVaddrs_pool]
  · exact fun pf => by rw [setVaddrs_pool]
  · by_cases ht : t = s.cur
    · subst ht hva
      simp only [Mm.setVaddrs, Function.update_self, bitmap_set_len]
      exact h.user s.cur
    · simp only [Mm.setVaddrs, Function.update_of_ne ht]
      exact h.user t
  · exact fun pf => by rw [setVaddrs_pool]
  · exact fun pf => by rw [setVaddrs_pool]

theorem cur_sameBitmaps (s : Mm) (t : Tid) : SameBitmaps s { s with cur := t } := by
  have hpool : ∀ pf, { s with cur := t }.pool pf = s.pool pf := fun pf => by cases pf <;> rfl
  exact ⟨fun h => h.congr s _ (fun pf => by rw [hpool]) (fun pf => by rw [hpool]) rfl h.user, rfl,
    fun pf => by rw [hpool], fun pf => by rw [hpool]⟩

theorem Job.fail_marks (j : Job) : j.fail.marks = none := by
  unfold fail
  split <;> rfl

theorem Job.fail_owns (j : Job) : j.fail.owns = none := by
  unfold fail
  split
  · rfl
  · rename_i hpf
    simp only [Pc.owns, range, hpf]
    rfl

theorem Job.next_marks (j : Job) : j.next.marks = none := by
  unfold next
  split <;> rfl

theorem Job.next_owns (j : Job) : j.next.owns = j.range := by
  unfold next
  split <;> rfl

section

variable {n : Nat} (log : List AllocEvent) (st : Threads n) (t : Fin n)

/-- Thread `t` goes on to a state with the invariant. -/
def GoesOn (x : Except Stop (Mm × Pc × List AllocEvent)) : Prop :=
  Spec x (fun r => Safe (log ++ r.2.2) { mem := r.1, pc := Function.update st.pc t r.2.1 }) fun _ => True

variable {log st}

theorem Safe.goesOn_vaddr_scan (h : Safe log st) (j : Job)
    (hok : ∀ u, u ≠ t → Pc.scans (.vaddr_scan j) = none ∨ (st.pc u).marks ≠ Pc.scans (.vaddr_scan j)) :
    GoesOn log st t (pc_step st.mem (.vaddr_scan j)) := by
  unfold GoesOn pc_step
  rw [spec_bind]
  refine spec_mono _ _ _ _ _ (bitmap_scan_spec false _ j.pg_cnt) ?_ fun _ _ => trivial
  rintro (_ | i) ⟨hrun, -⟩
  · simp only [spec_pure, List.append_nil]
    exact h.quiet log st t _ _ (SameBitmaps.refl _) j.fail_marks (.inl j.fail_owns)
  · simp only [spec_pure, List.append_nil]
    cases hpf : j.pf with
    | PF_KERNEL =>
      have hrun := hrun i rfl
      rw [hpf] at hrun
      refine h.vaddr_scan log st t j i hpf hrun fun u hu => ?_
      have hsc : Pc.scans (.vaddr_scan j) = some .kernel_vaddr := if_pos hpf
      rcases hok u hu with hok | hok
      · rw [hsc] at hok
        cases hok
      · rw [hsc] at hok
        exact hok
    | PF_USER =>
      have hne : ¬ j.pf = .PF_KERNEL := by rw [hpf]; simp
      exact h.quiet log st t _ _ (SameBitmaps.refl _) (if_neg hne) (.inl (if_neg hne))

theorem Layout.kernel_page (s : Mm) (h : Layout s) (i m c : Nat) (ho : s.Owned (0xc0100 + i) m c) :
    (s.kernel_vaddr.vaddr_start + UInt32.ofNat i * PG_SIZE).toNat / 2 ^ 12 = 0xc0100 + i := by
  obtain ⟨hstart, hlen⟩ := h.heap
  have hi := ho.2.1
  rw [hstart, UInt32.toNat_add, UInt32.toNat_mul, UInt32.toNat_ofNat_of_lt' (by show i < 2 ^ 32; omega)]
  show (0xc0100000 + i * 4096 % 2 ^ 32) % 2 ^ 32 / 2 ^ 12 = _
  omega

theorem Safe.goesOn_vaddr_set (h : Safe log st) (j : Job) (i c : Nat) (hpc : st.pc t = .vaddr_set j i c) :
    GoesOn log st t (pc_step st.mem (.vaddr_set j i c)) := by
  unfold GoesOn pc_step
  dsimp only
  cases hpf : j.pf with
  | PF_KERNEL =>
    have ho : st.mem.Owned (0xc0100 + i) j.pg_cnt c := h.owned t _ _ _ (by
      rw [hpc]
      exact if_pos hpf)
    have hset := h.vaddr_set log st t j i c hpc hpf _ rfl
    split
    · simp only [spec_pure, List.append_nil]
      exact hset _ (.inr (if_pos hpf)) (.inr ⟨c + 1, if_pos hpf, fun _ _ => Iff.rfl⟩)
    · rename_i hend
      rw [if_neg (by decide)]
      split
      · simp only [spec_pure, List.append_nil]
        exact hset _ (.inl j.fail_marks) (.inl j.fail_owns)
      · simp only [spec_pure, List.append_nil]
        refine hset _ (.inl (Job.next_marks _)) (.inr ⟨j.pg_cnt, ?_, fun k hk => by omega⟩)
        rw [Job.next_owns, ← h.layout.kernel_page st.mem i _ _ ho]
        rfl
  | PF_USER =>
    have hb := user_sameBitmaps st.mem (i + c) _ rfl
    have hne : ¬ j.pf = .PF_KERNEL := by rw [hpf]; simp
    split
    · simp only [spec_pure, List.append_nil]
      exact h.quiet log st t _ _ hb (if_neg hne) (.inl (if_neg hne))
    · simp only [if_true, spec_bind, spec_ASSERT]
      refine ⟨fun _ => ?_, fun _ => trivial⟩
      split
      · simp only [spec_pure, List.append_nil]
        exact h.quiet log st t _ _ hb j.fail_marks (.inl j.fail_owns)
      · simp only [spec_pure, List.append_nil]
        exact h.quiet log st t _ _ hb (Job.next_marks _) (.inl (Job.next_owns _))

theorem Safe.goesOn_palloc_scan (h : Safe log st) (pf : PoolFlags) (j : Job) (ret : Ret)
    (hpc : st.pc t = .palloc_scan pf j ret) (hok : ∀ u, u ≠ t → (st.pc u).marks ≠ some (.pool pf)) :
    GoesOn log st t (pc_step st.mem (.palloc_scan pf j ret)) := by
  unfold GoesOn pc_step
  rw [spec_bind]
  refine spec_mono _ _ _ _ _ (bitmap_scan_spec false _ 1) ?_ fun _ _ => trivial
  rintro (_ | i) ⟨hrun, -⟩
  · cases ret with
    | malloc_page =>
      simp only [spec_pure, List.append_nil]
      exact h.quiet log st t _ _ (SameBitmaps.refl _) j.fail_marks (.inl j.fail_owns)
    | page_table_add page_phyaddr =>
      simp only [spec_pure, List.append_nil]
      exact h.quiet log st t _ _ (SameBitmaps.refl _) rfl (.inr (by rw [hpc]; rfl))
  · simp only [spec_pure, List.append_nil]
    exact h.palloc_scan log st t pf i j ret hpc (hrun i rfl) hok

theorem Safe.goesOn_palloc_set (h : Safe log st) (pf : PoolFlags) (i : Nat) (j : Job) (ret : Ret)
    (hpc : st.pc t = .palloc_set pf i j ret) : GoesOn log st t (pc_step st.mem (.palloc_set pf i j ret)) := by
  unfold GoesOn pc_step
  rw [spec_ok]
  dsimp only
  have hframe : (UInt32.ofNat i * PG_SIZE + (st.mem.pool pf).phy_addr_start).toNat / 2 ^ 12 =
      (st.mem.pool pf).first + i := by
    rw [h.layout.phyaddr st.mem pf i (h.clear t pf i j ret hpc).1]
    omega
  rw [hframe]
  refine h.palloc_set log st t pf i j ret hpc _ ?_ ?_
  · cases ret with
    | malloc_page =>
      dsimp only
      split
      · exact j.fail_marks
      · rfl
    | page_table_add page => rfl
  · cases ret with
    | malloc_page =>
      dsimp only
      split
      · exact .inl j.fail_owns
      · exact .inr (by rw [hpc]; rfl)
    | page_table_add page => exact .inr (by rw [hpc]; rfl)

theorem Safe.goesOn_page_table_add (h : Safe log st) (j : Job) (page_phyaddr : UInt32)
    (hpc : st.pc t = .page_table_add j page_phyaddr) :
    GoesOn log st t (pc_step st.mem (.page_table_add j page_phyaddr)) := by
  have hquiet : ∀ pc : Pc, pc.marks = none → pc.owns = j.range →
      Safe log { mem := st.mem, pc := Function.update st.pc t pc } :=
    fun pc hm ho => h.quiet log st t _ pc (SameBitmaps.refl _) hm (.inr (by rw [hpc]; exact ho))
  unfold GoesOn pc_step
  rw [spec_bind, spec_iff_ok]
  intro pde _
  split
  · rw [spec_bind, spec_iff_ok]
    intro pte _
    rw [spec_bind, spec_ASSERT]
    refine ⟨fun _ => ?_, fun _ => trivial⟩
    rw [spec_bind, spec_iff_ok]
    intro pte' _
    split
    · trivial
    · simp only [spec_pure, List.append_nil]
      exact hquiet _ rfl rfl
  · simp only [spec_pure, List.append_nil]
    exact hquiet _ rfl rfl

theorem Safe.goesOn_new_table (h : Safe log st) (j : Job) (page_phyaddr pde_phyaddr : UInt32)
    (hpc : st.pc t = .new_table j page_phyaddr pde_phyaddr) :
    GoesOn log st t (pc_step st.mem (.new_table j page_phyaddr pde_phyaddr)) := by
  unfold GoesOn pc_step
  rw [spec_bind]
  refine spec_mono _ _ _ _ _ (store_sameBitmaps st.mem _ _) ?_ fun _ _ => trivial
  intro s₁ hb₁
  rw [spec_bind]
  refine spec_mono _ _ _ _ _ (memset_sameBitmaps st.mem s₁ hb₁ _ 1) ?_ fun _ _ => trivial
  intro s₂ hb₂
  rw [spec_bind, spec_iff_ok]
  intro pte _
  rw [spec_bind, spec_ASSERT]
  refine ⟨fun _ => ?_, fun _ => trivial⟩
  simp only [spec_pure, List.append_nil]
  exact h.quiet log st t s₂ _ hb₂ rfl (.inr (by rw [hpc]; rfl))

theorem Safe.goesOn_store_pte (h : Safe log st) (j : Job) (page_phyaddr : UInt32)
    (hpc : st.pc t = .store_pte j page_phyaddr) : GoesOn log st t (pc_step st.mem (.store_pte j page_phyaddr)) := by
  unfold GoesOn pc_step
  rw [spec_bind]
  refine spec_mono _ _ _ _ _ (store_sameBitmaps st.mem _ _) ?_ fun _ _ => trivial
  intro s₁ hb
  simp only [spec_pure, List.append_nil]
  refine h.quiet log st t s₁ _ hb (Job.next_marks _) (.inr ?_)
  rw [Job.next_owns, hpc]
  simp only [Pc.owns, Job.range]

theorem Safe.goesOn_memset (h : Safe log st) (j : Job) (hpc : st.pc t = .memset j) :
    GoesOn log st t (pc_step st.mem (.memset j)) := by
  unfold GoesOn pc_step
  rw [spec_bind]
  refine spec_mono _ _ _ _ _ (memset_sameBitmaps st.mem _ (SameBitmaps.refl _) _ _) ?_ fun _ _ => trivial
  intro s₁ hb
  cases hpf : j.pf with
  | PF_KERNEL =>
    rw [spec_pure]
    refine h.returned log st t _ _ ?_ s₁ hb
    rw [hpc]
    exact if_pos hpf
  | PF_USER =>
    simp only [spec_pure, List.append_nil]
    exact h.quiet log st t s₁ _ hb rfl (.inl rfl)

theorem Safe.pc_step (h : Safe log st)
    (hok : ∀ u, u ≠ t → (st.pc t).scans = none ∨ (st.pc u).marks ≠ (st.pc t).scans) :
    GoesOn log st t (pc_step st.mem (st.pc t)) := by
  cases hpc : st.pc t with
  | idle => trivial
  | lock_acquire pg_cnt =>
    unfold GoesOn OsLearn.pc_step
    rw [spec_bind]
    refine spec_mono _ _ _ _ _ (pool_acquire_spec false st.mem .PF_USER) ?_ fun _ _ => trivial
    rintro s₁ ⟨hsame, -⟩
    simp only [spec_pure, List.append_nil]
    exact h.quiet log st t s₁ _ hsame.sameBitmaps rfl (.inl rfl)
  | vaddr_scan j => exact h.goesOn_vaddr_scan t j (hpc ▸ hok)
  | vaddr_set j i c => exact h.goesOn_vaddr_set t j i c hpc
  | palloc_scan pf j ret =>
    refine h.goesOn_palloc_scan t pf j ret hpc fun u hu => ?_
    rw [hpc] at hok
    rcases hok u hu with hok | hok
    · cases hok
    · exact hok
  | palloc_set pf i j ret => exact h.goesOn_palloc_set t pf i j ret hpc
  | page_table_add j page => exact h.goesOn_page_table_add t j page hpc
  | new_table j page pde => exact h.goesOn_new_table t j page pde hpc
  | store_pte j page => exact h.goesOn_store_pte t j page hpc
  | memset j => exact h.goesOn_memset t j hpc
  | lock_release =>
    unfold GoesOn OsLearn.pc_step
    rw [spec_bind]
    refine spec_mono _ _ _ _ _ (pool_release_spec false st.mem .PF_USER) ?_ fun _ _ => trivial
    intro s₁ hsame
    simp only [spec_pure, List.append_nil]
    exact h.quiet log st t s₁ _ hsame.sameBitmaps rfl (.inl rfl)

end

/-! ## Every run -/

theorem Safe.call (n : Nat) (log : List AllocEvent) (st : Threads n) (h : Safe log st) (t : Fin n) (pc : Pc)
    (hm : pc.marks = none) (ho : pc.owns = none) : Safe log { st with pc := Function.update st.pc t pc } :=
  h.quiet log st t st.mem pc (SameBitmaps.refl _) hm (.inl ho)

theorem alloc_step_safe (n : Nat) (log : List AllocEvent) (st : Threads n) (a : AllocAct n) (h : Safe log st)
    (hok : scansAlone log st a) : Spec (alloc_step st a) (fun r => Safe (log ++ r.2) r.1) fun _ => True := by
  cases a with
  | get_kernel_pages t pg_cnt =>
    simp only [alloc_step]
    split
    · simp only [spec_bind, spec_ASSERT, spec_pure, List.append_nil]
      exact ⟨fun _ => h.call n log st t _ rfl rfl, fun _ => trivial⟩
    · trivial
  | get_user_pages t pg_cnt =>
    simp only [alloc_step]
    split
    · simp only [spec_bind, spec_ASSERT, spec_pure, List.append_nil]
      exact ⟨fun _ => h.call n log st t _ rfl rfl, fun _ => trivial⟩
    · trivial
  | run t =>
    have hturn := h.same log st { st.mem with cur := t } (cur_sameBitmaps st.mem t)
    unfold alloc_step
    rw [spec_bind]
    exact hturn.pc_step t hok

theorem init_safe (n : Nat) (st : Threads n) (hi : (allocSystem n).init st) : Safe [] st := by
  obtain ⟨⟨ram, all_mem, bits, main, pgdir, userprog_vaddr, huser, hmem⟩, hidle⟩ := hi
  have hl := mem_init_layout ram all_mem bits main
  generalize mem_init ram all_mem bits main = s at hl hmem
  have hpool : ∀ pf, st.mem.pool pf = s.pool pf := fun pf => by
    rw [hmem]
    cases pf <;> rfl
  have hlayout : Layout st.mem :=
    hl.congr _ _ (fun pf => by rw [hpool]) (fun pf => by rw [hpool]) (by rw [hmem]) (by rw [hmem]; exact huser)
  have howns : ∀ t, (st.pc t).owns = none := fun t => by
    rw [hidle]
    rfl
  refine { layout := hlayout, alone := ?_, handed := by simp [framesOf], frames := by simp [framesOf], clear := ?_,
           owned := ?_, apart := ?_, given := by simp [rangesOf], fresh := by simp [rangesOf],
           ranges := by simp [rangesOf] }
  · intro t u b _ ht
    rw [hidle] at ht
    cases ht
  · intro t pf i j ret ht
    rw [hidle] at ht
    cases ht
  · intro t lo m c ht
    rw [howns] at ht
    cases ht
  · intro t u lo m c lo' m' c' _ ht
    rw [howns] at ht
    cases ht

/-- **Preemption.** In every run in which no thread scans a bitmap while another is about to mark it,
no frame is handed out twice and no two calls return the same page. -/
theorem preempted_allocation (n : Nat) (log : List AllocEvent) (st : Threads n)
    (h : Run.Reach (allocSystem n) scansAlone log st) : Separate log := by
  have hsafe : Safe log st := by
    refine Run.reach_invariant (allocSystem n) scansAlone Safe (init_safe n) ?_ log st h
    intro log st a st' evs hsafe hok hs
    exact spec_of_ok _ _ _ (alloc_step_safe n log st a hsafe hok) (st', evs) hs
  exact ⟨hsafe.frames, hsafe.ranges⟩

def twoThreads (mem : Mm) : Threads 2 := { mem := mem, pc := fun _ => .idle }

theorem reach_twoThreads (ok : List AllocEvent → Threads 2 → AllocAct 2 → Prop) :
    Run.Reach (allocSystem 2) ok [] (twoThreads (zeroMemory 0x210000)) := by
  have huser : ∀ t, ((zeroMemory 0x210000).userprog_vaddr t).vaddr_bitmap.btmp_bytes_len = 0 := fun t => by
    simp only [zeroMemory, mem_init]
  obtain ⟨s, hs⟩ : ∃ s, s = zeroMemory 0x210000 := ⟨_, rfl⟩
  rw [← hs] at huser ⊢
  refine .init _ ⟨⟨fun _ _ => 0, 0x210000, fun _ _ => 0, 0, s.pgdir, s.userprog_vaddr, fun t => .inl (huser t), ?_⟩,
    fun _ => rfl⟩
  unfold zeroMemory at hs
  rw [← hs]
  rfl

theorem preempted_allocation_two : ∃ (log : List AllocEvent) (st : Threads 2),
    Run.Reach (allocSystem 2) scansAlone log st ∧
      log = [.frame 512, .kernel_pages 0xc0100 1, .frame 513, .kernel_pages 0xc0101 1] ∧ Separate log := by
  have hplay : (Run.play (allocSystem 2) scansAlone []
      (twoThreads ((zeroMemory 0x210000).withRam (bootTables fun _ _ => 0)))
      [.get_kernel_pages 0 1, .run 0, .run 0, .run 0, .run 0, .run 0, .run 0, .run 0,
        .get_kernel_pages 1 1, .run 1, .run 1, .run 1, .run 1, .run 1, .run 1, .run 1]).map (·.1) =
        some [.frame 512, .kernel_pages 0xc0100 1, .frame 513, .kernel_pages 0xc0101 1] := by decide +kernel
  rw [← zeroMemory_eq] at hplay
  obtain ⟨⟨log, st⟩, hp, hlog⟩ := Option.map_eq_some_iff.mp hplay
  have hr := Run.reach_play _ _ _ _ _ _ _ (reach_twoThreads scansAlone) hp
  exact ⟨log, st, hr, hlog, preempted_allocation 2 log st hr⟩

/-- Both threads scan the kernel pool before either of them sets the bit. -/
theorem preempted_allocation_twice : ∃ (log : List AllocEvent) (st : Threads 2),
    Run.Reach (allocSystem 2) Run.anyStep log st ∧ log = [.frame 512, .frame 512] ∧ ¬ Separate log := by
  have hplay : (Run.play (allocSystem 2) Run.anyStep []
      (twoThreads ((zeroMemory 0x210000).withRam (bootTables fun _ _ => 0)))
      [.get_kernel_pages 0 1, .run 0, .run 0, .get_kernel_pages 1 1, .run 1, .run 1,
        .run 0, .run 1, .run 0, .run 1]).map (·.1) = some [.frame 512, .frame 512] := by decide +kernel
  rw [← zeroMemory_eq] at hplay
  obtain ⟨⟨log, st⟩, hp, hlog⟩ := Option.map_eq_some_iff.mp hplay
  have hr := Run.reach_play _ _ _ _ _ _ _ (reach_twoThreads Run.anyStep) hp
  refine ⟨log, st, hr, hlog, ?_⟩
  dsimp only at hlog
  rw [hlog]
  decide

end OsLearn
