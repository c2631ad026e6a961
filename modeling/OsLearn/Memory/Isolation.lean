import OsLearn.Memory.System

/-!
# Isolation: one role for each frame, one kernel half for all
-/

namespace OsLearn

/-! ## Runs -/

theorem mem_init_inv (ndebug : Bool) (ram : Ram) (all_mem : UInt32) (bits : Fin 3 → Nat → UInt8) (main : Tid) :
    MemInv (bootPages ram) ndebug [] [PAGE_DIR_FRAME] (mem_init ram all_mem bits main) := by
  have hfr := mem_init_frames ram all_mem bits main
  refine { frames := hfr, listed := by simp, origin := ?_, ranges := by simp, pages := ?_ }
  · exact fun d hd => .inl (List.mem_singleton.mp hd)
  · exact fun _ p r hr => absurd (hfr.used p r hr) (mem_init_unused ram all_mem bits main _ p)

theorem mem_reach (exec : Mm → MemCall → Except Stop (UInt32 × Mm)) (ndebug : Bool) (hexec : KeepsFrames exec ndebug)
    (tables : Ram → Prop) (log : List MemEvent) (s : Mm)
    (hr : Run.Reach (memSystem exec ndebug tables) inContract log s) :
    ∃ ram, tables ram ∧ ∃ dirs, MemInv (bootPages ram) ndebug log dirs s := by
  refine Run.reach_invariant _ _ (fun log s => ∃ ram, tables ram ∧ ∃ dirs, MemInv (bootPages ram) ndebug log dirs s)
    ?_ ?_ log s hr
  · rintro s ⟨ram, all_mem, bits, main, htab, rfl⟩
    exact ⟨ram, htab, _, mem_init_inv ndebug ram all_mem bits main⟩
  · rintro log s a s' evs ⟨ram, htab, dirs, hinv⟩ ha hs
    exact ⟨ram, htab, spec_of_ok _ _ _ (mem_step_keeps exec hexec log s a hinv ha) _ hs⟩

def pageDirs (log : List MemEvent) (s : Mm) : List Nat :=
  PAGE_DIR_FRAME :: log.filterMap fun
    | .page_dir v => walk s.ram PAGE_DIR_FRAME v
    | .pages _ _ _ => none

theorem mem_pageDirs (log : List MemEvent) (s : Mm) (d : Nat) :
    d ∈ pageDirs log s ↔ d = PAGE_DIR_FRAME ∨ ∃ v, .page_dir v ∈ log ∧ walk s.ram PAGE_DIR_FRAME v = some d := by
  unfold pageDirs
  rw [List.mem_cons, List.mem_filterMap]
  refine or_congr Iff.rfl ⟨?_, ?_⟩
  · rintro ⟨ev, hev, hd⟩
    cases ev with
    | page_dir v => exact ⟨v, hev, hd⟩
    | pages _ _ _ => cases hd
  · rintro ⟨v, hv, hd⟩
    exact ⟨_, hv, hd⟩

section

variable {booted : Nat → Prop} {ndebug : Bool} {dirs : List Nat}

theorem MemInv.walk_dir (log : List MemEvent) (s : Mm) (h : MemInv booted ndebug log dirs s) (v : UInt32)
    (hv : .page_dir v ∈ log) : ∃ d ∈ dirs, walk s.ram PAGE_DIR_FRAME v = some d := by
  obtain ⟨d, hd, -, -, -, hf⟩ := h.listed v hv
  exact ⟨d, hd, by rw [walk_eq, hf]⟩

theorem MemInv.mem_dirs (log : List MemEvent) (s : Mm) (h : MemInv booted ndebug log dirs s) (d : Nat) :
    d ∈ dirs ↔ d ∈ pageDirs log s := by
  rw [mem_pageDirs]
  constructor
  · intro hd
    rcases h.origin d hd with hb | ⟨v, hv, -, -, -, hf⟩
    · exact .inl hb
    · exact .inr ⟨v, hv, by rw [walk_eq, hf]⟩
  · rintro (rfl | ⟨v, hv, hw⟩)
    · exact h.frames.spaces.boot
    · obtain ⟨d', hd', hw'⟩ := h.walk_dir log s v hv
      rw [hw] at hw'
      exact Option.some.inj hw' ▸ hd'

theorem HasRole.congr_dirs (dirs' : List Nat) (ram : Ram) (h : ∀ d, d ∈ dirs ↔ d ∈ dirs') (p : Nat) (r : Role) :
    HasRole booted dirs ram p r ↔ HasRole booted dirs' ram p r := by
  cases r with
  | kernel_page v => exact Iff.rfl
  | user_page d v => simp only [HasRole, h d]
  | page_table d i => simp only [HasRole, h d]

end

/-! ## The kernel half -/

/-- A machine whose memory is zero. -/
def zeroMemory (all_mem : UInt32) : Mm := mem_init (fun _ _ => 0) all_mem (fun _ _ => 0) 0

theorem zeroMemory_eq (all_mem : UInt32) :
    zeroMemory all_mem = (zeroMemory all_mem).withRam (bootTables fun _ _ => 0) := by
  unfold zeroMemory mem_init Mm.withRam
  simp only [setup_page_eq]

theorem reach_zeroMemory (exec : Mm → MemCall → Except Stop (UInt32 × Mm)) (ndebug : Bool) (tables : Ram → Prop)
    (htab : tables fun _ _ => 0) (all_mem : UInt32) :
    Run.Reach (memSystem exec ndebug tables) inContract [] (zeroMemory all_mem) :=
  .init _ ⟨_, _, _, _, htab, rfl⟩

/-- The tables behind entries 768 to 1022 hold nothing above the first megabyte. -/
def KernelTablesEmpty (ram : Ram) : Prop :=
  ∀ i, 768 ≤ i → i < 1023 → ∀ j, j < 1024 → (i = 768 → 256 ≤ j) → target (ram (kernelTable i) j) = none

def lowMegabyte (v : Nat) : Prop := 0xc0000 ≤ v ∧ v < 0xc0100

theorem bootPages_eq (ram : Ram) (h : KernelTablesEmpty ram) : bootPages ram = lowMegabyte := by
  funext v
  unfold bootPages lowMegabyte
  refine propext ⟨?_, ?_⟩
  · rintro ⟨h1, h2, hf⟩
    refine ⟨h1, ?_⟩
    by_contra hge
    refine hf ?_
    unfold frameAt
    rw [setup_page_dir, bootDir, if_neg (by omega), if_pos (by omega), target_kernelTable _ (by omega),
      Option.bind_some, setup_page_table _ _ _ (by unfold kernelTable PAGE_DIR_FRAME; omega), if_neg]
    · exact h _ (by omega) (by omega) _ (by omega) (by omega)
    · rintro ⟨heq, hlt⟩
      have := kernelTable_inj _ _ (by omega) (by omega) heq
      omega
  · rintro ⟨h1, h2⟩
    refine ⟨h1, by omega, ?_⟩
    have hi : v / 2 ^ 10 = 768 := by omega
    unfold frameAt
    rw [setup_page_dir, bootDir, hi, if_neg (by omega), if_pos (by omega), target_kernelTable _ (by omega),
      Option.bind_some, setup_page_table _ _ _ (by decide), if_pos ⟨rfl, by omega⟩, target_entry _ (by omega)]
    simp

def FrameRole (log : List MemEvent) (s : Mm) (p : Nat) (r : Role) : Prop :=
  HasRole lowMegabyte (pageDirs log s) s.ram p r

/-- **Frames have one role.** A frame whose bit is set has exactly one role, and a frame with a role has
its bit set in the pool for that role. The pages with a role are those that calls have given. A call
gives pages that were not mapped, and that no call before it gave to the same address space. -/
theorem frame_ownership (log : List MemEvent) (s : Mm)
    (hr : Run.Reach (memSystem (mem_call false) false KernelTablesEmpty) inContract log s) :
    (∀ pf p, (s.pool pf).Used p → ∃ r, FrameRole log s p r ∧ ∀ r', FrameRole log s p r' → r' = r) ∧
    (∀ p r, FrameRole log s p r → (s.pool r.pool).Used p) ∧
    (∀ p r, FrameRole log s p r → (∃ d i, r = .page_table d i) ∨
      ∃ d lo n k, .pages d lo n ∈ log ∧ k < n ∧ r = pageRole d (lo + k)) ∧
    (∀ d lo n k, .pages d lo n ∈ log → k < n → ∃ p, FrameRole log s p (pageRole d (lo + k))) ∧
    ∀ c v s', c.InContract s → mem_call false s c = .ok (v, s') → v ≠ NULL → ∀ k < c.pg_cnt,
      frameAt s.ram s.dir (v.toNat / 2 ^ 12 + k) = none ∧ frameAt s'.ram s.dir (v.toNat / 2 ^ 12 + k) ≠ none ∧
        ∀ d lo n j, .pages d lo n ∈ log → j < n → pageRole s.dir (v.toNat / 2 ^ 12 + k) ≠ pageRole d (lo + j) := by
  obtain ⟨ram, htab, dirs, hinv⟩ := mem_reach _ false (mem_call_keeps false) _ log s hr
  rw [bootPages_eq ram htab] at hinv
  have hfr := hinv.frames
  have hiff : ∀ p r, HasRole lowMegabyte dirs s.ram p r ↔ FrameRole log s p r :=
    HasRole.congr_dirs _ s.ram (hinv.mem_dirs log s)
  simp only [← hiff]
  refine ⟨fun pf p hu => ?_, hfr.used, hinv.pages rfl, fun d lo n k hev hk => ?_, ?_⟩
  · rcases hfr.role pf p hu with hm | ⟨r, hr⟩
    · cases hm
    · exact ⟨r, hr, fun r' hr' => hfr.spaces.unique p r' r hr' hr⟩
  · obtain ⟨-, -, p, hp⟩ := (hinv.ranges d lo n hev).2 k hk
    exact ⟨p, hp⟩
  · intro c v s' hc hcall hne k hk
    obtain ⟨-, lo, -, ⟨hnull, -⟩ | ⟨hlo, -, hret⟩⟩ :=
      spec_of_ok _ _ _ (mem_call_keeps false lowMegabyte dirs s c hfr hc) _ hcall
    · exact absurd hnull hne
    · dsimp only at hlo hret
      rw [hlo]
      refine ⟨hret.before k hk, hret.after k hk, fun d lo' n' j hev hj heq => ?_⟩
      obtain ⟨h1, h2⟩ := (hret.range k hk).bounds
      obtain ⟨-, -, p, hp⟩ := (hinv.ranges d lo' n' hev).2 j hj
      rw [← heq, hfr.spaces.hasRole_page s.dir _ p hfr.active h1 h2, hret.before k hk] at hp
      cases hp.2

theorem frame_ownership_three : ∃ log s, log = [.pages 0x100 0xc0100 2, .pages 0x100 0xc0108 1] ∧
    (∃ p, FrameRole log s p (.kernel_page 0xc0101) ∧ (s.pool .PF_KERNEL).Used p ∧
      ∀ r, FrameRole log s p r → r = .kernel_page 0xc0101) := by
  have hplay : (Run.play (memSystem (mem_call false) false KernelTablesEmpty) inContract []
      ((zeroMemory 0x280000).withRam (bootTables fun _ _ => 0))
      [.call (.get_kernel_pages 2), .call (.get_a_page .PF_KERNEL 0xc0108000)]).map (·.1) =
        some [.pages 0x100 0xc0100 2, .pages 0x100 0xc0108 1] := by decide +kernel
  rw [← zeroMemory_eq] at hplay
  obtain ⟨⟨log, s⟩, hp, hlog⟩ := Option.map_eq_some_iff.mp hplay
  have htab : KernelTablesEmpty fun _ _ => 0 := fun _ _ _ _ _ _ => target_zero
  have hr := Run.reach_play _ _ _ _ _ _ _ (reach_zeroMemory _ false _ htab _) hp
  obtain ⟨hone, hused, -, hgiven, -⟩ := frame_ownership log s hr
  dsimp only at hlog
  obtain ⟨p, hrole⟩ := hgiven 0x100 0xc0100 2 1 (by rw [hlog]; simp) (by omega)
  have hu := hused p _ hrole
  obtain ⟨r₀, -, huniq⟩ := hone _ p hu
  exact ⟨log, s, hlog, p, hrole, hu, fun r hr' => (huniq r hr').trans (huniq _ hrole).symm⟩

end OsLearn
