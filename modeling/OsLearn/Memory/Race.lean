import OsLearn.Memory.Preempt

/-!
# The race for a bit

A bit that a scan has found is not yet set. The calls stay apart as long as nobody scans the same
bitmap in between.
-/

namespace OsLearn

def Job.range (j : Job) : Option (Nat × Nat × Nat) :=
  if j.pf = .PF_KERNEL then some (j.vaddr_start.toNat / 2 ^ 12, j.pg_cnt, j.pg_cnt) else none

/-- The pages of the kernel that a thread has: the first one, how many, and how many are marked. -/
def Pc.owns : Pc → Option (Nat × Nat × Nat)
  | .vaddr_set j bit_idx_start cnt =>
    if j.pf = .PF_KERNEL then some (0xc0100 + bit_idx_start, j.pg_cnt, cnt) else none
  | .palloc_scan _ j _ | .palloc_set _ _ j _ | .page_table_add j _ | .new_table j _ _ | .store_pte j _
  | .memset j => j.range
  | _ => none

def Mm.marked (s : Mm) (page : Nat) : Bool := bitmap_scan_test s.kernel_vaddr.vaddr_bitmap (page - 0xc0100)

def Mm.Owned (s : Mm) (lo m c : Nat) : Prop :=
  0xc0100 ≤ lo ∧ lo + m ≤ 0xc0100 + 8 * s.kernel_vaddr.vaddr_bitmap.btmp_bytes_len + 1 ∧
    ∀ k < m, s.marked (lo + k) = decide (k < c)

structure Safe {n : Nat} (log : List AllocEvent) (st : Threads n) : Prop where
  layout : Layout st.mem
  alone : ∀ t u b, t ≠ u → (st.pc t).marks = some b → (st.pc u).marks ≠ some b
  handed : ∀ p ∈ framesOf log, ∃ pf, (st.mem.pool pf).Used p
  frames : (framesOf log).Nodup
  clear : ∀ t pf i j ret, st.pc t = .palloc_set pf i j ret →
    i < 8 * (st.mem.pool pf).pool_bitmap.btmp_bytes_len ∧ bitmap_scan_test (st.mem.pool pf).pool_bitmap i = false
  owned : ∀ t lo m c, (st.pc t).owns = some (lo, m, c) → st.mem.Owned lo m c
  apart : ∀ t u lo m c lo' m' c', t ≠ u → (st.pc t).owns = some (lo, m, c) → (st.pc u).owns = some (lo', m', c') →
    Apart (lo, m) (lo', m')
  given : ∀ r ∈ rangesOf log, 0xc0100 ≤ r.1 ∧ ∀ k < r.2, st.mem.marked (r.1 + k) = true
  fresh : ∀ t lo m c, (st.pc t).owns = some (lo, m, c) → ∀ r ∈ rangesOf log, Apart (lo, m) r
  ranges : (rangesOf log).Pairwise Apart

structure SameBitmaps (s s' : Mm) : Prop where
  layout : Layout s → Layout s'
  kernel_vaddr : s'.kernel_vaddr = s.kernel_vaddr
  first : ∀ pf, (s'.pool pf).first = (s.pool pf).first
  bitmap : ∀ pf, (s'.pool pf).pool_bitmap = (s.pool pf).pool_bitmap

theorem SameBitmaps.refl (s : Mm) : SameBitmaps s s := ⟨id, rfl, fun _ => rfl, fun _ => rfl⟩

theorem SameBitmaps.trans (s s₁ s₂ : Mm) (h : SameBitmaps s s₁) (h' : SameBitmaps s₁ s₂) : SameBitmaps s s₂ :=
  ⟨fun hl => h'.layout (h.layout hl), h'.kernel_vaddr.trans h.kernel_vaddr, fun pf => (h'.first pf).trans (h.first pf),
    fun pf => (h'.bitmap pf).trans (h.bitmap pf)⟩

theorem SameBitmaps.used (s s' : Mm) (h : SameBitmaps s s') (pf : PoolFlags) (p : Nat) :
    (s'.pool pf).Used p ↔ (s.pool pf).Used p := by
  unfold Pool.Used
  rw [h.bitmap, h.first]

theorem SameBitmaps.marked (s s' : Mm) (h : SameBitmaps s s') (page : Nat) : s'.marked page = s.marked page := by
  unfold Mm.marked
  rw [h.kernel_vaddr]

theorem SameBitmaps.withRam (s : Mm) (ram : Ram) : SameBitmaps s (s.withRam ram) :=
  ⟨fun h => h.keeps s _ (Keeps.withRam s ram), rfl, fun pf => by rw [s.withRam_pool], fun pf => by rw [s.withRam_pool]⟩

section

variable {n : Nat}

theorem Job.range_marked (j : Job) (lo m c : Nat) (h : j.range = some (lo, m, c)) : c = m := by
  unfold range at h
  split at h
  · simp only [Option.some.injEq, Prod.mk.injEq] at h
    omega
  · cases h

theorem Pc.owns_marked (pc : Pc) (lo m c : Nat) (h : pc.owns = some (lo, m, c)) (hm : pc.marks ≠ some .kernel_vaddr) :
    c = m := by
  cases pc with
  | idle => cases h
  | lock_acquire _ => cases h
  | vaddr_scan _ => cases h
  | lock_release => cases h
  | vaddr_set j i c' =>
    simp only [owns, marks] at h hm
    split at h
    · rename_i hk
      exact absurd (if_pos hk) hm
    · cases h
  | palloc_scan _ j _ => exact j.range_marked lo m c h
  | palloc_set _ _ j _ => exact j.range_marked lo m c h
  | page_table_add j _ => exact j.range_marked lo m c h
  | new_table j _ _ => exact j.range_marked lo m c h
  | store_pte j _ => exact j.range_marked lo m c h
  | memset j => exact j.range_marked lo m c h

/-- A step of thread `t`: what has to be said of `t`, and what of the others. -/
theorem Safe.update (log log' : List AllocEvent) (st : Threads n) (h : Safe log st) (t : Fin n) (mem : Mm) (pc : Pc)
    (hlayout : Layout mem)
    (halone : ∀ u b, u ≠ t → pc.marks = some b → (st.pc u).marks ≠ some b)
    (hhanded : ∀ p ∈ framesOf log', ∃ pf, (mem.pool pf).Used p) (hframes : (framesOf log').Nodup)
    (hclear : ∀ u pf i j ret, (if u = t then pc else st.pc u) = .palloc_set pf i j ret →
      i < 8 * (mem.pool pf).pool_bitmap.btmp_bytes_len ∧ bitmap_scan_test (mem.pool pf).pool_bitmap i = false)
    (howned : ∀ u lo m c, (if u = t then pc else st.pc u).owns = some (lo, m, c) → mem.Owned lo m c)
    (hapart : ∀ u lo m c lo' m' c', u ≠ t → pc.owns = some (lo, m, c) → (st.pc u).owns = some (lo', m', c') →
      Apart (lo, m) (lo', m'))
    (hgiven : ∀ r ∈ rangesOf log', 0xc0100 ≤ r.1 ∧ ∀ k < r.2, mem.marked (r.1 + k) = true)
    (hfresh : ∀ u lo m c, (if u = t then pc else st.pc u).owns = some (lo, m, c) →
      ∀ r ∈ rangesOf log', Apart (lo, m) r)
    (hranges : (rangesOf log').Pairwise Apart) :
    Safe log' { mem := mem, pc := Function.update st.pc t pc } := by
  have hpc : ∀ u, Function.update st.pc t pc u = if u = t then pc else st.pc u := by
    intro u
    rw [Function.update_apply]
  refine { layout := hlayout, alone := ?_, handed := hhanded, frames := hframes, clear := ?_, owned := ?_, apart := ?_,
           given := hgiven, fresh := ?_, ranges := hranges }
  · intro a b x hab ha hb
    dsimp only at ha hb
    rw [hpc] at ha hb
    by_cases hat : a = t
    · rw [if_pos hat] at ha
      rw [if_neg (fun hbt => hab (hat.trans hbt.symm))] at hb
      exact halone b x (fun hbt => hab (hat.trans hbt.symm)) ha hb
    · rw [if_neg hat] at ha
      by_cases hbt : b = t
      · rw [if_pos hbt] at hb
        exact halone a x hat hb ha
      · rw [if_neg hbt] at hb
        exact h.alone a b x hab ha hb
  · intro u pf i j ret hu
    dsimp only at hu
    rw [hpc] at hu
    exact hclear u pf i j ret hu
  · intro u lo m c hu
    dsimp only at hu
    rw [hpc] at hu
    exact howned u lo m c hu
  · intro a b lo m c lo' m' c' hab ha hb
    dsimp only at ha hb
    rw [hpc] at ha hb
    by_cases hat : a = t
    · rw [if_pos hat] at ha
      rw [if_neg (fun hbt => hab (hat.trans hbt.symm))] at hb
      exact hapart b lo m c lo' m' c' (fun hbt => hab (hat.trans hbt.symm)) ha hb
    · rw [if_neg hat] at ha
      by_cases hbt : b = t
      · rw [if_pos hbt] at hb
        have hsym := hapart a lo' m' c' lo m c hat hb ha
        exact fun k hk j hj heq => hsym j hj k hk heq.symm
      · rw [if_neg hbt] at hb
        exact h.apart a b lo m c lo' m' c' hab ha hb
  · intro u lo m c hu
    dsimp only at hu
    rw [hpc] at hu
    exact hfresh u lo m c hu

theorem SameBitmaps.owned (s s' : Mm) (h : SameBitmaps s s') (lo m c : Nat) (ho : s.Owned lo m c) :
    s'.Owned lo m c := by
  unfold Mm.Owned at ho ⊢
  simp only [h.marked, h.kernel_vaddr]
  exact ho

theorem owns_update (st : Threads n) (t : Fin n) (pc : Pc) (ho : pc.owns = none ∨ pc.owns = (st.pc t).owns) (u : Fin n)
    (x : Nat × Nat × Nat) (hu : (if u = t then pc else st.pc u).owns = some x) : (st.pc u).owns = some x := by
  split at hu
  · rename_i hut
    rcases ho with ho | ho
    · rw [ho] at hu
      cases hu
    · rw [hut, ← ho, hu]
  · exact hu

theorem Safe.same (log : List AllocEvent) (st : Threads n) (h : Safe log st) (mem : Mm) (hb : SameBitmaps st.mem mem) :
    Safe log { mem := mem, pc := st.pc } := by
  refine { layout := hb.layout h.layout, alone := h.alone, handed := ?_, frames := h.frames, clear := ?_, owned := ?_,
           apart := h.apart, given := ?_, fresh := h.fresh, ranges := h.ranges }
  · intro p hp
    obtain ⟨pf, hu⟩ := h.handed p hp
    exact ⟨pf, (hb.used _ _ pf p).mpr hu⟩
  · intro u pf i j ret hu
    rw [hb.bitmap]
    exact h.clear u pf i j ret hu
  · exact fun u lo m c hu => hb.owned _ _ lo m c (h.owned u lo m c hu)
  · intro r hr
    simp only [hb.marked]
    exact h.given r hr

theorem Safe.quiet (log : List AllocEvent) (st : Threads n) (h : Safe log st) (t : Fin n) (mem : Mm) (pc : Pc)
    (hb : SameBitmaps st.mem mem) (hm : pc.marks = none) (ho : pc.owns = none ∨ pc.owns = (st.pc t).owns) :
    Safe log { mem := mem, pc := Function.update st.pc t pc } := by
  have howns := owns_update st t pc ho
  have h' := h.same log st mem hb
  refine h'.update log log _ t mem pc h'.layout ?_ h'.handed h'.frames ?_ ?_ ?_ h'.given ?_ h'.ranges
  · intro u b _ hmb
    rw [hm] at hmb
    cases hmb
  · intro u pf i j ret hu
    split at hu
    · rw [hu] at hm
      cases hm
    · exact h'.clear u pf i j ret hu
  · exact fun u lo m c hu => h'.owned u lo m c (howns u _ hu)
  · intro u lo m c lo' m' c' hut hpc hu
    have ht := howns t (lo, m, c) (by rw [if_pos rfl]; exact hpc)
    exact h.apart t u lo m c lo' m' c' hut.symm ht hu
  · exact fun u lo m c hu => h.fresh u lo m c (howns u _ hu)

/-! ## The steps on the bitmaps -/

theorem apart_of_marked (s : Mm) (lo m lo' m' : Nat) (hclear : ∀ k < m, s.marked (lo + k) = false)
    (hset : ∀ k < m', s.marked (lo' + k) = true) : Apart (lo, m) (lo', m') := by
  intro k hk j hj heq
  have h1 := hclear k hk
  have h2 := hset j hj
  dsimp only at heq
  rw [heq, h2] at h1
  cases h1

theorem Safe.vaddr_scan (log : List AllocEvent) (st : Threads n) (h : Safe log st) (t : Fin n) (j : Job) (i : Nat)
    (hk : j.pf = .PF_KERNEL) (hrun : ClearRun st.mem.kernel_vaddr.vaddr_bitmap j.pg_cnt i)
    (hok : ∀ u, u ≠ t → (st.pc u).marks ≠ some .kernel_vaddr) :
    Safe log { mem := st.mem, pc := Function.update st.pc t (.vaddr_set j i 0) } := by
  have howns : Pc.owns (.vaddr_set j i 0) = some (0xc0100 + i, j.pg_cnt, 0) := by
    simp only [Pc.owns, if_pos hk]
  have hclear : ∀ k < j.pg_cnt, st.mem.marked (0xc0100 + i + k) = false := by
    intro k hk
    unfold Mm.marked
    rw [show 0xc0100 + i + k - 0xc0100 = i + k from by omega]
    exact hrun.clear k hk
  have hothers : ∀ u lo m c, u ≠ t → (st.pc u).owns = some (lo, m, c) → ∀ k < m, st.mem.marked (lo + k) = true := by
    intro u lo m c hut hu k hk
    rw [(h.owned u lo m c hu).2.2 k hk, (st.pc u).owns_marked lo m c hu (hok u hut), decide_eq_true hk]
  refine h.update log log st t _ _ h.layout ?_ h.handed h.frames ?_ ?_ ?_ h.given ?_ h.ranges
  · intro u b hut hb
    simp only [Pc.marks, if_pos hk, Option.some.injEq] at hb
    exact hb ▸ hok u hut
  · intro u pf i' j' ret hu
    split at hu
    · cases hu
    · exact h.clear u pf i' j' ret hu
  · intro u lo m c hu
    split at hu
    · rw [howns] at hu
      simp only [Option.some.injEq, Prod.mk.injEq] at hu
      obtain ⟨rfl, rfl, rfl⟩ := hu
      have hin := hrun.inside
      exact ⟨by omega, by omega, fun k hk => by rw [hclear k hk, decide_eq_false (by omega)]⟩
    · exact h.owned u lo m c hu
  · intro u lo m c lo' m' c' hut hpc hu
    rw [howns] at hpc
    simp only [Option.some.injEq, Prod.mk.injEq] at hpc
    obtain ⟨rfl, rfl, rfl⟩ := hpc
    exact apart_of_marked st.mem _ _ _ _ hclear (hothers u lo' m' c' hut hu)
  · intro u lo m c hu r hr
    split at hu
    · rw [howns] at hu
      simp only [Option.some.injEq, Prod.mk.injEq] at hu
      obtain ⟨rfl, rfl, rfl⟩ := hu
      exact apart_of_marked st.mem _ _ _ _ hclear (h.given r hr).2
    · exact h.fresh u lo m c hu r hr

/-- One more page of the kernel is marked. -/
theorem Mm.marked_set (s : Mm) (i page : Nat) (hpage : 0xc0100 ≤ page) :
    (s.setVaddrs .PF_KERNEL { s.kernel_vaddr with
      vaddr_bitmap := bitmap_set s.kernel_vaddr.vaddr_bitmap i true }).marked page =
      (s.marked page || decide (page = 0xc0100 + i)) := by
  have hidx : page - 0xc0100 = i ↔ page = 0xc0100 + i := by omega
  unfold Mm.marked
  rw [← decide_eq_decide.mpr hidx]
  exact bitmap_set_test _ _ _

theorem Safe.vaddr_set (log : List AllocEvent) (st : Threads n) (h : Safe log st) (t : Fin n) (j : Job) (i c : Nat)
    (hpc : st.pc t = .vaddr_set j i c) (hk : j.pf = .PF_KERNEL) (mem : Mm)
    (hmem : mem = st.mem.setVaddrs .PF_KERNEL { st.mem.kernel_vaddr with
      vaddr_bitmap := bitmap_set st.mem.kernel_vaddr.vaddr_bitmap (i + c) true })
    (pc : Pc) (hm : pc.marks = none ∨ pc.marks = some .kernel_vaddr)
    (ho : pc.owns = none ∨ ∃ c', pc.owns = some (0xc0100 + i, j.pg_cnt, c') ∧ ∀ k < j.pg_cnt, k < c' ↔ k < c + 1) :
    Safe log { mem := mem, pc := Function.update st.pc t pc } := by
  have howns : (st.pc t).owns = some (0xc0100 + i, j.pg_cnt, c) := by
    rw [hpc]
    simp only [Pc.owns, if_pos hk]
  have hmarks : (st.pc t).marks = some .kernel_vaddr := by
    rw [hpc]
    simp only [Pc.marks, if_pos hk]
  have hnew : ∀ lo m c', pc.owns = some (lo, m, c') →
      lo = 0xc0100 + i ∧ m = j.pg_cnt ∧ ∀ k < j.pg_cnt, k < c' ↔ k < c + 1 := by
    intro lo m c' hu
    rcases ho with ho | ⟨c₁, ho, hc⟩
    · rw [ho] at hu
      cases hu
    · rw [ho] at hu
      simp only [Option.some.injEq, Prod.mk.injEq] at hu
      obtain ⟨rfl, rfl, rfl⟩ := hu
      exact ⟨rfl, rfl, hc⟩
  have hlen : mem.kernel_vaddr.vaddr_bitmap.btmp_bytes_len = st.mem.kernel_vaddr.vaddr_bitmap.btmp_bytes_len := by
    rw [hmem]
    exact bitmap_set_len _ _ _
  have hpool : ∀ pf, mem.pool pf = st.mem.pool pf := by
    rw [hmem]
    exact setVaddrs_pool _ _ _
  have hmarked : ∀ page, 0xc0100 ≤ page → mem.marked page = (st.mem.marked page || decide (page = 0xc0100 + (i + c))) := by
    rw [hmem]
    exact st.mem.marked_set (i + c)
  refine h.update log log st t mem pc ?_ ?_ ?_ h.frames ?_ ?_ ?_ ?_ ?_ h.ranges
  · rw [hmem]
    exact { h.layout with heap := h.layout.heap }
  · intro u b hut hb
    rcases hm with hm | hm
    · rw [hm] at hb
      cases hb
    · rw [hm] at hb
      exact h.alone t u b hut.symm (hmarks.trans hb)
  · intro p hp
    obtain ⟨pf, hu⟩ := h.handed p hp
    exact ⟨pf, by rw [hpool]; exact hu⟩
  · intro u pf i' j' ret hu
    rw [hpool]
    split at hu
    · simp [hu, Pc.marks] at hm
    · exact h.clear u pf i' j' ret hu
  · intro u lo m c' hu
    split at hu
    · obtain ⟨rfl, rfl, hc⟩ := hnew lo m c' hu
      obtain ⟨h1, h2, h3⟩ := h.owned t _ _ _ howns
      refine ⟨h1, by rw [hlen]; exact h2, fun k hkm => ?_⟩
      rw [hmarked _ (by omega), h3 k hkm, ← Bool.decide_or, decide_eq_decide, hc k hkm]
      omega
    · -- the other threads have marked all that they own
      rename_i hut
      obtain ⟨h1, h2, h3⟩ := h.owned u lo m c' hu
      have hfull := (st.pc u).owns_marked lo m c' hu (h.alone t u _ (Ne.symm hut) hmarks)
      refine ⟨h1, by rw [hlen]; exact h2, fun k hkm => ?_⟩
      rw [hmarked _ (by omega), h3 k hkm, hfull, decide_eq_true hkm, Bool.true_or]
  · intro u lo m c' lo' m' c'' hut hpc' hu
    obtain ⟨rfl, rfl, -⟩ := hnew lo m c' hpc'
    exact h.apart t u _ _ _ lo' m' c'' hut.symm howns hu
  · intro r hr
    obtain ⟨h1, h2⟩ := h.given r hr
    exact ⟨h1, fun k hkr => by rw [hmarked _ (by omega), h2 k hkr, Bool.true_or]⟩
  · intro u lo m c' hu r hr
    split at hu
    · obtain ⟨rfl, rfl, -⟩ := hnew lo m c' hu
      exact h.fresh t _ _ _ howns r hr
    · exact h.fresh u lo m c' hu r hr

theorem Safe.palloc_scan (log : List AllocEvent) (st : Threads n) (h : Safe log st) (t : Fin n) (pf : PoolFlags) (i : Nat)
    (j : Job) (ret : Ret) (hpc : st.pc t = .palloc_scan pf j ret) (hrun : ClearRun (st.mem.pool pf).pool_bitmap 1 i)
    (hok : ∀ u, u ≠ t → (st.pc u).marks ≠ some (.pool pf)) :
    Safe log { mem := st.mem, pc := Function.update st.pc t (.palloc_set pf i j ret) } := by
  have howns := owns_update st t (.palloc_set pf i j ret) (.inr (by rw [hpc]; rfl))
  refine h.update log log st t _ _ h.layout ?_ h.handed h.frames ?_ ?_ ?_ h.given ?_ h.ranges
  · intro u b hut hb
    simp only [Pc.marks, Option.some.injEq] at hb
    exact hb ▸ hok u hut
  · intro u pf' i' j' ret' hu
    split at hu
    · injection hu with h1 h2
      subst h1 h2
      exact ⟨hrun.one rfl, hrun.clear 0 (by omega)⟩
    · exact h.clear u pf' i' j' ret' hu
  · exact fun u lo m c hu => h.owned u lo m c (howns u _ hu)
  · intro u lo m c lo' m' c' hut hpc' hu
    exact h.apart t u lo m c lo' m' c' hut.symm (howns t _ (by rw [if_pos rfl]; exact hpc')) hu
  · exact fun u lo m c hu => h.fresh u lo m c (howns u _ hu)

theorem framesOf_append (log : List AllocEvent) (p : Nat) : framesOf (log ++ [.frame p]) = framesOf log ++ [p] := by
  simp [framesOf]

theorem rangesOf_append (log : List AllocEvent) (p : Nat) : rangesOf (log ++ [.frame p]) = rangesOf log := by
  simp [rangesOf]

theorem Safe.palloc_set (log : List AllocEvent) (st : Threads n) (h : Safe log st) (t : Fin n) (pf : PoolFlags) (i : Nat)
    (j : Job) (ret : Ret) (hpc : st.pc t = .palloc_set pf i j ret) (pc : Pc) (hm : pc.marks = none)
    (ho : pc.owns = none ∨ pc.owns = (st.pc t).owns) :
    Safe (log ++ [.frame ((st.mem.pool pf).first + i)])
      { mem := st.mem.take pf i, pc := Function.update st.pc t pc } := by
  obtain ⟨hi, hclear⟩ := h.clear t pf i j ret hpc
  have hmarks : (st.pc t).marks = some (.pool pf) := by
    rw [hpc]
    rfl
  have hk := Keeps.take st.mem pf i
  have hused := st.mem.take_used pf i hi
  have hmarked : ∀ page, (st.mem.take pf i).marked page = st.mem.marked page := by
    intro page
    unfold Mm.marked
    rw [hk.kernel_vaddr]
  have hnot : (st.mem.pool pf).first + i ∉ framesOf log := by
    intro hmem
    obtain ⟨pf', j', hj', heq, ht⟩ := h.handed _ hmem
    obtain ⟨rfl, rfl⟩ := h.layout.same_pool st.mem pf pf' i j' hi hj' heq
    rw [hclear] at ht
    cases ht
  have howns := owns_update st t pc ho
  refine h.update log _ st t _ pc (h.layout.keeps _ _ hk) ?_ ?_ ?_ ?_ ?_ ?_ ?_ ?_ ?_
  · intro u b _ hb
    rw [hm] at hb
    cases hb
  · intro p hp
    rw [framesOf_append, List.mem_append, List.mem_singleton] at hp
    rcases hp with hp | rfl
    · obtain ⟨pf', hu⟩ := h.handed p hp
      exact ⟨pf', (hused pf' p).mpr (.inl hu)⟩
    · exact ⟨pf, (hused pf _).mpr (.inr ⟨rfl, rfl⟩)⟩
  · rw [framesOf_append, List.nodup_append]
    refine ⟨h.frames, by simp, fun a ha b hb heq => ?_⟩
    rw [List.mem_singleton.mp hb] at heq
    exact hnot (heq ▸ ha)
  · intro u pf' i' j' ret' hu
    split at hu
    · rw [hu] at hm
      cases hm
    · rename_i hut
      -- no two threads are about to set a bit in one pool
      have hne : pf' ≠ pf := by
        rintro rfl
        refine h.alone t u _ (Ne.symm hut) hmarks ?_
        rw [hu]
        rfl
      rw [st.mem.take_pool, if_neg hne]
      exact h.clear u pf' i' j' ret' hu
  · intro u lo m c hu
    obtain ⟨h1, h2, h3⟩ := h.owned u lo m c (howns u _ hu)
    refine ⟨h1, by rw [hk.kernel_vaddr]; exact h2, fun k hkm => ?_⟩
    rw [hmarked]
    exact h3 k hkm
  · intro u lo m c lo' m' c' hut hpc' hu
    exact h.apart t u lo m c lo' m' c' hut.symm (howns t _ (by rw [if_pos rfl]; exact hpc')) hu
  · intro r hr
    rw [rangesOf_append] at hr
    simp only [hmarked]
    exact h.given r hr
  · intro u lo m c hu r hr
    rw [rangesOf_append] at hr
    exact h.fresh u lo m c (howns u _ hu) r hr
  · rw [rangesOf_append]
    exact h.ranges

theorem Safe.returned (log : List AllocEvent) (st : Threads n) (h : Safe log st) (t : Fin n) (lo m : Nat)
    (ho : (st.pc t).owns = some (lo, m, m)) (mem : Mm) (hb : SameBitmaps st.mem mem) :
    Safe (log ++ [.kernel_pages lo m]) { mem := mem, pc := Function.update st.pc t .idle } := by
  have hq := h.quiet log st t mem .idle hb rfl (.inl rfl)
  have hframes : framesOf (log ++ [.kernel_pages lo m]) = framesOf log := by simp [framesOf]
  have hranges : rangesOf (log ++ [.kernel_pages lo m]) = rangesOf log ++ [(lo, m)] := by simp [rangesOf]
  refine { hq with handed := hframes ▸ hq.handed, frames := hframes ▸ hq.frames, given := ?_, fresh := ?_, ranges := ?_ }
  · intro r hr
    rw [hranges, List.mem_append, List.mem_singleton] at hr
    rcases hr with hr | rfl
    · exact hq.given r hr
    · obtain ⟨h1, -, h3⟩ := h.owned t lo m m ho
      exact ⟨h1, fun k hk => by rw [hb.marked, h3 k hk, decide_eq_true hk]⟩
  · intro u lo' m' c' hu r hr
    rw [hranges, List.mem_append, List.mem_singleton] at hr
    rcases hr with hr | rfl
    · exact hq.fresh u lo' m' c' hu r hr
    · dsimp only at hu
      by_cases hut : u = t
      · rw [hut, Function.update_self] at hu
        cases hu
      · rw [Function.update_of_ne hut] at hu
        exact h.apart u t lo' m' c' lo m m hut hu ho
  · rw [hranges, List.pairwise_append]
    refine ⟨h.ranges, List.pairwise_singleton _ _, fun a ha b hb' => ?_⟩
    rw [List.mem_singleton.mp hb']
    have := h.fresh t lo m m ho a ha
    exact fun k hk j hj heq => this j hj k hk heq.symm

end

end OsLearn
