import OsLearn.Lib.Run
import OsLearn.Memory.Boot

/-!
# The memory manager as a system

Tasks take turns: each call runs to its end. A run starts at `mem_init`, and a panic ends it.
-/

namespace OsLearn

inductive MemCall where
  | get_kernel_pages (pg_cnt : Nat)
  | get_user_pages (pg_cnt : Nat)
  | get_a_page (pf : PoolFlags) (vaddr : UInt32)

namespace MemCall

def pf : MemCall → PoolFlags
  | .get_kernel_pages _ => .PF_KERNEL
  | .get_user_pages _ => .PF_USER
  | .get_a_page pf _ => pf

def pg_cnt : MemCall → Nat
  | .get_kernel_pages pg_cnt => pg_cnt
  | .get_user_pages pg_cnt => pg_cnt
  | .get_a_page _ _ => 1

/-- What the callers keep to. -/
def InContract (s : Mm) : MemCall → Prop
  | .get_kernel_pages pg_cnt => 0 < pg_cnt ∧ pg_cnt < 3840
  | .get_user_pages pg_cnt => 0 < pg_cnt ∧ pg_cnt < 3840
  | .get_a_page pf vaddr => (s.vaddrs pf).covers vaddr

instance (s : Mm) : (c : MemCall) → Decidable (c.InContract s)
  | .get_kernel_pages _ => inferInstanceAs (Decidable (_ ∧ _))
  | .get_user_pages _ => inferInstanceAs (Decidable (_ ∧ _))
  | .get_a_page _ _ => inferInstanceAs (Decidable (VirtualAddr.covers _ _))

end MemCall

/-- A call, without the locks of the pools. -/
def mem_call (ndebug : Bool) (s : Mm) : MemCall → Except Stop (UInt32 × Mm)
  | .get_kernel_pages pg_cnt => get_kernel_pages ndebug s pg_cnt
  | .get_user_pages pg_cnt => user_pages ndebug s pg_cnt
  | .get_a_page pf vaddr => do
    let (page, _, s) ← a_page ndebug s pf vaddr
    pure (page, s)

inductive MemAct where
  | call (c : MemCall)
  | create_user_vaddr_bitmap (t : Tid)
  | create_page_dir (t : Tid)
  -- Task `t` runs, with its own directory.
  | activate (t : Tid)

inductive MemEvent where
  -- A call gave `n` pages to the task that runs on directory `dir`.
  | pages (dir page n : Nat)
  | page_dir (vaddr : UInt32)
  deriving DecidableEq

def gave (s : Mm) (v : UInt32) (n : Nat) : List MemEvent :=
  if v = NULL then [] else [.pages s.dir (v.toNat / 2 ^ 12) n]

section

variable (exec : Mm → MemCall → Except Stop (UInt32 × Mm)) (ndebug : Bool)

def mem_step (s : Mm) : MemAct → Except Stop (Mm × List MemEvent)
  | .call c => do
    let (v, s') ← exec s c
    pure (s', gave s v c.pg_cnt)
  | .create_user_vaddr_bitmap t => do
    let (bits, s') ← create_user_vaddr_bitmap ndebug s t
    pure (s', gave s bits ((user_bytes_len + 4096 - 1) / 4096))
  | .create_page_dir t => do
    let (v, s') ← create_page_dir ndebug s
    pure ({ s' with pgdir := Function.update s'.pgdir t v },
      gave s v 1 ++ if v = NULL then [] else [.page_dir v])
  | .activate t => do
    let s' ← page_dir_activate s t
    pure ({ s' with cur := t }, [])

/-- `tables` is what is known of memory before `setup_page`. -/
def memSystem (tables : Ram → Prop) : Run.System Mm MemAct MemEvent Stop where
  init s := ∃ ram all_mem bits main, tables ram ∧ s = mem_init ram all_mem bits main
  step := mem_step exec ndebug

end

def inContract (_ : List MemEvent) (s : Mm) : MemAct → Prop
  | .call c => c.InContract s
  | _ => True

instance (log : List MemEvent) (s : Mm) : (a : MemAct) → Decidable (inContract log s a)
  | .call c => inferInstanceAs (Decidable (c.InContract s))
  | .create_user_vaddr_bitmap _ => inferInstanceAs (Decidable True)
  | .create_page_dir _ => inferInstanceAs (Decidable True)
  | .activate _ => inferInstanceAs (Decidable True)

/-! ## The invariant -/

/-- What the log of a run says of the state it leads to. -/
structure MemInv (booted : Nat → Prop) (ndebug : Bool) (log : List MemEvent) (dirs : List Nat) (s : Mm) : Prop where
  frames : Frames booted dirs [] s
  listed : ∀ v, .page_dir v ∈ log → ∃ d ∈ dirs, HasRole booted dirs s.ram d (.kernel_page (v.toNat / 2 ^ 12))
  origin : ∀ d ∈ dirs, d = PAGE_DIR_FRAME ∨
    ∃ v, .page_dir v ∈ log ∧ HasRole booted dirs s.ram d (.kernel_page (v.toNat / 2 ^ 12))
  ranges : ∀ d lo n, .pages d lo n ∈ log → d ∈ dirs ∧
    ∀ k < n, 0x8048 ≤ lo + k ∧ lo + k < 0xffc00 ∧ ∃ p, HasRole booted dirs s.ram p (pageRole d (lo + k))
  pages : ndebug = false → ∀ p r, HasRole booted dirs s.ram p r → (∃ d i, r = .page_table d i) ∨
    ∃ d lo n k, .pages d lo n ∈ log ∧ k < n ∧ r = pageRole d (lo + k)

section

variable {booted : Nat → Prop} {dirs : List Nat} {ndebug : Bool}

theorem mem_gave (s : Mm) (v : UInt32) (n : Nat) (ev : MemEvent) :
    ev ∈ gave s v n ↔ v ≠ NULL ∧ ev = .pages s.dir (v.toNat / 2 ^ 12) n := by
  unfold gave
  split <;> simp_all

theorem not_mem_gave (s : Mm) (v w : UInt32) (n : Nat) : .page_dir w ∉ gave s v n := by
  rw [mem_gave]
  rintro ⟨-, heq⟩
  cases heq

theorem MemInv.request (log : List MemEvent) (s : Mm) (pf : PoolFlags) (n : Nat) (r : UInt32 × Mm)
    (h : MemInv booted ndebug log dirs s) (hreq : Request booted dirs ndebug pf s n r) :
    MemInv booted ndebug (log ++ gave s r.1 n) dirs r.2 := by
  obtain ⟨hfr, lo, hg, hres⟩ := hreq
  refine { frames := hfr, listed := ?_, origin := ?_, ranges := ?_, pages := ?_ }
  · intro v hv
    rcases List.mem_append.mp hv with hv | hv
    · obtain ⟨d, hd, hr⟩ := h.listed v hv
      exact ⟨d, hd, hg.old _ _ hr⟩
    · exact absurd hv (not_mem_gave s _ _ _)
  · intro d hd
    rcases h.origin d hd with hb | ⟨v, hv, hr⟩
    · exact .inl hb
    · exact .inr ⟨v, List.mem_append_left _ hv, hg.old _ _ hr⟩
  · intro d lo' n' hev
    rcases List.mem_append.mp hev with hev | hev
    · obtain ⟨hd, hall⟩ := h.ranges d lo' n' hev
      refine ⟨hd, fun k hk => ?_⟩
      obtain ⟨h1, h2, p, hr⟩ := hall k hk
      exact ⟨h1, h2, p, hg.old _ _ hr⟩
    · obtain ⟨hne, heq⟩ := (mem_gave s _ _ _).mp hev
      rcases hres with ⟨hnull, -⟩ | ⟨hlo, -, hret⟩
      · exact absurd hnull hne
      · rw [hlo] at heq
        injection heq with hd hl hn
        subst hd hl hn
        refine ⟨h.frames.active, fun k hk => ?_⟩
        obtain ⟨h1, h2⟩ := (hret.range k hk).bounds
        obtain ⟨p, hp⟩ := Option.ne_none_iff_exists'.mp (hret.after k hk)
        exact ⟨h1, h2, p, hret.role s r.2 pf lo' n' h.frames hfr k p hk hp⟩
  · intro hnd p x hx
    rcases hg.new p x hx with hx | ⟨i, rfl⟩ | ⟨k, hk, rfl⟩
    · rcases h.pages hnd p x hx with ht | ⟨d, lo', n', k, hev, hk, heq⟩
      · exact .inl ht
      · exact .inr ⟨d, lo', n', k, List.mem_append_left _ hev, hk, heq⟩
    · exact .inl ⟨_, _, rfl⟩
    · rcases hres with ⟨hnull, hsame | hdebug⟩ | ⟨hlo, hge, hret⟩
      · rw [hsame] at hx
        rcases h.pages hnd p _ hx with ht | ⟨d, lo', n', k', hev, hk', heq⟩
        · exact .inl ht
        · exact .inr ⟨d, lo', n', k', List.mem_append_left _ hev, hk', heq⟩
      · rw [hnd] at hdebug
        cases hdebug
      · have hne : r.1 ≠ NULL := by
          intro hnull
          rw [hnull] at hlo
          change 0 / 2 ^ 12 = lo at hlo
          omega
        refine .inr ⟨s.dir, lo, n, k, List.mem_append_right _ ?_, hk, rfl⟩
        rw [mem_gave, hlo]
        exact ⟨hne, rfl⟩

theorem MemInv.new_dir (log : List MemEvent) (s : Mm) (f : Nat) (v : UInt32) (h : MemInv booted ndebug log dirs s)
    (hfr : Frames booted (f :: dirs) [] s)
    (hroles : ∀ q r, HasRole booted (f :: dirs) s.ram q r ↔ HasRole booted dirs s.ram q r)
    (hf : HasRole booted dirs s.ram f (.kernel_page (v.toNat / 2 ^ 12))) :
    MemInv booted ndebug (log ++ [.page_dir v]) (f :: dirs) s := by
  refine { frames := hfr, listed := ?_, origin := ?_, ranges := ?_, pages := ?_ }
  · intro w hw
    rcases List.mem_append.mp hw with hw | hw
    · obtain ⟨d, hd, hr⟩ := h.listed w hw
      exact ⟨d, List.mem_cons_of_mem _ hd, (hroles _ _).mpr hr⟩
    · injection List.mem_singleton.mp hw with hwv
      subst hwv
      exact ⟨f, List.mem_cons_self, (hroles _ _).mpr hf⟩
  · rintro d (_ | ⟨_, hd⟩)
    · exact .inr ⟨v, List.mem_append_right _ (List.mem_singleton_self _), (hroles _ _).mpr hf⟩
    · rcases h.origin d hd with hb | ⟨w, hw, hr⟩
      · exact .inl hb
      · exact .inr ⟨w, List.mem_append_left _ hw, (hroles _ _).mpr hr⟩
  · intro d lo n hev
    rcases List.mem_append.mp hev with hev | hev
    · obtain ⟨hd, hall⟩ := h.ranges d lo n hev
      refine ⟨List.mem_cons_of_mem _ hd, fun k hk => ?_⟩
      obtain ⟨h1, h2, p, hr⟩ := hall k hk
      exact ⟨h1, h2, p, (hroles _ _).mpr hr⟩
    · cases List.mem_singleton.mp hev
  · intro hnd p r hr
    rcases h.pages hnd p r ((hroles _ _).mp hr) with ht | ⟨d, lo, n, k, hev, hk, heq⟩
    · exact .inl ht
    · exact .inr ⟨d, lo, n, k, List.mem_append_left _ hev, hk, heq⟩

theorem MemInv.set_pgdir (log : List MemEvent) (s : Mm) (t : Tid) (v : UInt32) (h : MemInv booted ndebug log dirs s)
    (hv : v ≠ NULL → ∃ d ∈ dirs, ∃ w, v.toNat = w * 2 ^ 12 ∧ HasRole booted dirs s.ram d (.kernel_page w)) :
    MemInv booted ndebug log dirs { s with pgdir := Function.update s.pgdir t v } :=
  { h with frames := h.frames.set_pgdir s t v hv }

/-- What a call has to keep to. -/
def KeepsFrames (exec : Mm → MemCall → Except Stop (UInt32 × Mm)) (ndebug : Bool) : Prop :=
  ∀ booted dirs s c, Frames booted dirs [] s → c.InContract s →
    Spec (exec s c) (Request booted dirs ndebug c.pf s c.pg_cnt) fun _ => True

theorem mem_call_keeps (ndebug : Bool) : KeepsFrames (mem_call ndebug) ndebug := by
  intro booted dirs s c h hc
  cases c with
  | get_kernel_pages n =>
    exact spec_mono _ _ _ _ _ (get_kernel_pages_spec ndebug s n hc.1 h) (fun _ hr => hr.1) fun _ _ => trivial
  | get_user_pages n =>
    exact spec_mono _ _ _ _ _ (user_pages_spec ndebug s n hc.1 h) (fun _ hr => hr.2) fun _ _ => trivial
  | get_a_page pf v =>
    unfold mem_call
    rw [spec_bind]
    exact spec_mono _ _ _ _ _ (a_page_spec ndebug s pf v hc h) (fun _ hr => hr.1) fun _ _ => trivial

theorem mem_step_keeps (exec : Mm → MemCall → Except Stop (UInt32 × Mm)) (hexec : KeepsFrames exec ndebug)
    (log : List MemEvent) (s : Mm) (a : MemAct) (h : MemInv booted ndebug log dirs s) (ha : inContract log s a) :
    Spec (mem_step exec ndebug s a) (fun r => ∃ dirs', MemInv booted ndebug (log ++ r.2) dirs' r.1) fun _ => True := by
  cases a with
  | call c =>
    unfold mem_step
    rw [spec_bind]
    refine spec_mono _ _ _ _ _ (hexec booted dirs s c h.frames ha) (fun r hr => ?_) fun _ _ => trivial
    exact ⟨dirs, h.request log s c.pf _ r hr⟩
  | create_user_vaddr_bitmap t =>
    unfold mem_step
    rw [spec_bind]
    refine spec_mono _ _ _ _ _ (create_user_vaddr_bitmap_spec ndebug s t h.frames) (fun r hr => ?_) fun _ _ => trivial
    exact ⟨dirs, h.request log s .PF_KERNEL _ r hr.2⟩
  | create_page_dir t =>
    unfold mem_step
    rw [spec_bind]
    refine spec_mono _ _ _ _ _ (create_page_dir_spec ndebug s h.frames) ?_ fun _ _ => trivial
    rintro ⟨v, s'⟩ (⟨hnull, hreq⟩ | ⟨hne, f, hnew⟩)
    · have hinv := h.request log s .PF_KERNEL 1 _ hreq
      refine ⟨dirs, ?_⟩
      dsimp only at hnull hinv ⊢
      rw [if_pos hnull, List.append_nil]
      exact hinv.set_pgdir _ s' t v fun hne => absurd hnull hne
    · have hinv := h.request log s .PF_KERNEL 1 _ (hnew.request ndebug)
      have hdir := hinv.new_dir _ s' f v hnew.frames hnew.roles hnew.role
      refine ⟨f :: dirs, ?_⟩
      dsimp only at hne hdir ⊢
      rw [if_neg hne, ← List.append_assoc]
      have hal : v.toNat % 2 ^ 12 = 0 := hnew.aligned
      exact hdir.set_pgdir _ s' t v fun _ =>
        ⟨f, List.mem_cons_self, v.toNat / 2 ^ 12, by omega, (hnew.roles _ _).mpr hnew.role⟩
  | activate t =>
    unfold mem_step
    rw [spec_bind]
    refine spec_mono _ _ _ _ _ (page_dir_activate_spec s t h.frames) ?_ fun _ _ => trivial
    rintro s' ⟨hfr, cr3, rfl⟩
    refine ⟨dirs, ?_⟩
    show MemInv booted ndebug (log ++ []) dirs { s with cr3 := cr3, cur := t }
    rw [List.append_nil]
    exact { h with frames := hfr.activate _ cr3 t hfr.active }

end

end OsLearn
