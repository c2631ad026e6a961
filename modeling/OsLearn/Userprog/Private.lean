import OsLearn.Lib.Bytes
import OsLearn.Memory.Contents
import OsLearn.Userprog.Heap

/-!
# Private memory: what a process reads is what it has stored

The tasks store bytes at the addresses of their processes while the memory manager runs. Every process
sees a memory of its own, although all of them lie in one.
-/

namespace OsLearn

/-! ## Steps -/

/-- The byte at an address, in the frame that backs it. -/
def byteAt (ram : Ram) (f : Nat) (v : UInt32) : UInt8 := byteOf (ram f (wordOf v)) (v.toNat % 4)

def Ram.setByteAt (ram : Ram) (f : Nat) (v : UInt32) (b : UInt8) : Ram :=
  ram.set f (wordOf v) (setByte (ram f (wordOf v)) (v.toNat % 4) b)

/-- A `mov` of one byte by the running task. -/
def Mm.store_byte (s : Mm) (v : UInt32) (b : UInt8) : Except Stop Mm :=
  match walk s.ram s.dir v with
  | some f => .ok (s.withRam (s.ram.setByteAt f v b))
  | none => PANIC .page_fault

inductive UserAct where
  | mem (a : MemAct)
  | store (v : UInt32) (b : UInt8)

inductive UserEvent where
  -- `zero`: `get_user_pages` did it, that zeroes what it gives.
  | mem (zero : Bool) (ev : MemEvent)
  | stored (dir : Nat) (v : UInt32) (b : UInt8)
  deriving DecidableEq

def MemAct.zeroes : MemAct → Bool
  | .call (.get_user_pages _) => true
  | _ => false

def memLog (log : List UserEvent) : List MemEvent :=
  log.filterMap fun
    | .mem _ ev => some ev
    | .stored _ _ _ => none

def user_step (ndebug : Bool) (s : Mm) : UserAct → Except Stop (Mm × List UserEvent)
  | .mem a => do
    let (s', evs) ← mem_step (locked_call ndebug) ndebug s a
    pure (s', evs.map (.mem a.zeroes))
  | .store v b => do
    let s' ← s.store_byte v b
    pure (s', [.stored s.dir v b])

/-- `boot` is what is in memory before `setup_page`. -/
def userSystem (ndebug : Bool) (boot : Ram) : Run.System Mm UserAct UserEvent Stop where
  init := (memSystem (locked_call ndebug) ndebug (· = boot)).init
  step := user_step ndebug

def IsUser (v : UInt32) : Prop := USER_VADDR_START ≤ v ∧ v < 0xc0000000

instance (v : UInt32) : Decidable (IsUser v) := inferInstanceAs (Decidable (_ ∧ _))

def userContract (log : List UserEvent) (s : Mm) : UserAct → Prop
  | .mem a => inContract (memLog log) s a
  | .store v _ => IsUser v

instance (log : List UserEvent) (s : Mm) : (a : UserAct) → Decidable (userContract log s a)
  | .mem a => inferInstanceAs (Decidable (inContract (memLog log) s a))
  | .store v _ => inferInstanceAs (Decidable (IsUser v))

/-! ## The memory of a process -/

/-- The last byte that directory `d` has stored at `v`. -/
def lastStored (log : List UserEvent) (d : Nat) (v : UInt32) : Option UInt8 :=
  (log.filterMap fun
    | .stored d' v' b => if d' = d ∧ v' = v then some b else none
    | .mem _ _ => none).getLast?

/-- `get_user_pages` has given `page` to directory `d`. -/
def givenZero (log : List UserEvent) (d page : Nat) : Bool :=
  log.any fun
    | .mem true (.pages d' lo n) => d' = d ∧ lo ≤ page ∧ page < lo + n
    | _ => false

/-- What directory `d` reads at `v` by its own history: its last store there. Before the first, a page of
`get_user_pages` is zero, and a page of `get_a_page` in frame `f` is what was there at boot. -/
def ownByte (boot : Ram) (log : List UserEvent) (d f : Nat) (v : UInt32) : UInt8 :=
  (lastStored log d v).getD (if givenZero log d (v.toNat / 2 ^ 12) then 0 else byteAt boot f v)

theorem memLog_append (log log' : List UserEvent) : memLog (log ++ log') = memLog log ++ memLog log' :=
  List.filterMap_append

@[simp] theorem memLog_mem (zero : Bool) (evs : List MemEvent) : memLog (evs.map (.mem zero)) = evs := by
  induction evs with
  | nil => rfl
  | cons ev evs ih => exact congrArg (ev :: ·) ih

@[simp] theorem memLog_stored (d : Nat) (v : UInt32) (b : UInt8) : memLog [.stored d v b] = [] := rfl

theorem lastStored_mem (log : List UserEvent) (zero : Bool) (evs : List MemEvent) (d : Nat) (v : UInt32) :
    lastStored (log ++ evs.map (.mem zero)) d v = lastStored log d v := by
  unfold lastStored
  rw [List.filterMap_append]
  induction evs with
  | nil => rw [List.map_nil, List.filterMap_nil, List.append_nil]
  | cons ev evs ih => exact ih

theorem lastStored_stored (log : List UserEvent) (d : Nat) (v : UInt32) (b : UInt8) (d' : Nat) (v' : UInt32) :
    lastStored (log ++ [.stored d v b]) d' v' = if d = d' ∧ v = v' then some b else lastStored log d' v' := by
  unfold lastStored
  rw [List.filterMap_append]
  by_cases h : d = d' ∧ v = v'
  · simp [h]
  · simp [h]

theorem mem_of_lastStored (log : List UserEvent) (d : Nat) (v : UInt32) (b : UInt8) (h : lastStored log d v = some b) :
    .stored d v b ∈ log := by
  obtain ⟨ev, hev, hb⟩ := List.mem_filterMap.mp (List.mem_of_getLast? h)
  cases ev with
  | mem zero ev => cases hb
  | stored d' v' b' =>
    dsimp only at hb
    split at hb
    · rename_i heq
      rw [← heq.1, ← heq.2, ← Option.some.inj hb]
      exact hev
    · cases hb

theorem givenZero_iff (log : List UserEvent) (d page : Nat) :
    givenZero log d page = true ↔ ∃ lo n, .mem true (.pages d lo n) ∈ log ∧ lo ≤ page ∧ page < lo + n := by
  unfold givenZero
  rw [List.any_eq_true]
  constructor
  · rintro ⟨ev, hev, h⟩
    split at h
    · rename_i d' lo n
      obtain ⟨rfl, h1, h2⟩ := of_decide_eq_true h
      exact ⟨lo, n, hev, h1, h2⟩
    · cases h
  · rintro ⟨lo, n, hev, h1, h2⟩
    exact ⟨_, hev, decide_eq_true ⟨rfl, h1, h2⟩⟩

/-! ## What a step of the memory manager does to the pages of the processes -/

section

variable {booted : Nat → Prop} {dirs dirs' : List Nat}

/-- The frames of user pages and the frames without a role, from `s` to `s'`. -/
structure MemStep (booted : Nat → Prop) (dirs dirs' : List Nat) (zero : Bool) (s s' : Mm) (evs : List MemEvent) :
    Prop where
  old : ∀ g r, HasRole booted dirs s.ram g r → HasRole booted dirs' s'.ram g r
  before : ∀ d lo n k, .pages d lo n ∈ evs → k < n → ∀ g, ¬ HasRole booted dirs s.ram g (pageRole d (lo + k))
  kept : ∀ g d w, HasRole booted dirs s.ram g (.user_page d w) → s'.ram g = s.ram g
  spare : ∀ g, 0x200 ≤ g → (∀ r, ¬ HasRole booted dirs' s'.ram g r) → s'.ram g = s.ram g
  new : ∀ g d w, HasRole booted dirs' s'.ram g (.user_page d w) → ¬ HasRole booted dirs s.ram g (.user_page d w) →
    if zero then (∀ i, s'.ram g i = 0) ∧ ∃ lo n k, .pages d lo n ∈ evs ∧ k < n ∧ w = lo + k
    else s'.ram g = s.ram g

theorem Frames.user_not_table (s : Mm) (h : Frames booted dirs [] s) (g d w : Nat)
    (hr : HasRole booted dirs s.ram g (.user_page d w)) : ¬ IsTable dirs s.ram g := by
  have hpage : pageRole d w = .user_page d w := by
    obtain ⟨-, -, h2, -⟩ := hr
    rw [pageRole, if_pos h2]
  refine h.spaces.page_not_table g d w (hpage ▸ hr) fun hd => ?_
  rcases h.spaces.dir_role g hd with heq | ⟨v, hv⟩
  · have := h.spaces.high g _ hr
    unfold PAGE_DIR_FRAME at heq
    omega
  · cases h.spaces.unique g _ _ hr hv

section

variable (given : Nat → Prop) (hgiven : ∀ w, given w → 0x8048 ≤ w ∧ w < 0xffc00) (s s' : Mm)
  (h : Frames booted dirs [] s) (h' : Frames booted dirs' [] s') (hd' : s.dir ∈ dirs')
  (hold : ∀ g r, HasRole booted dirs s.ram g r → HasRole booted dirs' s'.ram g r)
  (hz : ZeroesNew dirs' given s s')

include hgiven h h' hd' hz

/-- A frame that no walk reads keeps its contents, or it has the role of a new page. -/
theorem ZeroesNew.roles (g : Nat) (hg : ¬ IsTable dirs' s'.ram g) : s'.ram g = s.ram g ∨
    ∃ w, given w ∧ frameAt s.ram s.dir w = none ∧ HasRole booted dirs' s'.ram g (pageRole s.dir w) ∧
      ∀ i, s'.ram g i = 0 := by
  rcases hz g hg with hsame | ⟨w, hw, hnone, hsome, hzero⟩
  · exact .inl hsame
  · obtain ⟨h1, h2⟩ := hgiven w hw
    exact .inr ⟨w, hw, hnone, h.role_of_new dirs' s s' h' s.dir w g h.active hd' h1 h2 hnone hsome, hzero⟩

theorem ZeroesNew.spare (g : Nat) (hg : 0x200 ≤ g) (hr : ∀ r, ¬ HasRole booted dirs' s'.ram g r) :
    s'.ram g = s.ram g := by
  rcases hz.roles given hgiven s s' h h' hd' g (h'.spaces.fresh_not_table g hg hr) with hsame | ⟨w, -, -, hrole, -⟩
  · exact hsame
  · exact absurd hrole (hr _)

include hold

theorem ZeroesNew.kept (g d w : Nat) (hr : HasRole booted dirs s.ram g (.user_page d w)) : s'.ram g = s.ram g := by
  have hr' := hold g _ hr
  rcases hz.roles given hgiven s s' h h' hd' g (h'.user_not_table s' g d w hr') with hsame | ⟨v, -, hnone, hrole, -⟩
  · exact hsame
  · obtain ⟨-, -, h2, hmapped⟩ := hr
    have heq := h'.spaces.unique g _ _ hr' hrole
    rw [show Role.user_page d w = pageRole d w from (if_pos h2).symm, pageRole_eq_iff] at heq
    obtain ⟨rfl, hdir⟩ := heq
    rw [← hdir (by omega), hmapped] at hnone
    cases hnone

end

theorem Request.before (ndebug : Bool) (pf : PoolFlags) (s : Mm) (n : Nat) (r : UInt32 × Mm)
    (h : Frames booted dirs [] s) (hreq : Request booted dirs ndebug pf s n r) (d lo k m : Nat)
    (hev : .pages d lo m ∈ gave s r.1 n) (hk : k < m) (g : Nat) : ¬ HasRole booted dirs s.ram g (pageRole d (lo + k)) := by
  obtain ⟨hne, heq⟩ := (mem_gave s _ _ _).mp hev
  obtain ⟨-, lo', -, ⟨hnull, -⟩ | ⟨hlo, -, hret⟩⟩ := hreq
  · exact absurd hnull hne
  · rw [hlo] at heq
    injection heq with hd hl hm
    subst hd hl hm
    obtain ⟨h1, h2⟩ := (hret.range k hk).bounds
    intro hrole
    rw [h.spaces.hasRole_page s.dir _ g h.active h1 h2, hret.before k hk] at hrole
    cases hrole.2

/-- A request for pages of the kernel, or for a page that is not zeroed. -/
theorem MemStep.of_request (ndebug : Bool) (pf : PoolFlags) (s : Mm) (n : Nat) (r : UInt32 × Mm)
    (h : Frames booted dirs [] s) (hreq : Request booted dirs ndebug pf s n r)
    (hz : ZeroesNew dirs (InRange .PF_KERNEL) s r.2) : MemStep booted dirs dirs false s r.2 (gave s r.1 n) := by
  have hbefore := hreq.before ndebug pf s n r h
  obtain ⟨hfr, lo, hg, -⟩ := hreq
  refine { old := hg.old, before := fun d lo n k => hbefore d lo k n, kept := ?_, spare := ?_, new := ?_ }
  · exact hz.kept _ (fun w => InRange.bounds _ w) s r.2 h hfr h.active hg.old
  · exact hz.spare _ (fun w => InRange.bounds _ w) s r.2 h hfr h.active
  · intro g d w hr' hnew
    rcases hz.roles _ (fun w => InRange.bounds _ w) s r.2 h hfr h.active g (hfr.user_not_table r.2 g d w hr') with
      hsame | ⟨v, hv, -, hrole, -⟩
    · exact hsame
    · simp only [InRange] at hv
      rw [pageRole, if_neg (by omega)] at hrole
      cases hfr.spaces.unique g _ _ hr' hrole

theorem MemStep.of_user_pages (ndebug : Bool) (s : Mm) (n : Nat) (r : UInt32 × Mm) (h : Frames booted dirs [] s)
    (hne : r.1 ≠ NULL) (hreq : Request booted dirs ndebug .PF_USER s n r)
    (hz : ZeroesNew dirs (InRange .PF_USER) s r.2)
    (hzero : ∀ k < n, ∀ f, frameAt r.2.ram s.dir (r.1.toNat / 2 ^ 12 + k) = some f → ∀ i, r.2.ram f i = 0) :
    MemStep booted dirs dirs true s r.2 (gave s r.1 n) := by
  have hbefore := hreq.before ndebug .PF_USER s n r h
  obtain ⟨hfr, lo, hg, hres⟩ := hreq
  refine { old := hg.old, before := fun d lo n k => hbefore d lo k n, kept := ?_, spare := ?_, new := ?_ }
  · exact hz.kept _ (fun w => InRange.bounds _ w) s r.2 h hfr h.active hg.old
  · exact hz.spare _ (fun w => InRange.bounds _ w) s r.2 h hfr h.active
  · intro g d w hr' hnew
    have hlo : r.1.toNat / 2 ^ 12 = lo := by
      rcases hres with ⟨hnull, -⟩ | ⟨hlo, -⟩
      · exact absurd hnull hne
      · exact hlo
    rcases hg.new g _ hr' with hold | ⟨i, heq⟩ | ⟨k, hk, heq⟩
    · exact absurd hold hnew
    · cases heq
    · obtain ⟨-, -, h2, hmapped⟩ := hr'
      rw [show Role.user_page d w = pageRole d w from (if_pos h2).symm, pageRole_eq_iff] at heq
      obtain ⟨hw, hdir⟩ := heq
      have hd : d = s.dir := hdir (by omega)
      subst hd hw
      refine ⟨hzero k hk g (by rw [hlo]; exact hmapped), lo, n, k, ?_, hk, rfl⟩
      rw [mem_gave, hlo]
      exact ⟨hne, rfl⟩

theorem MemStep.of_new_dir (ndebug : Bool) (s : Mm) (v : UInt32) (s' : Mm) (f : Nat) (h : Frames booted dirs [] s)
    (hnew : NewDir booted dirs s (v, s') f) (hleave : Leaves (f :: dirs) s s') :
    MemStep booted dirs (f :: dirs) false s s' (gave s v 1 ++ [.page_dir v]) := by
  have hbefore := (hnew.request ndebug).before ndebug .PF_KERNEL s 1 _ h
  have hold : ∀ g r, HasRole booted dirs s.ram g r → HasRole booted (f :: dirs) s'.ram g r :=
    fun g r hr => (hnew.roles g r).mpr (hnew.grows.old g r hr)
  have hz := hleave.zeroesNew (fun _ => False) s s'
  have hd' := List.mem_cons_of_mem f h.active
  refine { old := hold, before := ?_, kept := ?_, spare := ?_, new := ?_ }
  · intro d lo n k hev
    rcases List.mem_append.mp hev with hev | hev
    · exact hbefore d lo k n hev
    · cases List.mem_singleton.mp hev
  · exact hz.kept _ (fun _ hw => hw.elim) s s' h hnew.frames hd' hold
  · exact hz.spare _ (fun _ hw => hw.elim) s s' h hnew.frames hd'
  · exact fun g d w hr' _ => hleave g (hnew.frames.user_not_table s' g d w hr')

theorem MemStep.of_ram (s s' : Mm) (hram : s'.ram = s.ram) : MemStep booted dirs dirs false s s' [] := by
  refine { old := ?_, before := ?_, kept := ?_, spare := ?_, new := ?_ }
  · rw [hram]
    exact fun _ _ hr => hr
  · exact fun d lo n k hev => by cases hev
  · exact fun g _ _ _ => congrFun hram g
  · exact fun g _ _ => congrFun hram g
  · exact fun g _ _ _ _ => congrFun hram g

theorem locked_call_contents (ndebug : Bool) (s : Mm) (c : MemCall) (h : Frames booted dirs [] s) (hc : c.InContract s) :
    Spec (locked_call ndebug s c)
      (fun r => MemStep booted dirs dirs (MemAct.call c).zeroes s r.2 (gave s r.1 c.pg_cnt)) fun _ => True := by
  cases c with
  | get_kernel_pages n =>
    refine spec_mono _ _ _ _ _ (spec_and _ _ _ _ _ (get_kernel_pages_spec ndebug s n hc.1 h)
      (get_kernel_pages_zeroes ndebug s n hc.1 h)) (fun r hr => ?_) fun _ _ => trivial
    exact .of_request ndebug .PF_KERNEL s n r h hr.1.1 hr.2
  | get_user_pages n =>
    refine spec_mono _ _ _ _ _ (spec_and _ _ _ _ _ (get_user_pages_spec ndebug s n hc.1 h)
      (get_user_pages_zeroes ndebug s n hc.1 h)) (fun r hr => ?_) fun _ _ => trivial
    exact .of_user_pages ndebug s n r h hr.1.1 hr.1.2 hr.2.1 hr.2.2
  | get_a_page pf v =>
    refine spec_mono _ _ _ _ _ (spec_and _ _ _ _ _ (get_a_page_spec ndebug s pf v hc h)
      (get_a_page_leaves ndebug s pf v hc h)) (fun r hr => ?_) fun _ _ => trivial
    exact .of_request ndebug pf s 1 r h hr.1.1 (hr.2.zeroesNew _ s r.2)

theorem mem_step_contents (ndebug : Bool) (log : List MemEvent) (s : Mm) (a : MemAct)
    (h : MemInv booted ndebug log dirs s) (ha : inContract log s a) :
    Spec (mem_step (locked_call ndebug) ndebug s a)
      (fun r => ∃ dirs', MemInv booted ndebug (log ++ r.2) dirs' r.1 ∧ MemStep booted dirs dirs' a.zeroes s r.1 r.2)
      fun _ => True := by
  cases a with
  | call c =>
    unfold mem_step
    rw [spec_bind]
    refine spec_mono _ _ _ _ _ (spec_and _ _ _ _ _ (locked_call_keeps ndebug booted dirs s c h.frames ha)
      (locked_call_contents ndebug s c h.frames ha)) (fun r hr => ?_) fun _ _ => trivial
    exact ⟨dirs, h.request log s c.pf _ r hr.1, hr.2⟩
  | create_user_vaddr_bitmap t =>
    unfold mem_step
    rw [spec_bind]
    refine spec_mono _ _ _ _ _ (spec_and _ _ _ _ _ (create_user_vaddr_bitmap_spec ndebug s t h.frames)
      (create_user_vaddr_bitmap_zeroes ndebug s t h.frames)) (fun r hr => ?_) fun _ _ => trivial
    exact ⟨dirs, h.request log s .PF_KERNEL _ r hr.1.2, .of_request ndebug .PF_KERNEL s _ r h.frames hr.1.2 hr.2⟩
  | create_page_dir t =>
    unfold mem_step
    rw [spec_bind]
    refine spec_mono _ _ _ _ _ (create_page_dir_zeroes ndebug s h.frames) ?_ fun _ _ => trivial
    rintro ⟨v, s'⟩ (⟨hnull, hreq, hz⟩ | ⟨hne, f, hnew, hleave⟩)
    · have hinv := h.request log s .PF_KERNEL 1 _ hreq
      have hstep := MemStep.of_request ndebug .PF_KERNEL s 1 _ h.frames hreq hz
      dsimp only at hnull hinv hstep ⊢
      rw [spec_pure, if_pos hnull, List.append_nil]
      exact ⟨dirs, hinv.set_pgdir _ s' t v fun hne => absurd hnull hne,
        ⟨hstep.old, hstep.before, hstep.kept, hstep.spare, hstep.new⟩⟩
    · have hinv := h.request log s .PF_KERNEL 1 _ (hnew.request ndebug)
      have hdir := hinv.new_dir _ s' f v hnew.frames hnew.roles hnew.role
      have hstep := MemStep.of_new_dir ndebug s v s' f h.frames hnew hleave
      have hal : v.toNat % 2 ^ 12 = 0 := hnew.aligned
      dsimp only at hne hdir hstep ⊢
      rw [spec_pure, if_neg hne, ← List.append_assoc]
      refine ⟨f :: dirs, hdir.set_pgdir _ s' t v fun _ => ?_,
        ⟨hstep.old, hstep.before, hstep.kept, hstep.spare, hstep.new⟩⟩
      exact ⟨f, List.mem_cons_self, v.toNat / 2 ^ 12, by omega, (hnew.roles _ _).mpr hnew.role⟩
  | activate t =>
    unfold mem_step
    rw [spec_bind]
    refine spec_mono _ _ _ _ _ (page_dir_activate_spec s t h.frames) ?_ fun _ _ => trivial
    rintro s' ⟨hfr, cr3, rfl⟩
    refine ⟨dirs, ?_, .of_ram _ _ rfl⟩
    show MemInv booted ndebug (log ++ []) dirs { s with cr3 := cr3, cur := t }
    rw [List.append_nil]
    exact { h with frames := hfr.activate _ cr3 t hfr.active }

/-! ## The invariant -/

/-- Every user page holds what its own directory has stored there, and nothing has been written to a frame
without a role. -/
structure PrivateInv (booted : Nat → Prop) (ndebug : Bool) (boot : Ram) (log : List UserEvent) (dirs : List Nat)
    (s : Mm) : Prop where
  mem : MemInv booted ndebug (memLog log) dirs s
  spare : ∀ g, 0x200 ≤ g → (∀ r, ¬ HasRole booted dirs s.ram g r) → s.ram g = boot g
  stored : ∀ d v b, .stored d v b ∈ log → ∃ g, HasRole booted dirs s.ram g (.user_page d (v.toNat / 2 ^ 12))
  own : ∀ g d v, HasRole booted dirs s.ram g (.user_page d (v.toNat / 2 ^ 12)) → byteAt s.ram g v = ownByte boot log d g v

theorem byteAt_congr (ram ram' : Ram) (g : Nat) (v : UInt32) (h : ram' g = ram g) : byteAt ram' g v = byteAt ram g v := by
  unfold byteAt
  rw [h]

theorem PrivateInv.unmapped (ndebug : Bool) (boot : Ram) (log : List UserEvent) (s : Mm)
    (h : PrivateInv booted ndebug boot log dirs s) (d : Nat) (v : UInt32)
    (hno : ∀ g, ¬ HasRole booted dirs s.ram g (.user_page d (v.toNat / 2 ^ 12))) : lastStored log d v = none := by
  cases hl : lastStored log d v with
  | none => rfl
  | some b =>
    obtain ⟨g, hg⟩ := h.stored d v b (mem_of_lastStored log d v b hl)
    exact absurd hg (hno g)

theorem mem_memLog (log : List UserEvent) (zero : Bool) (ev : MemEvent) (h : .mem zero ev ∈ log) : ev ∈ memLog log :=
  List.mem_filterMap.mpr ⟨_, h, rfl⟩

theorem PrivateInv.not_given (ndebug : Bool) (boot : Ram) (log : List UserEvent) (s : Mm)
    (h : PrivateInv booted ndebug boot log dirs s) (d w : Nat) (hw : w < 0xc0000)
    (hno : ∀ g, ¬ HasRole booted dirs s.ram g (.user_page d w)) : givenZero log d w = false := by
  rw [← Bool.not_eq_true, givenZero_iff]
  rintro ⟨lo, n, hev, h1, h2⟩
  obtain ⟨-, hall⟩ := h.mem.ranges d lo n (mem_memLog log _ _ hev)
  obtain ⟨-, -, g, hg⟩ := hall (w - lo) (by omega)
  rw [show lo + (w - lo) = w from by omega, pageRole, if_pos hw] at hg
  exact hno g hg

theorem givenZero_append (log : List UserEvent) (zero : Bool) (evs : List MemEvent) (d w : Nat) :
    givenZero (log ++ evs.map (.mem zero)) d w = true ↔
      givenZero log d w = true ∨ zero = true ∧ ∃ lo n, .pages d lo n ∈ evs ∧ lo ≤ w ∧ w < lo + n := by
  rw [givenZero_iff, givenZero_iff]
  constructor
  · rintro ⟨lo, n, hev, h1, h2⟩
    rcases List.mem_append.mp hev with hev | hev
    · exact .inl ⟨lo, n, hev, h1, h2⟩
    · obtain ⟨ev, hev, heq⟩ := List.mem_map.mp hev
      injection heq with hz hev'
      subst hev'
      exact .inr ⟨hz, lo, n, hev, h1, h2⟩
  · rintro (⟨lo, n, hev, h1, h2⟩ | ⟨rfl, lo, n, hev, h1, h2⟩)
    · exact ⟨lo, n, List.mem_append_left _ hev, h1, h2⟩
    · exact ⟨lo, n, List.mem_append_right _ (List.mem_map.mpr ⟨_, hev, rfl⟩), h1, h2⟩

/-- A step of the memory manager leaves a page that was there with what it held. -/
theorem PrivateInv.mem_old (ndebug : Bool) (boot : Ram) (log : List UserEvent) (s s' : Mm) (zero : Bool)
    (evs : List MemEvent) (h : PrivateInv booted ndebug boot log dirs s) (hstep : MemStep booted dirs dirs' zero s s' evs)
    (g d : Nat) (v : UInt32) (hr : HasRole booted dirs s.ram g (.user_page d (v.toNat / 2 ^ 12))) :
    byteAt s'.ram g v = ownByte boot (log ++ evs.map (.mem zero)) d g v := by
  have hgiven : givenZero (log ++ evs.map (.mem zero)) d (v.toNat / 2 ^ 12) = givenZero log d (v.toNat / 2 ^ 12) := by
    rw [Bool.eq_iff_iff, givenZero_append, or_iff_left_iff_imp]
    rintro ⟨-, lo, n, hev, h1, h2⟩
    refine absurd ?_ (hstep.before d lo n (v.toNat / 2 ^ 12 - lo) hev (by omega) g)
    have hw := hr.2.2.1
    rw [show lo + (v.toNat / 2 ^ 12 - lo) = v.toNat / 2 ^ 12 from by omega, pageRole, if_pos hw]
    exact hr
  rw [byteAt_congr s.ram s'.ram g v (hstep.kept g _ _ hr), h.own g d v hr]
  unfold ownByte
  rw [lastStored_mem, hgiven]

/-- A page that a step of the memory manager maps holds zeros, or what was there at boot. -/
theorem PrivateInv.mem_new (ndebug : Bool) (boot : Ram) (log : List UserEvent) (s s' : Mm) (zero : Bool)
    (evs : List MemEvent) (h : PrivateInv booted ndebug boot log dirs s) (h' : Frames booted dirs' [] s')
    (hstep : MemStep booted dirs dirs' zero s s' evs)
    (g d : Nat) (v : UInt32) (hr : HasRole booted dirs' s'.ram g (.user_page d (v.toNat / 2 ^ 12)))
    (hno : ∀ g, ¬ HasRole booted dirs s.ram g (.user_page d (v.toNat / 2 ^ 12))) :
    byteAt s'.ram g v = ownByte boot (log ++ evs.map (.mem zero)) d g v := by
  have hlast := h.unmapped ndebug boot log s d v hno
  have hbefore := h.not_given ndebug boot log s d _ hr.2.2.1 hno
  have hnew := hstep.new g _ _ hr (hno g)
  unfold ownByte
  rw [lastStored_mem, hlast, Option.getD_none]
  cases zero with
  | true =>
    obtain ⟨hz, lo, n, k, hev, hk, hw⟩ := hnew
    rw [if_pos ((givenZero_append log true evs d _).mpr (.inr ⟨rfl, lo, n, hev, by omega, by omega⟩))]
    unfold byteAt
    rw [hz, byteOf_zero]
  | false =>
    rw [if_neg]
    · refine byteAt_congr boot s'.ram g v (Eq.trans hnew (h.spare g (h'.spaces.high g _ hr) fun r hold => ?_))
      exact hno g (h'.spaces.unique g _ _ (hstep.old g r hold) hr ▸ hold)
    · rw [givenZero_append, hbefore]
      rintro (heq | ⟨heq, -⟩) <;> cases heq

theorem HasRole.user_frame (ram : Ram) (g g' d w : Nat) (h : HasRole booted dirs ram g (.user_page d w))
    (h' : HasRole booted dirs ram g' (.user_page d w)) : g = g' := by
  obtain ⟨-, -, -, hf⟩ := h
  obtain ⟨-, -, -, hf'⟩ := h'
  exact Option.some.inj (hf.symm.trans hf')

theorem PrivateInv.mem_step (ndebug : Bool) (boot : Ram) (log : List UserEvent) (s s' : Mm) (zero : Bool)
    (evs : List MemEvent) (h : PrivateInv booted ndebug boot log dirs s)
    (hmem : MemInv booted ndebug (memLog log ++ evs) dirs' s') (hstep : MemStep booted dirs dirs' zero s s' evs) :
    PrivateInv booted ndebug boot (log ++ evs.map (.mem zero)) dirs' s' := by
  refine { mem := ?_, spare := ?_, stored := ?_, own := ?_ }
  · rw [memLog_append, memLog_mem]
    exact hmem
  · exact fun g hg hr => (hstep.spare g hg hr).trans (h.spare g hg fun r hold => hr r (hstep.old g r hold))
  · intro d v b hev
    rcases List.mem_append.mp hev with hev | hev
    · obtain ⟨g, hg⟩ := h.stored d v b hev
      exact ⟨g, hstep.old g _ hg⟩
    · obtain ⟨ev, -, heq⟩ := List.mem_map.mp hev
      cases heq
  · intro g d v hr
    by_cases hold : ∃ g', HasRole booted dirs s.ram g' (.user_page d (v.toNat / 2 ^ 12))
    · obtain ⟨g', hg'⟩ := hold
      have heq := HasRole.user_frame _ g g' d _ hr (hstep.old g' _ hg')
      exact h.mem_old ndebug boot log s s' zero evs hstep g d v (heq ▸ hg')
    · exact h.mem_new ndebug boot log s s' zero evs hmem.frames hstep g d v hr fun g' hg' => hold ⟨g', hg'⟩

/-! ## A store -/

theorem byteAt_set (ram : Ram) (f g : Nat) (v u : UInt32) (b : UInt8) :
    byteAt (ram.setByteAt f v b) g u =
      if g = f ∧ u.toNat % 2 ^ 12 = v.toNat % 2 ^ 12 then b else byteAt ram g u := by
  unfold byteAt Ram.setByteAt
  rw [Ram.set_apply]
  by_cases hword : g = f ∧ wordOf u = wordOf v
  · rw [if_pos hword, byteOf_setByte _ _ _ _ (by omega) (by omega), hword.1, hword.2]
    unfold wordOf at hword
    by_cases hmod : u.toNat % 4 = v.toNat % 4
    · rw [if_pos hmod, if_pos ⟨rfl, by omega⟩]
    · rw [if_neg hmod, if_neg (by omega)]
  · rw [if_neg hword, if_neg]
    rintro ⟨hg, hmod⟩
    refine hword ⟨hg, ?_⟩
    unfold wordOf
    rw [hmod]

theorem IsUser.bounds (v : UInt32) (h : IsUser v) : 0x8048 ≤ v.toNat / 2 ^ 12 ∧ v.toNat / 2 ^ 12 < 0xc0000 := by
  obtain ⟨h1, h2⟩ := h
  rw [UInt32.le_iff_toNat_le] at h1
  rw [UInt32.lt_iff_toNat_lt] at h2
  change 0x8048000 ≤ v.toNat at h1
  change v.toNat < 0xc0000000 at h2
  omega

/-- An address is its page and its place in it. -/
theorem addr_ext (v u : UInt32) (hpage : u.toNat / 2 ^ 12 = v.toNat / 2 ^ 12)
    (hmod : u.toNat % 2 ^ 12 = v.toNat % 2 ^ 12) : u = v := by
  rw [← UInt32.toNat_inj]
  omega

/-- A store reaches the byte that it is for, in the directory that it is from, and no other. -/
theorem PrivateInv.store (ndebug : Bool) (boot : Ram) (log : List UserEvent) (s : Mm) (v : UInt32) (b : UInt8) (f : Nat)
    (h : PrivateInv booted ndebug boot log dirs s) (hf : HasRole booted dirs s.ram f (.user_page s.dir (v.toNat / 2 ^ 12))) :
    PrivateInv booted ndebug boot (log ++ [.stored s.dir v b]) dirs (s.withRam (s.ram.setByteAt f v b)) := by
  have hother : ∀ g, g ≠ f → s.ram.setByteAt f v b g = s.ram g := fun g hg => Ram.set_of_ne _ _ _ _ _ hg
  have hnt := h.mem.frames.user_not_table s f _ _ hf
  obtain ⟨hfr, hroles, -⟩ := h.mem.frames.agree [] s _ fun t ht => hother t fun heq => hnt (heq ▸ ht)
  refine { mem := ?_, spare := ?_, stored := ?_, own := ?_ }
  · rw [memLog_append, memLog_stored, List.append_nil]
    refine { frames := hfr, listed := ?_, origin := ?_, ranges := ?_, pages := ?_ }
    · intro w hw
      obtain ⟨d, hd, hr⟩ := h.mem.listed w hw
      exact ⟨d, hd, (hroles _ _).mpr hr⟩
    · intro d hd
      rcases h.mem.origin d hd with hb | ⟨w, hw, hr⟩
      · exact .inl hb
      · exact .inr ⟨w, hw, (hroles _ _).mpr hr⟩
    · intro d lo n hev
      obtain ⟨hd, hall⟩ := h.mem.ranges d lo n hev
      refine ⟨hd, fun k hk => ?_⟩
      obtain ⟨h1, h2, p, hp⟩ := hall k hk
      exact ⟨h1, h2, p, (hroles _ _).mpr hp⟩
    · exact fun hnd p r hr => h.mem.pages hnd p r ((hroles _ _).mp hr)
  · intro g hg hr
    have hgf : g ≠ f := by
      rintro rfl
      exact hr _ ((hroles _ _).mpr hf)
    rw [s.withRam_ram, hother g hgf, h.spare g hg fun r hold => hr r ((hroles _ _).mpr hold)]
  · intro d u c hev
    rcases List.mem_append.mp hev with hev | hev
    · obtain ⟨g, hg⟩ := h.stored d u c hev
      exact ⟨g, (hroles _ _).mpr hg⟩
    · injection List.mem_singleton.mp hev with hd hu
      subst hd hu
      exact ⟨f, (hroles _ _).mpr hf⟩
  · intro g d u hr
    rw [s.withRam_ram] at hr ⊢
    have hold := (hroles g _).mp hr
    have hzero : givenZero (log ++ [.stored s.dir v b]) d (u.toNat / 2 ^ 12) = givenZero log d (u.toNat / 2 ^ 12) := by
      unfold givenZero
      rw [List.any_append, List.any_cons, List.any_nil, Bool.or_false, Bool.or_false]
    unfold ownByte
    rw [byteAt_set, lastStored_stored, hzero]
    by_cases hsame : s.dir = d ∧ v = u
    · obtain ⟨hd, rfl⟩ := hsame
      subst hd
      rw [if_pos ⟨HasRole.user_frame _ g f _ _ hold hf, rfl⟩, if_pos ⟨rfl, rfl⟩, Option.getD_some]
    · rw [if_neg hsame, if_neg]
      · exact h.own g d u hold
      · rintro ⟨rfl, hmod⟩
        have heq := h.mem.frames.spaces.unique g _ _ hold hf
        injection heq with hd hpage
        exact hsame ⟨hd.symm, (addr_ext v u hpage hmod).symm⟩

theorem PrivateInv.step (ndebug : Bool) (boot : Ram) (log : List UserEvent) (s : Mm) (a : UserAct)
    (h : PrivateInv booted ndebug boot log dirs s) (ha : userContract log s a) :
    Spec (user_step ndebug s a) (fun r => ∃ dirs', PrivateInv booted ndebug boot (log ++ r.2) dirs' r.1) fun _ => True := by
  cases a with
  | mem a =>
    unfold user_step
    rw [spec_bind]
    refine spec_mono _ _ _ _ _ (mem_step_contents ndebug _ s a h.mem ha) ?_ fun _ _ => trivial
    rintro ⟨s', evs⟩ ⟨dirs', hmem, hstep⟩
    exact ⟨dirs', h.mem_step ndebug boot log s s' _ evs hmem hstep⟩
  | store v b =>
    obtain ⟨h1, h2⟩ := IsUser.bounds v ha
    unfold user_step
    rw [spec_bind]
    unfold Mm.store_byte
    cases hw : walk s.ram s.dir v with
    | none => trivial
    | some f =>
      rw [walk_eq] at hw
      exact ⟨dirs, h.store ndebug boot log s v b f ⟨h.mem.frames.active, h1, h2, hw⟩⟩

end

/-! ## Runs -/

theorem private_init (ndebug : Bool) (boot : Ram) (all_mem : UInt32) (bits : Fin 3 → Nat → UInt8) (main : Tid) :
    PrivateInv (bootPages boot) ndebug boot [] [PAGE_DIR_FRAME] (mem_init boot all_mem bits main) := by
  have hmem := mem_init_inv ndebug boot all_mem bits main
  have hram : (mem_init boot all_mem bits main).ram = setup_page boot := by simp only [mem_init]
  have hno : ∀ g r, ¬ HasRole (bootPages boot) [PAGE_DIR_FRAME] (mem_init boot all_mem bits main).ram g r :=
    fun g r hr => mem_init_unused boot all_mem bits main _ g (hmem.frames.used g r hr)
  refine { mem := hmem, spare := ?_, stored := ?_, own := ?_ }
  · intro g hg _
    funext j
    rw [hram, setup_page_table boot g j (by unfold PAGE_DIR_FRAME; omega), if_neg (by unfold kernelTable; omega)]
  · exact fun d v b hev => by cases hev
  · exact fun g d v hr => absurd hr (hno g _)

theorem private_reach (ndebug : Bool) (boot : Ram) (log : List UserEvent) (s : Mm)
    (hr : Run.Reach (userSystem ndebug boot) userContract log s) :
    ∃ dirs, PrivateInv (bootPages boot) ndebug boot log dirs s := by
  refine Run.reach_invariant _ _ (fun log s => ∃ dirs, PrivateInv (bootPages boot) ndebug boot log dirs s) ?_ ?_ log s hr
  · rintro s ⟨ram, all_mem, bits, main, rfl, rfl⟩
    exact ⟨_, private_init ndebug ram all_mem bits main⟩
  · rintro log s a s' evs ⟨dirs, hinv⟩ ha hs
    exact spec_of_ok _ _ _ (hinv.step ndebug boot log s a ha) _ hs

/-- A run of the memory manager is a run without stores. -/
theorem reach_without_stores (ndebug : Bool) (log : List MemEvent) (s : Mm)
    (hr : Run.Reach (memSystem (locked_call ndebug) ndebug fun _ => True) inContract log s) :
    ∃ boot log', memLog log' = log ∧ Run.Reach (userSystem ndebug boot) userContract log' s := by
  induction hr with
  | init s hs =>
    obtain ⟨boot, all_mem, bits, main, -, rfl⟩ := hs
    exact ⟨boot, [], rfl, .init _ ⟨boot, all_mem, bits, main, rfl, rfl⟩⟩
  | step log s a s' evs _ ha hs ih =>
    obtain ⟨boot, log', rfl, hr⟩ := ih
    have hstep : user_step ndebug s (.mem a) = .ok (s', evs.map (.mem a.zeroes)) := by
      change mem_step (locked_call ndebug) ndebug s a = .ok (s', evs) at hs
      unfold user_step
      dsimp only
      rw [hs]
      rfl
    exact ⟨boot, _, by rw [memLog_append, memLog_mem], .step _ _ (UserAct.mem a) _ _ hr ha hstep⟩

/-- A process with its stack page, with 32 frames in each pool. -/
theorem stack_page_first : ∃ log s, Run.Reach (memSystem (locked_call false) false fun _ => True) inContract log s ∧
    ∃ f, walk s.ram s.dir (USER_STACK3_VADDR + 0x123) = some f := by
  have hf₀ : Frames (bootPages fun _ _ => 0) [PAGE_DIR_FRAME] [] (zeroMemory 0x240000) := mem_init_frames _ _ _ _
  have hr₀ := reach_zeroMemory (locked_call false) false (fun _ => True) trivial 0x240000
  have hst₀ := stock_zeroMemory
  generalize zeroMemory 0x240000 = s₀ at hf₀ hr₀ hst₀
  obtain ⟨log, s₂, dirs, hr₂, hp, hst₂⟩ := newProcess_gives false _ _ _ s₀ 8 32 8 1 hr₀ hf₀ hst₀
  have hcovers : (s₂.vaddrs .PF_USER).covers USER_STACK3_VADDR := by
    change (s₂.userprog_vaddr s₂.cur).covers USER_STACK3_VADDR
    rw [hp.cur, hp.range]
    decide
  obtain ⟨s₃, hget⟩ := get_a_page_gives false s₂ 7 31 8 USER_STACK3_VADDR hp.frames hst₂ (by rw [hp.cur]; exact hp.pgdir)
    (by rw [hp.cur, hp.range]; decide) ⟨by decide, by decide⟩ (hp.empty _ (by decide) (by decide))
  obtain ⟨⟨-, lo, hg, hres⟩, -⟩ :=
    spec_of_ok _ _ _ (get_a_page_spec false s₂ .PF_USER USER_STACK3_VADDR hcovers hp.frames) _ hget
  have hne : USER_STACK3_VADDR ≠ NULL := by decide
  obtain ⟨hlo, -, hret⟩ := hres.resolve_left fun hnull => hne hnull.1
  obtain ⟨f, hf⟩ := Option.ne_none_iff_exists'.mp (hret.after 0 (by omega))
  have hstep := mem_step_call (locked_call false) false s₂ (.get_a_page .PF_USER USER_STACK3_VADDR) _ s₃ hget
  have hin : inContract log s₂ (.call (.get_a_page .PF_USER USER_STACK3_VADDR)) := hcovers
  refine ⟨_, s₃, .step _ _ _ _ _ hr₂ hin hstep, f, ?_⟩
  have hd : s₃.dir = s₂.dir := by
    unfold Mm.dir
    rw [hg.cr3]
  have hpage : (USER_STACK3_VADDR + 0x123).toNat / 2 ^ 12 = USER_STACK3_VADDR.toNat / 2 ^ 12 := by decide
  dsimp only at hlo
  rw [walk_eq, hd, hpage, hlo]
  exact hf

end OsLearn
