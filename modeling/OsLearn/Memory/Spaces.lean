import OsLearn.Memory.Alloc

/-!
# Address spaces: what the page tables give each frame to do

A frame that the pools hand out backs a page of the kernel, backs a page of one directory, or is a
page table of one directory. All of it can be read off the page tables.
-/

namespace OsLearn

inductive Role where
  -- Backs a page of the kernel half, which all directories share.
  | kernel_page (page : Nat)
  | user_page (dir page : Nat)
  -- The table behind an entry of the user half.
  | page_table (dir i : Nat)
  deriving DecidableEq, Repr

/-- The table that `setup_page` puts behind entry `i` of the kernel half. -/
def kernelTable (i : Nat) : Nat := 0x101 + (i - 768)

/-- `booted` are the pages of the kernel half that are mapped before the first call. -/
def HasRole (booted : Nat → Prop) (dirs : List Nat) (ram : Ram) (p : Nat) : Role → Prop
  | .kernel_page v => ¬ booted v ∧ 0xc0000 ≤ v ∧ v < 0xffc00 ∧ frameAt ram PAGE_DIR_FRAME v = some p
  | .user_page d v => d ∈ dirs ∧ 0x8048 ≤ v ∧ v < 0xc0000 ∧ frameAt ram d v = some p
  | .page_table d i => d ∈ dirs ∧ 32 ≤ i ∧ i < 768 ∧ target (ram d i) = some p

def pageRole (d v : Nat) : Role := if v < 0xc0000 then .user_page d v else .kernel_page v

/-- The entries that every directory has. -/
structure DirShape (booted : Nat → Prop) (dirs : List Nat) (ram : Ram) : Prop where
  boot : PAGE_DIR_FRAME ∈ dirs
  self : ∀ d ∈ dirs, ram d 1023 = entry d
  kernel : ∀ d ∈ dirs, ∀ i, 768 ≤ i → i < 1023 → ram d i = entry (kernelTable i)
  low : ∀ d ∈ dirs, ∀ i < 32, target (ram d i) ≠ none → d = PAGE_DIR_FRAME ∧ i = 0
  first : ram PAGE_DIR_FRAME 0 = entry (kernelTable 768)
  identity : ∀ j < 256, ram (kernelTable 768) j = entry j
  mapped : ∀ v, booted v → 0xc0000 ≤ v ∧ v < 0xffc00 ∧ frameAt ram PAGE_DIR_FRAME v ≠ none

/-- Page tables in which each frame has at most one role. -/
structure Spaces (booted : Nat → Prop) (dirs : List Nat) (ram : Ram) : Prop extends DirShape booted dirs ram where
  high : ∀ p r, HasRole booted dirs ram p r → 0x200 ≤ p
  dir_role : ∀ d ∈ dirs, d = PAGE_DIR_FRAME ∨ ∃ v, HasRole booted dirs ram d (.kernel_page v)
  unique : ∀ p r r', HasRole booted dirs ram p r → HasRole booted dirs ram p r' → r = r'

/-! ## Reading the tables -/

theorem frameAt_some (ram : Ram) (d v p : Nat) :
    frameAt ram d v = some p ↔ ∃ t, target (ram d (v / 2 ^ 10)) = some t ∧ target (ram t (v % 2 ^ 10)) = some p := by
  unfold frameAt
  exact Option.bind_eq_some_iff

theorem kernelTable_inj (i j : Nat) (hi : 768 ≤ i) (hj : 768 ≤ j) (h : kernelTable i = kernelTable j) : i = j := by
  unfold kernelTable at h
  omega

theorem target_kernelTable (i : Nat) (h : i < 1023) : target (entry (kernelTable i)) = some (kernelTable i) :=
  target_entry _ (by unfold kernelTable; omega)

section

variable {booted : Nat → Prop} {dirs : List Nat} {ram : Ram}

theorem DirShape.shared (h : DirShape booted dirs ram) (d v : Nat) (hd : d ∈ dirs) (h1 : 0xc0000 ≤ v) (h2 : v < 0xffc00) :
    frameAt ram d v = frameAt ram PAGE_DIR_FRAME v := by
  unfold frameAt
  rw [h.kernel d hd _ (by omega) (by omega), h.kernel _ h.boot _ (by omega) (by omega)]

theorem DirShape.hasRole_page (h : DirShape booted dirs ram) (d v p : Nat) (hd : d ∈ dirs) (h1 : 0x8048 ≤ v)
    (h2 : v < 0xffc00) :
    HasRole booted dirs ram p (pageRole d v) ↔ ¬ (0xc0000 ≤ v ∧ booted v) ∧ frameAt ram d v = some p := by
  unfold pageRole
  split
  · simp only [HasRole]
    constructor
    · rintro ⟨-, -, -, hp⟩
      exact ⟨by omega, hp⟩
    · rintro ⟨-, hp⟩
      exact ⟨hd, h1, by omega, hp⟩
  · rw [h.shared d v hd (by omega) h2]
    simp only [HasRole]
    constructor
    · rintro ⟨hb, -, -, hp⟩
      exact ⟨fun hh => hb hh.2, hp⟩
    · rintro ⟨hb, hp⟩
      exact ⟨fun hh => hb ⟨by omega, hh⟩, by omega, h2, hp⟩

theorem HasRole.cases (h : DirShape booted dirs ram) (p : Nat) (r : Role) (hr : HasRole booted dirs ram p r) :
    (∃ d ∈ dirs, ∃ v, 0x8048 ≤ v ∧ v < 0xffc00 ∧ r = pageRole d v) ∨
      ∃ d ∈ dirs, ∃ i, 32 ≤ i ∧ i < 768 ∧ r = .page_table d i := by
  cases r with
  | kernel_page v =>
    obtain ⟨-, h1, h2, -⟩ := hr
    exact .inl ⟨_, h.boot, v, by omega, h2, by rw [pageRole, if_neg (by omega)]⟩
  | user_page d v =>
    obtain ⟨hd, h1, h2, -⟩ := hr
    exact .inl ⟨d, hd, v, h1, by omega, by rw [pageRole, if_pos h2]⟩
  | page_table d i =>
    obtain ⟨hd, h1, h2, -⟩ := hr
    exact .inr ⟨d, hd, i, h1, h2, rfl⟩

theorem pageRole_ne_table (d v e i : Nat) : pageRole d v ≠ .page_table e i := by
  unfold pageRole
  split <;> simp

theorem pageRole_eq_iff (d v e w : Nat) : pageRole e w = pageRole d v ↔ w = v ∧ (v < 0xc0000 → e = d) := by
  unfold pageRole
  split <;> split <;> simp <;> omega

end

/-! ## Directories and tables lie in frames of their own -/

/-- The frames that a walk through one of the directories reads. -/
def IsTable (dirs : List Nat) (ram : Ram) (t : Nat) : Prop :=
  t ∈ dirs ∨ ∃ d ∈ dirs, ∃ i, 32 ≤ i ∧ i < 1023 ∧ target (ram d i) = some t

section

variable {booted : Nat → Prop} {dirs : List Nat} {ram : Ram}

theorem DirShape.target_kernel (h : DirShape booted dirs ram) (d i : Nat) (hd : d ∈ dirs) (h1 : 768 ≤ i)
    (h2 : i < 1023) : target (ram d i) = some (kernelTable i) := by
  rw [h.kernel d hd i h1 h2, target_kernelTable i h2]

theorem Spaces.dir_range (h : Spaces booted dirs ram) (d : Nat) (hd : d ∈ dirs) :
    (d = PAGE_DIR_FRAME ∨ 0x200 ≤ d) ∧ d < 2 ^ 20 := by
  rcases h.dir_role d hd with rfl | ⟨v, hv⟩
  · exact ⟨.inl rfl, by decide⟩
  · refine ⟨.inr (h.high _ _ hv), ?_⟩
    obtain ⟨-, -, -, hf⟩ := hv
    obtain ⟨t, -, ht⟩ := (frameAt_some _ _ _ _).mp hf
    exact target_lt _ _ ht

theorem Spaces.selfMap (h : Spaces booted dirs ram) (d : Nat) (hd : d ∈ dirs) : SelfMap ram d := by
  have hlt := (h.dir_range d hd).2
  constructor
  · rw [h.self d hd, present_entry d hlt]
  · rw [h.self d hd, frameOf_entry d hlt]

theorem Spaces.table_range (h : Spaces booted dirs ram) (d i t : Nat) (hd : d ∈ dirs) (h1 : 32 ≤ i)
    (h2 : i < 1023) (ht : target (ram d i) = some t) :
    (768 ≤ i ∧ t = kernelTable i) ∨ (i < 768 ∧ 0x200 ≤ t ∧ HasRole booted dirs ram t (.page_table d i)) := by
  by_cases hi : i < 768
  · have hr : HasRole booted dirs ram t (.page_table d i) := ⟨hd, h1, hi, ht⟩
    exact .inr ⟨hi, h.high _ _ hr, hr⟩
  · refine .inl ⟨by omega, ?_⟩
    rw [h.target_kernel d i hd (by omega) h2] at ht
    exact (Option.some.inj ht).symm

/-- No two entries lead to one table, but for the kernel half, which the directories share. -/
theorem Spaces.table_inj (h : Spaces booted dirs ram) (d i e j t : Nat) (hd : d ∈ dirs) (he : e ∈ dirs)
    (hi1 : 32 ≤ i) (hi2 : i < 1023) (hj1 : 32 ≤ j) (hj2 : j < 1023) (ht : target (ram d i) = some t)
    (ht' : target (ram e j) = some t) : j = i ∧ (i < 768 → e = d) := by
  rcases h.table_range d i t hd hi1 hi2 ht with ⟨hi, heq⟩ | ⟨hi, hp, hr⟩ <;>
    rcases h.table_range e j t he hj1 hj2 ht' with ⟨hj, heq'⟩ | ⟨hj, hp', hr'⟩
  · exact ⟨kernelTable_inj _ _ hj hi (heq'.symm.trans heq), fun hlt => by omega⟩
  · unfold kernelTable at heq
    omega
  · unfold kernelTable at heq'
    omega
  · have := h.unique _ _ _ hr hr'
    simp only [Role.page_table.injEq] at this
    exact ⟨this.2.symm, fun _ => this.1.symm⟩

theorem Spaces.table_not_dir (h : Spaces booted dirs ram) (d i t : Nat) (hd : d ∈ dirs) (h1 : 32 ≤ i)
    (h2 : i < 1023) (ht : target (ram d i) = some t) : t ∉ dirs := by
  intro hmem
  rcases h.table_range d i t hd h1 h2 ht with ⟨hi, heq⟩ | ⟨-, hp, hr⟩
  · have := (h.dir_range _ hmem).1
    unfold PAGE_DIR_FRAME at this
    unfold kernelTable at heq
    omega
  · rcases h.dir_role t hmem with heq | ⟨v, hv⟩
    · unfold PAGE_DIR_FRAME at heq
      omega
    · cases h.unique _ _ _ hr hv

theorem Spaces.fresh_not_table (h : Spaces booted dirs ram) (p : Nat) (hp : 0x200 ≤ p)
    (hfresh : ∀ r, ¬ HasRole booted dirs ram p r) : ¬ IsTable dirs ram p := by
  rintro (hd | ⟨d, hd, i, h1, h2, ht⟩)
  · rcases h.dir_role p hd with heq | ⟨v, hv⟩
    · unfold PAGE_DIR_FRAME at heq
      omega
    · exact hfresh _ hv
  · rcases h.table_range d i p hd h1 h2 ht with ⟨hi, heq⟩ | ⟨-, -, hr⟩
    · unfold kernelTable at heq
      omega
    · exact hfresh _ hr

/-- A page that is not one of the directories can be written: it is no table either. -/
theorem Spaces.page_not_table (h : Spaces booted dirs ram) (p d v : Nat)
    (hr : HasRole booted dirs ram p (pageRole d v)) (hnd : p ∉ dirs) : ¬ IsTable dirs ram p := by
  rintro (hd | ⟨e, he, i, h1, h2, ht⟩)
  · exact hnd hd
  · have hp := h.high _ _ hr
    rcases h.table_range e i p he h1 h2 ht with ⟨hi, heq⟩ | ⟨-, -, hr'⟩
    · unfold kernelTable at heq
      omega
    · exact pageRole_ne_table _ _ _ _ (h.unique _ _ _ hr hr')

/-! ## Changes of the tables -/

/-- The roles depend on the directories and the tables only. -/
theorem Spaces.agree (h : Spaces booted dirs ram) (ram' : Ram) (hag : ∀ t, IsTable dirs ram t → ram' t = ram t) :
    Spaces booted dirs ram' ∧ (∀ p r, HasRole booted dirs ram' p r ↔ HasRole booted dirs ram p r) ∧
      ∀ d ∈ dirs, ∀ v, 0x8048 ≤ v → v < 0xffc00 → frameAt ram' d v = frameAt ram d v := by
  have hdir : ∀ d ∈ dirs, ram' d = ram d := fun d hd => hag d (.inl hd)
  have hframe : ∀ d ∈ dirs, ∀ v, 0x8048 ≤ v → v < 0xffc00 → frameAt ram' d v = frameAt ram d v := by
    intro d hd v h1 h2
    unfold frameAt
    rw [hdir d hd]
    cases ht : target (ram d (v / 2 ^ 10)) with
    | none => rfl
    | some t =>
      show target (ram' t _) = target (ram t _)
      rw [hag t (.inr ⟨d, hd, v / 2 ^ 10, by omega, by omega, ht⟩)]
  have hroles : ∀ p r, HasRole booted dirs ram' p r ↔ HasRole booted dirs ram p r := by
    intro p r
    cases r with
    | kernel_page v =>
      by_cases hv : 0xc0000 ≤ v ∧ v < 0xffc00
      · simp only [HasRole, hframe _ h.boot v (by omega) hv.2]
      · simp only [HasRole]
        constructor <;> rintro ⟨-, h1, h2, -⟩ <;> exact absurd ⟨h1, h2⟩ hv
    | user_page d v =>
      by_cases hv : d ∈ dirs ∧ 0x8048 ≤ v ∧ v < 0xc0000
      · simp only [HasRole, hframe d hv.1 v hv.2.1 (by omega)]
      · simp only [HasRole]
        constructor <;> rintro ⟨h0, h1, h2, -⟩ <;> exact absurd ⟨h0, h1, h2⟩ hv
    | page_table d i =>
      by_cases hd : d ∈ dirs
      · simp only [HasRole, hdir d hd]
      · simp only [HasRole, hd, false_and]
  have htab : ram' (kernelTable 768) = ram (kernelTable 768) :=
    hag _ (.inr ⟨_, h.boot, 768, by omega, by omega, h.target_kernel _ _ h.boot (by omega) (by omega)⟩)
  refine ⟨{ boot := h.boot, self := ?_, kernel := ?_, low := ?_, first := ?_, identity := ?_, mapped := ?_,
            high := ?_, dir_role := ?_, unique := ?_ }, hroles, hframe⟩
  · exact fun d hd => by rw [hdir d hd, h.self d hd]
  · exact fun d hd i h1 h2 => by rw [hdir d hd, h.kernel d hd i h1 h2]
  · exact fun d hd i hi ht => h.low d hd i hi (by rwa [← hdir d hd])
  · rw [hdir _ h.boot, h.first]
  · exact fun j hj => by rw [htab, h.identity j hj]
  · intro v hv
    obtain ⟨h1, h2, h3⟩ := h.mapped v hv
    exact ⟨h1, h2, by rwa [hframe _ h.boot v (by omega) h2]⟩
  · exact fun p r hr => h.high p r ((hroles p r).mp hr)
  · intro d hd
    rcases h.dir_role d hd with hb | ⟨v, hv⟩
    · exact .inl hb
    · exact .inr ⟨v, (hroles _ _).mpr hv⟩
  · exact fun p r r' hr hr' => h.unique p r r' ((hroles _ _).mp hr) ((hroles _ _).mp hr')

end

end OsLearn
