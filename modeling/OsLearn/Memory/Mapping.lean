import OsLearn.Memory.Spaces

/-!
# The three changes of the tables: a page, a table, a directory

Each adds one role and takes none away.
-/

namespace OsLearn

variable {booted : Nat → Prop} {dirs : List Nat} {ram : Ram}

theorem Spaces.grow (h : Spaces booted dirs ram) (ram' : Ram) (hs : DirShape booted dirs ram') (p : Nat) (r₀ : Role)
    (hp : 0x200 ≤ p) (hfresh : ∀ r, ¬ HasRole booted dirs ram p r)
    (hroles : ∀ q r, HasRole booted dirs ram' q r ↔ HasRole booted dirs ram q r ∨ q = p ∧ r = r₀) :
    Spaces booted dirs ram' := by
  refine { hs with high := ?_, dir_role := ?_, unique := ?_ }
  · intro q r hr
    rcases (hroles q r).mp hr with hr | ⟨rfl, -⟩
    · exact h.high q r hr
    · exact hp
  · intro d hd
    rcases h.dir_role d hd with hb | ⟨v, hv⟩
    · exact .inl hb
    · exact .inr ⟨v, (hroles _ _).mpr (.inl hv)⟩
  · intro q r r' hr hr'
    rcases (hroles q r).mp hr with hr | ⟨rfl, rfl⟩ <;> rcases (hroles _ r').mp hr' with hr' | ⟨heq, rfl⟩
    · exact h.unique q r r' hr hr'
    · exact absurd (heq ▸ hr) (hfresh r)
    · exact absurd hr' (hfresh r')
    · rfl

/-! ## A page -/

section Page

variable (h : Spaces booted dirs ram) (d v t p : Nat) (hd : d ∈ dirs) (h1 : 0x8048 ≤ v) (h2 : v < 0xffc00)
  (ht : target (ram d (v / 2 ^ 10)) = some t) (hnone : target (ram t (v % 2 ^ 10)) = none) (hp : 0x200 ≤ p)
  (hlt : p < 2 ^ 20) (hfresh : ∀ r, ¬ HasRole booted dirs ram p r)

include h hd h1 h2 ht

theorem Spaces.dir_set (e : Nat) (he : e ∈ dirs) (j : Nat) (w : UInt32) : ram.set t j w e = ram e := by
  refine Ram.set_of_ne _ _ _ _ _ fun heq => ?_
  exact h.table_not_dir d (v / 2 ^ 10) t hd (by omega) (by omega) ht (heq ▸ he)

include hlt

theorem Spaces.frameAt_set (e w : Nat) (he : e ∈ dirs) (hw1 : 0x8048 ≤ w) (hw2 : w < 0xffc00) :
    frameAt (ram.set t (v % 2 ^ 10) (entry p)) e w =
      if pageRole e w = pageRole d v then some p else frameAt ram e w := by
  unfold frameAt
  rw [h.dir_set d v t hd h1 h2 ht e he]
  cases hu : target (ram e (w / 2 ^ 10)) with
  | none =>
    refine (if_neg fun hr => ?_).symm
    obtain ⟨rfl, hdir⟩ := (pageRole_eq_iff d v e w).mp hr
    by_cases hlow : w < 0xc0000
    · rw [hdir hlow, ht] at hu
      cases hu
    · rw [h.target_kernel e _ he (by omega) (by omega)] at hu
      cases hu
  | some u =>
    show target (ram.set t _ _ u _) = _
    rw [Ram.set_apply]
    by_cases hr : pageRole e w = pageRole d v
    · obtain ⟨rfl, hdir⟩ := (pageRole_eq_iff d v e w).mp hr
      have hut : u = t := by
        by_cases hlow : w < 0xc0000
        · rw [hdir hlow, ht] at hu
          exact (Option.some.inj hu).symm
        · rw [h.target_kernel e _ he (by omega) (by omega)] at hu
          rw [h.target_kernel d _ hd (by omega) (by omega)] at ht
          exact Option.some.inj (hu.symm.trans ht)
      rw [if_pos hr, if_pos ⟨hut, rfl⟩, target_entry p hlt]
    · rw [if_neg hr, if_neg]
      · rfl
      · rintro ⟨rfl, hmod⟩
        obtain ⟨hi, hdir⟩ := h.table_inj d _ e _ _ hd he (by omega) (by omega) (by omega) (by omega) ht hu
        exact hr ((pageRole_eq_iff d v e w).mpr ⟨by omega, fun hlow => hdir (by omega)⟩)

include hnone hp hfresh

theorem Spaces.map_page :
    Spaces booted dirs (ram.set t (v % 2 ^ 10) (entry p)) ∧
      ∀ q r, HasRole booted dirs (ram.set t (v % 2 ^ 10) (entry p)) q r ↔
        HasRole booted dirs ram q r ∨ q = p ∧ r = pageRole d v := by
  have hdir := fun e he => h.dir_set d v t hd h1 h2 ht e he (v % 2 ^ 10) (entry p)
  have hframe := h.frameAt_set d v t p hd h1 h2 ht hlt
  have hunmapped : ∀ e ∈ dirs, ∀ w, 0x8048 ≤ w → w < 0xffc00 → pageRole e w = pageRole d v → frameAt ram e w = none := by
    intro e he w hw1 hw2 hr
    have hv : frameAt ram d v = none := by
      unfold frameAt
      rw [ht]
      exact hnone
    obtain ⟨rfl, hed⟩ := (pageRole_eq_iff d v e w).mp hr
    by_cases hlow : w < 0xc0000
    · rw [hed hlow, hv]
    · rw [h.shared e w he (by omega) h2, ← h.shared d w hd (by omega) h2, hv]
  have hshape : DirShape booted dirs (ram.set t (v % 2 ^ 10) (entry p)) := by
    refine { boot := h.boot, self := ?_, kernel := ?_, low := ?_, first := ?_, identity := ?_, mapped := ?_ }
    · exact fun e he => by rw [hdir e he, h.self e he]
    · exact fun e he i hi1 hi2 => by rw [hdir e he, h.kernel e he i hi1 hi2]
    · exact fun e he i hi hne => h.low e he i hi (by rwa [← hdir e he])
    · rw [hdir _ h.boot, h.first]
    · intro j hj
      rw [Ram.set_apply, if_neg]
      · exact h.identity j hj
      · rintro ⟨rfl, rfl⟩
        rw [h.identity _ hj, target_entry _ (by omega)] at hnone
        cases hnone
    · intro w hw
      obtain ⟨hw1, hw2, hw3⟩ := h.mapped w hw
      refine ⟨hw1, hw2, ?_⟩
      rw [hframe _ w h.boot (by omega) hw2, if_neg]
      · exact hw3
      · exact fun hr => hw3 (hunmapped _ h.boot w (by omega) hw2 hr)
  have hroles : ∀ q r, HasRole booted dirs (ram.set t (v % 2 ^ 10) (entry p)) q r ↔
      HasRole booted dirs ram q r ∨ q = p ∧ r = pageRole d v := by
    intro q r
    constructor
    · intro hr
      rcases hr.cases hshape with ⟨e, he, w, hw1, hw2, rfl⟩ | ⟨e, he, i, hi1, hi2, rfl⟩
      · obtain ⟨hb, hf⟩ := (hshape.hasRole_page e w q he hw1 hw2).mp hr
        rw [hframe e w he hw1 hw2] at hf
        split at hf
        · rename_i heq
          exact .inr ⟨(Option.some.inj hf).symm, heq⟩
        · exact .inl ((h.hasRole_page e w q he hw1 hw2).mpr ⟨hb, hf⟩)
      · simp only [HasRole, hdir e he] at hr
        exact .inl hr
    · rintro (hr | ⟨rfl, rfl⟩)
      · rcases hr.cases h.toDirShape with ⟨e, he, w, hw1, hw2, rfl⟩ | ⟨e, he, i, hi1, hi2, rfl⟩
        · obtain ⟨hb, hf⟩ := (h.hasRole_page e w q he hw1 hw2).mp hr
          refine (hshape.hasRole_page e w q he hw1 hw2).mpr ⟨hb, ?_⟩
          rw [hframe e w he hw1 hw2, if_neg]
          · exact hf
          · intro heq
            rw [hunmapped e he w hw1 hw2 heq] at hf
            cases hf
        · simp only [HasRole, hdir e he]
          exact hr
      · refine (hshape.hasRole_page d v q hd h1 h2).mpr ⟨?_, by rw [hframe d v hd h1 h2, if_pos rfl]⟩
        rintro ⟨hlow, hb⟩
        refine (h.mapped v hb).2.2 ?_
        rw [← h.shared d v hd hlow h2]
        exact hunmapped d hd v h1 h2 rfl
  exact ⟨h.grow _ hshape p _ hp hfresh hroles, hroles⟩

end Page

/-! ## A table -/

section Table

variable (h : Spaces booted dirs ram) (d i t : Nat) (hd : d ∈ dirs) (h1 : 32 ≤ i) (h2 : i < 768)
  (hnone : target (ram d i) = none) (ht : 0x200 ≤ t) (hlt : t < 2 ^ 20)
  (hfresh : ∀ r, ¬ HasRole booted dirs ram t r)

include h hd h1 h2 hnone ht hlt hfresh

/-- An empty table goes behind an entry of the user half. No page is mapped by that. -/
theorem Spaces.add_table :
    Spaces booted dirs ((ram.set d i (entry t)).zero t) ∧
      ∀ q r, HasRole booted dirs ((ram.set d i (entry t)).zero t) q r ↔
        HasRole booted dirs ram q r ∨ q = t ∧ r = .page_table d i := by
  have hnt := h.fresh_not_table t ht hfresh
  generalize hram : (ram.set d i (entry t)).zero t = ram'
  have hdir : ∀ e ∈ dirs, ∀ k, ram' e k = if e = d ∧ k = i then entry t else ram e k := by
    intro e he k
    have hne : e ≠ t := fun heq => hnt (.inl (heq ▸ he))
    rw [← hram, Ram.zero_of_ne _ _ _ hne, Ram.set_apply]
  have hkeep : ∀ e ∈ dirs, ∀ k, (k < 32 ∨ 768 ≤ k) → ram' e k = ram e k := fun e he k hk => by
    rw [hdir e he k, if_neg (by omega)]
  have htab : ∀ e ∈ dirs, ∀ k u, 32 ≤ k → k < 1023 → target (ram e k) = some u → ram' u = ram u := by
    intro e he k u hk1 hk2 hu
    have hud : u ≠ d := fun heq => h.table_not_dir e k u he hk1 hk2 hu (heq ▸ hd)
    have hne : u ≠ t := fun heq => hnt (.inr ⟨e, he, k, hk1, hk2, heq ▸ hu⟩)
    rw [← hram, Ram.zero_of_ne _ _ _ hne, Ram.set_of_ne _ _ _ _ _ hud]
  have hframe : ∀ e ∈ dirs, ∀ w, 0x8048 ≤ w → w < 0xffc00 → frameAt ram' e w = frameAt ram e w := by
    intro e he w hw1 hw2
    unfold frameAt
    rw [hdir e he]
    split
    · rename_i heq
      -- the new table is empty, and there was none
      rw [heq.1, heq.2, hnone, target_entry t hlt, ← hram]
      simp
    · cases hu : target (ram e (w / 2 ^ 10)) with
      | none => rfl
      | some u =>
        show target (ram' u _) = target (ram u _)
        rw [htab e he _ u (by omega) (by omega) hu]
  have hshape : DirShape booted dirs ram' := by
    refine { boot := h.boot, self := ?_, kernel := ?_, low := ?_, first := ?_, identity := ?_, mapped := ?_ }
    · exact fun e he => by rw [hkeep e he _ (by omega), h.self e he]
    · exact fun e he k hk1 hk2 => by rw [hkeep e he k (by omega), h.kernel e he k hk1 hk2]
    · exact fun e he k hk hne => h.low e he k hk (by rwa [← hkeep e he k (by omega)])
    · rw [hkeep _ h.boot _ (by omega), h.first]
    · intro j hj
      rw [htab _ h.boot 768 _ (by omega) (by omega) (h.target_kernel _ _ h.boot (by omega) (by omega)),
        h.identity j hj]
    · intro w hw
      obtain ⟨hw1, hw2, hw3⟩ := h.mapped w hw
      exact ⟨hw1, hw2, by rwa [hframe _ h.boot w (by omega) hw2]⟩
  have hroles : ∀ q r, HasRole booted dirs ram' q r ↔ HasRole booted dirs ram q r ∨ q = t ∧ r = .page_table d i := by
    intro q r
    constructor
    · intro hr
      rcases hr.cases hshape with ⟨e, he, w, hw1, hw2, rfl⟩ | ⟨e, he, k, hk1, hk2, rfl⟩
      · rw [hshape.hasRole_page e w q he hw1 hw2, hframe e he w hw1 hw2] at hr
        exact .inl ((h.hasRole_page e w q he hw1 hw2).mpr hr)
      · obtain ⟨-, -, -, hq⟩ := hr
        rw [hdir e he] at hq
        split at hq
        · rename_i heq
          rw [target_entry t hlt] at hq
          exact .inr ⟨(Option.some.inj hq).symm, by rw [heq.1, heq.2]⟩
        · exact .inl ⟨he, hk1, hk2, hq⟩
    · rintro (hr | ⟨rfl, rfl⟩)
      · rcases hr.cases h.toDirShape with ⟨e, he, w, hw1, hw2, rfl⟩ | ⟨e, he, k, hk1, hk2, rfl⟩
        · rw [h.hasRole_page e w q he hw1 hw2, ← hframe e he w hw1 hw2] at hr
          exact (hshape.hasRole_page e w q he hw1 hw2).mpr hr
        · obtain ⟨-, -, -, hq⟩ := hr
          refine ⟨he, hk1, hk2, ?_⟩
          rw [hdir e he, if_neg]
          · exact hq
          · rintro ⟨rfl, rfl⟩
            rw [hnone] at hq
            cases hq
      · exact ⟨hd, h1, h2, by rw [hdir d hd, if_pos ⟨rfl, rfl⟩, target_entry q hlt]⟩
  exact ⟨h.grow _ hshape t _ ht hfresh hroles, hroles⟩

end Table

/-! ## A directory -/

/-- The page that `create_page_dir` has filled becomes a directory. Its user half is empty. -/
theorem Spaces.add_dir (h : Spaces booted dirs ram) (f v : Nat) (hr : HasRole booted dirs ram f (.kernel_page v))
    (hself : ram f 1023 = entry f) (hkernel : ∀ i, 768 ≤ i → i < 1023 → ram f i = entry (kernelTable i))
    (huser : ∀ i < 768, target (ram f i) = none) :
    Spaces booted (f :: dirs) ram ∧
      ∀ q r, HasRole booted (f :: dirs) ram q r ↔ HasRole booted dirs ram q r := by
  have hroles : ∀ q r, HasRole booted (f :: dirs) ram q r ↔ HasRole booted dirs ram q r := by
    intro q r
    cases r with
    | kernel_page w => exact Iff.rfl
    | user_page e w =>
      simp only [HasRole, List.mem_cons]
      constructor
      · rintro ⟨rfl | he, hw1, hw2, hf⟩
        · obtain ⟨t, ht, -⟩ := (frameAt_some _ _ _ _).mp hf
          rw [huser _ (by omega)] at ht
          cases ht
        · exact ⟨he, hw1, hw2, hf⟩
      · rintro ⟨he, hw⟩
        exact ⟨.inr he, hw⟩
    | page_table e i =>
      simp only [HasRole, List.mem_cons]
      constructor
      · rintro ⟨rfl | he, hi1, hi2, hf⟩
        · rw [huser _ hi2] at hf
          cases hf
        · exact ⟨he, hi1, hi2, hf⟩
      · rintro ⟨he, hi⟩
        exact ⟨.inr he, hi⟩
  refine ⟨{ boot := List.mem_cons_of_mem _ h.boot, self := ?_, kernel := ?_, low := ?_, first := h.first,
            identity := h.identity, mapped := h.mapped, high := ?_, dir_role := ?_, unique := ?_ }, hroles⟩
  · rintro d (_ | ⟨_, hd⟩)
    · exact hself
    · exact h.self d hd
  · rintro d (_ | ⟨_, hd⟩)
    · exact hkernel
    · exact h.kernel d hd
  · rintro d (_ | ⟨_, hd⟩) i hi hne
    · exact absurd (huser i (by omega)) hne
    · exact h.low d hd i hi hne
  · exact fun p r hp => h.high p r ((hroles p r).mp hp)
  · rintro d (_ | ⟨_, hd⟩)
    · exact .inr ⟨v, (hroles _ _).mpr hr⟩
    · rcases h.dir_role d hd with hb | ⟨w, hw⟩
      · exact .inl hb
      · exact .inr ⟨w, (hroles _ _).mpr hw⟩
  · exact fun p r r' hp hp' => h.unique p r r' ((hroles _ _).mp hp) ((hroles _ _).mp hp')

end OsLearn
