import Mathlib.Data.List.Basic
import Mathlib.Data.List.Nodup
import Mathlib.Logic.Function.Basic

/-!
# Task queues: one running task, a ready list, and wakers that hold the blocked ones

The tasks and the wakers are of any type. A waker is whatever holds blocked tasks until it wakes
them: the wait list of a semaphore, or a slot for one task.
-/

namespace OsLearn.TaskQueue

inductive Mode where
  | running
  | ready
  | blocked
  deriving DecidableEq, Repr

structure Queue (T W : Type) where
  cur : T
  mode : T → Mode
  ready : List T
  all : List T
  held : W → List T

/-- Each task is where its mode says: running and on no list, once on the ready list, or held by
exactly one waker. -/
structure Inv {T W : Type} (q : Queue T W) : Prop where
  all_nodup : q.all.Nodup
  cur_mem : q.cur ∈ q.all
  cur_running : q.mode q.cur = .running
  running_eq : ∀ t ∈ q.all, q.mode t = .running → t = q.cur
  ready_nodup : q.ready.Nodup
  ready_iff : ∀ t, t ∈ q.ready ↔ t ∈ q.all ∧ q.mode t = .ready
  held_nodup : ∀ w, (q.held w).Nodup
  held_blocked : ∀ w t, t ∈ q.held w → t ∈ q.all ∧ q.mode t = .blocked
  held_unique : ∀ w w' t, t ∈ q.held w → t ∈ q.held w' → w = w'
  blocked_held : ∀ t ∈ q.all, q.mode t = .blocked → ∃ w, t ∈ q.held w

variable {T W : Type}

theorem cur_not_ready (q : Queue T W) (h : Inv q) : q.cur ∉ q.ready := by
  intro hc
  have := ((h.ready_iff q.cur).mp hc).2
  rw [h.cur_running] at this
  cases this

theorem cur_not_held (q : Queue T W) (h : Inv q) (w : W) : q.cur ∉ q.held w := by
  intro hc
  have := (h.held_blocked w q.cur hc).2
  rw [h.cur_running] at this
  cases this

theorem held_not_ready (q : Queue T W) (h : Inv q) (w : W) (t : T) (ht : t ∈ q.held w) : t ∉ q.ready := by
  intro hr
  have h1 := (h.held_blocked w t ht).2
  have h2 := ((h.ready_iff t).mp hr).2
  rw [h1] at h2
  cases h2

/-! ## The operations -/

variable [DecidableEq T]

def spawn (q : Queue T W) (t : T) : Queue T W :=
  { q with
    mode := Function.update q.mode t .ready
    ready := q.ready ++ [t]
    all := q.all ++ [t] }

/-- The running task leaves the processor to the first ready task and goes to the end of the line. -/
def yield (q : Queue T W) (next : T) (rest : List T) : Queue T W :=
  { q with
    cur := next
    mode := Function.update (Function.update q.mode q.cur .ready) next .running
    ready := rest }

variable [DecidableEq W]

/-- The running task blocks on the waker `w`, and the first ready task runs. -/
def block (q : Queue T W) (w : W) (next : T) (rest : List T) : Queue T W :=
  { q with
    cur := next
    mode := Function.update (Function.update q.mode q.cur .blocked) next .running
    ready := rest
    held := Function.update q.held w (q.held w ++ [q.cur]) }

/-- The waker `w` lets its first task go. It will be the next to run. -/
def wake (q : Queue T W) (w : W) (t : T) (ts : List T) : Queue T W :=
  { q with
    mode := Function.update q.mode t .ready
    ready := t :: q.ready
    held := Function.update q.held w ts }

/-! ## They keep the invariant -/

section

omit [DecidableEq W]

theorem yield_inv (q : Queue T W) (next : T) (rest : List T) (h : Inv q)
    (hr : q.ready ++ [q.cur] = next :: rest) : Inv (yield q next rest) := by
  have hnd : (next :: rest).Nodup := by
    rw [← hr]
    exact List.nodup_append.mpr ⟨h.ready_nodup, by simp, by
      rintro a ha b hb rfl
      rw [List.mem_singleton.mp hb] at ha
      exact cur_not_ready q h ha⟩
  have hmem : ∀ t, t = next ∨ t ∈ rest ↔ t ∈ q.ready ∨ t = q.cur := by
    intro t
    rw [← List.mem_cons, ← hr, List.mem_append, List.mem_singleton]
  have hall : ∀ t, t ∈ q.ready ∨ t = q.cur → t ∈ q.all := by
    rintro t (ht | rfl)
    · exact ((h.ready_iff t).mp ht).1
    · exact h.cur_mem
  have hother : ∀ t, t ≠ next → t ≠ q.cur → (yield q next rest).mode t = q.mode t := by
    intro t h1 h2
    simp [yield, Function.update_of_ne h1, Function.update_of_ne h2]
  have hcur : q.cur ≠ next → (yield q next rest).mode q.cur = .ready := by
    intro hne
    simp [yield, Function.update_of_ne hne]
  have hnext : (yield q next rest).mode next = .running := by simp [yield]
  refine ⟨h.all_nodup, hall next ((hmem next).mp (Or.inl rfl)), hnext, ?_, (List.nodup_cons.mp hnd).2, ?_,
    h.held_nodup, ?_, h.held_unique, ?_⟩
  · intro t ht hrun
    by_contra hne
    by_cases hc : t = q.cur
    · subst hc
      rw [hcur hne] at hrun
      cases hrun
    · rw [hother t hne hc] at hrun
      exact hc (h.running_eq t ht hrun)
  · intro t
    constructor
    · intro ht
      have hne : t ≠ next := fun e => (List.nodup_cons.mp hnd).1 (e ▸ ht)
      rcases (hmem t).mp (Or.inr ht) with hr' | rfl
      · have hc : t ≠ q.cur := fun e => cur_not_ready q h (e ▸ hr')
        rw [hother t hne hc]
        exact (h.ready_iff t).mp hr'
      · exact ⟨h.cur_mem, hcur hne⟩
    · rintro ⟨ha, hm⟩
      have hne : t ≠ next := by
        rintro rfl
        rw [hnext] at hm
        cases hm
      refine ((hmem t).mpr ?_).resolve_left hne
      by_cases hc : t = q.cur
      · exact Or.inr hc
      · rw [hother t hne hc] at hm
        exact Or.inl ((h.ready_iff t).mpr ⟨ha, hm⟩)
  · intro w t ht
    obtain ⟨ha, hm⟩ := h.held_blocked w t ht
    have hc : t ≠ q.cur := fun e => cur_not_held q h w (e ▸ ht)
    have hne : t ≠ next := by
      rintro rfl
      rcases (hmem t).mp (Or.inl rfl) with hr' | rfl
      · exact held_not_ready q h w t ht hr'
      · exact hc rfl
    exact ⟨ha, by rw [hother t hne hc]; exact hm⟩
  · intro t ha hm
    have hne : t ≠ next := by
      rintro rfl
      rw [hnext] at hm
      cases hm
    by_cases hc : t = q.cur
    · subst hc
      rw [hcur hne] at hm
      cases hm
    · rw [hother t hne hc] at hm
      exact h.blocked_held t ha hm

theorem spawn_inv (q : Queue T W) (t : T) (h : Inv q) (ht : t ∉ q.all) : Inv (spawn q t) := by
  have hother : ∀ u, u ∈ q.all → (spawn q t).mode u = q.mode u := by
    intro u hu
    simp [spawn, Function.update_of_ne (fun e => ht (e ▸ hu) : u ≠ t)]
  have hself : (spawn q t).mode t = .ready := by simp [spawn]
  have hmem : ∀ u, u ∈ (spawn q t).all ↔ u ∈ q.all ∨ u = t := by simp [spawn]
  refine ⟨?_, (hmem _).mpr (Or.inl h.cur_mem), (hother _ h.cur_mem).trans h.cur_running, ?_, ?_, ?_,
    h.held_nodup, ?_, h.held_unique, ?_⟩
  · refine List.nodup_append.mpr ⟨h.all_nodup, by simp, ?_⟩
    rintro a ha b hb rfl
    exact ht (List.mem_singleton.mp hb ▸ ha)
  · intro u hu hrun
    rcases (hmem u).mp hu with hu | rfl
    · rw [hother u hu] at hrun
      exact h.running_eq u hu hrun
    · rw [hself] at hrun
      cases hrun
  · refine List.nodup_append.mpr ⟨h.ready_nodup, by simp, ?_⟩
    rintro a ha b hb rfl
    exact ht (List.mem_singleton.mp hb ▸ ((h.ready_iff a).mp ha).1)
  · intro u
    simp only [hmem]
    simp only [spawn, List.mem_append, List.mem_singleton]
    by_cases hu : u = t
    · subst hu
      simp
    · rw [Function.update_of_ne hu, h.ready_iff u]
      simp [hu]
  · intro w u hu
    obtain ⟨ha, hm⟩ := h.held_blocked w u hu
    exact ⟨(hmem u).mpr (Or.inl ha), (hother u ha).trans hm⟩
  · intro u hu hm
    rcases (hmem u).mp hu with hu | rfl
    · rw [hother u hu] at hm
      exact h.blocked_held u hu hm
    · rw [hself] at hm
      cases hm

end

theorem block_inv (q : Queue T W) (w : W) (next : T) (rest : List T) (h : Inv q)
    (hr : q.ready = next :: rest) : Inv (block q w next rest) := by
  have hnd : (next :: rest).Nodup := hr ▸ h.ready_nodup
  have hnr : next ∈ q.ready := by rw [hr]; exact List.mem_cons_self
  have hcn : q.cur ≠ next := fun e => cur_not_ready q h (e ▸ hnr)
  have hother : ∀ t, t ≠ next → t ≠ q.cur → (block q w next rest).mode t = q.mode t := by
    intro t h1 h2
    simp [block, Function.update_of_ne h1, Function.update_of_ne h2]
  have hcur : (block q w next rest).mode q.cur = .blocked := by simp [block, Function.update_of_ne hcn]
  have hnext : (block q w next rest).mode next = .running := by simp [block]
  have hheld : ∀ v t, t ∈ (block q w next rest).held v ↔ t ∈ q.held v ∨ (v = w ∧ t = q.cur) := by
    intro v t
    by_cases hv : v = w
    · subst hv; simp [block]
    · simp [block, hv]
  refine ⟨h.all_nodup, ((h.ready_iff next).mp hnr).1, hnext, ?_, (List.nodup_cons.mp hnd).2, ?_, ?_, ?_, ?_, ?_⟩
  · intro t ht hrun
    by_contra hne
    by_cases hc : t = q.cur
    · subst hc
      rw [hcur] at hrun
      cases hrun
    · rw [hother t hne hc] at hrun
      exact hc (h.running_eq t ht hrun)
  · intro t
    have hiff := h.ready_iff t
    rw [hr, List.mem_cons] at hiff
    constructor
    · intro ht
      have hne : t ≠ next := fun e => (List.nodup_cons.mp hnd).1 (e ▸ ht)
      obtain ⟨ha, hm⟩ := hiff.mp (Or.inr ht)
      have hc : t ≠ q.cur := fun e => by rw [e, h.cur_running] at hm; cases hm
      exact ⟨ha, by rw [hother t hne hc]; exact hm⟩
    · rintro ⟨ha, hm⟩
      have hne : t ≠ next := fun e => by rw [e, hnext] at hm; cases hm
      have hc : t ≠ q.cur := fun e => by rw [e, hcur] at hm; cases hm
      rw [hother t hne hc] at hm
      exact (hiff.mpr ⟨ha, hm⟩).resolve_left hne
  · intro v
    by_cases hv : v = w
    · subst hv
      simp only [block, Function.update_self]
      refine List.nodup_append.mpr ⟨h.held_nodup v, by simp, ?_⟩
      rintro a ha b hb rfl
      rw [List.mem_singleton.mp hb] at ha
      exact cur_not_held q h v ha
    · simpa [block, Function.update_of_ne hv] using h.held_nodup v
  · intro v t ht
    rcases (hheld v t).mp ht with ht | ⟨rfl, rfl⟩
    · obtain ⟨ha, hm⟩ := h.held_blocked v t ht
      have hc : t ≠ q.cur := fun e => cur_not_held q h v (e ▸ ht)
      have hne : t ≠ next := fun e => held_not_ready q h v t ht (e ▸ hnr)
      exact ⟨ha, by rw [hother t hne hc]; exact hm⟩
    · exact ⟨h.cur_mem, hcur⟩
  · intro v v' t ht ht'
    rcases (hheld v t).mp ht with ht | ⟨hv, hc⟩ <;> rcases (hheld v' t).mp ht' with ht' | ⟨hv', hc'⟩
    · exact h.held_unique v v' t ht ht'
    · exact absurd (hc' ▸ ht) (cur_not_held q h v)
    · exact absurd (hc ▸ ht') (cur_not_held q h v')
    · rw [hv, hv']
  · intro t ha hm
    have hne : t ≠ next := fun e => by rw [e, hnext] at hm; cases hm
    by_cases hc : t = q.cur
    · exact ⟨w, (hheld w t).mpr (Or.inr ⟨rfl, hc⟩)⟩
    · rw [hother t hne hc] at hm
      obtain ⟨v, hv⟩ := h.blocked_held t ha hm
      exact ⟨v, (hheld v t).mpr (Or.inl hv)⟩

theorem wake_inv (q : Queue T W) (w : W) (t : T) (ts : List T) (h : Inv q)
    (hw : q.held w = t :: ts) : Inv (wake q w t ts) := by
  have htw : t ∈ q.held w := by rw [hw]; exact List.mem_cons_self
  have hnd : (t :: ts).Nodup := hw ▸ h.held_nodup w
  obtain ⟨hta, htb⟩ := h.held_blocked w t htw
  have hother : ∀ u, u ≠ t → (wake q w t ts).mode u = q.mode u := by
    intro u hu
    simp [wake, Function.update_of_ne hu]
  have hself : (wake q w t ts).mode t = .ready := by simp [wake]
  have hcur : q.cur ≠ t := fun e => cur_not_held q h w (e ▸ htw)
  have hheld : ∀ v u, u ∈ (wake q w t ts).held v ↔ u ∈ q.held v ∧ u ≠ t := by
    intro v u
    by_cases hv : v = w
    · subst hv
      simp only [wake, Function.update_self, hw, List.mem_cons]
      constructor
      · intro hu
        exact ⟨Or.inr hu, fun e => (List.nodup_cons.mp hnd).1 (e ▸ hu)⟩
      · rintro ⟨hu, hne⟩
        exact hu.resolve_left hne
    · simp only [wake, Function.update_of_ne hv]
      constructor
      · intro hu
        exact ⟨hu, fun e => hv (h.held_unique v w t (e ▸ hu) htw)⟩
      · exact fun hu => hu.1
  refine ⟨h.all_nodup, h.cur_mem, (hother q.cur hcur).trans h.cur_running, ?_, ?_, ?_, ?_, ?_, ?_, ?_⟩
  · intro u hu hrun
    have hne : u ≠ t := fun e => by rw [e, hself] at hrun; cases hrun
    rw [hother u hne] at hrun
    exact h.running_eq u hu hrun
  · exact List.nodup_cons.mpr ⟨held_not_ready q h w t htw, h.ready_nodup⟩
  · intro u
    simp only [wake, List.mem_cons]
    by_cases hu : u = t
    · subst hu
      simpa using hta
    · rw [Function.update_of_ne hu, h.ready_iff u]
      simp [hu]
  · intro v
    by_cases hv : v = w
    · subst hv
      simpa [wake] using (List.nodup_cons.mp hnd).2
    · simpa [wake, Function.update_of_ne hv] using h.held_nodup v
  · intro v u hu
    obtain ⟨hu, hne⟩ := (hheld v u).mp hu
    rw [hother u hne]
    exact h.held_blocked v u hu
  · intro v v' u hu hu'
    exact h.held_unique v v' u ((hheld v u).mp hu).1 ((hheld v' u).mp hu').1
  · intro u ha hm
    have hne : u ≠ t := fun e => by rw [e, hself] at hm; cases hm
    rw [hother u hne] at hm
    obtain ⟨v, hv⟩ := h.blocked_held u ha hm
    exact ⟨v, (hheld v u).mpr ⟨hv, hne⟩⟩

end OsLearn.TaskQueue
