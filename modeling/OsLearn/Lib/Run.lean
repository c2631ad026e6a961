import Mathlib.Tactic.Common

/-!
# Runs of a system that steps, logs and may stop

A step takes an action, and gives the next state with the events it logs, or an error. An error
stops the run, so a reachable state is one that only good steps lead to.
-/

namespace OsLearn.Run

structure System (σ α ε χ : Type) where
  init : σ → Prop
  step : σ → α → Except χ (σ × List ε)

variable {σ α ε χ : Type}

/-- The states that a run reaches, with its log. `ok` is what the run promises of each step: a
condition on the log, the state before the step and the action. -/
inductive Reach (S : System σ α ε χ) (ok : List ε → σ → α → Prop) : List ε → σ → Prop
  | init (s : σ) : S.init s → Reach S ok [] s
  | step (log : List ε) (s : σ) (a : α) (s' : σ) (evs : List ε) :
      Reach S ok log s → ok log s a → S.step s a = .ok (s', evs) → Reach S ok (log ++ evs) s'

/-- A run that promises nothing. -/
def anyStep : List ε → σ → α → Prop := fun _ _ _ => True

theorem reach_invariant (S : System σ α ε χ) (ok : List ε → σ → α → Prop) (I : List ε → σ → Prop)
    (h0 : ∀ s, S.init s → I [] s)
    (hstep : ∀ log s a s' evs, I log s → ok log s a → S.step s a = .ok (s', evs) → I (log ++ evs) s')
    (log : List ε) (s : σ) (h : Reach S ok log s) : I log s := by
  induction h with
  | init s hs => exact h0 s hs
  | step log s a s' evs _ hok hs ih => exact hstep log s a s' evs ih hok hs

/-- An invariant that needs another one, already proved. -/
theorem reach_invariant_with (S : System σ α ε χ) (ok : List ε → σ → α → Prop)
    (J I : List ε → σ → Prop) (hJ : ∀ log s, Reach S ok log s → J log s)
    (h0 : ∀ s, S.init s → I [] s)
    (hstep : ∀ log s a s' evs, J log s → I log s → ok log s a → S.step s a = .ok (s', evs) →
      I (log ++ evs) s')
    (log : List ε) (s : σ) (h : Reach S ok log s) : I log s := by
  induction h with
  | init s hs => exact h0 s hs
  | step log s a s' evs hr hok hs ih => exact hstep log s a s' evs (hJ log s hr) ih hok hs

theorem reach_mono (S : System σ α ε χ) (ok ok' : List ε → σ → α → Prop)
    (himp : ∀ log s a, ok log s a → ok' log s a) (log : List ε) (s : σ) (h : Reach S ok log s) :
    Reach S ok' log s := by
  induction h with
  | init s hs => exact .init s hs
  | step log s a s' evs _ hok hs ih => exact .step log s a s' evs ih (himp _ _ _ hok) hs

theorem reach_any (S : System σ α ε χ) (ok : List ε → σ → α → Prop) (log : List ε) (s : σ)
    (h : Reach S ok log s) : Reach S anyStep log s :=
  reach_mono S ok anyStep (fun _ _ _ _ => trivial) log s h

theorem reach_init (S S' : System σ α ε χ) (ok : List ε → σ → α → Prop) (hinit : ∀ s, S'.init s → S.init s)
    (hstep : S'.step = S.step) (log : List ε) (s : σ) (h : Reach S' ok log s) : Reach S ok log s := by
  induction h with
  | init s hs => exact .init s (hinit s hs)
  | step log s a s' evs _ hok hs ih => exact .step log s a s' evs ih hok (hstep ▸ hs)

/-! ## Parts of a run -/

/-- A part of a run, from one state to another: its actions, each with the state before it. -/
inductive Part (S : System σ α ε χ) (s : σ) : List (σ × α) → σ → Prop
  | nil : Part S s [] s
  | step (steps : List (σ × α)) (s₁ : σ) (a : α) (s₂ : σ) (evs : List ε) :
      Part S s steps s₁ → S.step s₁ a = .ok (s₂, evs) → Part S s (steps ++ [(s₁, a)]) s₂

theorem reach_part (S : System σ α ε χ) (log : List ε) (s : σ) (steps : List (σ × α)) (s' : σ)
    (h : Reach S anyStep log s) (hp : Part S s steps s') : ∃ log', Reach S anyStep log' s' := by
  induction hp with
  | nil => exact ⟨log, h⟩
  | step steps s₁ a s₂ evs _ hs ih =>
    obtain ⟨log₁, h₁⟩ := ih
    exact ⟨_, .step log₁ s₁ a s₂ evs h₁ trivial hs⟩

theorem part_last (S : System σ α ε χ) (s s' : σ) (steps : List (σ × α)) (p : σ × α)
    (h : Part S s (steps ++ [p]) s') : Part S s steps p.1 ∧ ∃ evs, S.step p.1 p.2 = .ok (s', evs) := by
  generalize hl : steps ++ [p] = l at h
  cases h with
  | nil => simp at hl
  | step steps' s₁ a _ evs hp hs =>
    obtain ⟨rfl, hlast⟩ := List.append_inj' hl rfl
    obtain rfl := List.singleton_inj.mp hlast
    exact ⟨hp, evs, hs⟩

/-! ## Runs by their actions -/

instance : ∀ (log : List ε) (s : σ) (a : α), Decidable (anyStep log s a) :=
  fun _ _ _ => inferInstanceAs (Decidable True)

section Play

variable (S : System σ α ε χ) (ok : List ε → σ → α → Prop) [∀ log s a, Decidable (ok log s a)]

/-- The run of a list of actions, from a state with a log. -/
def play : List ε → σ → List α → Option (List ε × σ)
  | log, s, [] => some (log, s)
  | log, s, a :: as =>
    if ok log s a then
      match S.step s a with
      | .ok (s', evs) => play (log ++ evs) s' as
      | .error _ => none
    else none

theorem reach_play (log : List ε) (s : σ) (acts : List α) (log' : List ε) (s' : σ)
    (hr : Reach S ok log s) (h : play S ok log s acts = some (log', s')) : Reach S ok log' s' := by
  induction acts generalizing log s with
  | nil =>
    simp only [play, Option.some.injEq, Prod.mk.injEq] at h
    obtain ⟨rfl, rfl⟩ := h
    exact hr
  | cons a as ih =>
    simp only [play] at h
    split at h
    · rename_i hok
      split at h
      · rename_i s₁ evs hs
        exact ih _ _ (.step log s a s₁ evs hr hok hs) h
      · cases h
    · cases h

end Play

end OsLearn.Run
