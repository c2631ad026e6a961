import Mathlib.Tactic.Common

/-!
# Two runs of a machine with output, where one input has more in it

A machine takes an input, and gives the next state and some output. The phase of an input depends on
the inputs before it only.
-/

namespace OsLearn.Feed

variable {σ α ε P : Type}

def feed (step : σ → α → σ × List ε) : σ → List α → σ × List ε
  | s, [] => (s, [])
  | s, a :: as => ((feed step (step s a).1 as).1, (step s a).2 ++ (feed step (step s a).1 as).2)

theorem feed_append (step : σ → α → σ × List ε) (s : σ) (as bs : List α) :
    feed step s (as ++ bs) =
      ((feed step (feed step s as).1 bs).1, (feed step s as).2 ++ (feed step (feed step s as).1 bs).2) := by
  induction as generalizing s with
  | nil => rfl
  | cons a as ih =>
    simp only [List.cons_append, feed]
    rw [ih, List.append_assoc]

theorem feed_all (step : σ → α → σ × List ε) (ok : ε → Prop) (hstep : ∀ s a, ∀ e ∈ (step s a).2, ok e)
    (s : σ) (as : List α) : ∀ e ∈ (feed step s as).2, ok e := by
  induction as generalizing s with
  | nil => exact fun e he => absurd he List.not_mem_nil
  | cons a as ih =>
    intro e he
    rcases List.mem_append.mp he with he | he
    · exact hstep s a e he
    · exact ih _ e he

/-! ## Replaced parts -/

/-- The second input is the first one with parts replaced. A part leaves the phase as it is. -/
inductive Replaced (phase : P → α → P) (part : P → List α → List α → Prop) : P → List α → List α → Prop
  | nil (p : P) : Replaced phase part p [] []
  | same (p : P) (a : α) (as bs : List α) : Replaced phase part (phase p a) as bs →
      Replaced phase part p (a :: as) (a :: bs)
  | part (p : P) (us vs as bs : List α) : part p us vs → Replaced phase part p as bs →
      Replaced phase part p (us ++ as) (vs ++ bs)

/-- Both runs end in the same state, and the output that is seen is the same. -/
def Alike (seen : ε → Bool) (r r' : σ × List ε) : Prop := r'.1 = r.1 ∧ r'.2.filter seen = r.2.filter seen

theorem feed_replaced (step : σ → α → σ × List ε) (seen : ε → Bool) (phase : P → α → P)
    (part : P → List α → List α → Prop) (I : P → σ → Prop)
    (hsame : ∀ p s a, I p s → I (phase p a) (step s a).1)
    (hpart : ∀ p s us vs, I p s → part p us vs →
      Alike seen (feed step s us) (feed step s vs) ∧ I p (feed step s us).1)
    (p : P) (s : σ) (as bs : List α) (h : Replaced phase part p as bs) (hI : I p s) :
    Alike seen (feed step s as) (feed step s bs) := by
  induction h generalizing s with
  | nil => exact ⟨rfl, rfl⟩
  | same p a as bs _ ih =>
    obtain ⟨hstate, hout⟩ := ih _ (hsame p s a hI)
    refine ⟨hstate, ?_⟩
    simp only [feed, List.filter_append]
    rw [hout]
  | part p us vs as bs hp _ ih =>
    obtain ⟨⟨hstate, hout⟩, hI'⟩ := hpart p s us vs hI hp
    obtain ⟨hstate', hout'⟩ := ih _ hI'
    rw [feed_append, feed_append, hstate]
    refine ⟨hstate', ?_⟩
    simp only [List.filter_append]
    rw [hout, hout']

end OsLearn.Feed
