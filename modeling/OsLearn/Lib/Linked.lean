import Mathlib.Data.List.Chain
import Mathlib.Data.List.Nodup
import Mathlib.Logic.Function.Basic

/-!
# Doubly linked lists between two sentinels

The nodes and the handles of the lists are of any type. A family of lists shares one memory: `seqs`
says which nodes are between the sentinels of each handle.
-/

namespace OsLearn.Linked

structure Links (N : Type) where
  prev : N → N
  next : N → N

variable {N L : Type}

/-- `b` comes after `a`, from either side. -/
def Links.Joins (c : Links N) (a b : N) : Prop := c.next a = b ∧ c.prev b = a

/-- A chain reads `next` of all nodes but the last, and `prev` of all but the first. -/
theorem joins_congr (c c' : Links N) (as : List N) (h : as.IsChain c.Joins)
    (hnext : ∀ a ∈ as.dropLast, c'.next a = c.next a) (hprev : ∀ a ∈ as.tail, c'.prev a = c.prev a) :
    as.IsChain c'.Joins := by
  induction h with
  | nil => exact .nil
  | singleton a => exact .singleton a
  | @cons_cons a b as hab _ ih =>
    refine .cons_cons ⟨(hnext a List.mem_cons_self).trans hab.1, (hprev b List.mem_cons_self).trans hab.2⟩ ?_
    exact ih (fun x hx => hnext x (List.mem_cons_of_mem _ hx)) fun x hx => hprev x (List.mem_of_mem_tail hx)

/-- The part between `p` and `n` is exchanged for one that is linked to both. -/
theorem joins_exchange (c c' : Links N) (pre mid mid' post : List N) (p n : N)
    (h : (pre ++ p :: (mid ++ n :: post)).IsChain c.Joins) (hnd : (pre ++ p :: (mid ++ n :: post)).Nodup)
    (hnew : (p :: (mid' ++ [n])).IsChain c'.Joins)
    (hfresh : ∀ a ∈ mid', a ∉ pre ++ p :: (mid ++ n :: post))
    (hnext : ∀ a, a ≠ p → a ∉ mid' → c'.next a = c.next a)
    (hprev : ∀ a, a ≠ n → a ∉ mid' → c'.prev a = c.prev a) :
    (pre ++ p :: (mid' ++ n :: post)).IsChain c'.Joins := by
  have hfresh' : ∀ a ∈ pre ++ p :: (mid ++ n :: post), a ∉ mid' := fun a ha hm => hfresh a hm ha
  obtain ⟨hfront, hback⟩ := List.isChain_split.mp h
  rw [← List.cons_append] at hback
  have hback := (List.isChain_split.mp hback).2
  have hdisj := List.nodup_append'.mp hnd
  have hfront' : (pre ++ [p]).IsChain c'.Joins := by
    refine joins_congr c c' _ hfront (fun a ha => ?_) fun a ha => ?_
    · rw [List.dropLast_concat] at ha
      refine hnext a ?_ (hfresh' a (List.mem_append_left _ ha))
      rintro rfl
      exact hdisj.2.2 ha List.mem_cons_self
    · have ha := List.mem_of_mem_tail ha
      refine hprev a ?_ (hfresh' a ?_)
      · rintro rfl
        rcases List.mem_append.mp ha with ha | ha
        · exact hdisj.2.2 ha (by simp)
        · rw [List.mem_singleton] at ha
          subst ha
          simp at hdisj
      · rcases List.mem_append.mp ha with ha | ha
        · exact List.mem_append_left _ ha
        · rw [List.mem_singleton] at ha
          simp [ha]
  have hback' : (n :: post).IsChain c'.Joins := by
    have hnd' : (n :: post).Nodup := (List.nodup_append'.mp (List.nodup_cons.mp hdisj.2.1).2).2.1
    refine joins_congr c c' _ hback (fun a ha => ?_) fun a ha => ?_
    · have ha := List.dropLast_subset _ ha
      refine hnext a ?_ (hfresh' a (by simp only [List.mem_append, List.mem_cons] at ha ⊢; tauto))
      rintro rfl
      exact (List.nodup_cons.mp hdisj.2.1).1 (List.mem_append_right _ ha)
    · refine hprev a ?_ (hfresh' a ?_)
      · rintro rfl
        exact (List.nodup_cons.mp hnd').1 ha
      · simp only [List.tail_cons] at ha
        simp [ha]
  refine List.isChain_split.mpr ⟨hfront', ?_⟩
  rw [← List.cons_append]
  exact List.isChain_split.mpr ⟨hnew, hback'⟩

/-! ## Families of lists -/

section Family

variable (head tail : L → N)

/-- All nodes of a list, with its sentinels. -/
def nodes (l : L) (xs : List N) : List N := head l :: (xs ++ [tail l])

def OnNoList (seqs : L → Option (List N)) (e : N) : Prop := ∀ l xs, seqs l = some xs → e ∉ nodes head tail l xs

/-- Every list is a chain without repetition, and no two have a node in common. -/
structure Family (c : Links N) (seqs : L → Option (List N)) : Prop where
  chain : ∀ l xs, seqs l = some xs → (nodes head tail l xs).IsChain c.Joins
  nodup : ∀ l xs, seqs l = some xs → (nodes head tail l xs).Nodup
  apart : ∀ l l' xs ys, l ≠ l' → seqs l = some xs → seqs l' = some ys →
    ∀ a ∈ nodes head tail l xs, a ∉ nodes head tail l' ys

variable {head tail} {c c' : Links N} {seqs : L → Option (List N)}

/-- Neighbours in a list are linked to each other. -/
theorem Family.joins (h : Family head tail c seqs) (l : L) (xs pre post : List N) (p n : N) (hl : seqs l = some xs)
    (hxs : nodes head tail l xs = pre ++ p :: n :: post) : c.Joins p n :=
  (List.isChain_append_cons_cons.mp (hxs ▸ h.chain l xs hl)).2.1

variable [DecidableEq L]

theorem onNoList_update (l : L) (xs : List N) (e : N) (h : OnNoList head tail seqs e) (he : e ∉ nodes head tail l xs) :
    OnNoList head tail (Function.update seqs l (some xs)) e := by
  intro l' ys hl'
  by_cases heq : l' = l
  · subst heq
    rw [Function.update_self] at hl'
    exact Option.some.inj hl' ▸ he
  · rw [Function.update_of_ne heq] at hl'
    exact h l' ys hl'

/-- One list changes, the links of the others stay. -/
theorem Family.update (h : Family head tail c seqs) (l : L) (xs' : List N)
    (hchain : (nodes head tail l xs').IsChain c'.Joins) (hnodup : (nodes head tail l xs').Nodup)
    (hapart : ∀ l' ys, l' ≠ l → seqs l' = some ys → ∀ a ∈ nodes head tail l' ys,
      a ∉ nodes head tail l xs' ∧ c'.next a = c.next a ∧ c'.prev a = c.prev a) :
    Family head tail c' (Function.update seqs l (some xs')) := by
  have hseq : ∀ l' ys, Function.update seqs l (some xs') l' = some ys → l' = l ∧ ys = xs' ∨
      l' ≠ l ∧ seqs l' = some ys := by
    intro l' ys hl'
    by_cases heq : l' = l
    · subst heq
      rw [Function.update_self] at hl'
      exact .inl ⟨rfl, (Option.some.inj hl').symm⟩
    · rw [Function.update_of_ne heq] at hl'
      exact .inr ⟨heq, hl'⟩
  refine ⟨fun l' ys hl' => ?_, fun l' ys hl' => ?_, fun l₁ l₂ ys zs hne h₁ h₂ a ha hb => ?_⟩
  · obtain ⟨rfl, rfl⟩ | ⟨hne, hl'⟩ := hseq l' ys hl'
    · exact hchain
    · refine joins_congr c c' _ (h.chain l' ys hl') (fun a ha => ?_) fun a ha => ?_
      · exact (hapart l' ys hne hl' a (List.dropLast_subset _ ha)).2.1
      · exact (hapart l' ys hne hl' a (List.mem_of_mem_tail ha)).2.2
  · obtain ⟨rfl, rfl⟩ | ⟨hne, hl'⟩ := hseq l' ys hl'
    · exact hnodup
    · exact h.nodup l' ys hl'
  · obtain ⟨rfl, rfl⟩ | ⟨hne₁, hl₁⟩ := hseq l₁ ys h₁
    · obtain ⟨rfl, -⟩ | ⟨hne₂, hl₂⟩ := hseq l₂ zs h₂
      · exact hne rfl
      · exact (hapart l₂ zs hne₂ hl₂ a hb).1 ha
    · obtain ⟨rfl, rfl⟩ | ⟨-, hl₂⟩ := hseq l₂ zs h₂
      · exact (hapart l₁ ys hne₁ hl₁ a ha).1 hb
      · exact h.apart l₁ l₂ ys zs hne hl₁ hl₂ a ha hb

/-- The part between two nodes of one list is exchanged for fresh nodes. -/
theorem Family.exchange (h : Family head tail c seqs) (l : L) (xs xs' pre mid mid' post : List N) (p n : N)
    (hl : seqs l = some xs) (hxs : nodes head tail l xs = pre ++ p :: (mid ++ n :: post))
    (hxs' : nodes head tail l xs' = pre ++ p :: (mid' ++ n :: post))
    (hnew : (p :: (mid' ++ [n])).IsChain c'.Joins) (hmid : mid'.Nodup)
    (hfresh : ∀ a ∈ mid', OnNoList head tail seqs a)
    (hnext : ∀ a, a ≠ p → a ∉ mid' → c'.next a = c.next a)
    (hprev : ∀ a, a ≠ n → a ∉ mid' → c'.prev a = c.prev a) :
    Family head tail c' (Function.update seqs l (some xs')) := by
  have hold : ∀ a ∈ mid', a ∉ pre ++ p :: (mid ++ n :: post) := fun a ha => hxs ▸ hfresh a ha l xs hl
  have hnd : (pre ++ p :: (mid ++ n :: post)).Nodup := hxs ▸ h.nodup l xs hl
  have hsub : ∀ a ∈ pre ++ p :: (mid' ++ n :: post), a ∈ mid' ∨ a ∈ pre ++ p :: (mid ++ n :: post) := by
    intro a ha
    simp only [List.mem_append, List.mem_cons] at ha ⊢
    tauto
  refine h.update l xs' ?_ ?_ fun l' ys hne hl' a ha => ?_
  · rw [hxs']
    exact joins_exchange c c' pre mid mid' post p n (hxs ▸ h.chain l xs hl) hnd hnew hold hnext hprev
  · rw [hxs']
    -- the order of the parts does not matter
    have hperm : ∀ m : List N, (pre ++ p :: (m ++ n :: post)).Perm (m ++ (pre ++ p :: n :: post)) := by
      intro m
      have h1 : (p :: (m ++ n :: post)).Perm (m ++ p :: n :: post) := List.perm_middle.symm
      refine (h1.append_left pre).trans ?_
      rw [← List.append_assoc, ← List.append_assoc]
      exact List.perm_append_comm.append_right _
    rw [(hperm mid').nodup_iff, List.nodup_append']
    rw [(hperm mid).nodup_iff, List.nodup_append'] at hnd
    refine ⟨hmid, hnd.2.1, fun a ha hb => hold a ha ?_⟩
    simp only [List.mem_append, List.mem_cons] at hb ⊢
    tauto
  · have hout := h.apart l' l ys xs hne hl' hl a ha
    rw [hxs] at hout
    have hmid' : a ∉ mid' := fun hm => hfresh a hm l' ys hl' ha
    refine ⟨fun hin => ?_, hnext a ?_ hmid', hprev a ?_ hmid'⟩
    · rw [hxs'] at hin
      exact (hsub a hin).elim hmid' hout
    · rintro rfl
      exact hout (by simp)
    · rintro rfl
      exact hout (by simp)

/-- An empty list comes in. -/
theorem Family.init (h : Family head tail c seqs) (l : L) (hne : head l ≠ tail l)
    (hhead : OnNoList head tail seqs (head l)) (htail : OnNoList head tail seqs (tail l))
    (hjoins : c'.Joins (head l) (tail l))
    (hother : ∀ a, a ≠ head l → a ≠ tail l → c'.next a = c.next a ∧ c'.prev a = c.prev a) :
    Family head tail c' (Function.update seqs l (some [])) := by
  refine h.update l [] (.cons_cons hjoins (.singleton _)) ?_ fun l' ys _ hl' a ha => ?_
  · exact List.nodup_cons.mpr ⟨fun hin => hne (List.mem_singleton.mp hin), List.nodup_singleton _⟩
  · have h1 : a ≠ head l := fun heq => hhead l' ys hl' (heq ▸ ha)
    have h2 : a ≠ tail l := fun heq => htail l' ys hl' (heq ▸ ha)
    refine ⟨fun hin => ?_, hother a h1 h2⟩
    rcases List.mem_cons.mp hin with hin | hin
    · exact h1 hin
    · exact h2 (List.mem_singleton.mp hin)

end Family

/-! ## The three edits -/

section Edits

variable [DecidableEq N]

def Links.insert (c : Links N) (p n e : N) : Links N where
  prev := Function.update (Function.update c.prev e p) n e
  next := Function.update (Function.update c.next p e) e n

def Links.remove (c : Links N) (p n : N) : Links N where
  prev := Function.update c.prev n p
  next := Function.update c.next p n

variable {head tail : L → N} [DecidableEq L] {c : Links N} {seqs : L → Option (List N)}

theorem Family.insert (h : Family head tail c seqs) (l : L) (xs xs' pre post : List N) (p n e : N)
    (hl : seqs l = some xs) (hxs : nodes head tail l xs = pre ++ p :: n :: post)
    (hxs' : nodes head tail l xs' = pre ++ p :: e :: n :: post) (he : OnNoList head tail seqs e) :
    Family head tail (c.insert p n e) (Function.update seqs l (some xs')) := by
  have hnot : e ∉ pre ++ p :: n :: post := hxs ▸ he l xs hl
  have hp : e ≠ p := fun heq => hnot (by simp [heq])
  have hn : e ≠ n := fun heq => hnot (by simp [heq])
  have hpn : (c.insert p n e).Joins p e ∧ (c.insert p n e).Joins e n := by
    refine ⟨⟨?_, ?_⟩, ?_, ?_⟩
    · exact (Function.update_of_ne hp.symm _ _).trans (Function.update_self _ _ _)
    · exact (Function.update_of_ne hn _ _).trans (Function.update_self _ _ _)
    · exact Function.update_self _ _ _
    · exact Function.update_self _ _ _
  refine h.exchange l xs xs' pre [] [e] post p n hl hxs hxs' ?_ (List.nodup_singleton e) (fun a ha => ?_)
    (fun a hap hae => ?_) fun a han hae => ?_
  · exact .cons_cons hpn.1 (.cons_cons hpn.2 (.singleton n))
  · rw [List.mem_singleton.mp ha]
    exact he
  · rw [List.mem_singleton] at hae
    exact (Function.update_of_ne hae _ _).trans (Function.update_of_ne hap _ _)
  · rw [List.mem_singleton] at hae
    exact (Function.update_of_ne han _ _).trans (Function.update_of_ne hae _ _)

theorem Family.remove (h : Family head tail c seqs) (l : L) (xs xs' pre post : List N) (p n e : N)
    (hl : seqs l = some xs) (hxs : nodes head tail l xs = pre ++ p :: e :: n :: post)
    (hxs' : nodes head tail l xs' = pre ++ p :: n :: post) :
    Family head tail (c.remove p n) (Function.update seqs l (some xs')) := by
  refine h.exchange l xs xs' pre [e] [] post p n hl hxs hxs' ?_ List.nodup_nil (fun a ha => ?_)
    (fun a hap _ => Function.update_of_ne hap _ _) fun a han _ => Function.update_of_ne han _ _
  · exact .cons_cons ⟨Function.update_self _ _ _, Function.update_self _ _ _⟩ (.singleton n)
  · exact absurd ha List.not_mem_nil

end Edits

end OsLearn.Linked
