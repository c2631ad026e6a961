import OsLearn.Kernel.List
import OsLearn.Lib.Bits
import OsLearn.Lib.Linked
import OsLearn.Lib.Spec
import Mathlib.Algebra.Group.Nat.Defs
import Mathlib.Data.List.Perm.Subperm

/-!
# The lists of `list.c` are sequences of nodes
-/

open OsLearn.Linked

namespace OsLearn

/-! ## The sequences -/

def ListMem.links (c : ListMem) : Links Nat := ⟨c.prev, c.next⟩

/-- What is between the sentinels of each list, by the address of its `struct list`. -/
abbrev Sequences := Nat → Option (List Nat)

structure WellFormed (c : ListMem) (seqs : Sequences) : Prop where
  family : Family list_head list_tail c.links seqs
  -- A pointer has 32 bits.
  addr : ∀ l xs, seqs l = some xs → ∀ a ∈ nodes list_head list_tail l xs, a < 2 ^ 32

/-- An address of a node that is on no list. -/
structure Free (seqs : Sequences) (e : Nat) : Prop where
  addr : e < 2 ^ 32
  out : OnNoList list_head list_tail seqs e

inductive ListOp where
  | init (list : Nat)
  | push (plist elem : Nat)
  | append (plist elem : Nat)
  | insert_before (before elem : Nat)
  | remove (pelem : Nat)
  | pop (plist : Nat)

/-- What each operation does to the sequences, where it may be used, with the node that it returns. -/
inductive Meant (seqs : Sequences) : ListOp → Option Nat → Sequences → Prop
  | init (l : Nat) : Free seqs (list_head l) → Free seqs (list_tail l) →
      Meant seqs (.init l) none (Function.update seqs l (some []))
  | push (l : Nat) (xs : List Nat) (e : Nat) : seqs l = some xs → Free seqs e →
      Meant seqs (.push l e) none (Function.update seqs l (some (e :: xs)))
  | append (l : Nat) (xs : List Nat) (e : Nat) : seqs l = some xs → Free seqs e →
      Meant seqs (.append l e) none (Function.update seqs l (some (xs ++ [e])))
  | insert_before (l : Nat) (xs ys : List Nat) (b e : Nat) : seqs l = some (xs ++ b :: ys) → Free seqs e →
      Meant seqs (.insert_before b e) none (Function.update seqs l (some (xs ++ e :: b :: ys)))
  | remove (l : Nat) (xs ys : List Nat) (e : Nat) : seqs l = some (xs ++ e :: ys) →
      Meant seqs (.remove e) none (Function.update seqs l (some (xs ++ ys)))
  | pop (l : Nat) (xs : List Nat) (e : Nat) : seqs l = some (e :: xs) →
      Meant seqs (.pop l) (some e) (Function.update seqs l (some xs))

/-- The same for a row of operations. -/
inductive MeantAll : Sequences → List ListOp → List (Option Nat) → Sequences → Prop
  | nil (seqs : Sequences) : MeantAll seqs [] [] seqs
  | cons (seqs seqs₁ seqs' : Sequences) (op : ListOp) (ret : Option Nat) (ops : List ListOp)
      (rets : List (Option Nat)) : Meant seqs op ret seqs₁ → MeantAll seqs₁ ops rets seqs' →
      MeantAll seqs (op :: ops) (ret :: rets) seqs'

/-! ## The code -/

def perform (c : ListMem) : ListOp → ListMem × Option Nat
  | .init list => (list_init c list, none)
  | .push plist elem => (list_push c plist elem, none)
  | .append plist elem => (list_append c plist elem, none)
  | .insert_before before elem => (list_insert_before c before elem, none)
  | .remove pelem => (list_remove c pelem, none)
  | .pop plist => ((list_pop c plist).2, some (list_pop c plist).1)

def performAll : ListMem → List ListOp → ListMem × List (Option Nat)
  | c, [] => (c, [])
  | c, op :: ops => ((performAll (perform c op).1 ops).1, (perform c op).2 :: (performAll (perform c op).1 ops).2)

/-! ## The links after an operation -/

theorem list_insert_before_links (c : ListMem) (before elem : Nat) :
    (list_insert_before c before elem).links = c.links.insert (c.prev before) before elem := rfl

theorem list_remove_links (c : ListMem) (pelem : Nat) :
    (list_remove c pelem).links = c.links.remove (c.prev pelem) (c.next pelem) := by
  -- `next` of the removed node is read after the first store, which does not change it.
  have hnext : Function.update c.next (c.prev pelem) (c.next pelem) pelem = c.next pelem := by
    by_cases heq : pelem = c.prev pelem
    · rw [← heq, Function.update_self]
    · exact Function.update_of_ne heq _ _
  show Links.mk (Function.update c.prev (Function.update c.next (c.prev pelem) (c.next pelem) pelem) (c.prev pelem))
    (Function.update c.next (c.prev pelem) (c.next pelem)) = _
  rw [hnext]
  rfl

theorem list_init_links (c : ListMem) (l a : Nat) :
    (list_init c l).links.Joins (list_head l) (list_tail l) ∧
      (a ≠ list_head l → a ≠ list_tail l →
        (list_init c l).links.next a = c.links.next a ∧ (list_init c l).links.prev a = c.links.prev a) := by
  have hne : list_head l ≠ list_tail l := Nat.ne_of_lt (Nat.lt_add_of_pos_right (by decide))
  refine ⟨⟨?_, ?_⟩, fun hh ht => ⟨?_, ?_⟩⟩
  · exact (Function.update_of_ne hne _ _).trans (Function.update_self _ _ _)
  · exact Function.update_self _ _ _
  · exact (Function.update_of_ne ht _ _).trans (Function.update_of_ne hh _ _)
  · exact (Function.update_of_ne ht _ _).trans (Function.update_of_ne hh _ _)

/-! ## One operation -/

variable {c : ListMem} {seqs : Sequences}

theorem WellFormed.update (h : WellFormed c seqs) (c' : ListMem) (l : Nat) (xs : List Nat)
    (hfam : Family list_head list_tail c'.links (Function.update seqs l (some xs)))
    (haddr : ∀ a ∈ nodes list_head list_tail l xs, a < 2 ^ 32) :
    WellFormed c' (Function.update seqs l (some xs)) := by
  refine ⟨hfam, fun l' ys hl' => ?_⟩
  by_cases heq : l' = l
  · subst heq
    rw [Function.update_self] at hl'
    obtain rfl := Option.some.inj hl'
    exact haddr
  · rw [Function.update_of_ne heq] at hl'
    exact h.addr l' ys hl'

/-- `list_insert_before` at any place of a list, `before` being a node or the sentinel at the end. -/
theorem WellFormed.insert_before (h : WellFormed c seqs) (l : Nat) (xs xs' pre post : List Nat) (p n e : Nat)
    (hl : seqs l = some xs) (hxs : nodes list_head list_tail l xs = pre ++ p :: n :: post)
    (hxs' : nodes list_head list_tail l xs' = pre ++ p :: e :: n :: post) (he : Free seqs e) :
    WellFormed (list_insert_before c n e) (Function.update seqs l (some xs')) := by
  have hprev : c.prev n = p := (h.family.joins l xs pre post p n hl hxs).2
  refine h.update _ l xs' ?_ fun a ha => ?_
  · rw [list_insert_before_links, hprev]
    exact h.family.insert l xs xs' pre post p n e hl hxs hxs' he.out
  · have hold := h.addr l xs hl a
    rw [hxs] at hold
    rw [hxs'] at ha
    by_cases hae : a = e
    · rw [hae]
      exact he.addr
    · refine hold ?_
      simp only [List.mem_append, List.mem_cons] at ha ⊢
      tauto

theorem split_last (a : Nat) (xs : List Nat) : ∃ pre p, a :: xs = pre ++ [p] :=
  ⟨_, _, (List.dropLast_append_getLast (List.cons_ne_nil a xs)).symm⟩

theorem WellFormed.remove (h : WellFormed c seqs) (l : Nat) (xs ys : List Nat) (e : Nat)
    (hl : seqs l = some (xs ++ e :: ys)) :
    WellFormed (list_remove c e) (Function.update seqs l (some (xs ++ ys))) := by
  obtain ⟨pre, p, hpre⟩ := split_last (list_head l) xs
  obtain ⟨n, post, hpost⟩ : ∃ n post, ys ++ [list_tail l] = n :: post :=
    List.exists_cons_of_ne_nil (by simp)
  have hold : nodes list_head list_tail l (xs ++ e :: ys) = pre ++ p :: e :: n :: post := by
    unfold nodes
    rw [List.append_assoc, List.cons_append, hpost, ← List.cons_append, hpre, List.append_assoc]
    rfl
  have hnew : nodes list_head list_tail l (xs ++ ys) = pre ++ p :: n :: post := by
    unfold nodes
    rw [List.append_assoc, hpost, ← List.cons_append, hpre, List.append_assoc]
    rfl
  have hprev : c.prev e = p := (h.family.joins l _ pre (n :: post) p e hl hold).2
  have hnext : c.next e = n :=
    (h.family.joins l _ (pre ++ [p]) post e n hl (by rw [hold, List.append_assoc]; rfl)).1
  refine h.update _ l _ ?_ fun a ha => h.addr l _ hl a ?_
  · rw [list_remove_links, hprev, hnext]
    exact h.family.remove l _ _ pre post p n e hl hold hnew
  · rw [hnew] at ha
    rw [hold]
    simp only [List.mem_append, List.mem_cons] at ha ⊢
    tauto

/-- The first node, or the sentinel at the end. -/
theorem WellFormed.first (h : WellFormed c seqs) (l : Nat) (xs : List Nat) (hl : seqs l = some xs) :
    c.next (list_head l) = (xs ++ [list_tail l]).headD 0 := by
  cases xs with
  | nil => exact (h.family.joins l [] [] [] _ _ hl rfl).1
  | cons x xs => exact (h.family.joins l (x :: xs) [] (xs ++ [list_tail l]) _ _ hl rfl).1

theorem meant_step (h : WellFormed c seqs) (op : ListOp) (ret : Option Nat) (seqs' : Sequences)
    (hop : Meant seqs op ret seqs') : WellFormed (perform c op).1 seqs' ∧ (perform c op).2 = ret := by
  cases hop with
  | init l hhead htail =>
    have hne : list_head l ≠ list_tail l := Nat.ne_of_lt (Nat.lt_add_of_pos_right (by decide))
    refine ⟨h.update _ l [] ?_ fun a ha => ?_, rfl⟩
    · exact h.family.init l hne hhead.out htail.out (list_init_links c l 0).1 fun a => (list_init_links c l a).2
    · rcases List.mem_cons.mp ha with rfl | ha
      · exact hhead.addr
      · rw [List.mem_singleton.mp ha]
        exact htail.addr
  | push l xs e hl he =>
    refine ⟨?_, rfl⟩
    have hfirst := h.first l xs hl
    show WellFormed (list_insert_before c (c.next (list_head l)) e) _
    rw [hfirst]
    cases xs with
    | nil => exact h.insert_before l [] [e] [] [] _ _ e hl rfl rfl he
    | cons x xs => exact h.insert_before l _ _ [] (xs ++ [list_tail l]) _ _ e hl rfl rfl he
  | append l xs e hl he =>
    refine ⟨?_, rfl⟩
    obtain ⟨pre, p, hpre⟩ := split_last (list_head l) xs
    refine h.insert_before l xs _ pre [] p _ e hl ?_ ?_ he
    · unfold nodes
      rw [← List.cons_append, hpre, List.append_assoc]
      rfl
    · unfold nodes
      rw [← List.cons_append, ← List.cons_append, hpre, List.append_assoc, List.append_assoc]
      rfl
  | insert_before l xs ys b e hl he =>
    refine ⟨?_, rfl⟩
    obtain ⟨pre, p, hpre⟩ := split_last (list_head l) xs
    refine h.insert_before l _ _ pre (ys ++ [list_tail l]) p b e hl ?_ ?_ he
    · unfold nodes
      rw [List.append_assoc, ← List.cons_append, hpre, List.append_assoc]
      rfl
    · unfold nodes
      rw [List.append_assoc, ← List.cons_append, hpre, List.append_assoc]
      rfl
  | remove l xs ys e hl => exact ⟨h.remove l xs ys e hl, rfl⟩
  | pop l xs e hl =>
    have hfirst : c.next (list_head l) = e := h.first l _ hl
    have hret : (perform c (.pop l)) = (list_remove c e, some e) := by
      show (list_remove c (c.next (list_head l)), some (c.next (list_head l))) = _
      rw [hfirst]
    rw [hret]
    exact ⟨h.remove l [] xs e hl, rfl⟩

theorem meant_run (h : WellFormed c seqs) (ops : List ListOp) (rets : List (Option Nat)) (seqs' : Sequences)
    (hops : MeantAll seqs ops rets seqs') :
    WellFormed (performAll c ops).1 seqs' ∧ (performAll c ops).2 = rets := by
  induction hops generalizing c with
  | nil => exact ⟨h, rfl⟩
  | cons seqs seqs₁ seqs' op ret ops rets hop _ ih =>
    obtain ⟨hwf, hret⟩ := meant_step h op ret seqs₁ hop
    obtain ⟨hwf', hrets⟩ := ih hwf
    refine ⟨hwf', ?_⟩
    rw [performAll, hret, hrets]

/-! ## The loops -/

/-- What is left for a loop that stands behind `p`. -/
structure Left (c : ListMem) (t p : Nat) (ys : List Nat) : Prop where
  chain : (p :: (ys ++ [t])).IsChain c.links.Joins
  not_tail : t ∉ ys

theorem Left.nil {t p : Nat} (h : Left c t p []) : c.next p = t := (List.isChain_cons_cons.mp h.chain).1.1

theorem Left.cons {t p y : Nat} {ys : List Nat} (h : Left c t p (y :: ys)) :
    c.next p = y ∧ y ≠ t ∧ Left c t y ys := by
  obtain ⟨hjoin, hrest⟩ := List.isChain_cons_cons.mp h.chain
  have hne := List.ne_of_not_mem_cons h.not_tail
  exact ⟨hjoin.1, hne.symm, hrest, List.not_mem_of_not_mem_cons h.not_tail⟩

theorem WellFormed.left (h : WellFormed c seqs) (l : Nat) (xs : List Nat) (hl : seqs l = some xs) :
    Left c (list_tail l) (list_head l) xs := by
  have hnd := h.family.nodup l xs hl
  refine ⟨h.family.chain l xs hl, fun hin => ?_⟩
  exact (List.nodup_append'.mp (List.nodup_cons.mp hnd).2).2.2 hin List.mem_cons_self

/-- A loop that goes from node to node and stops at the sentinel. -/
theorem Left.rounds {t p : Nat} {ys : List Nat} {motive : Nat → Nat → List Nat → Prop}
    (stop : ∀ fuel p, c.next p = t → motive (fuel + 1) p [])
    (round : ∀ fuel p y ys, c.next p = y → y ≠ t → motive fuel y ys → motive (fuel + 1) p (y :: ys))
    (fuel : Nat) (h : Left c t p ys) (hfuel : ys.length < fuel) : motive fuel p ys := by
  refine rounds_over (motive := fun fuel ys => ∀ p, Left c t p ys → motive fuel p ys) (fun fuel p h => ?_)
    (fun fuel y ys ih p h => ?_) fuel ys hfuel p h
  · exact stop fuel p h.nil
  · obtain ⟨hnext, hne, hleft⟩ := h.cons
    exact round fuel p y ys hnext hne (ih y hleft)

theorem list_len_loop_spec (l p : Nat) (ys : List Nat) (fuel : Nat) (h : Left c (list_tail l) p ys)
    (hfuel : ys.length < fuel) (length : UInt32) :
    list_len_loop c l fuel (c.next p) length = some (length + UInt32.ofNat ys.length) := by
  revert length
  apply Left.rounds (motive := fun fuel p ys => ∀ length,
    list_len_loop c l fuel (c.next p) length = some (length + UInt32.ofNat ys.length)) ?_ ?_ fuel h hfuel
  · intro fuel p hnext length
    rw [list_len_loop, if_neg (not_not.mpr hnext)]
    exact congrArg some (UInt32.add_zero length).symm
  · intro fuel p y ys hnext hne ih length
    rw [list_len_loop, hnext, if_pos hne, ih, List.length_cons, add_ofNat_succ]

theorem list_traversal_loop_spec (l p : Nat) (func : Nat → Int32 → Bool) (arg : Int32) (ys : List Nat) (fuel : Nat)
    (h : Left c (list_tail l) p ys) (hfuel : ys.length < fuel) :
    list_traversal_loop c l func arg fuel (c.next p) = some ((ys.find? fun e => func e arg).getD NULL_elem) := by
  apply Left.rounds (motive := fun fuel p ys =>
    list_traversal_loop c l func arg fuel (c.next p) = some ((ys.find? fun e => func e arg).getD NULL_elem)) ?_ ?_
    fuel h hfuel
  · intro fuel p hnext
    rw [list_traversal_loop, if_neg (not_not.mpr hnext)]
    rfl
  · intro fuel p y ys hnext hne ih
    rw [list_traversal_loop, hnext, if_pos hne, ih, List.find?_cons]
    cases func y arg <;> rfl

theorem elem_find_loop_spec (l p obj : Nat) (ys : List Nat) (fuel : Nat) (h : Left c (list_tail l) p ys)
    (hfuel : ys.length < fuel) : elem_find_loop c l obj fuel (c.next p) = some (decide (obj ∈ ys)) := by
  apply Left.rounds (motive := fun fuel p ys => elem_find_loop c l obj fuel (c.next p) = some (decide (obj ∈ ys)))
    ?_ ?_ fuel h hfuel
  · intro fuel p hnext
    rw [elem_find_loop, if_neg (not_not.mpr hnext), decide_eq_false List.not_mem_nil]
  · intro fuel p y ys hnext hne ih
    rw [elem_find_loop, hnext, if_pos hne, ih]
    by_cases hobj : y = obj
    · rw [if_pos hobj, decide_eq_true (hobj ▸ List.mem_cons_self)]
    · rw [if_neg hobj]
      congr 2
      simp [Ne.symm hobj]

/-! ## The answers -/

/-- What the calls that only read say about the sequences. -/
structure Answers (c : ListMem) (l : Nat) (xs : List Nat) : Prop where
  empty : list_empty c l = xs.isEmpty
  len : ∀ fuel, xs.length < fuel → ∃ n, list_len fuel c l = some n ∧ n.toNat = xs.length
  find : ∀ fuel, xs.length < fuel → ∀ obj, elem_find fuel c l obj = some (decide (obj ∈ xs))
  traversal : ∀ fuel, xs.length < fuel → ∀ func arg,
    list_traversal fuel c l func arg = some ((xs.find? fun e => func e arg).getD NULL_elem)

/-- There are fewer than 2^32 nodes. -/
theorem WellFormed.length_lt (h : WellFormed c seqs) (l : Nat) (xs : List Nat) (hl : seqs l = some xs) :
    xs.length < 2 ^ 32 := by
  have hsub : nodes list_head list_tail l xs ⊆ List.range (2 ^ 32) := fun a ha => List.mem_range.mpr (h.addr l xs hl a ha)
  have hle := ((h.family.nodup l xs hl).subperm hsub).length_le
  rw [List.length_range] at hle
  unfold nodes at hle
  rw [List.length_cons, List.length_append] at hle
  omega

theorem WellFormed.answers (h : WellFormed c seqs) (l : Nat) (xs : List Nat) (hl : seqs l = some xs) : Answers c l xs := by
  have hleft := h.left l xs hl
  have hempty : list_empty c l = xs.isEmpty := by
    unfold list_empty
    cases xs with
    | nil => exact decide_eq_true hleft.nil
    | cons x xs =>
      obtain ⟨hnext, hne, -⟩ := hleft.cons
      exact decide_eq_false (hnext ▸ hne)
  refine ⟨hempty, fun fuel hfuel => ?_, fun fuel hfuel obj => ?_, fun fuel hfuel func arg => ?_⟩
  · refine ⟨UInt32.ofNat xs.length, ?_, UInt32.toNat_ofNat_of_lt' (h.length_lt l xs hl)⟩
    unfold list_len
    rw [list_len_loop_spec l _ xs fuel hleft hfuel, UInt32.zero_add]
  · exact elem_find_loop_spec l _ obj xs fuel hleft hfuel
  · unfold list_traversal
    dsimp only
    rw [hempty]
    cases xs with
    | nil => rfl
    | cons x xs => exact list_traversal_loop_spec l _ func arg (x :: xs) fuel hleft hfuel

/-- **The lists are sequences.** Every row of operations leaves the lists well formed, with the sequences that
it means, and returns the nodes that it means. On these lists the loops end with the answers of the sequences. -/
theorem lists_are_sequences (h : WellFormed c seqs) (ops : List ListOp) (rets : List (Option Nat)) (seqs' : Sequences)
    (hops : MeantAll seqs ops rets seqs') :
    WellFormed (performAll c ops).1 seqs' ∧ (performAll c ops).2 = rets ∧
      ∀ l xs, seqs' l = some xs → Answers (performAll c ops).1 l xs := by
  obtain ⟨hwf, hrets⟩ := meant_run h ops rets seqs' hops
  exact ⟨hwf, hrets, fun l xs hl => hwf.answers l xs hl⟩

/-- A memory without lists. -/
def noLists : ListMem := ⟨false, fun _ => 0, fun _ => 0⟩

theorem wellFormed_noLists : WellFormed noLists fun _ => none :=
  ⟨⟨nofun, nofun, nofun⟩, nofun⟩

/-- A list comes in, a node goes on it and off again. -/
theorem lists_are_sequences_one :
    (performAll noLists [.init 0x100, .push 0x100 0x200, .pop 0x100]).2 = [none, none, some 0x200] ∧
      list_empty (performAll noLists [.init 0x100, .push 0x100 0x200, .pop 0x100]).1 0x100 = true := by
  have hfree : ∀ e < 2 ^ 32, Free (fun _ => none) e := fun e he => ⟨he, nofun⟩
  have hnode : Free (Function.update (fun _ => none) 0x100 (some [])) 0x200 :=
    ⟨by decide, onNoList_update 0x100 [] 0x200 (hfree 0x200 (by decide)).out (by decide)⟩
  have hops : MeantAll (fun _ => none) [.init 0x100, .push 0x100 0x200, .pop 0x100] [none, none, some 0x200] _ :=
    .cons _ _ _ _ _ _ _ (.init 0x100 (hfree _ (by decide)) (hfree _ (by decide)))
      (.cons _ _ _ _ _ _ _ (.push 0x100 [] 0x200 (Function.update_self _ _ _) hnode)
        (.cons _ _ _ _ _ _ _ (.pop 0x100 [] 0x200 (Function.update_self _ _ _)) (.nil _)))
  obtain ⟨-, hrets, hanswers⟩ := lists_are_sequences wellFormed_noLists _ _ _ hops
  exact ⟨hrets, (hanswers 0x100 [] (Function.update_self _ _ _)).empty⟩

end OsLearn
