import OsLearn.Thread.Moves
import OsLearn.Lib.Ring

/-!
# `device/ioqueue.c` is a bounded FIFO

The bytes that were put, in order, are those that were got and then those that are in the buffer.
-/

open OsLearn.Queues

namespace OsLearn

def puts (q : Nat) (log : List Event) : List UInt8 :=
  log.filterMap fun e => match e with
    | .put p byte => if p = q then some byte else none
    | _ => none

def gots (q : Nat) (log : List Event) : List UInt8 :=
  log.filterMap fun e => match e with
    | .got p byte => if p = q then some byte else none
    | _ => none

theorem puts_append (q : Nat) (log evs : List Event) : puts q (log ++ evs) = puts q log ++ puts q evs :=
  List.filterMap_append

theorem gots_append (q : Nat) (log evs : List Event) : gots q (log ++ evs) = gots q log ++ gots q evs :=
  List.filterMap_append

/-- The bytes in the buffer, the oldest first. -/
def IoQueue.pending (q : IoQueue) : List UInt8 := Ring.items bufsize q.buf q.head q.tail

structure IoQueue.Wf (q : IoQueue) : Prop where
  head_lt : q.head < bufsize
  tail_lt : q.tail < bufsize

/-! ## The two operations -/

theorem next_pos_lt (pos : Nat) : next_pos pos < bufsize := Nat.mod_lt _ (by decide)

theorem ioq_empty_iff (q : IoQueue) (h : q.Wf) : ioq_empty q = true ↔ q.pending = [] := by
  rw [← List.length_eq_zero_iff, IoQueue.pending, Ring.length_items,
    Ring.count_eq_zero bufsize _ _ h.head_lt h.tail_lt]
  simp [ioq_empty]

theorem ioq_full_iff (q : IoQueue) (h : q.Wf) : ioq_full q = true ↔ q.pending.length = bufsize - 1 := by
  rw [IoQueue.pending, Ring.length_items, Ring.count_eq_full bufsize _ _ h.head_lt h.tail_lt]
  exact decide_eq_true_iff

theorem pending_length (q : IoQueue) (h : q.Wf) : q.pending.length ≤ bufsize - 1 := by
  rw [IoQueue.pending, Ring.length_items]
  have := Ring.count_lt bufsize q.head q.tail h.head_lt
  omega

theorem stored_pending (q : IoQueue) (byte : UInt8) (h : q.Wf) (hf : ioq_full q = false) :
    (q.stored byte).pending = q.pending ++ [byte] := by
  apply Ring.items_put bufsize _ _ _ _ h.head_lt h.tail_lt
  exact of_decide_eq_false hf

theorem taken_pending (q : IoQueue) (h : q.Wf) (he : ioq_empty q = false) :
    q.pending = q.buf q.tail :: q.taken.pending := by
  apply Ring.items_get bufsize _ _ _ h.head_lt h.tail_lt
  simpa [ioq_empty] using he

/-! ## Whole runs -/

structure FifoInv (q : Nat) (log : List Event) (ioq : IoQueue) : Prop where
  wf : ioq.Wf
  fifo : puts q log = gots q log ++ ioq.pending

inductive QueueMove (q : Nat) (ioq ioq' : IoQueue) : List Event → Prop
  | stay (evs : List Event) : ioq'.buf = ioq.buf → ioq'.head = ioq.head →
      ioq'.tail = ioq.tail → puts q evs = [] → gots q evs = [] → QueueMove q ioq ioq' evs
  | put (byte : UInt8) : ioq_full ioq = false → ioq'.buf = (ioq.stored byte).buf →
      ioq'.head = (ioq.stored byte).head → ioq'.tail = ioq.tail → QueueMove q ioq ioq' [.put q byte]
  | got : ioq_empty ioq = false → ioq'.buf = ioq.buf → ioq'.head = ioq.head →
      ioq'.tail = ioq.taken.tail → QueueMove q ioq ioq' [.got q (ioq.buf ioq.tail)]

theorem queueMove_fifo (q : Nat) (log evs : List Event) (ioq ioq' : IoQueue) (h : FifoInv q log ioq)
    (hmv : QueueMove q ioq ioq' evs) : FifoInv q (log ++ evs) ioq' := by
  cases hmv with
  | stay _ hb hh ht hp hg =>
    refine ⟨⟨hh ▸ h.wf.head_lt, ht ▸ h.wf.tail_lt⟩, ?_⟩
    have hpend : ioq'.pending = ioq.pending := by rw [IoQueue.pending, hb, hh, ht]; rfl
    rw [puts_append, gots_append, hp, hg, hpend, List.append_nil, List.append_nil]
    exact h.fifo
  | put byte hf hb hh ht =>
    refine ⟨⟨hh ▸ next_pos_lt _, ht ▸ h.wf.tail_lt⟩, ?_⟩
    have hpend : ioq'.pending = ioq.pending ++ [byte] := by
      rw [← stored_pending ioq byte h.wf hf, IoQueue.pending, hb, hh, ht]
      rfl
    rw [puts_append, gots_append, h.fifo, hpend]
    simp [puts, gots]
  | got he hb hh ht =>
    refine ⟨⟨hh ▸ h.wf.head_lt, ht ▸ next_pos_lt _⟩, ?_⟩
    have hpend : ioq.pending = ioq.buf ioq.tail :: ioq'.pending := by
      rw [taken_pending ioq h.wf he]
      congr 1
      simp only [IoQueue.pending, hb, hh, ht]
      rfl
    rw [puts_append, gots_append, h.fifo, hpend]
    simp [puts, gots]

theorem queueMove_put (q p : Nat) (m m' : Machine) (byte : UInt8) (v : IoQueue) (hf : ioq_full (m.ioq p) = false)
    (hm : m'.ioq = Function.update m.ioq p v) (hb : v.buf = ((m.ioq p).stored byte).buf)
    (hh : v.head = ((m.ioq p).stored byte).head) (ht : v.tail = (m.ioq p).tail) :
    QueueMove q (m.ioq q) (m'.ioq q) [.put p byte] := by
  by_cases h : p = q
  · subst h
    rw [hm, Function.update_self]
    exact .put byte hf hb hh ht
  · rw [hm, Function.update_of_ne (Ne.symm h)]
    exact .stay _ rfl rfl rfl (by simp [puts, h]) (by simp [gots])

theorem queueMove_got (q p : Nat) (m m' : Machine) (v : IoQueue) (he : ioq_empty (m.ioq p) = false)
    (hm : m'.ioq = Function.update m.ioq p v) (hb : v.buf = (m.ioq p).buf) (hh : v.head = (m.ioq p).head)
    (ht : v.tail = (m.ioq p).taken.tail) :
    QueueMove q (m.ioq q) (m'.ioq q) [.got p ((m.ioq p).buf (m.ioq p).tail)] := by
  by_cases h : p = q
  · subst h
    rw [hm, Function.update_self]
    exact .got he hb hh ht
  · rw [hm, Function.update_of_ne (Ne.symm h)]
    exact .stay _ rfl rfl rfl (by simp [puts]) (by simp [gots, h])

theorem queueMove_slot (q p : Nat) (m m' : Machine) (v : IoQueue) (hm : m'.ioq = Function.update m.ioq p v)
    (hb : v.buf = (m.ioq p).buf) (hh : v.head = (m.ioq p).head) (ht : v.tail = (m.ioq p).tail) :
    QueueMove q (m.ioq q) (m'.ioq q) [] := by
  by_cases h : p = q
  · subst h
    rw [hm, Function.update_self]
    exact .stay _ hb hh ht rfl rfl
  · rw [hm, Function.update_of_ne (Ne.symm h)]
    exact .stay _ rfl rfl rfl rfl rfl

theorem moves_queue (q : Nat) (m m' : Machine) (a : Act) (evs : List Event) (hmv : Moves m a m' evs) :
    QueueMove q (m.ioq q) (m'.ioq q) evs := by
  cases hmv with
  | call c => cases c <;> exact .stay _ rfl rfl rfl rfl rfl
  | down_wait s o => cases o <;> exact .stay _ rfl rfl rfl rfl rfl
  | get_take p rest hst _ he _ | get_wake p rest t hst _ he _ => exact queueMove_got q p m _ _ he rfl rfl rfl rfl
  | put_store p byte rest hst _ hf _ | put_wake p byte rest t hst _ hf _ | key_store p byte _ hf _
  | key_wake p byte t _ hf _ => exact queueMove_put q p m _ byte _ hf rfl rfl rfl rfl
  | get_wait p | put_wait p => exact queueMove_slot q p m _ _ rfl rfl rfl rfl
  | _ => exact .stay _ rfl rfl rfl rfl rfl

theorem reach_fifo (q : Nat) (ok : List Event → Machine → Act → Prop) (log : List Event) (m : Machine)
    (h : Run.Reach kernel ok log m) : FifoInv q log (m.ioq q) := by
  refine reach_moves ok (fun log m => FifoInv q log (m.ioq q)) ?_ ?_ log m h
  · intro main intr task value buf
    have hpos : 0 < bufsize := by decide
    have hwf : (ioqueue_init (buf q)).Wf := ⟨hpos, hpos⟩
    exact ⟨hwf, ((ioq_empty_iff _ hwf).mp rfl).symm⟩
  · intro log m a m' evs _ hf _ hmv
    exact queueMove_fifo q log evs _ _ hf (moves_queue q m m' a evs hmv)

/-- **The queue is a FIFO.** In every state that the kernel reaches, the bytes got are a prefix of the
bytes put and the buffer holds the rest. The tests of `ioq_empty` and `ioq_full` are exact, and a put
leaves every cell that holds a byte as it is. -/
theorem ioqueue_fifo (q : Nat) (log : List Event) (m : Machine) (h : Run.Reach kernel Run.anyStep log m) :
    (m.ioq q).head < bufsize ∧ (m.ioq q).tail < bufsize ∧
    puts q log = gots q log ++ (m.ioq q).pending ∧
    (m.ioq q).pending.length ≤ bufsize - 1 ∧
    (ioq_empty (m.ioq q) = true ↔ (m.ioq q).pending = []) ∧
    (ioq_full (m.ioq q) = true ↔ (m.ioq q).pending.length = bufsize - 1) ∧
    ∀ a m' evs byte, step m a = .ok (m', evs) → Event.put q byte ∈ evs →
      (m'.ioq q).pending = (m.ioq q).pending ++ [byte] ∧
      ∀ k < (m.ioq q).pending.length, (m'.ioq q).buf (Ring.cell bufsize (m.ioq q).tail k) =
        (m.ioq q).buf (Ring.cell bufsize (m.ioq q).tail k) := by
  have hf := reach_fifo q _ log m h
  have hwf := hf.wf
  refine ⟨hwf.head_lt, hwf.tail_lt, hf.fifo, pending_length _ hwf, ioq_empty_iff _ hwf, ioq_full_iff _ hwf, ?_⟩
  intro a m' evs byte hs hmem
  have hmv := spec_of_ok _ _ _ (step_moves m a (reach_inv log m h)) (m', evs) hs
  cases moves_queue q m m' a evs hmv with
  | stay _ hb hh ht hp =>
    have : byte ∈ puts q evs := List.mem_filterMap.mpr ⟨_, hmem, by simp⟩
    simp [hp] at this
  | put byte' hfull hb hh ht =>
    obtain rfl : byte = byte' := by simpa using hmem
    constructor
    · rw [← stored_pending _ byte hwf hfull, IoQueue.pending, hb, hh, ht]
      rfl
    · intro k hk
      rw [hb]
      rw [IoQueue.pending, Ring.length_items] at hk
      exact Function.update_of_ne (Ring.cell_ne_head _ _ _ k hwf.head_lt hwf.tail_lt hk) _ _
  | got => simp at hmem

def putTwo : List Act :=
  [.call (.ioq_putchar 0 7), .run, .call (.ioq_putchar 0 8), .run, .call (.ioq_getchar 0), .run]

theorem ioqueue_fifo_two : ∃ log m, Run.play kernel Run.anyStep [] zeroed putTwo = some (log, m) ∧
    gots 0 log = [7] ∧ [7, 8] = gots 0 log ++ (m.ioq 0).pending := by
  refine ⟨_, _, rfl, rfl, ?_⟩
  exact (ioqueue_fifo 0 _ _ (reach_zeroed Run.anyStep putTwo _ _ rfl)).2.2.1

end OsLearn
