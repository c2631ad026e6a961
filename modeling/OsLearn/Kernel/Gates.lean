import OsLearn.Kernel.Idt

/-!
# `kernel/interrupt.c`: `idt_desc_init`

`kernel.S` has 0x30 entry points in `intr_entry_table`. The declaration in `interrupt.c` says 0x81, and
the loop reads that many.
-/

open OsLearn.Descriptor

namespace OsLearn.Idt

/-! ## The tables -/

def IDT_DESC_P : UInt8 := 1
def IDT_DESC_DPL0 : UInt8 := 0
def IDT_DESC_DPL3 : UInt8 := 3
def IDT_DESC_32_TYPE : UInt8 := 0xe

def IDT_DESC_ATTR_DPL0 : UInt8 := IDT_DESC_P <<< 7 ||| IDT_DESC_DPL0 <<< 5 ||| IDT_DESC_32_TYPE

def IDT_DESC_ATTR_DPL3 : UInt8 := IDT_DESC_P <<< 7 ||| IDT_DESC_DPL3 <<< 5 ||| IDT_DESC_32_TYPE

/-- The lines `VECTOR` of `kernel.S`. -/
def vectors : Nat := 0x30

/-- Where the linker puts the two tables and the entry points. -/
structure Layout where
  idt : Nat
  intr_entry_table : Nat
  -- `intr%1entry`, for the vectors below 0x30
  intr_entry : Nat → UInt32
  syscall_handler : UInt32
  apart : idt + idt_size ≤ intr_entry_table ∨ intr_entry_table + 4 * vectors ≤ idt

namespace Layout

variable (L : Layout)

/-- `&idt[i]` -/
def gateAt (i : Nat) : Nat := L.idt + gate_desc_size * i

/-- `&intr_entry_table[i]` -/
def entryAt (i : Nat) : Nat := L.intr_entry_table + 4 * i

/-- `intr_entry_table[lastindex]` -/
def slot : Nat := L.entryAt (IDT_DESC_CNT - 1)

def InIdt (x : Nat) : Prop := L.idt ≤ x ∧ x < L.idt + idt_size

/-- In the entries of `kernel.S`. -/
def InTable (x : Nat) : Prop := L.intr_entry_table ≤ x ∧ x < L.entryAt vectors

/-- The entry point that `kernel.S` has for a vector. -/
def stub (v : Nat) : Option UInt32 :=
  if v < vectors then some (L.intr_entry v) else if v = 0x80 then some L.syscall_handler else none

/-- The entries are in the table. -/
def Loaded (mem : Mem) : Prop := ∀ v < vectors, read32 mem (L.entryAt v) = L.intr_entry v

/-- The memory with another content behind the entries of `kernel.S`. -/
def followed (mem tail : Mem) : Mem := fun x => if x < L.entryAt vectors then mem x else tail x

end Layout

/-! ## The code -/

/-- The loop after `i` rounds. -/
def idt_desc_init_loop (L : Layout) : Nat → Mem → Mem
  | 0, mem => mem
  | i + 1, mem =>
    let mem := idt_desc_init_loop L i mem
    make_idt_desc mem (L.gateAt i) IDT_DESC_ATTR_DPL0 (read32 mem (L.entryAt i))

/-- What is printed is not in this memory. -/
def idt_desc_init (L : Layout) (mem : Mem) : Mem :=
  let lastindex := IDT_DESC_CNT - 1
  let mem := idt_desc_init_loop L IDT_DESC_CNT mem
  let mem := write32 mem (L.entryAt lastindex) L.syscall_handler
  make_idt_desc mem (L.gateAt lastindex) IDT_DESC_ATTR_DPL3 (read32 mem (L.entryAt lastindex))

/-! ## The addresses -/

section

variable (L : Layout) (i : Nat)

theorem gateAt_eq : L.gateAt i = L.idt + 8 * i := rfl

theorem gateAt_succ : L.gateAt (i + 1) = L.gateAt i + 8 := rfl

theorem gateAt_end : L.gateAt IDT_DESC_CNT = L.idt + idt_size := congrArg (L.idt + ·) (Nat.mul_comm _ _)

theorem entryAt_eq : L.entryAt i = L.intr_entry_table + 4 * i := rfl

theorem slot_eq : L.slot = L.intr_entry_table + 0x200 := rfl

theorem idt_size_eq : idt_size = 0x408 := rfl

theorem vectors_eq : vectors = 0x30 := rfl

end

/-! ## What a gate is made of -/

theorem make_idt_desc_other (mem : Mem) (p : Nat) (attr : UInt8) (function : UInt32) (x : Nat)
    (hx : x < p ∨ p + 8 ≤ x) : make_idt_desc mem p attr function x = mem x := by
  unfold make_idt_desc
  rw [Function.update_of_ne (by omega), Function.update_of_ne (by omega), write16_other _ _ _ _ (by omega),
    write16_other _ _ _ _ (by omega), write16_other _ _ _ _ (by omega)]

/-- All eight bytes are written. -/
theorem make_idt_desc_inside (mem mem' : Mem) (p : Nat) (attr : UInt8) (function : UInt32) (x : Nat)
    (h1 : p ≤ x) (h2 : x < p + 8) : make_idt_desc mem' p attr function x = make_idt_desc mem p attr function x := by
  unfold make_idt_desc write16 Function.update
  obtain ⟨k, rfl⟩ := Nat.exists_eq_add_of_le h1
  have hk : k = 0 ∨ k = 1 ∨ k = 2 ∨ k = 3 ∨ k = 4 ∨ k = 5 ∨ k = 6 ∨ k = 7 := by omega
  rcases hk with rfl | rfl | rfl | rfl | rfl | rfl | rfl | rfl <;> simp

theorem read32_low (mem : Mem) (a : Nat) : (read32 mem a).toNat % 2 ^ 8 = (mem a).toNat := by
  have h0 := (mem a).toNat_lt
  have h1 := (mem (a + 1)).toNat_lt
  have h2 := (mem (a + 2)).toNat_lt
  have h3 := (mem (a + 3)).toNat_lt
  unfold read32
  rw [UInt32.toNat_ofNat_of_lt' (by show _ < 2 ^ 32; omega)]
  omega

/-- The first byte of a gate is the lowest one of the address. -/
theorem make_idt_desc_first (mem : Mem) (p : Nat) (attr : UInt8) (function : UInt32) :
    (make_idt_desc mem p attr function p).toNat = function.toNat % 2 ^ 8 := by
  unfold make_idt_desc
  rw [Function.update_of_ne (by omega), Function.update_of_ne (by omega), write16_other _ _ _ _ (by omega),
    write16_other _ _ _ _ (by omega)]
  unfold write16
  rw [if_pos rfl, UInt8.toNat_ofNat', u32_low16]
  omega

theorem write32_inside (mem mem' : Mem) (a : Nat) (v : UInt32) (x : Nat) (h1 : a ≤ x) (h2 : x < a + 4) :
    write32 mem' a v x = write32 mem a v x := by
  unfold write32
  obtain ⟨k, rfl⟩ := Nat.exists_eq_add_of_le h1
  have hk : k = 0 ∨ k = 1 ∨ k = 2 ∨ k = 3 := by omega
  rcases hk with rfl | rfl | rfl | rfl <;> simp

/-! ## The loop -/

variable (L : Layout)

theorem loop_other (i : Nat) (mem : Mem) (x : Nat) (hx : x < L.idt ∨ L.gateAt i ≤ x) :
    idt_desc_init_loop L i mem x = mem x := by
  induction i with
  | zero => rfl
  | succ i ih =>
    rw [gateAt_succ] at hx
    have hstart := gateAt_eq L i
    rw [idt_desc_init_loop, make_idt_desc_other _ _ _ _ _ (by omega), ih (by omega)]

/-- A gate is what its own round has made of it. -/
theorem loop_gate (i j : Nat) (mem : Mem) (hij : i < j) (x : Nat) (h1 : L.gateAt i ≤ x) (h2 : x < L.gateAt (i + 1)) :
    idt_desc_init_loop L j mem x =
      make_idt_desc mem (L.gateAt i) IDT_DESC_ATTR_DPL0 (read32 (idt_desc_init_loop L i mem) (L.entryAt i)) x := by
  induction j with
  | zero => exact absurd hij (Nat.not_lt_zero _)
  | succ j ih =>
    have hi := gateAt_eq L i
    have hj := gateAt_eq L j
    rw [gateAt_succ] at h2
    rw [idt_desc_init_loop]
    by_cases heq : i = j
    · subst heq
      exact make_idt_desc_inside _ _ _ _ _ _ h1 h2
    · rw [make_idt_desc_other _ _ _ _ _ (by omega), ih (by omega)]

/-- The entries of `kernel.S` stay. -/
theorem loop_entry (i v : Nat) (mem : Mem) (hi : i ≤ IDT_DESC_CNT) (hv : v < vectors) :
    read32 (idt_desc_init_loop L i mem) (L.entryAt v) = read32 mem (L.entryAt v) := by
  have hapart := L.apart
  rw [idt_size_eq, vectors_eq] at hapart
  rw [vectors_eq] at hv
  refine read32_congr _ _ _ fun x h1 h2 => loop_other L i mem x ?_
  rw [entryAt_eq] at h1 h2
  rw [gateAt_eq]
  unfold IDT_DESC_CNT at hi
  omega

/-! ## The whole function -/

def InSlot (x : Nat) : Prop := L.slot ≤ x ∧ x < L.slot + 4

/-- The last gate is written once more. Elsewhere there is what the loop and the store have left. -/
theorem init_not_last (mem : Mem) (x : Nat)
    (hx : x < L.gateAt (IDT_DESC_CNT - 1) ∨ L.gateAt (IDT_DESC_CNT - 1) + 8 ≤ x) :
    idt_desc_init L mem x = write32 (idt_desc_init_loop L IDT_DESC_CNT mem) L.slot L.syscall_handler x :=
  make_idt_desc_other _ _ _ _ _ hx

theorem not_last_of_out (x : Nat) (hidt : ¬ L.InIdt x) :
    x < L.gateAt (IDT_DESC_CNT - 1) ∨ L.gateAt (IDT_DESC_CNT - 1) + 8 ≤ x := by
  have hlast : L.gateAt (IDT_DESC_CNT - 1) = L.idt + 0x400 := rfl
  unfold Layout.InIdt at hidt
  rw [idt_size_eq] at hidt
  omega

theorem init_other (mem : Mem) (x : Nat) (hidt : ¬ L.InIdt x) (hslot : ¬ InSlot L x) :
    idt_desc_init L mem x = mem x := by
  have hend := gateAt_end L
  unfold InSlot at hslot
  unfold Layout.InIdt at hidt
  rw [init_not_last L mem x (not_last_of_out L x hidt), write32_other _ _ _ _ (by omega),
    loop_other L _ _ _ (by omega)]

/-- What is behind the table is overwritten. -/
theorem init_slot (mem mem' : Mem) (x : Nat) (hidt : ¬ L.InIdt x) (hslot : InSlot L x) :
    idt_desc_init L mem' x = write32 mem L.slot L.syscall_handler x := by
  rw [init_not_last L mem' x (not_last_of_out L x hidt)]
  exact write32_inside _ _ _ _ _ hslot.1 hslot.2

theorem init_gate (mem : Mem) (i : Nat) (hi : i < 0x80) (x : Nat) (h1 : L.gateAt i ≤ x) (h2 : x < L.gateAt (i + 1))
    (hslot : ¬ InSlot L x) :
    idt_desc_init L mem x =
      make_idt_desc mem (L.gateAt i) IDT_DESC_ATTR_DPL0 (read32 (idt_desc_init_loop L i mem) (L.entryAt i)) x := by
  have hlast : L.gateAt (i + 1) ≤ L.gateAt (IDT_DESC_CNT - 1) :=
    Nat.add_le_add_left (Nat.mul_le_mul_left _ hi) _
  unfold InSlot at hslot
  rw [init_not_last L mem x (by omega), write32_other _ _ _ _ (by omega)]
  exact loop_gate L i IDT_DESC_CNT mem (by unfold IDT_DESC_CNT; omega) x h1 h2

theorem init_last (mem : Mem) (x : Nat) (h1 : L.gateAt 0x80 ≤ x) (h2 : x < L.gateAt 0x80 + 8) :
    idt_desc_init L mem x = make_idt_desc mem (L.gateAt 0x80) IDT_DESC_ATTR_DPL3 L.syscall_handler x := by
  unfold idt_desc_init
  rw [read32_write32]
  exact make_idt_desc_inside _ _ _ _ _ _ h1 h2

/-! ## Memory that the claims leave open -/

theorem followed_front (mem tail : Mem) (x : Nat) (hx : x < L.entryAt vectors) : L.followed mem tail x = mem x :=
  if_pos hx

theorem followed_behind (mem tail : Mem) (x : Nat) (hx : L.entryAt vectors ≤ x) : L.followed mem tail x = tail x :=
  if_neg (Nat.not_lt.mpr hx)

theorem Layout.Loaded.followed (mem tail : Mem) (h : L.Loaded mem) : L.Loaded (L.followed mem tail) := by
  intro v hv
  rw [← h v hv]
  refine read32_congr _ _ _ fun x _ h2 => followed_front L mem tail x ?_
  unfold Layout.entryAt vectors at *
  omega

/-- Only the two tables are written, whatever follows the entries. -/
def OwnTables (mem : Mem) : Prop :=
  ∀ tail x, ¬ L.InIdt x → ¬ L.InTable x → idt_desc_init L (L.followed mem tail) x = L.followed mem tail x

/-- The gates are the same, whatever follows the entries. -/
def SameGates (mem : Mem) : Prop :=
  ∀ tail tail' k, k < idt_size →
    idt_desc_init L (L.followed mem tail) (L.idt + k) = idt_desc_init L (L.followed mem tail') (L.idt + k)

/-- Gate `v` of the result. -/
def gateOf (mem : Mem) (v : Nat) : Gate := gate (readLE (idt_desc_init L mem) (L.gateAt v) gate_desc_size)

/-- Every gate points to the entry point of its vector. -/
def ToStubs (mem : Mem) : Prop :=
  ∀ tail, ∀ v < IDT_DESC_CNT, (L.stub v).map UInt32.toNat = some (gateOf L (L.followed mem tail) v).offset

theorem own_tables_iff (mem : Mem) : OwnTables L mem ↔ L.idt ≤ L.slot ∧ L.slot + 4 ≤ L.idt + idt_size := by
  have hbehind : L.entryAt vectors ≤ L.slot := Nat.add_le_add_left (by decide) _
  constructor
  · intro h
    by_contra hout
    -- a byte of the slot that is not in `idt`
    obtain ⟨x, hslot, hidt⟩ : ∃ x, InSlot L x ∧ ¬ L.InIdt x := by
      unfold InSlot Layout.InIdt
      by_cases hlow : L.slot < L.idt
      · exact ⟨L.slot, ⟨Nat.le_refl _, by omega⟩, by omega⟩
      · exact ⟨L.slot + 3, ⟨by omega, by omega⟩, by omega⟩
    have htab : ¬ L.InTable x := fun htab => absurd htab.2 (by unfold InSlot at hslot; omega)
    have heq := h (fun _ => write32 mem L.slot L.syscall_handler x + 1) x hidt htab
    rw [init_slot L mem _ x hidt hslot, followed_behind L _ _ x (Nat.le_trans hbehind hslot.1)] at heq
    have hval := congrArg UInt8.toNat heq
    rw [UInt8.toNat_add] at hval
    have hlt := (write32 mem L.slot L.syscall_handler x).toNat_lt
    change _ = (_ + 1) % 2 ^ 8 at hval
    omega
  · rintro ⟨h1, h2⟩ tail x hidt _
    refine init_other L _ x hidt fun hslot => hidt ?_
    unfold InSlot at hslot
    exact ⟨by omega, by omega⟩

theorem loop_same (mem mem' : Mem) (hidt : L.idt = L.entryAt vectors) (h : ∀ x < L.idt, mem' x = mem x) (i : Nat) :
    ∀ x < L.gateAt i, idt_desc_init_loop L i mem' x = idt_desc_init_loop L i mem x := by
  induction i with
  | zero => exact h
  | succ i ih =>
    intro x hx
    rw [gateAt_succ] at hx
    -- the entry of this round is in the table, or in a gate that is written
    have hread : read32 (idt_desc_init_loop L i mem') (L.entryAt i) =
        read32 (idt_desc_init_loop L i mem) (L.entryAt i) := by
      refine read32_congr _ _ _ fun y _ h2 => ih y ?_
      rw [entryAt_eq, vectors_eq] at hidt
      rw [entryAt_eq] at h2
      rw [gateAt_eq]
      omega
    rw [idt_desc_init_loop, idt_desc_init_loop, hread]
    by_cases hin : L.gateAt i ≤ x
    · exact make_idt_desc_inside _ _ _ _ _ _ hin (by omega)
    · rw [make_idt_desc_other _ _ _ _ _ (by omega), make_idt_desc_other _ _ _ _ _ (by omega)]
      exact ih x (by omega)

theorem same_gates_iff (mem : Mem) : SameGates L mem ↔ L.idt = L.entryAt vectors := by
  constructor
  · intro h
    by_contra hne
    have hapart := L.apart
    have hx : L.entryAt vectors = L.intr_entry_table + 0xc0 := rfl
    have hg : L.gateAt 0x30 = L.idt + 0x180 := rfl
    have hg' : L.gateAt (0x30 + 1) = L.idt + 0x188 := rfl
    have hsl := slot_eq L
    rw [idt_size_eq, vectors_eq] at hapart
    -- the first byte of gate 0x30 is the first one behind the entries
    have hbyte : ∀ tail : Mem, idt_desc_init L (L.followed mem tail) (L.idt + 0x180) = tail (L.entryAt vectors) := by
      intro tail
      have hslot : ¬ InSlot L (L.idt + 0x180) := by
        unfold InSlot
        omega
      rw [init_gate L _ 0x30 (by decide) (L.idt + 0x180) (by omega) (by omega) hslot, hg, ← UInt8.toNat_inj,
        make_idt_desc_first, read32_low]
      rw [show L.entryAt 0x30 = L.entryAt vectors from rfl, loop_other L _ _ _ (by omega),
        followed_behind L _ _ _ (Nat.le_refl _)]
    have heq := h (fun _ => 0) (fun _ => 1) 0x180 (by decide)
    rw [hbyte, hbyte] at heq
    exact absurd heq (by decide)
  · intro hidt tail tail' k hk
    have hfront : ∀ x < L.idt, L.followed mem tail x = L.followed mem tail' x := by
      intro x hx
      rw [followed_front L _ _ x (by omega), followed_front L _ _ x (by omega)]
    have hloop := loop_same L _ _ hidt hfront IDT_DESC_CNT
    have hend := gateAt_end L
    by_cases hlast : L.gateAt 0x80 ≤ L.idt + k
    · have hlt : L.idt + k < L.gateAt 0x80 + 8 := by
        show L.idt + k < L.idt + 0x400 + 8
        change k < 0x408 at hk
        omega
      rw [init_last L _ _ hlast hlt, init_last L _ _ hlast hlt]
      exact make_idt_desc_inside _ _ _ _ _ _ hlast hlt
    · rw [init_not_last L _ _ (.inl (Nat.not_le.mp hlast)), init_not_last L _ _ (.inl (Nat.not_le.mp hlast))]
      by_cases hslot : InSlot L (L.idt + k)
      · exact write32_inside _ _ _ _ _ hslot.1 hslot.2
      · unfold InSlot at hslot
        rw [write32_other _ _ _ _ (by omega), write32_other _ _ _ _ (by omega)]
        exact hloop _ (by omega)

/-- A gate that the slot does not lie on is made of the entry that its round reads. -/
theorem gate_read (mem : Mem) (i : Nat) (hi : i < 0x80) (hslot : L.slot + 4 ≤ L.gateAt i ∨ L.gateAt (i + 1) ≤ L.slot) :
    (gateOf L mem i).offset = (read32 (idt_desc_init_loop L i mem) (L.entryAt i)).toNat := by
  have hbytes := readLE_congr (make_idt_desc mem (L.gateAt i) IDT_DESC_ATTR_DPL0
    (read32 (idt_desc_init_loop L i mem) (L.entryAt i))) (idt_desc_init L mem) (L.gateAt i) gate_desc_size
    fun x h1 h2 => init_gate L mem i hi x h1 h2 (by
      unfold InSlot
      change x < L.gateAt (i + 1) at h2
      omega)
  unfold gateOf
  rw [hbytes, make_idt_desc_gate]

theorem gate_last (mem : Mem) : (gateOf L mem 0x80).offset = L.syscall_handler.toNat := by
  have hbytes := readLE_congr (make_idt_desc mem (L.gateAt 0x80) IDT_DESC_ATTR_DPL3 L.syscall_handler)
    (idt_desc_init L mem) (L.gateAt 0x80) gate_desc_size fun x h1 h2 => init_last L mem x h1 h2
  unfold gateOf
  rw [hbytes, make_idt_desc_gate]

/-- A vector of `kernel.S` gets its entry point, unless the slot lies on its gate. -/
theorem gate_stub (mem : Mem) (h : L.Loaded mem) (v : Nat) (e : UInt32) (hv : L.stub v = some e)
    (hslot : v = 0x80 ∨ L.slot + 4 ≤ L.gateAt v ∨ L.gateAt (v + 1) ≤ L.slot) :
    (gateOf L mem v).offset = e.toNat := by
  unfold Layout.stub at hv
  by_cases hlow : v < vectors
  · rw [if_pos hlow] at hv
    have hlow' : v < 0x30 := hlow
    rw [gate_read L mem v (by omega) (hslot.resolve_left (by omega)),
      loop_entry L v v mem (by unfold IDT_DESC_CNT; omega) hlow, h v hlow, Option.some.inj hv]
  · rw [if_neg hlow] at hv
    by_cases hlast : v = 0x80
    · rw [if_pos hlast] at hv
      rw [hlast, gate_last, Option.some.inj hv]
    · rw [if_neg hlast] at hv
      contradiction

/-- Where `idt` is away from the table, the other gates point to whatever follows the entries. -/
theorem gate_behind (mem : Mem) (v : Nat) (hlow : vectors ≤ v) (hhigh : v < 0x80)
    (haway : L.idt + idt_size ≤ L.intr_entry_table ∨ L.slot + 4 ≤ L.idt) :
    (gateOf L mem v).offset = (read32 mem (L.entryAt v)).toNat := by
  have hsl := slot_eq L
  have hg := gateAt_eq L v
  have hg' := gateAt_succ L v
  have he := entryAt_eq L v
  rw [idt_size_eq] at haway
  rw [vectors_eq] at hlow
  rw [gate_read L mem v hhigh (by omega)]
  congr 1
  exact read32_congr _ _ _ fun x h1 h2 => loop_other L v mem x (by omega)

/-- **The loop runs over the end of the table.** Nothing else is written exactly when `idt` covers the slot that is
written behind the table, and the gates do not depend on what follows exactly when that is `idt` itself. The
vectors of `kernel.S` have their gates, and the others have no entry point at all. -/
theorem idt_desc_init_overruns (L : Layout) (mem : Mem) (h : L.Loaded mem) :
    (OwnTables L mem ↔ L.idt ≤ L.slot ∧ L.slot + 4 ≤ L.idt + idt_size) ∧
      (SameGates L mem ↔ L.idt = L.entryAt vectors) ∧
      (∀ tail v e, L.stub v = some e → v = 0x80 ∨ L.slot + 4 ≤ L.gateAt v ∨ L.gateAt (v + 1) ≤ L.slot →
        (gateOf L (L.followed mem tail) v).offset = e.toNat) ∧
      ¬ (OwnTables L mem ∧ SameGates L mem ∧ ToStubs L mem) := by
  refine ⟨own_tables_iff L mem, same_gates_iff L mem, fun tail v e => ?_, ?_⟩
  · exact gate_stub L _ (Layout.Loaded.followed L mem tail h) v e
  · rintro ⟨-, -, hstubs⟩
    have hnone : L.stub 0x30 = none := rfl
    have hgate := hstubs mem 0x30 (by decide)
    rw [hnone] at hgate
    contradiction

/-! ## A build -/

/-- The table in `.data`, and `idt` in `.bss` behind it. -/
def layout0 : Layout where
  idt := 0xc0006000
  intr_entry_table := 0xc0004000
  intr_entry v := 0xc0001520 + 0x20 * UInt32.ofNat v
  syscall_handler := 0xc0001b20
  apart := .inr (by decide)

/-- The entries, and zeros. -/
def mem0 : Mem := fun x =>
  if 0xc0004000 ≤ x ∧ x < 0xc00040c0 then
    write32 (fun _ => 0) 0 (layout0.intr_entry ((x - 0xc0004000) / 4)) ((x - 0xc0004000) % 4)
  else 0

set_option maxRecDepth 8000 in
theorem loaded_mem0 : layout0.Loaded mem0 := by
  unfold Layout.Loaded
  decide

theorem idt_desc_init_overruns_away :
    (gateOf layout0 (layout0.followed mem0 fun _ => 0x21) 0x21).offset = 0xc0001940 ∧ ¬ OwnTables layout0 mem0 := by
  obtain ⟨hown, -, hgates, -⟩ := idt_desc_init_overruns layout0 mem0 loaded_mem0
  refine ⟨hgates (fun _ => 0x21) 0x21 0xc0001940 (by decide) (.inr (.inl (by decide))), fun h => ?_⟩
  exact absurd (hown.mp h).1 (by decide)

/-- 0x140 bytes behind the table are overwritten, and gate 0x30 points to what is there. -/
theorem idt_desc_init_stray :
    layout0.Loaded mem0 ∧ idt_desc_init layout0 mem0 0xc0004201 = 0x1b ∧ mem0 0xc0004201 = 0 ∧
      ¬ layout0.InIdt 0xc0004201 ∧ ¬ layout0.InTable 0xc0004201 ∧
      (gateOf layout0 (layout0.followed mem0 fun _ => 0x21) 0x30).offset = 0x21212121 := by
  refine ⟨loaded_mem0, ?_, by decide, ?_, ?_, ?_⟩
  · rw [init_slot layout0 mem0 mem0 0xc0004201 (by unfold Layout.InIdt; decide) (by unfold InSlot; decide)]
    decide
  · unfold Layout.InIdt
    decide
  · unfold Layout.InTable
    decide
  · rw [gate_behind layout0 _ 0x30 (by decide) (by decide) (.inr (by decide))]
    decide

end OsLearn.Idt
