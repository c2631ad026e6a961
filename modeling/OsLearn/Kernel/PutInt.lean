import OsLearn.Kernel.Print
import OsLearn.Lib.Hex

/-!
# `lib/kernel/print.S`: `put_int`

Three loops share `edi`: the digits go into the buffer from its end, the zeros in front are skipped, the
rest is printed.
-/

open OsLearn.Regs

namespace OsLearn.PutInt

/-! ## The code -/

/-- The registers, the memory, and the characters that were handed to `put_char`, which saves all registers
and writes the text page only. -/
structure Machine where
  eax : UInt32
  ebx : UInt32
  ecx : UInt32
  edx : UInt32
  edi : UInt32
  mem : Mem
  out : List UInt8

/-- `mov cl, [put_int_buffer + edi]` -/
def load_cl (put_int_buffer : UInt32) (m : Machine) : Machine :=
  { m with ecx := setLow8 m.ecx (m.mem (put_int_buffer + m.edi).toNat) }

/-- `push ecx` and `call put_char` -/
def call_put_char (m : Machine) : Machine := { m with out := m.out ++ [low8 m.ecx] }

/-- From `.16based_4bits` to its `loop`. -/
def digit_round (m : Machine) : Machine :=
  let m := { m with edx := m.edx &&& 0x0000000f }
  let m := if sgt32 m.edx 9 then { m with edx := m.edx + (0x41 - 10) } else { m with edx := m.edx + 0x30 }
  -- .store
  let m := { m with mem := Function.update m.mem (m.ebx + m.edi).toNat (low8 m.edx) }
  let m := { m with edi := m.edi - 1 }
  let m := { m with eax := m.eax >>> 4 }
  { m with edx := m.eax }

/-- The loops have a bound on their rounds. -/
def based16_4bits : Nat → Machine → Option Machine
  | 0, _ => none
  | fuel + 1, m =>
    let m := digit_round m
    let m := { m with ecx := m.ecx - 1 }
    if m.ecx ≠ 0 then based16_4bits fuel m else some m

def skip_prefix_0 (put_int_buffer : UInt32) : Nat → Machine → Option Machine
  | 0, _ => none
  | fuel + 1, m =>
    if m.edi = 8 then
      -- .full0
      some { m with ecx := setLow8 m.ecx 0x30 }
    else
      let m := load_cl put_int_buffer m
      let m := { m with edi := m.edi + 1 }
      if low8 m.ecx = 0x30 then skip_prefix_0 put_int_buffer fuel m
      else some { m with edi := m.edi - 1 }

def put_each_num (put_int_buffer : UInt32) : Nat → Machine → Option Machine
  | 0, _ => none
  | fuel + 1, m =>
    let m := call_put_char m
    let m := { m with edi := m.edi + 1 }
    let m := load_cl put_int_buffer m
    if slt32 m.edi 8 then put_each_num put_int_buffer fuel m else some m

/-- `put_int`, with `num` on the stack. -/
def put_int (put_int_buffer : UInt32) (fuel : Nat) (num : UInt32) (m : Machine) : Option Machine := do
  let m := { m with eax := num }
  let m := { m with edx := m.eax }
  let m := { m with edi := 7 }
  let m := { m with ecx := 8 }
  let m := { m with ebx := put_int_buffer }
  let m ← based16_4bits fuel m
  -- .ready_to_print
  let m := { m with edi := m.edi + 1 }
  let m ← skip_prefix_0 put_int_buffer fuel m
  put_each_num put_int_buffer fuel m

/-! ## The digits in the buffer -/

/-- The bytes from `a` on. -/
def Holds (mem : Mem) : UInt32 → List UInt8 → Prop
  | _, [] => True
  | a, c :: cs => mem a.toNat = c ∧ Holds mem (a + 1) cs

theorem holds_snoc (mem : Mem) (a : UInt32) (cs : List UInt8) (c : UInt8) (h : Holds mem a cs)
    (hc : mem (a + UInt32.ofNat cs.length).toNat = c) : Holds mem a (cs ++ [c]) := by
  induction cs generalizing a with
  | nil => exact ⟨by rwa [List.length_nil, show UInt32.ofNat 0 = 0 from rfl, UInt32.add_zero] at hc, trivial⟩
  | cons b cs ih =>
    refine ⟨h.1, ih (a + 1) h.2 ?_⟩
    rwa [List.length_cons, add_ofNat_succ] at hc

theorem slot_ne (a : UInt32) (i j : Nat) (hi : i < 8) (hj : j < 8) (hne : i ≠ j) :
    (a + UInt32.ofNat i).toNat ≠ (a + UInt32.ofNat j).toNat := by
  intro h
  have heq := (UInt32.add_right_inj a).mp (UInt32.toNat_inj.mp h)
  have hval := congrArg UInt32.toNat heq
  rw [UInt32.toNat_ofNat_of_lt' (by show i < 2 ^ 32; omega), UInt32.toNat_ofNat_of_lt' (by show j < 2 ^ 32; omega)] at hval
  exact hne hval

/-- One digit. -/
theorem digit_round_eq (m : Machine) (h : m.edx = m.eax) :
    digit_round m = { m with
      mem := Function.update m.mem (m.ebx + m.edi).toNat (Hex.digit (m.eax.toNat % 16))
      edi := m.edi - 1
      eax := m.eax >>> 4
      edx := m.eax >>> 4 } := by
  have hand : (m.edx &&& 0x0000000f).toNat = m.eax.toNat % 16 := by
    rw [h, UInt32.toNat_and]
    show m.eax.toNat &&& (2 ^ 4 - 1) = _
    rw [Nat.and_two_pow_sub_one_eq_mod]
  have hjg := sgt32_iff (m.edx &&& 0x0000000f) 9 (by omega) (by decide)
  rw [hand] at hjg
  change _ ↔ 9 < _ at hjg
  have hstore : low8 (if sgt32 (m.edx &&& 0x0000000f) 9 then (m.edx &&& 0x0000000f) + (0x41 - 10)
      else (m.edx &&& 0x0000000f) + 0x30) = Hex.digit (m.eax.toNat % 16) := by
    have hlt : m.eax.toNat % 16 < 16 := Nat.mod_lt _ (by decide)
    unfold Hex.digit
    by_cases hbig : 9 < m.eax.toNat % 16
    · rw [if_pos (hjg.mpr hbig), if_pos hbig, ← UInt8.toNat_inj, low8_toNat, UInt32.toNat_add, hand, UInt8.toNat_ofNat']
      show (m.eax.toNat % 16 + 0x37) % 2 ^ 32 % 2 ^ 8 = _
      omega
    · rw [if_neg fun hb => hbig (hjg.mp hb), if_neg hbig, ← UInt8.toNat_inj, low8_toNat, UInt32.toNat_add, hand,
        UInt8.toNat_ofNat']
      show (m.eax.toNat % 16 + 0x30) % 2 ^ 32 % 2 ^ 8 = _
      omega
  unfold digit_round
  dsimp only
  rw [← hstore]
  split <;> rfl

theorem ofNat_pred (n : Nat) : UInt32.ofNat (n + 1) - 1 = UInt32.ofNat n := by
  rw [UInt32.ofNat_add]
  exact UInt32.add_sub_cancel _ _

/-- The rounds that write the bytes `n`, .., 0 leave the last `n + 1` digits there. -/
theorem based16_4bits_spec (n fuel : Nat) (m : Machine) (hn : n < 8) (hfuel : n < fuel) (hedx : m.edx = m.eax)
    (hecx : m.ecx = UInt32.ofNat (n + 1)) (hedi : m.edi = UInt32.ofNat n) :
    ∃ m', based16_4bits fuel m = some m' ∧ m'.edi = 0 - 1 ∧ m'.out = m.out ∧
      Holds m'.mem m.ebx (Hex.numeral (n + 1) m.eax.toNat) ∧
      ∀ i, n < i → i < 8 → m'.mem (m.ebx + UInt32.ofNat i).toNat = m.mem (m.ebx + UInt32.ofNat i).toNat := by
  have hround := digit_round_eq m hedx
  rw [hedi] at hround
  induction n generalizing fuel m with
  | zero =>
    obtain ⟨fuel, rfl⟩ := Nat.exists_eq_succ_of_ne_zero (Nat.ne_of_gt hfuel)
    have hecx' : m.ecx - 1 = 0 := by rw [hecx]; rfl
    refine ⟨{ digit_round m with ecx := m.ecx - 1 }, ?_, ?_, ?_, ⟨?_, trivial⟩, fun i h1 h2 => ?_⟩
    · rw [based16_4bits, hround]
      exact if_neg (not_not.mpr hecx')
    · rw [hround]
      rfl
    · rw [hround]
    · rw [hround]
      show Function.update m.mem (m.ebx + 0).toNat _ m.ebx.toNat = _
      rw [UInt32.add_zero, Function.update_self]
    · rw [hround]
      exact Function.update_of_ne (slot_ne m.ebx i 0 h2 (by decide) (by omega)) _ _
  | succ n ih =>
    obtain ⟨fuel, rfl⟩ := Nat.exists_eq_succ_of_ne_zero (Nat.ne_of_gt (Nat.zero_lt_of_lt hfuel))
    have hecx' : m.ecx - 1 = UInt32.ofNat (n + 1) := by rw [hecx, ofNat_pred (n + 1)]
    have hne : m.ecx - 1 ≠ 0 := by
      rw [hecx', ne_eq, ← UInt32.toNat_inj, UInt32.toNat_ofNat_of_lt' (by show n + 1 < 2 ^ 32; omega)]
      exact Nat.succ_ne_zero n
    have hedi' : UInt32.ofNat (n + 1) - 1 = UInt32.ofNat n := ofNat_pred n
    obtain ⟨m₁, hm₁⟩ : ∃ m₁, m₁ = { digit_round m with ecx := m.ecx - 1 } := ⟨_, rfl⟩
    have hshift : m₁.eax.toNat = m.eax.toNat / 16 := by
      rw [hm₁, hround]
      exact u32_shr m.eax 4 (by decide)
    have hbx : m₁.ebx = m.ebx := by rw [hm₁, hround]
    have hmem : m₁.mem = Function.update m.mem (m.ebx + UInt32.ofNat (n + 1)).toNat
        (Hex.digit (m.eax.toNat % 16)) := by rw [hm₁, hround]
    have heq : m₁.edx = m₁.eax := by rw [hm₁, hround]
    have hdi : m₁.edi = UInt32.ofNat n := by rw [hm₁, hround]; exact hedi'
    obtain ⟨m', hrun, hend, hout, hholds, hrest⟩ := ih fuel m₁ (by omega) (by omega) heq (by rw [hm₁]; exact hecx') hdi
      (by rw [← hdi]; exact digit_round_eq m₁ heq)
    rw [hshift, hbx] at hholds
    rw [hbx] at hrest
    refine ⟨m', ?_, hend, ?_, ?_, fun i h1 h2 => ?_⟩
    · rw [based16_4bits, hround]
      rw [hm₁, hround] at hrun
      exact (if_pos hne).trans hrun
    · rw [hout, hm₁, hround]
    · refine holds_snoc _ _ _ _ hholds ?_
      rw [Hex.length_numeral, hrest (n + 1) (by omega) hn, hmem, Function.update_self]
    · rw [hrest i (by omega) h2, hmem, Function.update_of_ne (slot_ne m.ebx i (n + 1) h2 hn (by omega))]

/-! ## The zeros in front -/

theorem skip_prefix_0_spec (buf : UInt32) (ds : List UInt8) (fuel : Nat) (m : Machine) (hfuel : ds.length < fuel)
    (hds : Holds m.mem (buf + m.edi) ds) (hedi : m.edi.toNat + ds.length = 8) :
    ∃ m' c rest, skip_prefix_0 buf fuel m = some m' ∧ m'.mem = m.mem ∧ m'.out = m.out ∧
      Hex.trim ds = c :: rest ∧ low8 m'.ecx = c ∧ Holds m.mem (buf + (m'.edi + 1)) rest ∧ m'.edi.toNat ≤ 8 ∧
      rest.length = 7 - m'.edi.toNat := by
  induction ds generalizing fuel m with
  | nil =>
    obtain ⟨fuel, rfl⟩ := Nat.exists_eq_succ_of_ne_zero (Nat.ne_of_gt hfuel)
    have h8 : m.edi = 8 := UInt32.toNat_inj.mp hedi
    refine ⟨{ m with ecx := setLow8 m.ecx 0x30 }, 0x30, [], ?_, rfl, rfl, rfl, low8_setLow8 _ _, trivial, ?_, ?_⟩
    · rw [skip_prefix_0]
      exact if_pos h8
    · show m.edi.toNat ≤ 8
      exact Nat.le_of_eq hedi
    · show 0 = 7 - m.edi.toNat
      rw [h8]
      rfl
  | cons c ds ih =>
    obtain ⟨fuel, rfl⟩ := Nat.exists_eq_succ_of_ne_zero (Nat.ne_of_gt (Nat.zero_lt_of_lt hfuel))
    rw [List.length_cons] at hfuel hedi
    have h8 : m.edi ≠ 8 := by
      rw [ne_eq, ← UInt32.toNat_inj]
      show ¬ m.edi.toNat = 8
      omega
    have hnext : (m.edi + 1).toNat = m.edi.toNat + 1 := toNat_add_small m.edi 1 (by omega)
    have hcl : low8 (setLow8 m.ecx (m.mem (buf + m.edi).toNat)) = c := (low8_setLow8 _ _).trans hds.1
    by_cases hc : c = 0x30
    · obtain ⟨m', b, rest, hrun, hmem, hout, htrim, hlow, hholds, hle, hlen⟩ := ih fuel
        { load_cl buf m with edi := m.edi + 1 } (by omega)
        (by show Holds m.mem (buf + (m.edi + 1)) ds; rw [← UInt32.add_assoc]; exact hds.2)
        (by show (m.edi + 1).toNat + _ = 8; omega)
      refine ⟨m', b, rest, ?_, hmem, hout, ?_, hlow, hholds, hle, hlen⟩
      · rw [skip_prefix_0, if_neg h8]
        exact (if_pos (hcl.trans hc)).trans hrun
      · rw [hc, Hex.trim_zero_cons]
        exact htrim
    · refine ⟨{ load_cl buf m with edi := m.edi + 1 - 1 }, c, ds, ?_, rfl, rfl, Hex.trim_cons c ds hc, hcl, ?_, ?_, ?_⟩
      · rw [skip_prefix_0, if_neg h8]
        exact if_neg fun h => hc (hcl.symm.trans h)
      · show Holds m.mem (buf + (m.edi + 1 - 1 + 1)) ds
        rw [UInt32.add_sub_cancel, ← UInt32.add_assoc]
        exact hds.2
      · show (m.edi + 1 - 1).toNat ≤ 8
        rw [UInt32.add_sub_cancel]
        omega
      · show ds.length = 7 - (m.edi + 1 - 1).toNat
        rw [UInt32.add_sub_cancel]
        omega

/-! ## The rest -/

theorem jl_eight (edi : UInt32) (h : edi.toNat ≤ 8) :
    (edi + 1).toNat = edi.toNat + 1 ∧ (slt32 (edi + 1) 8 ↔ edi.toNat + 1 < 8) := by
  have hnext : (edi + 1).toNat = edi.toNat + 1 := toNat_add_small edi 1 (by omega)
  have hjl := slt32_iff (edi + 1) 8 (by omega) (by decide)
  rw [hnext] at hjl
  exact ⟨hnext, hjl⟩

theorem put_each_num_spec (buf : UInt32) (rest : List UInt8) (fuel : Nat) (m : Machine) (hfuel : rest.length < fuel)
    (hrest : Holds m.mem (buf + (m.edi + 1)) rest) (hedi : m.edi.toNat ≤ 8) (hlen : rest.length = 7 - m.edi.toNat) :
    ∃ m', put_each_num buf fuel m = some m' ∧ m'.out = m.out ++ low8 m.ecx :: rest := by
  obtain ⟨hnext, hjl⟩ := jl_eight m.edi hedi
  induction rest generalizing fuel m with
  | nil =>
    obtain ⟨fuel, rfl⟩ := Nat.exists_eq_succ_of_ne_zero (Nat.ne_of_gt hfuel)
    rw [List.length_nil] at hlen
    refine ⟨load_cl buf { call_put_char m with edi := m.edi + 1 }, ?_, rfl⟩
    rw [put_each_num]
    exact if_neg fun h => absurd (hjl.mp h) (by omega)
  | cons c rest ih =>
    obtain ⟨fuel, rfl⟩ := Nat.exists_eq_succ_of_ne_zero (Nat.ne_of_gt (Nat.zero_lt_of_lt hfuel))
    rw [List.length_cons] at hfuel hlen
    have hcl : low8 (setLow8 m.ecx (m.mem (buf + (m.edi + 1)).toNat)) = c := (low8_setLow8 _ _).trans hrest.1
    obtain ⟨m₁, hm₁⟩ : ∃ m₁, m₁ = load_cl buf { call_put_char m with edi := m.edi + 1 } := ⟨_, rfl⟩
    have hdi : m₁.edi = m.edi + 1 := by rw [hm₁]; rfl
    have hle : m₁.edi.toNat ≤ 8 := by rw [hdi]; omega
    have hholds : Holds m₁.mem (buf + (m₁.edi + 1)) rest := by
      rw [hm₁]
      show Holds m.mem (buf + (m.edi + 1 + 1)) rest
      rw [← UInt32.add_assoc buf]
      exact hrest.2
    obtain ⟨hnext', hjl'⟩ := jl_eight m₁.edi hle
    obtain ⟨m', hrun, hout⟩ := ih fuel m₁ (by omega) hholds hle (by rw [hdi]; omega) hnext' hjl'
    refine ⟨m', ?_, ?_⟩
    · rw [put_each_num]
      rw [hm₁] at hrun
      exact (if_pos (hjl.mpr (by omega))).trans hrun
    · rw [hout, hm₁]
      show m.out ++ [low8 m.ecx] ++ low8 (setLow8 m.ecx (m.mem (buf + (m.edi + 1)).toNat)) :: rest = _
      rw [hcl, List.append_assoc]
      rfl

/-! ## All of it -/

/-- The eight digits without the zeros in front. -/
theorem put_int_spec (buf : UInt32) (fuel : Nat) (num : UInt32) (m : Machine) (hfuel : 9 ≤ fuel) :
    ∃ m', put_int buf fuel num m = some m' ∧ m'.out = m.out ++ Hex.trim (Hex.numeral 8 num.toNat) := by
  obtain ⟨m₁, hdigits, hend, hout₁, hholds, -⟩ := based16_4bits_spec 7 fuel
    { m with eax := num, edx := num, edi := 7, ecx := 8, ebx := buf } (by decide) (by omega) rfl rfl rfl
  have hzero : m₁.edi + 1 = 0 := by rw [hend]; rfl
  have hlen : (Hex.numeral 8 num.toNat).length = 8 := Hex.length_numeral _ _
  obtain ⟨m₂, c, rest, hskip, hmem₂, hout₂, htrim, hcl, hholds₂, hle, hrest⟩ :=
    skip_prefix_0_spec buf (Hex.numeral 8 num.toNat) fuel { m₁ with edi := m₁.edi + 1 } (by omega)
      (by rw [hzero, UInt32.add_zero]; exact hholds) (by rw [hzero, hlen]; rfl)
  obtain ⟨m', hprint, hout⟩ := put_each_num_spec buf rest fuel m₂ (by omega) (by rw [hmem₂]; exact hholds₂) hle hrest
  refine ⟨m', ?_, ?_⟩
  · show (do
      let m ← based16_4bits fuel { m with eax := num, edx := num, edi := 7, ecx := 8, ebx := buf }
      let m ← skip_prefix_0 buf fuel { m with edi := m.edi + 1 }
      put_each_num buf fuel m) = _
    rw [hdigits]
    show (do
      let m ← skip_prefix_0 buf fuel { m₁ with edi := m₁.edi + 1 }
      put_each_num buf fuel m) = _
    rw [hskip]
    exact hprint
  · rw [hout, hout₂, hcl, ← htrim]
    exact congrArg (· ++ _) hout₁

/-- **Hexadecimal output.** The characters for `put_char` are the numeral of the number, without a leading zero. -/
theorem put_int_numeral (buf : UInt32) (fuel : Nat) (num : UInt32) (m : Machine) (hfuel : 9 ≤ fuel) :
    ∃ m' ds, put_int buf fuel num m = some m' ∧ m'.out = m.out ++ ds ∧ ds ≠ [] ∧ ds.length ≤ 8 ∧
      (∀ c ∈ ds, Hex.IsDigit c) ∧ Hex.value ds = num.toNat ∧ (num ≠ 0 → ds.head? ≠ some 0x30) ∧
      (num = 0 → ds = [0x30]) := by
  obtain ⟨m', hrun, hout⟩ := put_int_spec buf fuel num m hfuel
  have hdigit := Hex.isDigit_numeral 8 num.toNat
  have hlen : (Hex.numeral 8 num.toNat).length = 8 := Hex.length_numeral _ _
  have hval : Hex.value (Hex.numeral 8 num.toNat) = num.toNat :=
    (Hex.value_numeral 8 num.toNat).trans (Nat.mod_eq_of_lt num.toNat_lt)
  refine ⟨m', _, hrun, hout, Hex.trim_ne_nil _, ?_, Hex.isDigit_trim _ hdigit, (Hex.value_trim _).trans hval, ?_, ?_⟩
  · exact hlen ▸ Hex.length_trim _ (List.ne_nil_of_length_eq_add_one hlen)
  · intro hne
    refine Hex.head_trim _ fun hzero => hne ?_
    rw [← UInt32.toNat_inj, ← hval, hzero]
    rfl
  · rintro rfl
    exact Hex.trim_zero _ hdigit hval

theorem put_int_numeral_1a0 :
    ∃ m' ds, put_int 0xc0004000 9 0x1a0 ⟨0, 0, 0, 0, 0, fun _ => 0x30, []⟩ = some m' ∧ m'.out = [] ++ ds ∧
      Hex.value ds = 0x1a0 := by
  obtain ⟨m', ds, hrun, hout, -, -, -, hval, -, -⟩ :=
    put_int_numeral 0xc0004000 9 0x1a0 ⟨0, 0, 0, 0, 0, fun _ => 0x30, []⟩ (by decide)
  exact ⟨m', ds, hrun, hout, hval⟩

/-- The calls of `put_char` come back: a digit is no backspace. -/
theorem put_int_screen (buf : UInt32) (fuel : Nat) (num : UInt32) (m : Machine) (hfuel : 9 ≤ fuel) (s : Print.Screen)
    (h : s.cursor < 2000) :
    ∃ m' ds s', put_int buf fuel num m = some m' ∧ m'.out = m.out ++ ds ∧ Print.put_chars ds s = .ok s' ∧
      Print.OnScreen s s' := by
  obtain ⟨m', hrun, hout⟩ := put_int_spec buf fuel num m hfuel
  have hguard : Print.Guarded (Hex.trim (Hex.numeral 8 num.toNat)) s := by
    intro pre cl hpre s' _ hbs
    have hdigit := Hex.isDigit_trim _ (Hex.isDigit_numeral 8 num.toNat) cl
      (hpre.subset (List.mem_append_right _ (List.mem_singleton_self cl)))
    rw [hbs.1] at hdigit
    exact absurd hdigit (by decide)
  obtain ⟨s', hret, hon⟩ := Print.put_chars_guarded _ s h hguard _ List.prefix_rfl
  exact ⟨m', _, s', hrun, hout, hret, hon⟩

end OsLearn.PutInt
