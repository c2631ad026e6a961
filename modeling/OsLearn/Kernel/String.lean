import OsLearn.Kernel.Debug
import OsLearn.Lib.CString

/-!
# `lib/string.c`

A `char` is signed on this target. The loops that look for the end of a string have a bound on their rounds.
-/

open OsLearn.CString

namespace OsLearn.Str

/-- A `char` after its promotion to `int`. -/
def char (c : UInt8) : Int := c.toInt8.toInt

/-! ## The code -/

def memset_loop : Nat → Mem → UInt32 → UInt8 → Mem
  | 0, mem, _, _ => mem
  | size + 1, mem, p, value => memset_loop size (Function.update mem p.toNat value) (p + 1) value

def memset (mem : Mem) (dst : UInt32) (value : UInt8) (size : UInt32) : Except Stop Mem := do
  ASSERT (dst ≠ NULL) .memset_dst
  return memset_loop size.toNat mem dst value

def memcpy_loop : Nat → Mem → UInt32 → UInt32 → Mem
  | 0, mem, _, _ => mem
  | size + 1, mem, p_dst, p_src =>
    memcpy_loop size (Function.update mem p_dst.toNat (mem p_src.toNat)) (p_dst + 1) (p_src + 1)

def memcpy (mem : Mem) (dst src size : UInt32) : Except Stop Mem := do
  ASSERT (dst ≠ NULL) .memcpy_dst
  ASSERT (src ≠ NULL) .memcpy_src
  return memcpy_loop size.toNat mem dst src

def memcmp_loop (mem : Mem) : Nat → UInt32 → UInt32 → Int32
  | 0, _, _ => 0
  | size + 1, pa, pb =>
    if char (mem pa.toNat) > char (mem pb.toNat) then 1
    else if char (mem pa.toNat) < char (mem pb.toNat) then -1
    else memcmp_loop mem size (pa + 1) (pb + 1)

def memcmp (mem : Mem) (a b size : UInt32) : Except Stop Int32 := do
  ASSERT (a ≠ NULL) .memcmp_a
  ASSERT (b ≠ NULL) .memcmp_b
  return memcmp_loop mem size.toNat a b

def strcpy_loop : Nat → Mem → UInt32 → UInt32 → Option Mem
  | 0, _, _, _ => none
  | fuel + 1, mem, p_dst, src =>
    if mem src.toNat ≠ 0 then
      strcpy_loop fuel (Function.update mem p_dst.toNat (mem src.toNat)) (p_dst + 1) (src + 1)
    else some mem

/-- The memory, and the pointer that is returned. -/
def strcpy (fuel : Nat) (mem : Mem) (dst src : UInt32) : Except Stop (Option (Mem × UInt32)) :=
  return do
    let mem ← strcpy_loop fuel mem dst src
    return (mem, dst)

def strlen_loop : Nat → Mem → UInt32 → UInt32 → Option UInt32
  | 0, _, _, _ => none
  | fuel + 1, mem, str, count =>
    if mem str.toNat ≠ 0 then strlen_loop fuel mem (str + 1) (count + 1) else some count

def strlen (fuel : Nat) (mem : Mem) (str : UInt32) : Except Stop (Option UInt32) := do
  ASSERT (str ≠ NULL) .strlen_str
  return strlen_loop fuel mem str 0

def strcmp_loop : Nat → Mem → UInt32 → UInt32 → Option Int8
  | 0, _, _, _ => none
  | fuel + 1, mem, a, b =>
    if mem a.toNat ≠ 0 ∧ mem b.toNat ≠ 0 then
      if char (mem a.toNat) > char (mem b.toNat) then some 1
      else if char (mem a.toNat) < char (mem b.toNat) then some (-1)
      else strcmp_loop fuel mem (a + 1) (b + 1)
    else if mem a.toNat ≠ 0 then some 1
    else if mem b.toNat ≠ 0 then some (-1)
    else some 0

def strcmp (fuel : Nat) (mem : Mem) (a b : UInt32) : Except Stop (Option Int8) := do
  ASSERT (a ≠ NULL) .strcmp_a
  ASSERT (b ≠ NULL) .strcmp_b
  return strcmp_loop fuel mem a b

def strchr_loop (ch : UInt8) : Nat → Mem → UInt32 → Option UInt32
  | 0, _, _ => none
  | fuel + 1, mem, str =>
    if mem str.toNat ≠ 0 then
      -- `*str++ == ch`, and then `--str`
      if char (mem str.toNat) = ch.toNat then some (str + 1 - 1) else strchr_loop ch fuel mem (str + 1)
    else some NULL

def strchr (fuel : Nat) (mem : Mem) (str : UInt32) (ch : UInt8) : Except Stop (Option UInt32) := do
  ASSERT (str ≠ NULL) .strchr_str
  return strchr_loop ch fuel mem str

def strrchr_loop (ch : UInt8) : Nat → Mem → UInt32 → UInt32 → Option UInt32
  | 0, _, _, _ => none
  | fuel + 1, mem, str, last_char =>
    if mem str.toNat ≠ 0 then
      let last_char := if char (mem str.toNat) = ch.toNat then str else last_char
      strrchr_loop ch fuel mem (str + 1) last_char
    else some last_char

def strrchr (fuel : Nat) (mem : Mem) (str : UInt32) (ch : UInt8) : Except Stop (Option UInt32) := do
  ASSERT (str ≠ NULL) .strrchr_str
  return strrchr_loop ch fuel mem str NULL

/-- `while(*str++);` -/
def strcat_end : Nat → Mem → UInt32 → Option UInt32
  | 0, _, _ => none
  | fuel + 1, mem, str => if mem str.toNat ≠ 0 then strcat_end fuel mem (str + 1) else some (str + 1)

/-- `while((*str++ = *src++));` -/
def strcat_copy : Nat → Mem → UInt32 → UInt32 → Option Mem
  | 0, _, _, _ => none
  | fuel + 1, mem, str, src =>
    let c := mem src.toNat
    let mem := Function.update mem str.toNat c
    if c ≠ 0 then strcat_copy fuel mem (str + 1) (src + 1) else some mem

def strcat (fuel : Nat) (mem : Mem) (dst src : UInt32) : Except Stop (Option (Mem × UInt32)) := do
  ASSERT (dst ≠ NULL) .strcat_dst
  ASSERT (src ≠ NULL) .strcat_src
  return do
    let str ← strcat_end fuel mem dst
    let str := str - 1
    let mem ← strcat_copy fuel mem str src
    return (mem, dst)

def strchrs_loop (ch : UInt8) : Nat → Mem → UInt32 → UInt32 → Option UInt32
  | 0, _, _, _ => none
  | fuel + 1, mem, p, ch_cnt =>
    if mem p.toNat ≠ 0 then
      let ch_cnt := if char (mem p.toNat) = ch.toNat then ch_cnt + 1 else ch_cnt
      strchrs_loop ch fuel mem (p + 1) ch_cnt
    else some ch_cnt

def strchrs (fuel : Nat) (mem : Mem) (str : UInt32) (ch : UInt8) : Except Stop (Option UInt32) := do
  ASSERT (str ≠ NULL) .strchrs_str
  return strchrs_loop ch fuel mem str 0

/-! ## `char` -/

theorem char_toNat (c : UInt8) : char c = if c.toNat < 0x80 then (c.toNat : Int) else c.toNat - 0x100 := by
  have hc : c.toBitVec.toNat = c.toNat := rfl
  show c.toBitVec.toInt = _
  rw [BitVec.toInt_eq_toNat_cond]
  split <;> split <;> omega

theorem char_inj (c d : UInt8) : char c = char d ↔ c = d := by
  refine ⟨fun h => ?_, congrArg char⟩
  have hc := c.toNat_lt
  have hd := d.toNat_lt
  rw [char_toNat, char_toNat] at h
  rw [← UInt8.toNat_inj]
  split at h <;> split at h <;> omega

/-- An unsigned byte from 0x80 on is no `char`. -/
theorem char_eq_iff (c ch : UInt8) : char c = ch.toNat ↔ c = ch ∧ ch < 0x80 := by
  have hc := c.toNat_lt
  rw [char_toNat, UInt8.lt_iff_toNat_lt, ← UInt8.toNat_inj]
  show _ ↔ _ ∧ ch.toNat < 0x80
  split <;> omega

/-- A `char` from 0x80 on is less than the terminator. -/
theorem char_neg_iff (c : UInt8) : char c < 0 ↔ 0x80 ≤ c := by
  have hc := c.toNat_lt
  rw [char_toNat, UInt8.le_iff_toNat_le]
  show _ ↔ 0x80 ≤ c.toNat
  split <;> omega

/-! ## Calls that return -/

/-- With more than `n` rounds for each loop the call returns `v`. -/
def Returns {α : Type} (n : Nat) (f : Nat → Except Stop (Option α)) (v : α) : Prop :=
  ∀ fuel, n < fuel → f fuel = .ok (some v)

theorem Returns.unique {α : Type} {n n' : Nat} {f : Nat → Except Stop (Option α)} {v v' : α} (h : Returns n f v)
    (h' : Returns n' f v') : v = v' := by
  have h1 := h (n + n' + 1) (by omega)
  have h2 := h' (n + n' + 1) (by omega)
  exact Option.some.inj (Except.ok.inj (h1.symm.trans h2))

theorem returns_loop {α : Type} {n : Nat} {loop : Nat → Option α} {v : α} (h : ∀ fuel, n < fuel → loop fuel = some v) :
    Returns n (fun fuel => return loop fuel) v := fun fuel hfuel => congrArg Except.ok (h fuel hfuel)

theorem ASSERT_not_null (p : UInt32) (site : Site) (h : p ≠ 0) : ASSERT (p ≠ NULL) site = .ok () := if_pos h

theorem returns_ASSERT {α : Type} {n : Nat} {f : Nat → Except Stop (Option α)} {v : α} (p : UInt32) (site : Site)
    (hp : p ≠ 0) (h : Returns n f v) :
    Returns n (fun fuel => do ASSERT (p ≠ NULL) site; f fuel) v := by
  intro fuel hfuel
  rw [← h fuel hfuel, ASSERT_not_null p site hp]
  rfl

/-! ## The loops over one string -/

theorem strlen_loop_eq (mem : Mem) (str : UInt32) (s : List UInt8) (fuel : Nat) (h : CStr mem str s)
    (hfuel : s.length < fuel) (count : UInt32) :
    strlen_loop fuel mem str count = some (count + UInt32.ofNat s.length) := by
  revert count
  apply CStr.rounds (motive := fun fuel mem str s =>
    ∀ count, strlen_loop fuel mem str count = some (count + UInt32.ofNat s.length)) ?_ ?_ fuel h hfuel
  · intro fuel mem str h count
    rw [strlen_loop, if_neg (not_not.mpr h.end_eq)]
    exact congrArg some (UInt32.add_zero count).symm
  · intro fuel mem str c s h ih count
    rw [strlen_loop, h.head_eq, if_pos h.head_ne, ih mem h.tail, List.length_cons, add_ofNat_succ]

theorem strlen_spec (mem : Mem) (str : UInt32) (s : List UInt8) (h : CStr mem str s) :
    Returns s.length (fun fuel => strlen fuel mem str) (UInt32.ofNat s.length) := by
  refine returns_ASSERT str _ h.not_null (returns_loop fun fuel hfuel => ?_)
  rw [strlen_loop_eq mem str s fuel h hfuel, UInt32.zero_add]

/-- The positions that the comparison with `ch` finds. -/
def found (s : List UInt8) (ch : UInt8) : List Nat := positions (fun c => decide (char c = ch.toNat)) s

/-- `&str[i]`, or another pointer if there is no `i`. -/
def pointer (str : UInt32) (i : Option Nat) (other : UInt32) : UInt32 := (i.map fun i => str + UInt32.ofNat i).getD other

theorem pointer_next (str : UInt32) (i : Option Nat) (other : UInt32) :
    pointer str (i.map (· + 1)) other = pointer (str + 1) i other := by
  cases i with
  | none => rfl
  | some i => exact add_ofNat_succ str i

theorem found_cons_eq (s : List UInt8) (c ch : UInt8) (h : char c = ch.toNat) :
    found (c :: s) ch = 0 :: (found s ch).map (· + 1) := by
  unfold found
  rw [positions_cons, if_pos (decide_eq_true h)]

theorem found_cons_ne (s : List UInt8) (c ch : UInt8) (h : char c ≠ ch.toNat) :
    found (c :: s) ch = (found s ch).map (· + 1) := by
  unfold found
  rw [positions_cons, if_neg (by simpa using h)]

theorem strchrs_loop_eq (mem : Mem) (str : UInt32) (s : List UInt8) (ch : UInt8) (fuel : Nat) (h : CStr mem str s)
    (hfuel : s.length < fuel) (cnt : UInt32) :
    strchrs_loop ch fuel mem str cnt = some (cnt + UInt32.ofNat (found s ch).length) := by
  revert cnt
  apply CStr.rounds (motive := fun fuel mem str s =>
    ∀ cnt, strchrs_loop ch fuel mem str cnt = some (cnt + UInt32.ofNat (found s ch).length)) ?_ ?_ fuel h hfuel
  · intro fuel mem str h cnt
    rw [strchrs_loop, if_neg (not_not.mpr h.end_eq)]
    exact congrArg some (UInt32.add_zero cnt).symm
  · intro fuel mem str c s h ih cnt
    rw [strchrs_loop, h.head_eq, if_pos h.head_ne, ih mem h.tail]
    by_cases hc : char c = ch.toNat
    · rw [if_pos hc, found_cons_eq s c ch hc, List.length_cons, List.length_map, add_ofNat_succ]
    · rw [if_neg hc, found_cons_ne s c ch hc, List.length_map]

theorem strchrs_spec (mem : Mem) (str : UInt32) (s : List UInt8) (ch : UInt8) (h : CStr mem str s) :
    Returns s.length (fun fuel => strchrs fuel mem str ch) (UInt32.ofNat (found s ch).length) := by
  refine returns_ASSERT str _ h.not_null (returns_loop fun fuel hfuel => ?_)
  rw [strchrs_loop_eq mem str s ch fuel h hfuel, UInt32.zero_add]

theorem strchr_loop_eq (mem : Mem) (str : UInt32) (s : List UInt8) (ch : UInt8) (fuel : Nat) (h : CStr mem str s)
    (hfuel : s.length < fuel) : strchr_loop ch fuel mem str = some (pointer str (found s ch).head? NULL) := by
  apply CStr.rounds (motive := fun fuel mem str s =>
    strchr_loop ch fuel mem str = some (pointer str (found s ch).head? NULL)) ?_ ?_ fuel h hfuel
  · intro fuel mem str h
    rw [strchr_loop, if_neg (not_not.mpr h.end_eq)]
    rfl
  · intro fuel mem str c s h ih
    rw [strchr_loop, h.head_eq, if_pos h.head_ne]
    by_cases hc : char c = ch.toNat
    · rw [if_pos hc, found_cons_eq s c ch hc, UInt32.add_sub_cancel]
      exact congrArg some (UInt32.add_zero str).symm
    · rw [if_neg hc, found_cons_ne s c ch hc, ih mem h.tail, List.head?_map, pointer_next]

theorem strchr_spec (mem : Mem) (str : UInt32) (s : List UInt8) (ch : UInt8) (h : CStr mem str s) :
    Returns s.length (fun fuel => strchr fuel mem str ch) (pointer str (found s ch).head? NULL) := by
  exact returns_ASSERT str _ h.not_null (returns_loop fun fuel hfuel => strchr_loop_eq mem str s ch fuel h hfuel)

theorem strrchr_loop_eq (mem : Mem) (str : UInt32) (s : List UInt8) (ch : UInt8) (fuel : Nat) (h : CStr mem str s)
    (hfuel : s.length < fuel) (last : UInt32) :
    strrchr_loop ch fuel mem str last = some (pointer str (found s ch).getLast? last) := by
  revert last
  apply CStr.rounds (motive := fun fuel mem str s =>
    ∀ last, strrchr_loop ch fuel mem str last = some (pointer str (found s ch).getLast? last)) ?_ ?_ fuel h hfuel
  · intro fuel mem str h last
    rw [strrchr_loop, if_neg (not_not.mpr h.end_eq)]
    rfl
  · intro fuel mem str c s h ih last
    rw [strrchr_loop, h.head_eq, if_pos h.head_ne, ih mem h.tail]
    by_cases hc : char c = ch.toNat
    · rw [if_pos hc, found_cons_eq s c ch hc, List.getLast?_cons, List.getLast?_map]
      cases (found s ch).getLast? with
      | none => exact congrArg some (UInt32.add_zero str).symm
      | some i => exact congrArg some (add_ofNat_succ str i).symm
    · rw [if_neg hc, found_cons_ne s c ch hc, List.getLast?_map, pointer_next]

theorem strrchr_spec (mem : Mem) (str : UInt32) (s : List UInt8) (ch : UInt8) (h : CStr mem str s) :
    Returns s.length (fun fuel => strrchr fuel mem str ch) (pointer str (found s ch).getLast? NULL) := by
  exact returns_ASSERT str _ h.not_null (returns_loop fun fuel hfuel => strrchr_loop_eq mem str s ch fuel h hfuel NULL)

/-! ## The loops over two strings -/

/-- One byte, and what the others say. -/
theorem memcmp_round (mem : Mem) (size : Nat) (pa pb : UInt32) (o : Ordering)
    (h : (memcmp_loop mem size (pa + 1) (pb + 1)).toInt = sign o) :
    (memcmp_loop mem (size + 1) pa pb).toInt =
      sign ((compare (char (mem pa.toNat)) (char (mem pb.toNat))).then o) := by
  rw [memcmp_loop]
  rcases Int.lt_trichotomy (char (mem pa.toNat)) (char (mem pb.toNat)) with hlt | heq | hgt
  · rw [if_neg (Int.not_lt.mpr (Int.le_of_lt hlt)), if_pos hlt, Int.compare_eq_lt.mpr hlt]
    rfl
  · rw [if_neg (by omega), if_neg (by omega), Int.compare_eq_eq.mpr heq, h]
    rfl
  · rw [if_pos hgt, Int.compare_eq_gt.mpr hgt]
    rfl

/-- What the two functions compare. -/
def chars (s : List UInt8) : List Int := s.map char

theorem strcmp_loop_eq (mem : Mem) (a b : UInt32) (s t : List UInt8) (fuel : Nat) (ha : CStr mem a s)
    (hb : CStr mem b t) (hfuel : s.length < fuel) :
    ∃ v, strcmp_loop fuel mem a b = some v ∧ v.toInt = sign (compare (chars s) (chars t)) := by
  revert b t hb
  apply CStr.rounds (motive := fun fuel mem a s => ∀ b t, CStr mem b t →
    ∃ v, strcmp_loop fuel mem a b = some v ∧ v.toInt = sign (compare (chars s) (chars t))) ?_ ?_ fuel ha hfuel
  · intro fuel mem a ha b t hb
    rw [strcmp_loop, ha.end_eq, if_neg (fun hand => hand.1 rfl), if_neg (not_not.mpr rfl)]
    cases t with
    | nil =>
      rw [hb.end_eq, if_neg (not_not.mpr rfl)]
      exact ⟨0, rfl, rfl⟩
    | cons d t =>
      rw [hb.head_eq, if_pos hb.head_ne]
      exact ⟨-1, rfl, rfl⟩
  · intro fuel mem a c s ha ih b t hb
    rw [strcmp_loop, ha.head_eq]
    cases t with
    | nil =>
      rw [hb.end_eq, if_neg (fun hand => hand.2 rfl), if_pos ha.head_ne]
      exact ⟨1, rfl, rfl⟩
    | cons d t =>
      rw [hb.head_eq, if_pos ⟨ha.head_ne, hb.head_ne⟩]
      unfold chars
      rw [List.map_cons, List.map_cons, List.compare_cons_cons]
      rcases Int.lt_trichotomy (char c) (char d) with hlt | heq | hgt
      · rw [if_neg (Int.not_lt.mpr (Int.le_of_lt hlt)), if_pos hlt, Int.compare_eq_lt.mpr hlt]
        exact ⟨-1, rfl, rfl⟩
      · rw [if_neg (by omega), if_neg (by omega), Int.compare_eq_eq.mpr heq]
        exact ih mem ha.tail (b + 1) t hb.tail
      · rw [if_pos hgt, Int.compare_eq_gt.mpr hgt]
        exact ⟨1, rfl, rfl⟩

/-- `strcmp` orders by the characters. Where one string ends, the longer one is the greater. -/
theorem strcmp_spec (mem : Mem) (a b : UInt32) (s t : List UInt8) (ha : CStr mem a s) (hb : CStr mem b t) :
    ∃ v, Returns s.length (fun fuel => strcmp fuel mem a b) v ∧ v.toInt = sign (compare (chars s) (chars t)) := by
  obtain ⟨v, hv, hsign⟩ := strcmp_loop_eq mem a b s t (s.length + 1) ha hb (Nat.lt_succ_self _)
  refine ⟨v, returns_ASSERT a _ ha.not_null (returns_ASSERT b _ hb.not_null (returns_loop fun fuel hfuel => ?_)), hsign⟩
  obtain ⟨v', hv', hsign'⟩ := strcmp_loop_eq mem a b s t fuel ha hb hfuel
  rw [hv', Int8.toInt_inj.mp (hsign'.trans hsign.symm)]

theorem then_of_ne {o : Ordering} (h : o ≠ .eq) (o₁ o₂ : Ordering) : o.then o₁ = o.then o₂ := by
  cases o with
  | eq => exact absurd rfl h
  | lt | gt => rfl

theorem compare_char_ne (c d : UInt8) (h : c ≠ d) : compare (char c) (char d) ≠ .eq := fun heq =>
  h ((char_inj c d).mp (Std.LawfulEqOrd.eq_of_compare heq))

/-- Over the shorter string and its terminator. -/
theorem memcmp_loop_strings (mem : Mem) (a b : UInt32) (s t : List UInt8) (ha : CStr mem a s) (hb : CStr mem b t) :
    (memcmp_loop mem (min s.length t.length + 1) a b).toInt = sign (compare (chars s ++ [0]) (chars t ++ [0])) := by
  induction s generalizing a b t with
  | nil =>
    rw [List.length_nil, Nat.zero_min, memcmp_round mem 0 a b .eq rfl, ha.end_eq]
    cases t with
    | nil =>
      rw [hb.end_eq]
      rfl
    | cons d t =>
      rw [hb.head_eq, then_of_ne (compare_char_ne 0 d hb.head_ne.symm) .eq (compare [] (chars t ++ [0])),
        ← List.compare_cons_cons]
      rfl
  | cons c s ih =>
    rw [List.length_cons]
    cases t with
    | nil =>
      rw [List.length_nil, Nat.min_zero, memcmp_round mem 0 a b .eq rfl, ha.head_eq, hb.end_eq,
        then_of_ne (compare_char_ne c 0 ha.head_ne) .eq (compare (chars s ++ [0]) []), ← List.compare_cons_cons]
      rfl
    | cons d t =>
      rw [List.length_cons, Nat.add_min_add_right, memcmp_round mem _ a b _ (ih (a + 1) (b + 1) t ha.tail hb.tail),
        ha.head_eq, hb.head_eq, ← List.compare_cons_cons]
      rfl

/-- `memcmp` orders by the characters with the terminator among them. -/
theorem memcmp_strings (mem : Mem) (a b : UInt32) (s t : List UInt8) (ha : CStr mem a s) (hb : CStr mem b t) :
    ∃ v, memcmp mem a b (UInt32.ofNat (min s.length t.length + 1)) = .ok v ∧
      v.toInt = sign (compare (chars s ++ [0]) (chars t ++ [0])) := by
  have hfits := ha.fits
  have hpos : 0 < a.toNat := Nat.pos_of_ne_zero fun h0 => ha.not_null (UInt32.toNat_inj.mp h0)
  have hsize : (UInt32.ofNat (min s.length t.length + 1)).toNat = min s.length t.length + 1 :=
    UInt32.toNat_ofNat_of_lt' (by show _ < 2 ^ 32; omega)
  refine ⟨memcmp_loop mem (min s.length t.length + 1) a b, ?_, memcmp_loop_strings mem a b s t ha hb⟩
  unfold memcmp
  rw [ASSERT_not_null a _ ha.not_null, ASSERT_not_null b _ hb.not_null, hsize]
  rfl

/-! ## The loops over a number of bytes -/

theorem memset_loop_eq (mem : Mem) (p : UInt32) (value : UInt8) (size : Nat) (h : p.toNat + size ≤ 2 ^ 32) :
    memset_loop size mem p value = writeBytes mem p.toNat (List.replicate size value) := by
  induction size generalizing mem p with
  | zero => exact (writeBytes_nil _ _).symm
  | succ size ih =>
    rw [memset_loop, List.replicate_succ, writeBytes_cons]
    rcases Nat.eq_zero_or_pos size with rfl | hpos
    · rw [List.replicate_zero, writeBytes_nil]
      rfl
    · have hnext : (p + 1).toNat = p.toNat + 1 := toNat_add_small p 1 (by omega)
      rw [ih _ (p + 1) (by omega), hnext]

theorem memset_spec (mem : Mem) (dst : UInt32) (value : UInt8) (size : UInt32) (hdst : dst ≠ 0)
    (h : dst.toNat + size.toNat ≤ 2 ^ 32) :
    memset mem dst value size = .ok (writeBytes mem dst.toNat (List.replicate size.toNat value)) := by
  unfold memset
  rw [ASSERT_not_null dst _ hdst, memset_loop_eq mem dst value size.toNat h]
  rfl

theorem memcpy_loop_eq (mem : Mem) (dst src : UInt32) (size : Nat) (hdst : dst.toNat + size ≤ 2 ^ 32)
    (hsrc : src.toNat + size ≤ 2 ^ 32) (hapart : dst.toNat + size ≤ src.toNat ∨ src.toNat + size ≤ dst.toNat) :
    memcpy_loop size mem dst src = writeBytes mem dst.toNat (readBytes mem src.toNat size) := by
  induction size generalizing mem dst src with
  | zero => exact (writeBytes_nil _ _).symm
  | succ size ih =>
    rw [memcpy_loop, readBytes, writeBytes_cons]
    rcases Nat.eq_zero_or_pos size with rfl | hpos
    · rw [readBytes, writeBytes_nil]
      rfl
    · have hd : (dst + 1).toNat = dst.toNat + 1 := toNat_add_small dst 1 (by omega)
      have hs : (src + 1).toNat = src.toNat + 1 := toNat_add_small src 1 (by omega)
      rw [ih _ (dst + 1) (src + 1) (by omega) (by omega) (by omega), hd, hs]
      congr 1
      exact readBytes_congr _ _ _ _ fun x h1 h2 => Function.update_of_ne (by omega) _ _

theorem memcpy_spec (mem : Mem) (dst src size : UInt32) (hd : dst ≠ 0) (hs : src ≠ 0)
    (hdst : dst.toNat + size.toNat ≤ 2 ^ 32) (hsrc : src.toNat + size.toNat ≤ 2 ^ 32)
    (hapart : dst.toNat + size.toNat ≤ src.toNat ∨ src.toNat + size.toNat ≤ dst.toNat) :
    memcpy mem dst src size = .ok (writeBytes mem dst.toNat (readBytes mem src.toNat size.toNat)) := by
  unfold memcpy
  rw [ASSERT_not_null dst _ hd, ASSERT_not_null src _ hs, memcpy_loop_eq mem dst src size.toNat hdst hsrc hapart]
  rfl

theorem memcmp_loop_eq (mem : Mem) (a b : UInt32) (size : Nat) (ha : a.toNat + size ≤ 2 ^ 32)
    (hb : b.toNat + size ≤ 2 ^ 32) :
    (memcmp_loop mem size a b).toInt =
      sign (compare (chars (readBytes mem a.toNat size)) (chars (readBytes mem b.toNat size))) := by
  induction size generalizing a b with
  | zero => rfl
  | succ size ih =>
    rw [readBytes, readBytes]
    unfold chars
    rw [List.map_cons, List.map_cons, List.compare_cons_cons]
    rcases Nat.eq_zero_or_pos size with rfl | hpos
    · exact memcmp_round mem 0 a b .eq rfl
    · have hna : (a + 1).toNat = a.toNat + 1 := toNat_add_small a 1 (by omega)
      have hnb : (b + 1).toNat = b.toNat + 1 := toNat_add_small b 1 (by omega)
      have hrest := ih (a + 1) (b + 1) (by omega) (by omega)
      rw [hna, hnb] at hrest
      exact memcmp_round mem size a b _ hrest

/-- What `memcpy` has copied is the same for `memcmp`. -/
theorem memcmp_memcpy (mem mem' : Mem) (dst src size : UInt32) (hd : dst ≠ 0) (hs : src ≠ 0)
    (hdst : dst.toNat + size.toNat ≤ 2 ^ 32) (hsrc : src.toNat + size.toNat ≤ 2 ^ 32)
    (hapart : dst.toNat + size.toNat ≤ src.toNat ∨ src.toNat + size.toNat ≤ dst.toNat)
    (h : memcpy mem dst src size = .ok mem') : memcmp mem' dst src size = .ok 0 := by
  rw [memcpy_spec mem dst src size hd hs hdst hsrc hapart] at h
  have hmem' := Except.ok.inj h
  have hlen : (readBytes mem src.toNat size.toNat).length = size.toNat := length_readBytes _ _ _
  have hcopied : readBytes mem' dst.toNat size.toNat = readBytes mem src.toNat size.toNat := by
    have hread := readBytes_writeBytes mem dst.toNat (readBytes mem src.toNat size.toNat)
    rwa [hlen, hmem'] at hread
  have hkept : readBytes mem' src.toNat size.toNat = readBytes mem src.toNat size.toNat := by
    rw [← hmem']
    exact readBytes_congr _ _ _ _ fun x h1 h2 => writeBytes_other _ _ _ _ (by omega)
  have hsame := memcmp_loop_eq mem' dst src size.toNat hdst hsrc
  rw [hcopied, hkept, Std.ReflOrd.compare_self] at hsame
  unfold memcmp
  rw [ASSERT_not_null dst _ hd, ASSERT_not_null src _ hs, Int32.toInt_inj.mp (show _ = (0 : Int32).toInt from hsame)]
  rfl

/-! ## The loops that write -/

theorem strcpy_loop_eq (mem : Mem) (dst src : UInt32) (s : List UInt8) (fuel : Nat) (h : CStr mem src s)
    (hfuel : s.length < fuel) (hdst : dst.toNat + s.length < 2 ^ 32)
    (hapart : dst.toNat + s.length ≤ src.toNat ∨ src.toNat + s.length < dst.toNat) :
    strcpy_loop fuel mem dst src = some (writeBytes mem dst.toNat s) := by
  revert dst
  apply CStr.rounds (motive := fun fuel mem src s => ∀ dst : UInt32, dst.toNat + s.length < 2 ^ 32 →
    dst.toNat + s.length ≤ src.toNat ∨ src.toNat + s.length < dst.toNat →
    strcpy_loop fuel mem dst src = some (writeBytes mem dst.toNat s)) ?_ ?_ fuel h hfuel
  · intro fuel mem src h dst hdst hapart
    rw [strcpy_loop, if_neg (not_not.mpr h.end_eq), writeBytes_nil]
  · intro fuel mem src c s h ih dst hdst hapart
    rw [List.length_cons] at hdst hapart
    have hsrc := h.next_toNat
    have hnext : (dst + 1).toNat = dst.toNat + 1 := toNat_add_small dst 1 (by omega)
    have htail : CStr (Function.update mem dst.toNat c) (src + 1) s := h.tail.congr fun x h1 h2 =>
      Function.update_of_ne (by omega) _ _
    rw [strcpy_loop, h.head_eq, if_pos h.head_ne, ih _ htail (dst + 1) (by omega) (by omega), hnext, writeBytes_cons]

/-- The terminator is not copied. -/
theorem strcpy_spec (mem : Mem) (dst src : UInt32) (s : List UInt8) (h : CStr mem src s)
    (hdst : dst.toNat + s.length < 2 ^ 32)
    (hapart : dst.toNat + s.length ≤ src.toNat ∨ src.toNat + s.length < dst.toNat) :
    Returns s.length (fun fuel => strcpy fuel mem dst src) (writeBytes mem dst.toNat s, dst) := by
  refine returns_loop fun fuel hfuel => ?_
  rw [strcpy_loop_eq mem dst src s fuel h hfuel hdst hapart]
  rfl

theorem strcat_end_eq (mem : Mem) (str : UInt32) (s : List UInt8) (fuel : Nat) (h : CStr mem str s)
    (hfuel : s.length < fuel) : strcat_end fuel mem str = some (str + UInt32.ofNat s.length + 1) := by
  apply CStr.rounds (motive := fun fuel mem str s =>
    strcat_end fuel mem str = some (str + UInt32.ofNat s.length + 1)) ?_ ?_ fuel h hfuel
  · intro fuel mem str h
    rw [strcat_end, if_neg (not_not.mpr h.end_eq)]
    exact congrArg (fun x => some (x + 1)) (UInt32.add_zero str).symm
  · intro fuel mem str c s h ih
    rw [strcat_end, h.head_eq, if_pos h.head_ne, ih mem h.tail, List.length_cons, add_ofNat_succ]

theorem strcat_copy_eq (mem : Mem) (str src : UInt32) (s : List UInt8) (fuel : Nat) (h : CStr mem src s)
    (hfuel : s.length < fuel) (hstr : str.toNat + s.length < 2 ^ 32)
    (hapart : str.toNat + s.length < src.toNat ∨ src.toNat + s.length < str.toNat) :
    strcat_copy fuel mem str src = some (writeBytes mem str.toNat (s ++ [0])) := by
  revert str
  apply CStr.rounds (motive := fun fuel mem src s => ∀ str : UInt32, str.toNat + s.length < 2 ^ 32 →
    str.toNat + s.length < src.toNat ∨ src.toNat + s.length < str.toNat →
    strcat_copy fuel mem str src = some (writeBytes mem str.toNat (s ++ [0]))) ?_ ?_ fuel h hfuel
  · intro fuel mem src h str hstr hapart
    rw [strcat_copy, h.end_eq, List.nil_append, writeBytes_cons, writeBytes_nil]
    exact if_neg (not_not.mpr rfl)
  · intro fuel mem src c s h ih str hstr hapart
    rw [List.length_cons] at hstr hapart
    have hsrc := h.next_toNat
    have hnext : (str + 1).toNat = str.toNat + 1 := toNat_add_small str 1 (by omega)
    have htail : CStr (Function.update mem str.toNat c) (src + 1) s := h.tail.congr fun x h1 h2 =>
      Function.update_of_ne (by omega) _ _
    rw [strcat_copy, h.head_eq, List.cons_append, writeBytes_cons, ← hnext, ← ih _ htail (str + 1) (by omega) (by omega)]
    exact if_pos h.head_ne

/-- The terminator is copied, over the one of the first string. -/
theorem strcat_spec (mem : Mem) (dst src : UInt32) (s t : List UInt8) (hdst : CStr mem dst s) (hsrc : CStr mem src t)
    (hfits : dst.toNat + s.length + t.length < 2 ^ 32)
    (hapart : dst.toNat + s.length + t.length < src.toNat ∨ src.toNat + t.length < dst.toNat + s.length) :
    Returns (s.length + t.length) (fun fuel => strcat fuel mem dst src)
      (writeBytes mem (dst.toNat + s.length) (t ++ [0]), dst) := by
  refine returns_ASSERT dst _ hdst.not_null (returns_ASSERT src _ hsrc.not_null (returns_loop fun fuel hfuel => ?_))
  have hend := hdst.at_toNat s.length (Nat.le_refl _)
  rw [strcat_end_eq mem dst s fuel hdst (by omega)]
  show (strcat_copy fuel mem (dst + UInt32.ofNat s.length + 1 - 1) src >>= fun mem => some (mem, dst)) = _
  rw [UInt32.add_sub_cancel, strcat_copy_eq mem _ src t fuel hsrc (by omega) (by omega) (by omega), hend]
  rfl

end OsLearn.Str
