import OsLearn.Kernel.String

/-!
# `lib/string.c`: what the functions promise together

A string is built with `strcpy` and `strcat`, a byte is searched in three ways, and two functions compare.
-/

open OsLearn.CString

namespace OsLearn.Str

/-! ## Building a string -/

/-- The first bytes of a buffer, enough for both strings. They are not wrapped, and in neither string. -/
structure Buffer (dst a b : UInt32) (s t : List UInt8) : Prop where
  not_null : dst ≠ 0
  fits : dst.toNat + s.length + t.length < 2 ^ 32
  apart_a : dst.toNat + s.length + t.length < a.toNat ∨ a.toNat + s.length < dst.toNat
  apart_b : dst.toNat + s.length + t.length < b.toNat ∨ b.toNat + t.length < dst.toNat

/-- What the memory shows after `strcpy`, and then after `strcat`. -/
structure Built (mem mem₁ mem₂ : Mem) (dst : UInt32) (s t : List UInt8) : Prop where
  copied : CStr mem₁ dst s
  joined : CStr mem₂ dst (s ++ t)
  length : Returns (s.length + t.length) (fun fuel => strlen fuel mem₂ dst) (UInt32.ofNat (s.length + t.length))
  rest₁ : ∀ x, x < dst.toNat ∨ dst.toNat + s.length < x → mem₁ x = mem x
  rest₂ : ∀ x, x < dst.toNat ∨ dst.toNat + s.length + t.length < x → mem₂ x = mem x

/-- `strcpy(dst, a)` and `strcat(dst, b)` build the string. -/
def Builds (mem : Mem) (dst a b : UInt32) (s t : List UInt8) : Prop :=
  ∃ mem₁ mem₂, Returns s.length (fun fuel => strcpy fuel mem dst a) (mem₁, dst) ∧
    Returns (s.length + t.length) (fun fuel => strcat fuel mem₁ dst b) (mem₂, dst) ∧ Built mem mem₁ mem₂ dst s t

variable (mem : Mem) (dst a b : UInt32) (s t : List UInt8)

theorem strcpy_buffer (ha : CStr mem a s) (h : Buffer dst a b s t) :
    Returns s.length (fun fuel => strcpy fuel mem dst a) (writeBytes mem dst.toNat s, dst) := by
  have hfits := h.fits
  have hapart := h.apart_a
  exact strcpy_spec mem dst a s ha (by omega) (by omega)

/-- The byte behind the copy has to be 0 before. -/
theorem nul_of_builds (ha : CStr mem a s) (h : Buffer dst a b s t) (hbuilds : Builds mem dst a b s t) :
    mem (dst.toNat + s.length) = 0 := by
  obtain ⟨mem₁, mem₂, hcpy, -, hbuilt⟩ := hbuilds
  have hmem : mem₁ = writeBytes mem dst.toNat s :=
    congrArg Prod.fst (hcpy.unique (strcpy_buffer mem dst a b s t ha h))
  have hnul := hbuilt.copied.nul
  rwa [hmem, writeBytes_other _ _ _ _ (by omega)] at hnul

/-- If it is 0, the copy has its terminator. -/
theorem copied_of_nul (ha : CStr mem a s) (h : Buffer dst a b s t) (hnul : mem (dst.toNat + s.length) = 0) :
    CStr (writeBytes mem dst.toNat s) dst s where
  not_null := h.not_null
  fits := by
    have hfits := h.fits
    omega
  chars := by
    have hchars := charsAt_writeBytes mem dst.toNat s [] ha.chars.not_mem
    rwa [List.append_nil] at hchars
  nul := by rw [writeBytes_other _ _ _ _ (by omega), hnul]

theorem joined_of_copied (mem₁ : Mem) (h : Buffer dst a b s t) (hdst : CStr mem₁ dst s) (hb : CStr mem₁ b t) :
    CStr (writeBytes mem₁ (dst.toNat + s.length) (t ++ [0])) dst (s ++ t) where
  not_null := h.not_null
  fits := by
    have hfits := h.fits
    rw [List.length_append]
    omega
  chars := by
    rw [charsAt_append]
    refine ⟨hdst.chars.congr fun x _ h2 => writeBytes_other _ _ _ _ (by omega), ?_⟩
    exact charsAt_writeBytes mem₁ _ t [0] hb.chars.not_mem
  nul := by rw [List.length_append, ← Nat.add_assoc, writeBytes_append_end]

/-- **A string is built where the buffer has its terminator.** `strcpy` does not copy it. -/
theorem builds_iff (mem : Mem) (dst a b : UInt32) (s t : List UInt8) (ha : CStr mem a s) (hb : CStr mem b t)
    (h : Buffer dst a b s t) : Builds mem dst a b s t ↔ mem (dst.toNat + s.length) = 0 := by
  refine ⟨nul_of_builds mem dst a b s t ha h, fun hnul => ?_⟩
  have hfits := h.fits
  have hapart := h.apart_b
  have hcopied := copied_of_nul mem dst a b s t ha h hnul
  have hb' : CStr (writeBytes mem dst.toNat s) b t := hb.congr fun x h1 h2 => writeBytes_other _ _ _ _ (by omega)
  have hjoined := joined_of_copied dst a b s t _ h hcopied hb'
  have hcat := strcat_spec _ dst b s t hcopied hb' (by omega) (by omega)
  have hlen := strlen_spec _ dst (s ++ t) hjoined
  rw [List.length_append] at hlen
  refine ⟨_, _, strcpy_buffer mem dst a b s t ha h, hcat, hcopied, hjoined, hlen, fun x hx => ?_, fun x hx => ?_⟩
  · exact writeBytes_other _ _ _ _ (by omega)
  · rw [writeBytes_other _ _ _ _ (by simp; omega), writeBytes_other _ _ _ _ (by omega)]

/-- "a" at 0x10, "b" at 0x20, and a buffer at 0x30. -/
def twoStrings (old : List UInt8) : Mem :=
  writeBytes (writeBytes (writeBytes (fun _ => 0) 0x10 [0x61]) 0x20 [0x62]) 0x30 old

theorem cstr_a (old : List UInt8) : CStr (twoStrings old) 0x10 [0x61] :=
  ⟨by decide, by decide, ⟨by decide, rfl, trivial⟩, rfl⟩

theorem cstr_b (old : List UInt8) : CStr (twoStrings old) 0x20 [0x62] :=
  ⟨by decide, by decide, ⟨by decide, rfl, trivial⟩, rfl⟩

theorem buffer_ab : Buffer 0x30 0x10 0x20 [0x61] [0x62] :=
  ⟨by decide, by decide, .inr (by decide), .inr (by decide)⟩

theorem builds_iff_nul : Builds (twoStrings [0x78, 0, 0x7a]) 0x30 0x10 0x20 [0x61] [0x62] :=
  (builds_iff _ _ _ _ _ _ (cstr_a _) (cstr_b _) buffer_ab).mpr rfl

/-- After `strcpy(dst, "a")` the buffer that was "xyz" is "ayz". -/
theorem strcpy_leaves_tail :
    CStr (twoStrings [0x78, 0x79, 0x7a, 0]) 0x10 [0x61] ∧ CStr (twoStrings [0x78, 0x79, 0x7a, 0]) 0x20 [0x62] ∧
      Buffer 0x30 0x10 0x20 [0x61] [0x62] ∧
      (∃ mem₁, Returns 1 (fun fuel => strcpy fuel (twoStrings [0x78, 0x79, 0x7a, 0]) 0x30 0x10) (mem₁, 0x30) ∧
        CStr mem₁ 0x30 [0x61, 0x79, 0x7a]) ∧
      ¬ Builds (twoStrings [0x78, 0x79, 0x7a, 0]) 0x30 0x10 0x20 [0x61] [0x62] := by
  refine ⟨cstr_a _, cstr_b _, buffer_ab, ⟨_, strcpy_buffer _ _ _ _ _ _ (cstr_a _) buffer_ab, ?_⟩, fun h => ?_⟩
  · exact ⟨by decide, by decide, ⟨by decide, rfl, by decide, rfl, by decide, rfl, trivial⟩, rfl⟩
  · exact absurd (nul_of_builds _ _ _ _ _ _ (cstr_a _) buffer_ab h) (by decide)

/-! ## Searching a byte -/

/-- The positions of a byte. -/
def occurrences (s : List UInt8) (ch : UInt8) : List Nat := positions (fun c => decide (c = ch)) s

/-- What `strchrs`, `strchr` and `strrchr` have to return. -/
structure Finds (str : UInt32) (s : List UInt8) (ch : UInt8) (n p q : UInt32) : Prop where
  number : n.toNat = (occurrences s ch).length
  first : p = pointer str (occurrences s ch).head? NULL
  last : q = pointer str (occurrences s ch).getLast? NULL
  null : p = NULL ∧ q = NULL ↔ n = 0
  coincide : p = q ↔ n.toNat ≤ 1

theorem pointer_inj (str : UInt32) (h : CStr mem str s) (i j : Option Nat) (hi : ∀ k ∈ i, k < s.length)
    (hj : ∀ k ∈ j, k < s.length) : pointer str i NULL = pointer str j NULL ↔ i = j := by
  have hval : ∀ k, k < s.length → (str + UInt32.ofNat k).toNat = str.toNat + k := fun k hk =>
    h.at_toNat k (Nat.le_of_lt hk)
  have hpos : str.toNat ≠ 0 := fun h0 => h.not_null (UInt32.toNat_inj.mp h0)
  refine ⟨fun heq => ?_, fun heq => by rw [heq]⟩
  have hnat := congrArg UInt32.toNat heq
  cases i with
  | none =>
    cases j with
    | none => rfl
    | some j =>
      change 0 = (str + UInt32.ofNat j).toNat at hnat
      rw [hval j (hj j rfl)] at hnat
      omega
  | some i =>
    change (str + UInt32.ofNat i).toNat = _ at hnat
    rw [hval i (hi i rfl)] at hnat
    cases j with
    | none =>
      change _ = 0 at hnat
      omega
    | some j =>
      change _ = (str + UInt32.ofNat j).toNat at hnat
      rw [hval j (hj j rfl)] at hnat
      rw [show i = j by omega]

theorem found_eq_occurrences (ch : UInt8) (h : ch < 0x80 ∨ ch ∉ s) : found s ch = occurrences s ch := by
  refine positions_congr _ _ s fun c hc => decide_eq_decide.mpr ?_
  rw [char_eq_iff]
  refine ⟨And.left, fun heq => ⟨heq, h.resolve_right fun hnot => hnot (heq ▸ hc)⟩⟩

/-- No `char` is a byte from 0x80 on. -/
theorem found_high (ch : UInt8) (h : ¬ ch < 0x80) : found s ch = [] := by
  rw [found, positions_eq_nil]
  intro c _
  exact decide_eq_false fun heq => h ((char_eq_iff c ch).mp heq).2

theorem occurrences_eq_nil (ch : UInt8) (h : occurrences s ch = []) : ch ∉ s := fun hmem =>
  absurd rfl (of_decide_eq_false ((positions_eq_nil _ s).mp h ch hmem))

/-- The searches find the occurrences when they compare as bytes do. -/
theorem finds_of_found (str : UInt32) (ch : UInt8) (h : CStr mem str s) (heq : found s ch = occurrences s ch) :
    Finds str s ch (UInt32.ofNat (found s ch).length) (pointer str (found s ch).head? NULL)
      (pointer str (found s ch).getLast? NULL) := by
  have hlt : ∀ i ∈ found s ch, i < s.length := fun i hi => lt_of_mem_positions _ s i hi
  have hhead : ∀ k ∈ (found s ch).head?, k < s.length := fun k hk => hlt k (List.mem_of_head? hk)
  have hlast : ∀ k ∈ (found s ch).getLast?, k < s.length := fun k hk => hlt k (List.mem_of_getLast? hk)
  have hnone : ∀ k ∈ (none : Option Nat), k < s.length := fun k hk => by contradiction
  have hfits := h.fits
  have hle : (found s ch).length ≤ s.length := by
    have hfilter := List.length_filter_le (fun i => s[i]?.any fun c => decide (char c = ch.toNat)) (List.range s.length)
    rwa [List.length_range] at hfilter
  have hnum : (UInt32.ofNat (found s ch).length).toNat = (found s ch).length :=
    UInt32.toNat_ofNat_of_lt' (by show _ < 2 ^ 32; omega)
  refine ⟨by rw [hnum, heq], by rw [heq], by rw [heq], ?_, ?_⟩
  · have hp : pointer str (found s ch).head? NULL = NULL ↔ (found s ch).head? = none :=
      pointer_inj mem s str h _ none hhead hnone
    have hq : pointer str (found s ch).getLast? NULL = NULL ↔ (found s ch).getLast? = none :=
      pointer_inj mem s str h _ none hlast hnone
    have hn : UInt32.ofNat (found s ch).length = 0 ↔ (found s ch).length = 0 := by
      rw [← UInt32.toNat_inj, hnum]
      rfl
    rw [hp, hq, hn, List.head?_eq_none_iff, List.getLast?_eq_none_iff, List.length_eq_zero_iff, and_self]
  · rw [pointer_inj mem s str h _ _ hhead hlast, hnum]
    exact head?_eq_getLast?_iff _ (nodup_positions _ s)

/-- **The searches agree with byte equality below 0x80.** A byte from 0x80 on is not found. -/
theorem finds_iff (mem : Mem) (str : UInt32) (s : List UInt8) (ch : UInt8) (h : CStr mem str s) :
    ∃ n p q, Returns s.length (fun fuel => strchrs fuel mem str ch) n ∧
      Returns s.length (fun fuel => strchr fuel mem str ch) p ∧
      Returns s.length (fun fuel => strrchr fuel mem str ch) q ∧ (Finds str s ch n p q ↔ ch < 0x80 ∨ ch ∉ s) := by
  refine ⟨_, _, _, strchrs_spec mem str s ch h, strchr_spec mem str s ch h, strrchr_spec mem str s ch h, ?_, ?_⟩
  · intro hfinds
    by_cases hlow : ch < 0x80
    · exact .inl hlow
    · have hnum := hfinds.number
      rw [found_high s ch hlow] at hnum
      exact .inr (occurrences_eq_nil s ch (List.length_eq_zero_iff.mp hnum.symm))
  · intro hcond
    exact finds_of_found mem s str ch h (found_eq_occurrences s ch hcond)

/-- One string of one character, at 0x10. -/
def oneString (c : UInt8) : Mem := writeBytes (fun _ => 0) 0x10 [c]

theorem cstr_one (c : UInt8) (h : c ≠ 0) : CStr (oneString c) 0x10 [c] :=
  ⟨by decide, (by decide : 0x10 + 1 < 2 ^ 32), ⟨h, rfl, trivial⟩, rfl⟩

theorem finds_iff_letter :
    ∃ n p q, Returns 1 (fun fuel => strchrs fuel (oneString 0x61) 0x10 0x61) n ∧
      Returns 1 (fun fuel => strchr fuel (oneString 0x61) 0x10 0x61) p ∧
      Returns 1 (fun fuel => strrchr fuel (oneString 0x61) 0x10 0x61) q ∧ Finds 0x10 [0x61] 0x61 n p q := by
  obtain ⟨n, p, q, hn, hp, hq, hiff⟩ := finds_iff (oneString 0x61) 0x10 [0x61] 0x61 (cstr_one 0x61 (by decide))
  exact ⟨n, p, q, hn, hp, hq, hiff.mpr (.inl (by decide))⟩

/-- The string "\x80" has one byte 0x80, and the searches find none. -/
theorem high_byte_not_found :
    CStr (oneString 0x80) 0x10 [0x80] ∧ (occurrences [0x80] 0x80).length = 1 ∧
      Returns 1 (fun fuel => strchrs fuel (oneString 0x80) 0x10 0x80) 0 ∧
      Returns 1 (fun fuel => strchr fuel (oneString 0x80) 0x10 0x80) NULL ∧
      ¬ ∃ p q, Finds 0x10 [0x80] 0x80 0 p q := by
  have h : CStr (oneString 0x80) 0x10 [0x80] := cstr_one 0x80 (by decide)
  refine ⟨h, by decide, strchrs_spec _ _ _ 0x80 h, strchr_spec _ _ _ 0x80 h, ?_⟩
  rintro ⟨p, q, hfinds⟩
  exact absurd hfinds.number (by decide)

/-! ## Comparing strings -/

/-- `strcmp` is the order `cmp` on a set of strings. -/
structure StrcmpOrders (mem : Mem) (S : UInt32 → List UInt8 → Prop) (cmp : List UInt8 → List UInt8 → Int) :
    Prop where
  strcmp : ∀ a s b t, S a s → S b t →
    ∃ v, Returns s.length (fun fuel => strcmp fuel mem a b) v ∧ v.toInt = cmp s t
  orders : Orders (fun s => ∃ a, S a s) cmp

/-- `memcmp` over the shorter string and its terminator is the same order. -/
structure OneOrder (mem : Mem) (S : UInt32 → List UInt8 → Prop) (cmp : List UInt8 → List UInt8 → Int) : Prop
    extends StrcmpOrders mem S cmp where
  memcmp : ∀ a s b t, S a s → S b t →
    ∃ v, memcmp mem a b (UInt32.ofNat (min s.length t.length + 1)) = .ok v ∧ v.toInt = cmp s t

/-- `t` goes on where `s` ends, with a byte from 0x80 on. -/
def HighAfter (s t : List UInt8) : Prop := Overtakes (fun c => 0x80 ≤ c) s t

theorem chars_injective : Function.Injective chars :=
  List.map_injective_iff.mpr fun c d h => (char_inj c d).mp h

theorem overtakes_chars : Overtakes (fun x => compare x 0 = .lt) (chars s) (chars t) ↔ HighAfter s t := by
  have hlow : (fun c => compare (char c) 0 = .lt) = fun c => 0x80 ≤ c := by
    funext c
    rw [Int.compare_eq_lt, char_neg_iff]
  rw [chars, chars, overtakes_map _ char fun c d h => (char_inj c d).mp h, hlow, HighAfter]

theorem zero_not_mem_chars (p : Nat) (h : CharsAt mem p s) : 0 ∉ chars s := by
  intro hmem
  obtain ⟨c, hc, heq⟩ := List.mem_map.mp hmem
  have h0 : c = 0 := (char_inj c 0).mp heq
  exact h.not_mem (h0 ▸ hc)

/-- The two results are the same unless one string goes on with a high byte where the other one ends. -/
theorem compare_chars_iff (p q : Nat) (hs : CharsAt mem p s) (ht : CharsAt mem q t) :
    compare (chars s ++ [0]) (chars t ++ [0]) = compare (chars s) (chars t) ↔ ¬ HighAfter s t ∧ ¬ HighAfter t s := by
  rw [compare_marked_iff 0 _ _ (zero_not_mem_chars mem s p hs) (zero_not_mem_chars mem t q ht), overtakes_chars,
    overtakes_chars]

def strcmpOrder (s t : List UInt8) : Int := sign (compare (chars s) (chars t))

theorem strcmp_orders (S : UInt32 → List UInt8 → Prop) (hS : ∀ a s, S a s → CStr mem a s) :
    StrcmpOrders mem S strcmpOrder where
  strcmp a s b t ha hb := strcmp_spec mem a b s t (hS a s ha) (hS b t hb)
  orders := orders_sign _ chars chars_injective

/-- **`strcmp` and `memcmp` define one order** on the strings of a set unless one of them goes on with a byte from
0x80 on where another one ends. `strcmp` is an order on all strings. -/
theorem one_order_iff (mem : Mem) (S : UInt32 → List UInt8 → Prop) (hS : ∀ a s, S a s → CStr mem a s) :
    (∃ cmp, StrcmpOrders mem S cmp) ∧
      ((∃ cmp, OneOrder mem S cmp) ↔ ∀ a s b t, S a s → S b t → ¬ HighAfter s t) := by
  refine ⟨⟨strcmpOrder, strcmp_orders mem S hS⟩, ?_, fun h => ⟨strcmpOrder, ?_⟩⟩
  · rintro ⟨cmp, hcmp⟩ a s b t ha hb
    obtain ⟨v, hv, heq⟩ := hcmp.strcmp a s b t ha hb
    obtain ⟨v', hv', heq'⟩ := strcmp_spec mem a b s t (hS a s ha) (hS b t hb)
    obtain ⟨w, hw, hweq⟩ := hcmp.memcmp a s b t ha hb
    obtain ⟨w', hw', hweq'⟩ := memcmp_strings mem a b s t (hS a s ha) (hS b t hb)
    have hvv : v = v' := hv.unique hv'
    have hww : w = w' := Except.ok.inj (hw.symm.trans hw')
    have hsame : compare (chars s ++ [0]) (chars t ++ [0]) = compare (chars s) (chars t) := by
      rw [← sign_inj, ← hweq', ← heq', ← hvv, ← hww, hweq, heq]
    exact ((compare_chars_iff mem s t _ _ (hS a s ha).chars (hS b t hb).chars).mp hsame).1
  · refine ⟨strcmp_orders mem S hS, fun a s b t ha hb => ?_⟩
    obtain ⟨w, hw, hweq⟩ := memcmp_strings mem a b s t (hS a s ha) (hS b t hb)
    have hsame := (compare_chars_iff mem s t _ _ (hS a s ha).chars (hS b t hb).chars).mpr
      ⟨h a s b t ha hb, h b t a s hb ha⟩
    exact ⟨w, hw, by rw [hweq, hsame]; rfl⟩

/-- The strings of `twoStrings`. -/
def IsAOrB (p : UInt32) (s : List UInt8) : Prop := p = 0x10 ∧ s = [0x61] ∨ p = 0x20 ∧ s = [0x62]

theorem one_order_iff_letters : ∃ cmp, OneOrder (twoStrings []) IsAOrB cmp := by
  refine (one_order_iff (twoStrings []) IsAOrB ?_).2.mpr ?_
  · rintro p s (⟨rfl, rfl⟩ | ⟨rfl, rfl⟩)
    · exact cstr_a []
    · exact cstr_b []
  · rintro p s q t (⟨rfl, rfl⟩ | ⟨rfl, rfl⟩) (⟨rfl, rfl⟩ | ⟨rfl, rfl⟩) <;> simp [HighAfter, Overtakes]

/-- The empty string is before "\x80" for `strcmp`, and behind it for `memcmp`. -/
theorem strcmp_ne_memcmp :
    CStr (oneString 0x80) 0x20 [] ∧ CStr (oneString 0x80) 0x10 [0x80] ∧
      Returns 0 (fun fuel => strcmp fuel (oneString 0x80) 0x20 0x10) (-1) ∧
      memcmp (oneString 0x80) 0x20 0x10 (UInt32.ofNat (min 0 1 + 1)) = .ok 1 ∧
      (-1 : Int8).toInt ≠ (1 : Int32).toInt := by
  have ha : CStr (oneString 0x80) 0x20 [] := ⟨by decide, by decide, trivial, rfl⟩
  have hb : CStr (oneString 0x80) 0x10 [0x80] := cstr_one 0x80 (by decide)
  refine ⟨ha, hb, ?_, rfl, by decide⟩
  obtain ⟨v, hv, hsign⟩ := strcmp_spec _ _ _ _ _ ha hb
  have hval : v = -1 := Int8.toInt_inj.mp hsign
  rwa [hval] at hv

end OsLearn.Str
