import Mathlib

/-! # Leading zero bits

Byte strings of one length, in the lexicographic order of their bytes: those with `d` leading zero bits
are those up to a mask, whose first `d` bits are zero and whose other bits are one. -/

namespace DSearch.LeadingZeros
set_option autoImplicit false

/-- The bits of a byte, the highest first. -/
def byteBits (b : UInt8) : List Bool := (List.range 8).map fun i => b.toNat.testBit (7 - i)

def bits (bytes : List UInt8) : List Bool := bytes.flatMap byteBits

/-- The zeros before the first one. -/
def leading (bits : List Bool) : ℕ := (bits.takeWhile fun bit => !bit).length

def leadingZeros (bytes : List UInt8) : ℕ := leading (bits bytes)

/-- The first `d` bits are zero. -/
def mask : ℕ → ℕ → List UInt8
  | 0, _ => []
  | n + 1, d =>
    if 8 ≤ d then 0 :: mask n (d - 8) else UInt8.ofNat (255 >>> d) :: List.replicate n 255

/-! ## One byte -/

theorem leading_map_range {n k : ℕ} {f : ℕ → Bool} (hk : k < n) (hzero : ∀ i < k, f i = false)
    (hone : f k = true) : leading ((List.range n).map f) = k := by
  obtain ⟨m, rfl⟩ := Nat.exists_eq_add_of_lt hk
  have hbefore : ∀ bit ∈ (List.range k).map f, (!bit) = true := by
    intro bit hbit
    obtain ⟨i, hi, rfl⟩ := List.mem_map.mp hbit
    rw [hzero i (List.mem_range.mp hi)]
    rfl
  rw [Nat.add_assoc, List.range_add, List.range_succ_eq_map, List.map_append, leading,
    List.takeWhile_append_of_pos hbefore]
  simp [hone]

/-- After the zeros of a byte comes the highest of its ones. -/
theorem leading_byteBits {b : UInt8} (hb : b ≠ 0) : leading (byteBits b) = 7 - b.toNat.log2 := by
  have hpos : b.toNat ≠ 0 := fun h => hb (UInt8.toNat_inj.mp h)
  have hlog : b.toNat.log2 < 8 := (Nat.log2_lt hpos).mpr b.toNat_lt
  refine leading_map_range (by omega) (fun i hi => ?_) ?_
  · exact Nat.testBit_lt_two_pow ((Nat.log2_lt hpos).mp (by omega))
  · rw [Nat.sub_sub_self (by omega)]
    exact Nat.testBit_log2 hpos

theorem le_leading_byteBits_iff {d : ℕ} (hd : d < 8) (b : UInt8) :
    d ≤ leading (byteBits b) ↔ b ≤ UInt8.ofNat (255 >>> d) := by
  have hmask : (UInt8.ofNat (255 >>> d)).toNat + 1 = 2 ^ (8 - d) := by
    interval_cases d <;> rfl
  rw [UInt8.le_iff_toNat_le]
  by_cases hb : b = 0
  · subst hb
    have hall : leading (byteBits 0) = 8 := by decide
    exact iff_of_true (by omega) (Nat.zero_le _)
  · have hpos : b.toNat ≠ 0 := fun h => hb (UInt8.toNat_inj.mp h)
    have hlog : b.toNat.log2 < 8 := (Nat.log2_lt hpos).mpr b.toNat_lt
    have hbits := Nat.log2_lt (k := 8 - d) hpos
    rw [leading_byteBits hb]
    omega

theorem leading_byteBits_lt {b : UInt8} (hb : b ≠ 0) : leading (byteBits b) < 8 := by
  rw [leading_byteBits hb]
  omega

/-! ## Byte strings -/

theorem leadingZeros_zero_cons (bytes : List UInt8) :
    leadingZeros (0 :: bytes) = 8 + leadingZeros bytes := by
  have hzero : ∀ bit ∈ byteBits 0, (!bit) = true := by decide
  rw [leadingZeros, bits, List.flatMap_cons, leading, List.takeWhile_append_of_pos hzero,
    List.length_append]
  rfl

theorem leadingZeros_cons {b : UInt8} (hb : b ≠ 0) (bytes : List UInt8) :
    leadingZeros (b :: bytes) = leading (byteBits b) := by
  have hlt := leading_byteBits_lt hb
  rw [leadingZeros, bits, List.flatMap_cons, leading, List.takeWhile_append, if_neg]
  · rfl
  · exact hlt.ne

theorem cons_le_cons_of_le {xs ys : List UInt8} (h : xs ≤ ys) {a b : UInt8} :
    a :: xs ≤ b :: ys ↔ a ≤ b := by
  rw [List.cons_le_cons_iff, and_iff_left h, UInt8.le_iff_lt_or_eq]

theorem le_replicate_max (bytes : List UInt8) : bytes ≤ List.replicate bytes.length 255 := by
  induction bytes with
  | nil => exact List.nil_le _
  | cons b bytes ih =>
    rw [List.length_cons, List.replicate_succ, cons_le_cons_of_le ih, UInt8.le_iff_toNat_le]
    have hb := b.toNat_lt
    exact Nat.le_of_lt_succ hb

/-- A byte string is at most the mask of `d` bits if it has so many leading zeros. -/
theorem le_mask_iff {bytes : List UInt8} {n d : ℕ} (hlength : bytes.length = n) (hd : d ≤ 8 * n) :
    bytes ≤ mask n d ↔ d ≤ leadingZeros bytes := by
  subst hlength
  induction bytes generalizing d with
  | nil =>
    obtain rfl : d = 0 := by simpa using hd
    exact iff_of_true (List.nil_le _) (Nat.zero_le _)
  | cons b bytes ih =>
    rw [List.length_cons] at hd
    rw [List.length_cons, mask]
    by_cases hfull : 8 ≤ d
    · rw [if_pos hfull, List.cons_le_cons_iff]
      by_cases hb : b = 0
      · subst hb
        rw [leadingZeros_zero_cons, ih (by omega)]
        have hirrefl : ¬ (0 : UInt8) < 0 := by decide
        simp only [hirrefl, true_and, false_or]
        omega
      · have hlt := leading_byteBits_lt hb
        rw [leadingZeros_cons hb]
        refine iff_of_false ?_ (by omega)
        rintro (hbelow | ⟨hzero, -⟩)
        · exact UInt8.not_lt_zero hbelow
        · exact hb hzero
    · -- the rest of the mask is the greatest byte string of its length
      have hbyte : d ≤ leadingZeros (b :: bytes) ↔ d ≤ leading (byteBits b) := by
        by_cases hb : b = 0
        · subst hb
          rw [leadingZeros_zero_cons]
          have hzero : leading (byteBits 0) = 8 := by decide
          omega
        · rw [leadingZeros_cons hb]
      rw [if_neg hfull, cons_le_cons_of_le (le_replicate_max bytes), hbyte,
        le_leading_byteBits_iff (by omega)]

theorem getElem?_mask {n : ℕ} (d : ℕ) {i : ℕ} (hi : i < n) : (mask n d)[i]? =
    some (if i < d / 8 then 0 else if i = d / 8 then UInt8.ofNat (255 >>> (d % 8)) else 255) := by
  induction n generalizing d i with
  | zero => omega
  | succ n ih =>
    rw [mask]
    by_cases hfull : 8 ≤ d
    · rw [if_pos hfull]
      cases i with
      | zero =>
        rw [if_pos (by omega)]
        rfl
      | succ i =>
        rw [List.getElem?_cons_succ, ih (d - 8) (by omega)]
        have hdiv : (d - 8) / 8 + 1 = d / 8 := by omega
        have hmod : (d - 8) % 8 = d % 8 := by omega
        rw [hmod, ← hdiv]
        simp only [Nat.add_lt_add_iff_right, Nat.add_right_cancel_iff]
    · have hdiv : d / 8 = 0 := by omega
      have hmod : d % 8 = d := by omega
      rw [if_neg hfull, hdiv, hmod]
      cases i with
      | zero => rfl
      | succ i =>
        rw [List.getElem?_cons_succ, List.getElem?_replicate, if_pos (by omega)]
        rfl

theorem length_mask (n d : ℕ) : (mask n d).length = n := by
  induction n generalizing d with
  | zero => rfl
  | succ n ih =>
    rw [mask]
    split
    · rw [List.length_cons, ih]
    · rw [List.length_cons, List.length_replicate]

theorem getElem_mask {n d i : ℕ} (h : i < (mask n d).length) : (mask n d)[i] =
    if i < d / 8 then 0 else if i = d / 8 then UInt8.ofNat (255 >>> (d % 8)) else 255 := by
  have hget := getElem?_mask d (length_mask n d ▸ h)
  rwa [List.getElem?_eq_getElem h, Option.some.injEq] at hget

end DSearch.LeadingZeros
