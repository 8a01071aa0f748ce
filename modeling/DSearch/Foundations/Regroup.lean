import Mathlib

/-! # Digits of another width

Digits of `w` bits are shifted into a word, and as soon as `v` bits have come that were not given out, a
digit of `v` bits is. The word is never cleared: given-out bits stay above the others until they are
shifted out at its top, so only the pending bits below say anything. -/

namespace DSearch.Regroup
set_option autoImplicit false

/-! ## The number that digits write -/

/-- The first digit is the highest. -/
def value (width : ℕ) (digits : List ℕ) : ℕ := Nat.ofDigits (2 ^ width) digits.reverse

variable {w v word : ℕ}

@[simp] theorem value_nil : value w [] = 0 := by
  simp [value]

theorem value_append (a b : List ℕ) :
    value w (a ++ b) = value w a * 2 ^ (w * b.length) + value w b := by
  rw [value, List.reverse_append, Nat.ofDigits_append, List.length_reverse, ← pow_mul, Nat.mul_comm,
    Nat.add_comm]
  rfl

theorem value_cons (d : ℕ) (digits : List ℕ) :
    value w (d :: digits) = d * 2 ^ (w * digits.length) + value w digits := by
  have happend := value_append (w := w) [d] digits
  have hone : value w [d] = d := by simp [value]
  rwa [hone] at happend

theorem value_concat (digits : List ℕ) (d : ℕ) :
    value w (digits ++ [d]) = value w digits * 2 ^ w + d := by
  rw [value_append, value_cons]
  simp

theorem eq_of_value_eq {a b : List ℕ} (hw : w ≠ 0) (hlength : a.length = b.length)
    (ha : ∀ d ∈ a, d < 2 ^ w) (hb : ∀ d ∈ b, d < 2 ^ w) (h : value w a = value w b) : a = b := by
  refine List.reverse_injective (Nat.ofDigits_inj_of_len_eq (Nat.one_lt_two_pow hw) ?_ ?_ ?_ h)
  · rw [List.length_reverse, List.length_reverse, hlength]
  · exact fun d hd => ha d (List.mem_reverse.mp hd)
  · exact fun d hd => hb d (List.mem_reverse.mp hd)

/-! ## The word -/

/-- A word, the number of its pending bits, and the digits that were given out. -/
structure Buffer where
  acc : ℕ
  bits : ℕ
  out : List ℕ

/-- The next digit is shifted into a word of `word` bits. -/
def Buffer.push (word w v : ℕ) (b : Buffer) (d : ℕ) : Buffer :=
  let acc := (b.acc * 2 ^ w + d) % 2 ^ word
  let bits := b.bits + w
  if v ≤ bits then ⟨acc, bits - v, b.out ++ [acc / 2 ^ (bits - v) % 2 ^ v]⟩
  else ⟨acc, bits, b.out⟩

theorem Buffer.push_of_le {b : Buffer} (h : v ≤ b.bits + w) (d : ℕ) :
    b.push word w v d =
      ⟨(b.acc * 2 ^ w + d) % 2 ^ word, b.bits + w - v,
        b.out ++ [(b.acc * 2 ^ w + d) % 2 ^ word / 2 ^ (b.bits + w - v) % 2 ^ v]⟩ := if_pos h

theorem Buffer.push_of_lt {b : Buffer} (h : b.bits + w < v) (d : ℕ) :
    b.push word w v d = ⟨(b.acc * 2 ^ w + d) % 2 ^ word, b.bits + w, b.out⟩ :=
  if_neg (Nat.not_le.mpr h)

theorem Buffer.push_bits_lt {b : Buffer} (h : b.bits < v) (hw : w ≤ v) (d : ℕ) :
    (b.push word w v d).bits < v := by
  rcases Nat.lt_or_ge (b.bits + w) v with hfew | henough
  · rw [Buffer.push_of_lt hfew]
    exact hfew
  · rw [Buffer.push_of_le henough]
    dsimp only
    omega

/-- What was read is what was given out and the pending bits. -/
structure Holds (w v : ℕ) (read : List ℕ) (b : Buffer) : Prop where
  bits_lt : b.bits < v
  out_lt : ∀ d ∈ b.out, d < 2 ^ v
  length_eq : read.length * w = b.out.length * v + b.bits
  value_eq : value w read = value v b.out * 2 ^ b.bits + b.acc % 2 ^ b.bits

theorem holds_nil (acc : ℕ) (hv : 0 < v) : Holds w v [] ⟨acc, 0, []⟩ where
  bits_lt := hv
  out_lt := by simp
  length_eq := by simp
  value_eq := by simp [Nat.mod_one]

/-- The pending bits after a shift are those before it and the new digit. -/
theorem shift_mod (acc : ℕ) {bits d : ℕ} (hd : d < 2 ^ w) (hword : bits + w ≤ word) :
    (acc * 2 ^ w + d) % 2 ^ word % 2 ^ (bits + w) = acc % 2 ^ bits * 2 ^ w + d := by
  rw [Nat.mod_mod_of_dvd _ (Nat.pow_dvd_pow 2 hword), Nat.add_comm bits w, pow_add, Nat.mod_mul]
  have hlow : (acc * 2 ^ w + d) % 2 ^ w = d := by
    rw [Nat.mul_comm, Nat.mul_add_mod, Nat.mod_eq_of_lt hd]
  have hhigh : (acc * 2 ^ w + d) / 2 ^ w = acc := by
    rw [Nat.mul_comm, Nat.mul_add_div (Nat.two_pow_pos w), Nat.div_eq_of_lt hd, Nat.add_zero]
  rw [hlow, hhigh]
  ring

/-- One digit is given out of the pending bits when they are enough. -/
theorem Holds.push {read : List ℕ} {b : Buffer} (h : Holds w v read b) {d : ℕ} (hd : d < 2 ^ w)
    (hw : w ≤ v) (hword : v + w ≤ word + 1) : Holds w v (read ++ [d]) (b.push word w v d) := by
  have hbits := h.bits_lt
  have hlength := h.length_eq
  have hlow := shift_mod b.acc hd (show b.bits + w ≤ word by omega)
  have hvalue : value w (read ++ [d]) =
      value v b.out * 2 ^ (b.bits + w) +
        (b.acc * 2 ^ w + d) % 2 ^ word % 2 ^ (b.bits + w) := by
    rw [hlow, value_concat, h.value_eq]
    ring
  generalize hacc : (b.acc * 2 ^ w + d) % 2 ^ word = acc at hvalue
  have hread : (read ++ [d]).length * w = read.length * w + w := by
    rw [List.length_append, List.length_singleton, Nat.succ_mul]
  rcases Nat.lt_or_ge (b.bits + w) v with hfew | henough
  · rw [Buffer.push_of_lt hfew, hacc]
    exact ⟨hfew, h.out_lt, by rw [hread, hlength, Nat.add_assoc], hvalue⟩
  · rw [Buffer.push_of_le henough, hacc]
    obtain ⟨rest, hrest⟩ := Nat.exists_eq_add_of_le' henough
    have hleft : b.bits + w - v = rest := by omega
    rw [hrest, pow_add, Nat.mod_mul] at hvalue
    rw [hleft]
    refine ⟨by dsimp only; omega, ?_, ?_, ?_⟩
    · dsimp only
      rw [List.forall_mem_append, List.forall_mem_singleton]
      exact ⟨h.out_lt, Nat.mod_lt _ (Nat.two_pow_pos v)⟩
    · dsimp only
      rw [hread, List.length_append, List.length_singleton, Nat.succ_mul]
      omega
    · dsimp only
      rw [hvalue, value_concat]
      ring

theorem Holds.pushes {read : List ℕ} {b : Buffer} (h : Holds w v read b) {digits : List ℕ}
    (hdigits : ∀ d ∈ digits, d < 2 ^ w) (hw : w ≤ v) (hword : v + w ≤ word + 1) :
    Holds w v (read ++ digits) (digits.foldl (Buffer.push word w v) b) := by
  induction digits generalizing read b with
  | nil =>
    rw [List.append_nil]
    exact h
  | cons d digits ih =>
    obtain ⟨hd, hrest⟩ := List.forall_mem_cons.mp hdigits
    rw [List.foldl_cons, ← List.singleton_append, ← List.append_assoc]
    exact ih (h.push hd hw hword) hrest

/-! ## Padded digits -/

/-- The digits on the left are those on the right and `pad` zero bits. -/
structure Pads (w v pad : ℕ) (a b : List ℕ) : Prop where
  length_eq : a.length * w = b.length * v + pad
  value_eq : value w a = value v b * 2 ^ pad

/-- Without a bit of padding in between, padded digits are put one after the other. -/
theorem Pads.append {pad : ℕ} {a b a' b' : List ℕ} (h : Pads w v 0 a b) (h' : Pads w v pad a' b') :
    Pads w v pad (a ++ a') (b ++ b') where
  length_eq := by
    rw [List.length_append, List.length_append, Nat.add_mul, Nat.add_mul, h.length_eq, h'.length_eq]
    omega
  value_eq := by
    have hlength : w * a'.length = v * b'.length + pad := by
      rw [Nat.mul_comm w, h'.length_eq, Nat.mul_comm v]
    rw [value_append, value_append, h.value_eq, h'.value_eq, hlength]
    ring

/-- What is given out of padded digits are the digits without the padding. -/
theorem Holds.out_eq {pad : ℕ} {read digits : List ℕ} {b : Buffer} (h : Holds w v read b)
    (hpads : Pads w v pad read digits) (hpad : pad < v) (hdigits : ∀ d ∈ digits, d < 2 ^ v) :
    b.out = digits := by
  have hv : 0 < v := Nat.zero_lt_of_lt hpad
  have hsum : b.out.length * v + b.bits = digits.length * v + pad :=
    h.length_eq.symm.trans hpads.length_eq
  have hlength : b.out.length = digits.length := by
    have hdiv := congrArg (· / v) hsum
    simpa only [Nat.mul_comm _ v, Nat.mul_add_div hv, Nat.div_eq_of_lt h.bits_lt,
      Nat.div_eq_of_lt hpad, Nat.add_zero] using hdiv
  have hbits : b.bits = pad := by
    rw [hlength] at hsum
    exact Nat.add_left_cancel hsum
  have hvalue : value v b.out * 2 ^ pad + b.acc % 2 ^ pad = value v digits * 2 ^ pad := by
    rw [← hpads.value_eq, h.value_eq, hbits]
  have hsame : value v b.out = value v digits := by
    have hpos := Nat.two_pow_pos pad
    have hdiv := congrArg (· / 2 ^ pad) hvalue
    simpa only [Nat.mul_comm _ (2 ^ pad), Nat.mul_add_div hpos, Nat.div_eq_of_lt (Nat.mod_lt _ hpos),
      Nat.mul_div_cancel_left _ hpos, Nat.add_zero] using hdiv
  exact eq_of_value_eq (Nat.ne_of_gt hv) hlength h.out_lt hdigits hsame

end DSearch.Regroup
