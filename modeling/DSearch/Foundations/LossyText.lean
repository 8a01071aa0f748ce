import DSearch.Foundations.RustText
import DSearch.Foundations.Utf8Text

/-! # What `from_utf8_lossy` reads

Bytes up to some place are read as the characters before it and, where the place is inside a
sequence, a replacement for what is cut. The bytes of a text are read as the text. -/

namespace DSearch.RustText
set_option autoImplicit false
open String Utf8Text

/-! ## Any bytes -/

namespace Decoder

/-- What has been read if no byte follows. -/
def finish (d : Decoder) : List Char :=
  if d.owed = 0 then d.chars else d.chars ++ [replacement]

/-- The decoder with other characters before its own. -/
def onto (before : List Char) (d : Decoder) : Decoder := { d with chars := before ++ d.chars }

/-- No byte below `0x80` goes on with a sequence. -/
def Sound (d : Decoder) : Prop := d.owed ≠ 0 → 0x80 ≤ d.low

theorem first_ascii (chars : List Char) {b : ℕ} (h : b < 0x80) :
    first chars b = ⟨chars ++ [Char.ofNat b], 0, 0, 0, 0⟩ := if_pos h

/-- A sequence after its first byte: it is read as a character, or the rest of it is owed. -/
def Begun (chars : List Char) (d : Decoder) : Prop :=
  (∃ c, d = ⟨chars ++ [c], 0, 0, 0, 0⟩ ∧ c.utf8Size ≤ 3) ∨
    ∃ value owed low high, d = ⟨chars, value, owed + 1, low, high⟩ ∧ 0x80 ≤ low

theorem first_cases (chars : List Char) (b : ℕ) : Begun chars (first chars b) := by
  have hascii : ∀ b < 0x80, (Char.ofNat b).utf8Size ≤ 3 := by decide
  unfold first
  refine iteInduction (fun hb => .inl ⟨_, rfl, hascii b hb⟩) fun _ => ?_
  repeat' refine iteInduction (fun _ => .inr ⟨_, _, _, _, rfl, by decide⟩) fun _ => ?_
  exact .inl ⟨_, rfl, by decide⟩

/-- A byte goes on with the sequence that is owed it, as its last or not, or begins another. -/
theorem step_cases (d : Decoder) (byte : UInt8) :
    d.owed ≠ 0 ∧ d.low ≤ byte.toNat ∧
      ((∃ c, d.step byte = ⟨d.chars ++ [c], 0, 0, 0, 0⟩) ∨
        ∃ value owed, d.step byte = ⟨d.chars, value, owed + 1, 0x80, 0xBF⟩) ∨
    d.step byte = first d.finish byte.toNat := by
  unfold step finish
  dsimp only
  by_cases howed : d.owed = 0
  · exact .inr (by rw [if_pos howed, if_pos howed])
  · rw [if_neg howed, if_neg howed]
    split
    case isTrue hwithin =>
      refine .inl ⟨howed, hwithin.1, ?_⟩
      split
      · exact .inl ⟨_, rfl⟩
      · exact .inr ⟨_, d.owed - 2, by rw [show d.owed - 1 = d.owed - 2 + 1 by omega]⟩
    case isFalse => exact .inr rfl

theorem step_sound (d : Decoder) (byte : UInt8) : (d.step byte).Sound := by
  rcases d.step_cases byte with ⟨-, -, ⟨c, hstep⟩ | ⟨value, owed, hstep⟩⟩ | hstep
  · rw [hstep]
    exact fun howed => absurd rfl howed
  · rw [hstep]
    exact fun _ => le_refl 0x80
  · rw [hstep]
    rcases first_cases d.finish byte.toNat with ⟨c, hfirst, -⟩ | ⟨_, _, low, _, hfirst, hlow⟩
    · rw [hfirst]
      exact fun howed => absurd rfl howed
    · rw [hfirst]
      exact fun _ => hlow

theorem foldl_sound {d : Decoder} (h : d.Sound) (bytes : List UInt8) :
    (bytes.foldl step d).Sound := by
  induction bytes generalizing d with
  | nil => exact h
  | cons byte bytes ih => exact ih (d.step_sound byte)

theorem step_ascii {d : Decoder} (h : d.Sound) {byte : UInt8} (hbyte : byte.toNat < 0x80) :
    d.step byte = ⟨d.finish ++ [Char.ofNat byte.toNat], 0, 0, 0, 0⟩ := by
  rcases d.step_cases byte with ⟨howed, hlow, -⟩ | hstep
  · exact absurd (h howed) (by omega)
  · rw [hstep, first_ascii _ hbyte]

theorem first_onto (before chars : List Char) (b : ℕ) :
    first (before ++ chars) b = (first chars b).onto before := by
  simp only [first, apply_ite (onto before)]
  simp only [onto, List.append_assoc]

theorem step_onto (before : List Char) (d : Decoder) (byte : UInt8) :
    (d.onto before).step byte = (d.step byte).onto before := by
  unfold step
  simp only [onto, List.append_assoc, first_onto]
  split
  · rfl
  split
  · split <;> rfl
  · rfl

theorem foldl_onto (before : List Char) (d : Decoder) (bytes : List UInt8) :
    bytes.foldl step (d.onto before) = (bytes.foldl step d).onto before := by
  induction bytes generalizing d with
  | nil => rfl
  | cons byte bytes ih => rw [List.foldl_cons, step_onto, ih, List.foldl_cons]

theorem finish_onto (before : List Char) (d : Decoder) :
    (d.onto before).finish = before ++ d.finish := by
  unfold finish onto
  split <;> simp only [List.append_assoc]

/-- The characters that have been read stay, and a sequence that has begun becomes at least one. -/
theorem finish_foldl (d : Decoder) (bytes : List UInt8) :
    ∃ after, (bytes.foldl step d).finish = d.chars ++ after ∧ (d.owed ≠ 0 → after ≠ []) := by
  induction bytes generalizing d with
  | nil =>
    by_cases howed : d.owed = 0
    · exact ⟨[], by rw [List.foldl_nil, finish, if_pos howed, List.append_nil],
        fun h => absurd howed h⟩
    · exact ⟨[replacement], by rw [List.foldl_nil, finish, if_neg howed], fun _ => by decide⟩
  | cons byte bytes ih =>
    obtain ⟨after, hafter, howed⟩ := ih (d.step byte)
    rw [List.foldl_cons, hafter]
    rcases d.step_cases byte with ⟨-, -, ⟨c, hstep⟩ | ⟨value, owed, hstep⟩⟩ | hstep
    · exact ⟨c :: after, by rw [hstep, List.append_assoc]; rfl, fun _ => List.cons_ne_nil c after⟩
    · exact ⟨after, by rw [hstep], fun _ => howed (by rw [hstep]; exact Nat.succ_ne_zero owed)⟩
    · have hchars : ∃ more, (d.step byte).chars = d.finish ++ more := by
        rw [hstep]
        rcases first_cases d.finish byte.toNat with ⟨c, hfirst, -⟩ | ⟨_, _, _, _, hfirst, -⟩
        · exact ⟨[c], by rw [hfirst]⟩
        · exact ⟨[], by rw [hfirst, List.append_nil]⟩
      obtain ⟨more, hmore⟩ := hchars
      by_cases howed : d.owed = 0
      · exact ⟨more ++ after, by rw [hmore, finish, if_pos howed, List.append_assoc],
          fun h => absurd howed h⟩
      · exact ⟨replacement :: (more ++ after),
          by rw [hmore, finish, if_neg howed, List.append_assoc, List.append_assoc]; rfl,
          fun _ => List.cons_ne_nil _ _⟩

/-- No byte adds more than three bytes to what has been read. -/
theorem length_encode_finish_step (d : Decoder) (byte : UInt8) :
    (encode (d.step byte).finish).length ≤ (encode d.finish).length + 3 := by
  have hlength : ∀ (cs : List Char) (c : Char),
      (encode (cs ++ [c])).length = (encode cs).length + c.utf8Size := fun cs c => by
    rw [encode_append, List.length_append, encode_cons, encode_nil, List.append_nil,
      length_utf8EncodeChar]
  have hreplacement : replacement.utf8Size = 3 := by decide
  rcases d.step_cases byte with ⟨howed, -, hstep⟩ | hstep
  · have hfinish : d.finish = d.chars ++ [replacement] := if_neg howed
    rw [hfinish, hlength, hreplacement]
    rcases hstep with ⟨c, hstep⟩ | ⟨value, owed, hstep⟩
    · have hc := c.utf8Size_le_four
      rw [hstep, finish, if_pos rfl, hlength]
      omega
    · rw [hstep, finish, if_neg (Nat.succ_ne_zero owed), hlength, hreplacement]
      exact Nat.le_add_right _ 3
  · rw [hstep]
    rcases first_cases d.finish byte.toNat with ⟨c, hfirst, hc⟩ | ⟨_, owed, _, _, hfirst, -⟩
    · rw [hfirst, finish, if_pos rfl, hlength]
      omega
    · rw [hfirst, finish, if_neg (Nat.succ_ne_zero owed), hlength, hreplacement]

theorem length_encode_finish_foldl (d : Decoder) (bytes : List UInt8) :
    (encode (bytes.foldl step d).finish).length ≤ (encode d.finish).length + 3 * bytes.length := by
  induction bytes generalizing d with
  | nil => exact le_refl _
  | cons byte bytes ih =>
    calc (encode ((byte :: bytes).foldl step d).finish).length
        ≤ (encode (d.step byte).finish).length + 3 * bytes.length := ih (d.step byte)
      _ ≤ (encode d.finish).length + 3 + 3 * bytes.length :=
          Nat.add_le_add_right (d.length_encode_finish_step byte) _
      _ = (encode d.finish).length + 3 * (byte :: bytes).length := by
          rw [List.length_cons]
          omega

end Decoder

theorem fromUtf8Lossy_eq (bytes : List UInt8) :
    fromUtf8Lossy bytes = (bytes.foldl Decoder.step ⟨[], 0, 0, 0, 0⟩).finish := rfl

/-- A byte below `0x80` is a character, and what is before it and after it is read apart. -/
theorem fromUtf8Lossy_append_ascii (before : List UInt8) {byte : UInt8} (after : List UInt8)
    (hbyte : byte.toNat < 0x80) :
    fromUtf8Lossy (before ++ byte :: after) =
      fromUtf8Lossy before ++ Char.ofNat byte.toNat :: fromUtf8Lossy after := by
  have hsound := Decoder.foldl_sound (d := ⟨[], 0, 0, 0, 0⟩) (fun howed => absurd rfl howed) before
  have honto := Decoder.foldl_onto (fromUtf8Lossy before ++ [Char.ofNat byte.toNat])
    ⟨[], 0, 0, 0, 0⟩ after
  rw [fromUtf8Lossy_eq, List.foldl_append, List.foldl_cons, Decoder.step_ascii hsound hbyte,
    ← fromUtf8Lossy_eq]
  rw [Decoder.onto, List.append_nil] at honto
  rw [honto, Decoder.finish_onto, ← fromUtf8Lossy_eq, List.append_assoc]
  rfl

theorem fromUtf8Lossy_cons_ascii {byte : UInt8} (after : List UInt8) (hbyte : byte.toNat < 0x80) :
    fromUtf8Lossy (byte :: after) = Char.ofNat byte.toNat :: fromUtf8Lossy after :=
  fromUtf8Lossy_append_ascii [] after hbyte

theorem length_fromUtf8Lossy (bytes : List UInt8) :
    (encode (fromUtf8Lossy bytes)).length ≤ 3 * bytes.length := by
  have hbound := Decoder.length_encode_finish_foldl ⟨[], 0, 0, 0, 0⟩ bytes
  have hstart : (encode (Decoder.finish ⟨[], 0, 0, 0, 0⟩)).length = 0 := rfl
  rwa [hstart, Nat.zero_add, ← fromUtf8Lossy_eq] at hbound

theorem fromUtf8Lossy_ne_nil {bytes : List UInt8} (h : bytes ≠ []) : fromUtf8Lossy bytes ≠ [] := by
  obtain ⟨byte, rest, rfl⟩ := List.exists_cons_of_ne_nil h
  rw [fromUtf8Lossy_eq, List.foldl_cons]
  obtain ⟨after, hafter, howed⟩ := Decoder.finish_foldl (Decoder.step ⟨[], 0, 0, 0, 0⟩ byte) rest
  have hstep : Decoder.step ⟨[], 0, 0, 0, 0⟩ byte = Decoder.first [] byte.toNat := rfl
  rw [hafter]
  rcases Decoder.first_cases [] byte.toNat with ⟨c, hfirst, -⟩ | ⟨_, owed, _, _, hfirst, -⟩
  · rw [hstep, hfirst]
    exact List.cons_ne_nil c after
  · rw [hstep, hfirst] at howed ⊢
    exact howed (Nat.succ_ne_zero owed)

/-- What has been read of the first bytes is the first of the characters, and maybe a replacement
for the next one. -/
theorem fromUtf8Lossy_of_start {bytes whole : List UInt8} (h : bytes <+: whole) :
    ∃ before after tail, fromUtf8Lossy whole = before ++ after ∧
      fromUtf8Lossy bytes = before ++ tail ∧ (tail = [] ∨ after ≠ [] ∧ tail = [replacement]) := by
  obtain ⟨rest, rfl⟩ := h
  obtain ⟨after, hafter, howed⟩ :=
    Decoder.finish_foldl (bytes.foldl Decoder.step ⟨[], 0, 0, 0, 0⟩) rest
  have hwhole : fromUtf8Lossy (bytes ++ rest) =
      (bytes.foldl Decoder.step ⟨[], 0, 0, 0, 0⟩).chars ++ after := by
    rw [fromUtf8Lossy_eq, List.foldl_append, hafter]
  by_cases h : (bytes.foldl Decoder.step ⟨[], 0, 0, 0, 0⟩).owed = 0
  · refine ⟨_, after, [], hwhole, ?_, .inl rfl⟩
    rw [fromUtf8Lossy_eq, Decoder.finish, if_pos h, List.append_nil]
  · refine ⟨_, after, [replacement], hwhole, ?_, .inr ⟨howed h, rfl⟩⟩
    rw [fromUtf8Lossy_eq, Decoder.finish, if_neg h]

/-! ## One character -/

/-- The bytes with which a decoder inside a sequence comes to the end of `c`. -/
inductive Decoder.Awaits (c : Char) : Decoder → List UInt8 → Prop where
  | last {d : Decoder} {b : UInt8} : d.owed = 1 → d.low ≤ b.toNat ∧ b.toNat ≤ d.high →
      d.value * 64 + b.toNat % 64 = c.toNat → Awaits c d [b]
  | more {d : Decoder} {b : UInt8} {rest : List UInt8} : 1 < d.owed →
      d.low ≤ b.toNat ∧ b.toNat ≤ d.high →
      Awaits c ⟨d.chars, d.value * 64 + b.toNat % 64, d.owed - 1, 0x80, 0xBF⟩ rest →
      Awaits c d (b :: rest)

theorem Decoder.Awaits.foldl {c : Char} {d : Decoder} {rest : List UInt8} (h : Awaits c d rest) :
    rest.foldl step d = ⟨d.chars ++ [c], 0, 0, 0, 0⟩ := by
  induction h with
  | last howed hwithin hvalue =>
    simp only [List.foldl_cons, List.foldl_nil, step]
    rw [if_neg (by omega), if_pos hwithin, if_pos howed, hvalue, Char.ofNat_toNat]
  | more howed hwithin _ ih =>
    rw [List.foldl_cons, ← ih]
    simp only [step]
    rw [if_neg (by omega), if_pos hwithin, if_neg (by omega)]

theorem Decoder.Awaits.foldl_start {c : Char} {d : Decoder} {rest bytes : List UInt8}
    (h : Awaits c d rest) (hstart : bytes <+: rest) (hne : bytes ≠ rest) :
    (bytes.foldl step d).chars = d.chars ∧ (bytes.foldl step d).owed ≠ 0 := by
  induction h generalizing bytes with
  | last howed =>
    rcases List.prefix_cons_iff.mp hstart with rfl | ⟨tail, rfl, htail⟩
    · exact ⟨rfl, by simp [howed]⟩
    · obtain rfl := List.prefix_nil.mp htail
      exact absurd rfl hne
  | more howed hwithin _ ih =>
    rcases List.prefix_cons_iff.mp hstart with rfl | ⟨tail, rfl, htail⟩
    · exact ⟨rfl, by simp only [List.foldl_nil]; omega⟩
    · have hstep := ih htail fun heq => hne (by rw [heq])
      rw [List.foldl_cons, step, if_neg (by omega), if_pos hwithin, if_neg (by omega)]
      exact hstep

theorem toNat_byte {n : ℕ} (h : n < 256) : (UInt8.ofNat n).toNat = n :=
  UInt8.toNat_ofNat_of_lt' h

theorem Decoder.first_three (chars : List Char) {b : ℕ} (h : 0xE0 ≤ b ∧ b ≤ 0xEF) :
    first chars b =
      ⟨chars, b % 16, 2, if b = 0xE0 then 0xA0 else 0x80, if b = 0xED then 0x9F else 0xBF⟩ := by
  rw [first, if_neg (by omega), if_neg (by omega)]
  by_cases hlow : b = 0xE0
  · subst hlow
    rfl
  · by_cases hhigh : b = 0xED
    · subst hhigh
      rfl
    · rw [if_neg hlow, if_neg hhigh, if_pos (by omega), if_neg hlow, if_neg hhigh]

theorem Decoder.first_four (chars : List Char) {b : ℕ} (h : 0xF0 ≤ b ∧ b ≤ 0xF4) :
    first chars b =
      ⟨chars, b % 8, 3, if b = 0xF0 then 0x90 else 0x80, if b = 0xF4 then 0x8F else 0xBF⟩ := by
  rw [first, if_neg (by omega), if_neg (by omega), if_neg (by omega), if_neg (by omega),
    if_neg (by omega)]
  by_cases hlow : b = 0xF0
  · subst hlow
    rfl
  · by_cases hhigh : b = 0xF4
    · subst hhigh
      rfl
    · rw [if_neg hlow, if_pos (by omega), if_neg hlow, if_neg hhigh]

/-- A byte that goes on with a sequence gives it six bits more. -/
theorem shift_six (v k : ℕ) : v / (k * 64) * 64 + (v / k % 0x40 + 0x80) % 64 = v / k := by
  rw [← Nat.div_div_eq_div_mul]
  generalize v / k = w
  omega

/-- A character is one byte, or a byte that begins a sequence and the rest of it. -/
theorem utf8EncodeChar_cases (chars : List Char) (c : Char) :
    ∃ b rest, utf8EncodeChar c = b :: rest ∧
      (rest = [] ∧ Decoder.first chars b.toNat = ⟨chars ++ [c], 0, 0, 0, 0⟩ ∨
        (Decoder.first chars b.toNat).chars = chars ∧
          Decoder.Awaits c (Decoder.first chars b.toNat) rest) := by
  have hvalid : c.toNat < 0xD800 ∨ 0xDFFF < c.toNat ∧ c.toNat < 0x110000 := c.valid
  fun_cases utf8EncodeChar
  case case1 v h =>
    refine ⟨_, _, rfl, .inl ⟨rfl, ?_⟩⟩
    have hv : v = c.toNat := rfl
    rw [toNat_byte (by omega), Decoder.first, if_pos (by omega), hv, Char.ofNat_toNat]
  case case2 v h1 h2 =>
    have hv : v = c.toNat := rfl
    have hlead := toNat_byte (n := v / 64 % 0x20 + 0xc0) (by omega)
    have hlast := toNat_byte (n := v % 0x40 + 0x80) (by omega)
    refine ⟨_, _, rfl, .inr ?_⟩
    rw [hlead, Decoder.first, if_neg (by omega), if_pos (by omega)]
    refine ⟨rfl, .last rfl ?_ ?_⟩
    · rw [hlast]
      dsimp only
      omega
    · rw [hlast]
      dsimp only
      omega
  case case3 v h1 h2 h3 =>
    have hv : v = c.toNat := rfl
    have hlead := toNat_byte (n := v / 4096 % 0x10 + 0xe0) (by omega)
    have hmiddle := toNat_byte (n := v / 64 % 0x40 + 0x80) (by omega)
    have hlast := toNat_byte (n := v % 0x40 + 0x80) (by omega)
    refine ⟨_, _, rfl, .inr ?_⟩
    rw [hlead, Decoder.first_three chars (by omega)]
    refine ⟨rfl, .more (by decide : 1 < 2) ?_ (.last rfl ?_ ?_)⟩
    · -- a first byte at the edge leaves no room for a longer form or a surrogate
      rw [hmiddle]
      dsimp only
      split <;> split <;> omega
    · rw [hlast]
      dsimp only
      omega
    · have hfirst : (v / 4096 % 0x10 + 0xe0) % 16 = v / 4096 := by omega
      have hupper : v / 4096 * 64 + (v / 64 % 0x40 + 0x80) % 64 = v / 64 := shift_six v 64
      have hlower : v / 64 * 64 + (v % 0x40 + 0x80) % 64 = v := by omega
      rw [hmiddle, hlast, hfirst]
      dsimp only
      rw [hupper, hlower, hv]
  case case4 v h1 h2 h3 =>
    have hv : v = c.toNat := rfl
    have hlead := toNat_byte (n := v / 262144 % 0x08 + 0xf0) (by omega)
    have hsecond := toNat_byte (n := v / 4096 % 0x40 + 0x80) (by omega)
    have hthird := toNat_byte (n := v / 64 % 0x40 + 0x80) (by omega)
    have hlast := toNat_byte (n := v % 0x40 + 0x80) (by omega)
    refine ⟨_, _, rfl, .inr ?_⟩
    rw [hlead, Decoder.first_four chars (by omega)]
    refine ⟨rfl, .more (by decide : 1 < 3) ?_ (.more (by decide : 1 < 2) ?_ (.last rfl ?_ ?_))⟩
    · -- and here for a longer form or a number above the last character
      rw [hsecond]
      dsimp only
      split <;> split <;> omega
    · rw [hthird]
      dsimp only
      omega
    · rw [hlast]
      dsimp only
      omega
    · have hfirst : (v / 262144 % 0x08 + 0xf0) % 8 = v / 262144 := by omega
      have hupper : v / 262144 * 64 + (v / 4096 % 0x40 + 0x80) % 64 = v / 4096 := shift_six v 4096
      have hmiddle : v / 4096 * 64 + (v / 64 % 0x40 + 0x80) % 64 = v / 64 := shift_six v 64
      have hlower : v / 64 * 64 + (v % 0x40 + 0x80) % 64 = v := by omega
      rw [hsecond, hthird, hlast, hfirst]
      dsimp only
      rw [hupper, hmiddle, hlower, hv]

theorem foldl_step_utf8EncodeChar (chars : List Char) (c : Char) :
    (utf8EncodeChar c).foldl Decoder.step ⟨chars, 0, 0, 0, 0⟩ = ⟨chars ++ [c], 0, 0, 0, 0⟩ := by
  obtain ⟨b, rest, hbytes, ⟨rfl, hfirst⟩ | ⟨hchars, hrest⟩⟩ := utf8EncodeChar_cases chars c
  · rw [hbytes]
    exact hfirst
  · rw [hbytes, List.foldl_cons]
    exact hrest.foldl.trans (by rw [hchars])

/-- A character that is cut has left no character yet. -/
theorem foldl_step_cut (chars : List Char) {c : Char} {part : List UInt8}
    (hstart : part <+: utf8EncodeChar c) (hne : part ≠ []) (hcut : part ≠ utf8EncodeChar c) :
    (part.foldl Decoder.step ⟨chars, 0, 0, 0, 0⟩).chars = chars ∧
      (part.foldl Decoder.step ⟨chars, 0, 0, 0, 0⟩).owed ≠ 0 := by
  obtain ⟨b, rest, hbytes, hrest⟩ := utf8EncodeChar_cases chars c
  rw [hbytes] at hstart hcut
  rcases List.prefix_cons_iff.mp hstart with rfl | ⟨tail, rfl, htail⟩
  · exact absurd rfl hne
  · rcases hrest with ⟨rfl, -⟩ | ⟨hchars, hrest⟩
    · obtain rfl := List.prefix_nil.mp htail
      exact absurd rfl hcut
    · have hstep := hrest.foldl_start htail fun heq => hcut (by rw [heq])
      rw [hchars] at hstep
      exact hstep

/-! ## A text -/

theorem foldl_step_encode (chars cs : List Char) :
    (encode cs).foldl Decoder.step ⟨chars, 0, 0, 0, 0⟩ = ⟨chars ++ cs, 0, 0, 0, 0⟩ := by
  induction cs generalizing chars with
  | nil => rw [encode_nil, List.foldl_nil, List.append_nil]
  | cons c cs ih =>
    rw [encode_cons, List.foldl_append, foldl_step_utf8EncodeChar, ih, List.append_assoc]
    rfl

theorem fromUtf8Lossy_encode (cs : List Char) : fromUtf8Lossy (encode cs) = cs := by
  rw [fromUtf8Lossy, foldl_step_encode, if_pos rfl, List.nil_append]

theorem fromUtf8Lossy_encode_append (cs : List Char) (bytes : List UInt8) :
    fromUtf8Lossy (encode cs ++ bytes) = cs ++ fromUtf8Lossy bytes := by
  have honto := Decoder.foldl_onto cs ⟨[], 0, 0, 0, 0⟩ bytes
  rw [Decoder.onto, List.append_nil] at honto
  rw [fromUtf8Lossy_eq, List.foldl_append, foldl_step_encode, List.nil_append, honto,
    Decoder.finish_onto, ← fromUtf8Lossy_eq]

theorem fromUtf8Lossy_cut (before : List Char) {c : Char} {part : List UInt8}
    (hstart : part <+: utf8EncodeChar c) (hne : part ≠ []) (hcut : part ≠ utf8EncodeChar c) :
    fromUtf8Lossy (encode before ++ part) = before ++ [replacement] := by
  obtain ⟨hchars, howed⟩ := foldl_step_cut before hstart hne hcut
  rw [fromUtf8Lossy, List.foldl_append, foldl_step_encode, List.nil_append]
  rw [if_neg howed, hchars]

/-- The bytes of a text up to some place: the place is between two characters or inside one. -/
theorem prefix_encode_cases {bytes : List UInt8} {cs : List Char} (h : bytes <+: encode cs) :
    (∃ before after, cs = before ++ after ∧ bytes = encode before) ∨
    ∃ before c after part, cs = before ++ c :: after ∧ bytes = encode before ++ part ∧
      part <+: utf8EncodeChar c ∧ part ≠ [] ∧ part ≠ utf8EncodeChar c := by
  induction cs generalizing bytes with
  | nil => exact .inl ⟨[], [], rfl, List.prefix_nil.mp h⟩
  | cons c cs ih =>
    rw [encode_cons] at h
    rcases List.prefix_or_prefix_of_prefix h (List.prefix_append _ _) with hpart | ⟨rest, rfl⟩
    · by_cases hne : bytes = []
      · exact .inl ⟨[], c :: cs, rfl, hne⟩
      by_cases hcut : bytes = utf8EncodeChar c
      · exact .inl ⟨[c], cs, rfl, by rw [hcut, encode_cons, encode_nil, List.append_nil]⟩
      · exact .inr ⟨[], c, cs, bytes, rfl, rfl, hpart, hne, hcut⟩
    · rw [List.prefix_append_right_inj] at h
      rcases ih h with ⟨before, after, rfl, rfl⟩ | ⟨before, d, after, part, rfl, rfl, hpart⟩
      · exact .inl ⟨c :: before, after, rfl, rfl⟩
      · exact .inr ⟨c :: before, d, after, part, rfl, (List.append_assoc _ _ _).symm, hpart⟩

/-- All the bytes of a text have arrived, or all but the last ones of a replacement character at its
end. -/
def Arrived (received : List UInt8) (text : List Char) : Prop :=
  received = encode text ∨
    ∃ before part, text = before ++ [replacement] ∧ part ≠ [] ∧ received = encode before ++ part

theorem Arrived.length_le {received : List UInt8} {text : List Char} (h : Arrived received text) :
    (encode text).length ≤ received.length + 2 := by
  rcases h with rfl | ⟨before, part, rfl, hpart, rfl⟩
  · exact Nat.le_add_right _ 2
  · have hlength := List.length_pos_iff.mpr hpart
    have hreplacement : replacement.utf8Size = 3 := by decide
    rw [encode_append, List.length_append, List.length_append, encode_cons, encode_nil,
      List.append_nil, length_utf8EncodeChar]
    omega

/-- The text is read from the bytes up to some place exactly if it has arrived. -/
theorem fromUtf8Lossy_eq_iff {bytes : List UInt8} {cs : List Char} (h : bytes <+: encode cs) :
    fromUtf8Lossy bytes = cs ↔ Arrived bytes cs := by
  constructor
  · intro heq
    rcases prefix_encode_cases h with ⟨before, after, rfl, rfl⟩ |
      ⟨before, c, after, part, rfl, rfl, hpart, hne, hcut⟩
    · rw [fromUtf8Lossy_encode] at heq
      exact .inl (congrArg encode heq)
    · rw [fromUtf8Lossy_cut before hpart hne hcut] at heq
      exact .inr ⟨before, part, heq.symm, hne, rfl⟩
  · rintro (rfl | ⟨before, part, rfl, hne, rfl⟩)
    · exact fromUtf8Lossy_encode cs
    · rw [encode_append, List.prefix_append_right_inj, encode_cons, encode_nil,
        List.append_nil] at h
      by_cases hcut : part = utf8EncodeChar replacement
      · rw [hcut, ← fromUtf8Lossy_encode (before ++ [replacement]), encode_append, encode_cons,
          encode_nil, List.append_nil]
      · exact fromUtf8Lossy_cut before h hne hcut

end DSearch.RustText
