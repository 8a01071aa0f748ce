import DSearch.Foundations.Regroup
import DSearch.Model.Record

/-! # The base64 decoder of `scraper/job.rs`

`base64_decode` shifts the six bits of each character into a `u32` and takes a byte out of it whenever
eight bits are there. It does not mask the word, so bytes that were taken out stay in it until they are
shifted out at the top. -/

namespace DSearch.Base64
set_option autoImplicit false
open Regroup

def TABLE : Bytes :=
  "ABCDEFGHIJKLMNOPQRSTUVWXYZabcdefghijklmnopqrstuvwxyz0123456789+/".toList.map Char.toUInt8

structure Decoding where
  acc : UInt32
  bits : ℕ
  buf : Bytes

/-- The body of the loop; `ch as u8` keeps the low byte of a character. -/
def Decoding.step (s : Decoding) (ch : Char) : Except String Decoding :=
  match TABLE.findIdx? fun b => b = ch.toUInt8 with
  | none => .error ("invalid base64 char: " ++ String.singleton ch)
  | some val =>
    let acc := (s.acc <<< 6) ||| UInt32.ofNat val
    let bits := s.bits + 6
    if 8 ≤ bits then
      .ok ⟨acc, bits - 8, s.buf ++ [(acc >>> UInt32.ofNat (bits - 8)).toUInt8]⟩
    else .ok ⟨acc, bits, s.buf⟩

def base64Decode (input : String) : Except String Bytes :=
  let input := input.toList.rdropWhile (· = '=')
  if input = [] then .ok []
  else (input.foldlM Decoding.step ⟨0, 0, []⟩).map Decoding.buf

/-! ## The standard encoding: RFC 4648 §4 -/

/-- Three bytes are four groups of six bits; zero bits fill up the last group of one or two bytes. -/
def sextets : Bytes → List ℕ
  | [] => []
  | [a] => [a.toNat / 4, a.toNat % 4 * 16]
  | [a, b] => [a.toNat / 4, a.toNat % 4 * 16 + b.toNat / 16, b.toNat % 16 * 4]
  | a :: b :: c :: rest =>
    [a.toNat / 4, a.toNat % 4 * 16 + b.toNat / 16, b.toNat % 16 * 4 + c.toNat / 64, c.toNat % 64] ++
      sextets rest

def alphabet (n : ℕ) : Char :=
  if n < 26 then Char.ofNat ('A'.toNat + n)
  else if n < 52 then Char.ofNat ('a'.toNat + (n - 26))
  else if n < 62 then Char.ofNat ('0'.toNat + (n - 52))
  else if n = 62 then '+' else '/'

def encoded (bytes : Bytes) : List Char := (sextets bytes).map alphabet

/-- How many `=` stand after the last group. -/
def padding (bytes : Bytes) : ℕ := (3 - bytes.length % 3) % 3

def padded (bytes : Bytes) : List Char := encoded bytes ++ List.replicate (padding bytes) '='

example : encoded [77, 97] = "TWE".toList ∧ padded [77] = "TQ==".toList := by decide

theorem sextets_lt (bytes : Bytes) : ∀ d ∈ sextets bytes, d < 2 ^ 6 := by
  induction bytes using sextets.induct with
  | case1 => simp [sextets]
  | case2 a =>
    have ha := a.toNat_lt
    simp only [sextets, List.forall_mem_cons]
    refine ⟨by omega, by omega, by simp⟩
  | case3 a b =>
    have ha := a.toNat_lt
    have hb := b.toNat_lt
    simp only [sextets, List.forall_mem_cons]
    refine ⟨by omega, by omega, by omega, by simp⟩
  | case4 a b c rest ih =>
    have ha := a.toNat_lt
    have hb := b.toNat_lt
    have hc := c.toNat_lt
    rw [sextets, List.forall_mem_append]
    refine ⟨?_, ih⟩
    simp only [List.forall_mem_cons]
    refine ⟨by omega, by omega, by omega, by omega, by simp⟩

/-- The groups are the bytes and two zero bits for each `=`. -/
theorem pads_sextets (bytes : Bytes) :
    Pads 6 8 (2 * padding bytes) (sextets bytes) (bytes.map UInt8.toNat) := by
  induction bytes using sextets.induct with
  | case1 => exact ⟨rfl, rfl⟩
  | case2 a =>
    have hpadding : padding [a] = 2 := rfl
    constructor
    · rfl
    · simp only [sextets, hpadding, value_cons, value_nil, List.map_cons, List.map_nil,
        List.length_cons, List.length_nil]
      omega
  | case3 a b =>
    have hpadding : padding [a, b] = 1 := rfl
    constructor
    · rfl
    · simp only [sextets, hpadding, value_cons, value_nil, List.map_cons, List.map_nil,
        List.length_cons, List.length_nil]
      omega
  | case4 a b c rest ih =>
    have hpadding : padding (a :: b :: c :: rest) = padding rest := by
      simp only [padding, List.length_cons]
      omega
    have htriple : Pads 6 8 0
        [a.toNat / 4, a.toNat % 4 * 16 + b.toNat / 16, b.toNat % 16 * 4 + c.toNat / 64, c.toNat % 64]
        [a.toNat, b.toNat, c.toNat] := by
      constructor
      · rfl
      · simp only [value_cons, value_nil, List.length_cons, List.length_nil]
        omega
    rw [hpadding, sextets]
    exact htriple.append ih

/-! ## Decoding -/

/-- The state as a word with pending bits. -/
def Decoding.buffer (s : Decoding) : Buffer := ⟨s.acc.toNat, s.bits, s.buf.map UInt8.toNat⟩

/-- The code point of the character for a group of six bits. -/
def codePoint (n : ℕ) : ℕ :=
  if n < 26 then n + 65
  else if n < 52 then n + 71
  else if n < 62 then n - 4
  else if n = 62 then 43 else 47

theorem codePoint_lt (n : ℕ) : codePoint n < 128 := by
  unfold codePoint
  split_ifs <;> omega

theorem codePoint_inj {m n : ℕ} (hm : m < 64) (hn : n < 64) (h : codePoint m = codePoint n) :
    m = n := by
  unfold codePoint at h
  split_ifs at h <;> omega

theorem alphabet_eq (n : ℕ) : alphabet n = Char.ofNat (codePoint n) := by
  unfold alphabet codePoint
  split_ifs with hupper hlower hdigit hplus
  · exact congrArg Char.ofNat (Nat.add_comm 65 n)
  · refine congrArg Char.ofNat ?_
    change 97 + (n - 26) = n + 71
    omega
  · refine congrArg Char.ofNat ?_
    change 48 + (n - 52) = n - 4
    omega
  · rfl
  · rfl

theorem toNat_alphabet (n : ℕ) : (alphabet n).toNat = codePoint n := by
  have hlt := codePoint_lt n
  rw [alphabet_eq, Char.toNat_ofNat, if_pos (.inl (by omega))]

theorem toUInt8_alphabet (n : ℕ) : (alphabet n).toUInt8 = UInt8.ofNat (codePoint n) := by
  rw [← toNat_alphabet]
  rfl

theorem map_toList_ofList {cs : List Char} {bytes : Bytes} (h : cs.map Char.toUInt8 = bytes) :
    (String.ofList cs).toList.map Char.toUInt8 = bytes := by
  rwa [String.toList_ofList]

theorem TABLE_eq : TABLE = (List.range 64).map fun n => UInt8.ofNat (codePoint n) :=
  map_toList_ofList rfl

theorem findIdx?_alphabet {n : ℕ} (h : n < 64) :
    TABLE.findIdx? (fun b => b = (alphabet n).toUInt8) = some n := by
  rw [toUInt8_alphabet, TABLE_eq, List.findIdx?_map, List.findIdx?_eq_some_iff_getElem]
  refine ⟨by simpa using h, by simp, fun m hm => ?_⟩
  simp only [Function.comp_apply, List.getElem_range, decide_eq_true_eq]
  intro heq
  have hcode : codePoint m = codePoint n := by
    have hlt := codePoint_lt m
    have hlt' := codePoint_lt n
    have hnat := congrArg UInt8.toNat heq
    rwa [UInt8.toNat_ofNat_of_lt' (by unfold UInt8.size; omega),
      UInt8.toNat_ofNat_of_lt' (by unfold UInt8.size; omega)] at hnat
  have hmn := codePoint_inj (by omega) h hcode
  omega

theorem alphabet_ne_pad {n : ℕ} (h : n < 64) : alphabet n ≠ '=' := by
  intro hpad
  have hcode : codePoint n = 61 := by
    rw [← toNat_alphabet, hpad]
    rfl
  unfold codePoint at hcode
  split_ifs at hcode <;> omega

/-- The low six bits of the shifted word are free for the new ones. -/
theorem toNat_shift (acc : UInt32) {n : ℕ} (h : n < 2 ^ 6) :
    ((acc <<< 6) ||| UInt32.ofNat n).toNat = (acc.toNat * 2 ^ 6 + n) % 2 ^ 32 := by
  have hn : (UInt32.ofNat n).toNat = n := UInt32.toNat_ofNat_of_lt' (by unfold UInt32.size; omega)
  have hshift : acc.toNat * 2 ^ 6 % 2 ^ 32 = (acc.toNat % 2 ^ 26) <<< 6 := by
    rw [Nat.shiftLeft_eq]
    omega
  calc ((acc <<< 6) ||| UInt32.ofNat n).toNat
      = acc.toNat * 2 ^ 6 % 2 ^ 32 ||| n := by
        rw [UInt32.toNat_or, UInt32.toNat_shiftLeft, hn, Nat.shiftLeft_eq]
        rfl
    _ = (acc.toNat % 2 ^ 26) <<< 6 + n := by rw [hshift, Nat.shiftLeft_add_eq_or_of_lt h]
    _ = (acc.toNat * 2 ^ 6 + n) % 2 ^ 32 := by
        rw [Nat.shiftLeft_eq]
        omega

theorem toNat_shifted_out (acc : UInt32) {bits : ℕ} (h : bits < 32) :
    (acc >>> UInt32.ofNat bits).toUInt8.toNat = acc.toNat / 2 ^ bits % 2 ^ 8 := by
  have hbits : (UInt32.ofNat bits).toNat = bits :=
    UInt32.toNat_ofNat_of_lt' (by unfold UInt32.size; omega)
  rw [UInt32.toNat_toUInt8, UInt32.toNat_shiftRight, hbits, Nat.mod_eq_of_lt h,
    Nat.shiftRight_eq_div_pow]

theorem step_alphabet {s : Decoding} (hbits : s.bits < 8) {n : ℕ} (hn : n < 2 ^ 6) :
    ∃ s', s.step (alphabet n) = .ok s' ∧ s'.buffer = s.buffer.push 32 6 8 n := by
  have hacc := toNat_shift s.acc hn
  rw [Decoding.step, findIdx?_alphabet hn]
  dsimp only
  rcases Nat.lt_or_ge (s.bits + 6) 8 with hfew | henough
  · rw [if_neg (Nat.not_le.mpr hfew), Buffer.push_of_lt hfew]
    refine ⟨_, rfl, ?_⟩
    dsimp only [Decoding.buffer]
    rw [hacc]
  · rw [if_pos henough, Buffer.push_of_le henough]
    refine ⟨_, rfl, ?_⟩
    dsimp only [Decoding.buffer]
    rw [List.map_append, List.map_singleton, toNat_shifted_out _ (by omega), hacc]

/-- The loop is the regrouping of what the characters stand for. -/
theorem foldlM_alphabet {s : Decoding} (hbits : s.bits < 8) {digits : List ℕ}
    (hdigits : ∀ d ∈ digits, d < 2 ^ 6) :
    ∃ s', (digits.map alphabet).foldlM Decoding.step s = .ok s' ∧
      s'.buffer = digits.foldl (Buffer.push 32 6 8) s.buffer := by
  induction digits generalizing s with
  | nil => exact ⟨s, rfl, rfl⟩
  | cons d digits ih =>
    obtain ⟨hd, hrest⟩ := List.forall_mem_cons.mp hdigits
    obtain ⟨next, hstep, hnext⟩ := step_alphabet hbits hd
    have hnextBits : next.bits < 8 := by
      have hpush : (s.buffer.push 32 6 8 d).bits < 8 := Buffer.push_bits_lt hbits (by decide) d
      rwa [← hnext] at hpush
    obtain ⟨last, hrun, hlast⟩ := ih hnextBits hrest
    refine ⟨last, ?_, ?_⟩
    · rw [List.map_cons, List.foldlM_cons, hstep]
      exact hrun
    · rw [hlast, hnext, List.foldl_cons]

theorem rdropWhile_encoded (bytes : Bytes) (n : ℕ) :
    (encoded bytes ++ List.replicate n '=').rdropWhile (· = '=') = encoded bytes := by
  have hpad : ∀ c ∈ List.replicate n '=', decide (c = '=') = true := by
    intro c hc
    rw [List.eq_of_mem_replicate hc]
    rfl
  have hnone : (encoded bytes).reverse.dropWhile (· = '=') = (encoded bytes).reverse := by
    refine List.dropWhile_eq_self_iff.mpr fun hpos => ?_
    have hmem := List.mem_reverse.mp (List.get_mem (encoded bytes).reverse ⟨0, hpos⟩)
    obtain ⟨d, hd, hchar⟩ := List.mem_map.mp hmem
    have hne := alphabet_ne_pad (sextets_lt bytes d hd)
    rw [List.get_eq_getElem] at hchar
    simpa [← hchar] using hne
  rw [List.rdropWhile, List.reverse_append, List.reverse_replicate,
    List.dropWhile_append_of_pos hpad, hnone, List.reverse_reverse]

/-- Any number of `=` may follow the groups. -/
theorem base64Decode_append (bytes : Bytes) (n : ℕ) :
    base64Decode (String.ofList (encoded bytes ++ List.replicate n '=')) = .ok bytes := by
  have hdigits := sextets_lt bytes
  obtain ⟨s, hrun, hbuffer⟩ := foldlM_alphabet (s := ⟨0, 0, []⟩) (by decide) hdigits
  have hholds : Holds 6 8 (sextets bytes) s.buffer := by
    rw [hbuffer]
    exact (holds_nil 0 (by decide)).pushes hdigits (by decide) (by decide)
  have hlt : 2 * padding bytes < 8 := by
    unfold padding
    omega
  have hbytes : ∀ d ∈ bytes.map UInt8.toNat, d < 2 ^ 8 := by
    intro d hd
    obtain ⟨b, -, rfl⟩ := List.mem_map.mp hd
    exact b.toNat_lt
  have hbuf : s.buf = bytes :=
    List.map_injective_iff.mpr (fun _ _ => UInt8.toNat_inj.mp)
      (hholds.out_eq (pads_sextets bytes) hlt hbytes)
  rw [base64Decode, String.toList_ofList, rdropWhile_encoded]
  by_cases hnil : encoded bytes = []
  · -- nothing is decoded, and the loop would give nothing either
    have hempty : sextets bytes = [] := List.map_eq_nil_iff.mp hnil
    rw [hempty] at hrun
    cases hrun
    rw [if_pos hnil, ← hbuf]
  · rw [if_neg hnil, encoded, hrun]
    exact congrArg Except.ok hbuf

example : base64Decode "TWFuTQ==" = .ok [77, 97, 110, 77] :=
  base64Decode_append [77, 97, 110, 77] 2

theorem base64Decode_encoded (bytes : Bytes) :
    base64Decode (String.ofList (encoded bytes)) = .ok bytes ∧
      base64Decode (String.ofList (padded bytes)) = .ok bytes := by
  refine ⟨?_, base64Decode_append bytes (padding bytes)⟩
  have hplain := base64Decode_append bytes 0
  rwa [List.replicate_zero, List.append_nil] at hplain

end DSearch.Base64
