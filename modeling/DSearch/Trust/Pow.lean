import DSearch.Foundations.LeadingZeros
import DSearch.Trust.Sign

/-! # Proof of work: `trust/pow.rs`

`blake3` is a parameter, a function to 32 bytes. The threshold of a difficulty is the greatest hash with
so many leading zero bits, and a hash is compared with it byte by byte. -/

namespace DSearch.Pow
set_option autoImplicit false
open LeadingZeros

def MAX_NONCE : ℕ := 10_000_000

structure PowSolution where
  nonce : UInt64
  difficulty : UInt8
  hash : Vector UInt8 32

variable (blake3 : Bytes → Vector UInt8 32)

def toLeBytes (nonce : UInt64) : Bytes :=
  (List.range 8).map fun i => UInt8.ofNat (nonce.toNat >>> (8 * i))

def hashPow (input : Bytes) (nonce : UInt64) : Vector UInt8 32 := blake3 (input ++ toLeBytes nonce)

def difficultyToThreshold (difficulty : UInt8) : Option (Vector UInt8 32) :=
  if difficulty = 255 then none
  else
    let fullBytes := (difficulty / 8).toNat
    let remainingBits := difficulty % 8
    let threshold := (Vector.replicate 32 (0xFF : UInt8)).mapIdx fun i byte =>
      if i < fullBytes then 0x00 else byte
    if h : remainingBits > 0 ∧ fullBytes < 32 then
      some (threshold.set fullBytes (0xFF >>> remainingBits) h.2)
    else some threshold

/-- The loop of `meets_difficulty` over the bytes that are left. -/
def meetsFrom : List UInt8 → List UInt8 → Bool
  | h :: hash, t :: threshold =>
    if h < t then true else if h > t then false else meetsFrom hash threshold
  | _, _ => true

def meetsDifficulty (hash threshold : Vector UInt8 32) : Bool :=
  meetsFrom hash.toList threshold.toList

/-- `mine_pow` with so many nonces to go. -/
def mineFrom (input : Bytes) (difficulty : UInt8) (threshold : Vector UInt8 32) :
    ℕ → ℕ → Option PowSolution
  | 0, _ => none
  | left + 1, nonce =>
    let hash := hashPow blake3 input (UInt64.ofNat nonce)
    if meetsDifficulty hash threshold then some ⟨UInt64.ofNat nonce, difficulty, hash⟩
    else mineFrom input difficulty threshold left (nonce + 1)

def minePow (input : Bytes) (difficulty : UInt8) : Option PowSolution :=
  (difficultyToThreshold difficulty).bind fun threshold =>
    mineFrom blake3 input difficulty threshold MAX_NONCE 0

def verifyPow (input : Bytes) (solution : PowSolution) : Bool :=
  let hash := hashPow blake3 input solution.nonce
  if hash ≠ solution.hash then false
  else
    match difficultyToThreshold solution.difficulty with
    | some threshold => meetsDifficulty hash threshold
    | none => false

example : (difficultyToThreshold 12).map Vector.toList = some (0 :: 15 :: List.replicate 30 255) := by
  decide +kernel

/-! ## The threshold -/

theorem meetsFrom_iff {hash threshold : List UInt8} (hlength : hash.length = threshold.length) :
    meetsFrom hash threshold = true ↔ hash ≤ threshold := by
  induction hash generalizing threshold with
  | nil => exact iff_of_true rfl (List.nil_le _)
  | cons h hash ih =>
    obtain ⟨t, threshold, rfl⟩ := List.exists_cons_of_length_eq_add_one hlength.symm
    rw [List.length_cons, List.length_cons, Nat.add_right_cancel_iff] at hlength
    rw [meetsFrom, List.cons_le_cons_iff, ← ih hlength]
    by_cases hlt : h < t
    · simp [hlt]
    · by_cases hgt : h > t
      · have hne : h ≠ t := fun heq => UInt8.lt_irrefl t (heq ▸ hgt)
        simp [hlt, hgt, hne]
      · have heq : h = t := UInt8.le_antisymm (UInt8.not_lt.mp hgt) (UInt8.not_lt.mp hlt)
        simp [heq]

theorem shiftRight_eq {bits : UInt8} (h : bits.toNat < 8) :
    (0xFF : UInt8) >>> bits = UInt8.ofNat (255 >>> bits.toNat) := by
  rw [← UInt8.toNat_inj, UInt8.toNat_shiftRight, Nat.mod_eq_of_lt h, UInt8.toNat_ofNat']
  exact (Nat.mod_eq_of_lt (Nat.lt_of_le_of_lt (Nat.shiftRight_le _ _) (by decide))).symm

/-- A threshold is the mask of its difficulty. -/
theorem difficultyToThreshold_eq {difficulty : UInt8} (h : difficulty ≠ 255) :
    ∃ threshold, difficultyToThreshold difficulty = some threshold ∧
      threshold.toList = mask 32 difficulty.toNat := by
  have hdiv : (difficulty / 8).toNat = difficulty.toNat / 8 := rfl
  have hmod : (difficulty % 8).toNat = difficulty.toNat % 8 := rfl
  have hlt := difficulty.toNat_lt
  have hshift : (0xFF : UInt8) >>> (difficulty % 8) =
      UInt8.ofNat (255 >>> (difficulty % 8).toNat) := shiftRight_eq (by omega)
  rw [difficultyToThreshold, if_neg h]
  dsimp only
  split
  · next hrest =>
    refine ⟨_, rfl, List.ext_getElem (by simp [length_mask]) fun i hi hi' => ?_⟩
    rw [getElem_mask, Vector.getElem_toList, Vector.getElem_set, Vector.getElem_mapIdx,
      Vector.getElem_replicate, hshift, hdiv, hmod]
    rcases Nat.lt_trichotomy i (difficulty.toNat / 8) with hbefore | heq | hafter
    · rw [if_neg (by omega), if_pos hbefore, if_pos hbefore]
    · rw [if_pos heq.symm, if_neg (by omega), if_pos heq]
    · rw [if_neg (by omega), if_neg (by omega), if_neg (by omega), if_neg (by omega)]
  · next hrest =>
    -- no bits are left for the byte after the full ones
    have hnone : difficulty.toNat % 8 = 0 := by
      by_contra hsome
      refine hrest ⟨UInt8.lt_iff_toNat_lt.mpr ?_, ?_⟩
      · rw [hmod]
        exact Nat.pos_of_ne_zero hsome
      · rw [hdiv]
        omega
    refine ⟨_, rfl, List.ext_getElem (by simp [length_mask]) fun i hi hi' => ?_⟩
    rw [getElem_mask, Vector.getElem_toList, Vector.getElem_mapIdx, Vector.getElem_replicate, hdiv,
      hnone]
    split
    · rfl
    · split
      · rfl
      · rfl

/-- A hash meets a difficulty if it has so many leading zero bits. -/
theorem meetsDifficulty_iff {difficulty : UInt8} (h : difficulty ≠ 255) :
    ∃ threshold, difficultyToThreshold difficulty = some threshold ∧
      ∀ hash, meetsDifficulty hash threshold = true ↔
        difficulty.toNat ≤ leadingZeros hash.toList := by
  obtain ⟨threshold, hthreshold, hmask⟩ := difficultyToThreshold_eq h
  refine ⟨threshold, hthreshold, fun hash => ?_⟩
  have hlt := difficulty.toNat_lt
  rw [meetsDifficulty, meetsFrom_iff (by rw [Vector.length_toList, Vector.length_toList]), hmask,
    le_mask_iff Vector.length_toList (by omega)]

/-! ## Mining and verifying -/

variable {blake3}

/-- The nonce that is found is the first one whose hash meets the threshold. -/
theorem mineFrom_spec {input : Bytes} {difficulty : UInt8} {threshold : Vector UInt8 32}
    {solution : PowSolution} {left nonce : ℕ}
    (h : mineFrom blake3 input difficulty threshold left nonce = some solution) :
    ∃ found < nonce + left, solution = ⟨.ofNat found, difficulty, hashPow blake3 input (.ofNat found)⟩ ∧
      meetsDifficulty solution.hash threshold = true ∧
      ∀ earlier, nonce ≤ earlier → earlier < found →
        meetsDifficulty (hashPow blake3 input (.ofNat earlier)) threshold = false := by
  induction left generalizing nonce with
  | zero => cases h
  | succ left ih =>
    rw [mineFrom] at h
    split at h
    · next hmeets =>
      cases h
      exact ⟨nonce, by omega, rfl, hmeets, fun earlier hle hlt => absurd hlt (by omega)⟩
    · next hmeets =>
      obtain ⟨found, hfound, hsolution, hsolves, hfirst⟩ := ih h
      refine ⟨found, by omega, hsolution, hsolves, fun earlier hle hlt => ?_⟩
      rcases hle.lt_or_eq with hafter | rfl
      · exact hfirst earlier hafter hlt
      · exact Bool.eq_false_of_not_eq_true hmeets

theorem verifyPow_iff {input : Bytes} {solution : PowSolution} (h : solution.difficulty ≠ 255) :
    verifyPow blake3 input solution = true ↔
      solution.hash = hashPow blake3 input solution.nonce ∧
        solution.difficulty.toNat ≤ leadingZeros solution.hash.toList := by
  obtain ⟨threshold, hthreshold, hmeets⟩ := meetsDifficulty_iff h
  rw [verifyPow]
  by_cases hhash : hashPow blake3 input solution.nonce = solution.hash
  · rw [if_neg (not_not_intro hhash), hthreshold, hhash]
    dsimp only
    rw [hmeets]
    exact (and_iff_right rfl).symm
  · rw [if_pos hhash]
    exact iff_of_false Bool.false_ne_true fun hboth => hhash hboth.1.symm

theorem proof_of_work (blake3 : Bytes → Vector UInt8 32) {difficulty : UInt8}
    (h : difficulty.toNat ≤ 254) :
    (∃ threshold, difficultyToThreshold difficulty = some threshold ∧
      ∀ hash, meetsDifficulty hash threshold = true ↔
        difficulty.toNat ≤ leadingZeros hash.toList) ∧
    (∀ input solution, minePow blake3 input difficulty = some solution →
      verifyPow blake3 input solution = true ∧ solution.difficulty = difficulty ∧
        ∀ nonce < solution.nonce,
          ¬ difficulty.toNat ≤ leadingZeros (hashPow blake3 input nonce).toList) ∧
    (∀ input solution, solution.difficulty = difficulty → verifyPow blake3 input solution = true →
      solution.hash = hashPow blake3 input solution.nonce ∧
        difficulty.toNat ≤ leadingZeros solution.hash.toList) := by
  have hne : difficulty ≠ 255 := by
    rintro rfl
    exact absurd h (by decide)
  obtain ⟨threshold, hthreshold, hmeets⟩ := meetsDifficulty_iff hne
  refine ⟨⟨threshold, hthreshold, hmeets⟩, fun input solution hmined => ?_, ?_⟩
  · rw [minePow, hthreshold, Option.bind_some] at hmined
    obtain ⟨found, hfound, rfl, hsolves, hfirst⟩ := mineFrom_spec hmined
    refine ⟨(verifyPow_iff hne).mpr ⟨rfl, (hmeets _).mp hsolves⟩, rfl, fun nonce hnonce hzeros => ?_⟩
    have hbound : found < 2 ^ 64 := by
      unfold MAX_NONCE at hfound
      omega
    rw [UInt64.lt_iff_toNat_lt, UInt64.toNat_ofNat', Nat.mod_eq_of_lt hbound] at hnonce
    have hearlier := hfirst nonce.toNat (Nat.zero_le _) hnonce
    rw [UInt64.ofNat_toNat, (hmeets _).mpr hzeros] at hearlier
    cases hearlier
  · rintro input solution rfl hverified
    exact (verifyPow_iff hne).mp hverified

/-- A hash of zeros for the nonces whose bytes have the sum 2. -/
def sumHash (bytes : Bytes) : Vector UInt8 32 := .replicate 32 (if bytes.sum = 2 then 0 else 255)

theorem proof_of_work_secondNonce :
    verifyPow sumHash [] ⟨2, 16, .replicate 32 0⟩ = true ∧
      ∀ nonce < 2, ¬ 16 ≤ leadingZeros (hashPow sumHash [] nonce).toList := by
  obtain ⟨-, hmined, -⟩ := proof_of_work sumHash (show (16 : UInt8).toNat ≤ 254 by decide)
  obtain ⟨hverified, -, hfirst⟩ := hmined [] ⟨2, 16, .replicate 32 0⟩ (by rfl)
  exact ⟨hverified, hfirst⟩

end DSearch.Pow
