import DSearch.Storage.Signatures

/-! # What the verifier reads from a signature text

`verify_record` and `verify_announcement` slice the text at every even byte offset, which panics inside
a character, and leave out the pieces that do not read as a number. So a text that is not 128
hexadecimal digits passes if its readable pieces are the 64 bytes of a signature. -/

namespace DSearch
set_option autoImplicit false
open Transaction Sign

def IsHex (c : Char) : Prop := ('0' ≤ c ∧ c ≤ '9') ∨ ('a' ≤ c ∧ c ≤ 'f') ∨ ('A' ≤ c ∧ c ≤ 'F')

instance (c : Char) : Decidable (IsHex c) := inferInstanceAs (Decidable (_ ∨ _))

/-- 128 hexadecimal digits. -/
def IsSigText (sig : String) : Prop := sig.toList.length = 128 ∧ ∀ c ∈ sig.toList, IsHex c

/-- An even byte offset of the text is inside a character. -/
def CutsInside (bytes : Bytes) : Prop := ∃ i b, bytes[2 * i]? = some b ∧ isContinuation b = true

/-- The numbers of the pieces that read as one; each piece is two bytes, and the last may be one. -/
def piecesRead : Bytes → Bytes
  | [] => []
  | [a] => (fromStrRadix16 [a]).toList
  | a :: b :: rest => (fromStrRadix16 [a, b]).toList ++ piecesRead rest

theorem cutsInside_cons {a : UInt8} {rest : Bytes} (b : UInt8) :
    CutsInside (a :: b :: rest) ↔ isContinuation a = true ∨ CutsInside rest := by
  constructor
  · rintro ⟨i, c, hc, hcont⟩
    cases i with
    | zero =>
      obtain rfl := Option.some.inj hc
      exact .inl hcont
    | succ i => exact .inr ⟨i, c, hc, hcont⟩
  · rintro (hcont | ⟨i, c, hc, hcont⟩)
    · exact ⟨0, a, rfl, hcont⟩
    · exact ⟨i + 1, c, hc, hcont⟩

theorem cutsInside_singleton (a : UInt8) : CutsInside [a] ↔ isContinuation a = true := by
  constructor
  · rintro ⟨i, c, hc, hcont⟩
    cases i with
    | zero =>
      obtain rfl := Option.some.inj hc
      exact hcont
    | succ i => simp [Nat.mul_succ] at hc
  · intro hcont
    exact ⟨0, a, rfl, hcont⟩

theorem not_cutsInside_nil : ¬ CutsInside [] := by
  rintro ⟨i, c, hc, -⟩
  simp at hc

/-- The decoder panics where it cuts inside a character, and else reads the pieces. -/
theorem parseSigBytes_cases (bytes : Bytes) :
    (CutsInside bytes ∧ parseSigBytes bytes = none) ∨
      (¬ CutsInside bytes ∧ parseSigBytes bytes = some (piecesRead bytes)) := by
  induction bytes using parseSigBytes.induct with
  | case1 => exact .inr ⟨not_cutsInside_nil, rfl⟩
  | case2 a hcont =>
    refine .inl ⟨(cutsInside_singleton a).mpr hcont, ?_⟩
    rw [parseSigBytes, if_pos hcont]
  | case3 a hstart =>
    refine .inr ⟨fun hcut => hstart ((cutsInside_singleton a).mp hcut), ?_⟩
    rw [parseSigBytes, if_neg hstart, piecesRead]
  | case4 a b rest hcont =>
    refine .inl ⟨(cutsInside_cons b).mpr (.inl hcont), ?_⟩
    rw [parseSigBytes, if_pos hcont]
  | case5 a b rest hstart ih =>
    rw [parseSigBytes, if_neg hstart, piecesRead, cutsInside_cons]
    rcases ih with ⟨hcut, hnone⟩ | ⟨hwhole, hsome⟩
    · exact .inl ⟨.inr hcut, by rw [hnone]; rfl⟩
    · exact .inr ⟨fun hcut => hcut.elim hstart hwhole, by rw [hsome]; rfl⟩

/-! ## Verdicts -/

/-- A text that is cut inside a character is a panic; another one is valid if its readable pieces pass
the check. -/
theorem verifySigText_cases (sig : String) (check : Vector UInt8 64 → Bool) (failure : String) :
    (CutsInside (asBytes sig) ∧ Store.verifySigText sig check failure = .panic) ∨
      (¬ CutsInside (asBytes sig) ∧ ∃ result, Store.verifySigText sig check failure = .ok result ∧
        (result.valid = true ↔ ∃ sigBytes : Vector UInt8 64,
          piecesRead (asBytes sig) = sigBytes.toList ∧ check sigBytes = true)) := by
  rcases parseSigBytes_cases (asBytes sig) with ⟨hcut, hparsed⟩ | ⟨hwhole, hparsed⟩
  · exact .inl ⟨hcut, by rw [Store.verifySigText, hparsed]⟩
  · refine .inr ⟨hwhole, ?_⟩
    by_cases hlength : (piecesRead (asBytes sig)).length = 64
    · obtain ⟨sigBytes, hbytes⟩ :
          ∃ sigBytes : Vector UInt8 64, piecesRead (asBytes sig) = sigBytes.toList :=
        ⟨⟨(piecesRead (asBytes sig)).toArray, by simpa using hlength⟩, rfl⟩
      have hvalid : (∃ other : Vector UInt8 64, piecesRead (asBytes sig) = other.toList ∧
          check other = true) ↔ check sigBytes = true := by
        constructor
        · rintro ⟨other, hother, hcheck⟩
          rwa [← Vector.toList_inj.mp (hother.symm.trans hbytes)]
        · intro hcheck
          exact ⟨sigBytes, hbytes, hcheck⟩
      rw [verifySigText_of_parsed (hparsed.trans (by rw [hbytes])), hvalid]
      cases check sigBytes with
      | true => exact ⟨.ok, rfl, by simp [VerifyResult.ok]⟩
      | false => exact ⟨.fail failure, rfl, by simp [VerifyResult.fail]⟩
    · refine ⟨.fail "invalid signature length", ?_, ?_⟩
      · simp only [Store.verifySigText, hparsed, hlength, dite_false]
      · refine iff_of_false Bool.false_ne_true ?_
        rintro ⟨sigBytes, hbytes, -⟩
        exact hlength (by rw [hbytes, Vector.length_toList])

/-- The call returns, and with a valid result only for 128 hexadecimal digits. -/
def ExactVerdict (sig : String) (verdict : Outcome VerifyResult) : Prop :=
  ∃ result, verdict = .ok result ∧ (result.valid = true → IsSigText sig)

/-- No even byte offset is inside a character, and the readable pieces of a text other than 128 digits
are no signature that passes the check. -/
def ReadExactly (sig : String) (check : Vector UInt8 64 → Bool) : Prop :=
  ¬ CutsInside (asBytes sig) ∧ (IsSigText sig ∨ ¬ ∃ sigBytes : Vector UInt8 64,
    piecesRead (asBytes sig) = sigBytes.toList ∧ check sigBytes = true)

theorem verifySigText_exact_iff (sig : String) (check : Vector UInt8 64 → Bool) (failure : String) :
    ExactVerdict sig (Store.verifySigText sig check failure) ↔ ReadExactly sig check := by
  unfold ExactVerdict ReadExactly
  rcases verifySigText_cases sig check failure with
    ⟨hcut, hpanic⟩ | ⟨hwhole, result, hresult, hvalid⟩
  · rw [hpanic]
    simp [hcut]
  · rw [hresult, ← hvalid, or_iff_not_imp_right, not_not, and_iff_right hwhole]
    constructor
    · rintro ⟨other, hother, hexact⟩
      rwa [Outcome.ok.inj hother]
    · intro hexact
      exact ⟨result, rfl, hexact⟩

/-- An announcement whose signature is cut inside its second letter, and a record whose signature has a
piece more than it should. -/
def slicedAnnouncement : Announcement :=
  { recordId := "r1", sourceHash := "src", schema := "wiki", tags := [], holderAddr := "10.0.0.7:4000",
    expiresAt := 0, sig := "aé" }

def paddedRecord : ContentRecord := { storedSigned with sig := storedSigned.sig ++ "zz" }

end DSearch
