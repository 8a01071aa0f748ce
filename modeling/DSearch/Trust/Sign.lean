import DSearch.Model.Record

/-! # Signatures of records and announcements: `trust/sign.rs`

A signature covers the canonical encoding of every field but `sig`. The signature scheme itself is
`ed25519_dalek`, which is not part of the repository: it is a parameter, of which only the one law is
used that a signature verifies under the key of its signer. -/

namespace DSearch
set_option autoImplicit false

/-- The part of `ed25519_dalek` that the code uses. -/
structure Ed25519 where
  SigningKey : Type
  VerifyingKey : Type
  verifyingKey : SigningKey → VerifyingKey
  sign : SigningKey → Bytes → Vector UInt8 64
  verify : VerifyingKey → Bytes → Vector UInt8 64 → Bool
  verify_sign : ∀ key message, verify (verifyingKey key) message (sign key message) = true

/-- A stand-in for concrete runs: a checksum of key and message, 64 times. -/
def Ed25519.checksum : Ed25519 where
  SigningKey := UInt8
  VerifyingKey := UInt8
  verifyingKey := id
  sign key message := Vector.replicate 64 (key + message.sum)
  verify key message sig := sig == Vector.replicate 64 (key + message.sum)
  verify_sign _ _ := by simp

namespace Sign

/-- `(len as u32).to_be_bytes()`. -/
def lengthPrefix (len : ℕ) : Bytes :=
  [UInt8.ofNat (len / 2 ^ 24), UInt8.ofNat (len / 2 ^ 16), UInt8.ofNat (len / 2 ^ 8), UInt8.ofNat len]

/-- Fields in order, each length-prefixed (u32 BE). -/
def canonicalEncodeFields (fields : List Bytes) : Bytes :=
  fields.flatMap fun field => lengthPrefix field.length ++ field

structure RecordFields where
  id : Bytes
  sourceUrl : Bytes
  sourceHash : Bytes
  schema : Bytes
  tags : Bytes
  body : Bytes
  createdAt : Bytes
  expiresAt : Bytes
  scrapeSource : Bytes
  refreshPolicy : Bytes
  deriving DecidableEq, Repr

def RecordFields.encode (fields : RecordFields) : Bytes :=
  canonicalEncodeFields [fields.id, fields.sourceUrl, fields.sourceHash, fields.schema, fields.tags,
    fields.body, fields.createdAt, fields.expiresAt, fields.scrapeSource, fields.refreshPolicy]

structure AnnouncementFields where
  recordId : Bytes
  sourceHash : Bytes
  schema : Bytes
  tags : Bytes
  holderAddr : Bytes
  expiresAt : Bytes
  deriving DecidableEq, Repr

def AnnouncementFields.encode (fields : AnnouncementFields) : Bytes :=
  canonicalEncodeFields [fields.recordId, fields.sourceHash, fields.schema, fields.tags,
    fields.holderAddr, fields.expiresAt]

def joinedTags (tags : List String) : Bytes := asBytes (String.intercalate "," tags)

/-- The fields that `Store::insert_record` signs and `Store::verify_record` checks. -/
def recordFields (record : ContentRecord) : RecordFields where
  id := asBytes record.id
  sourceUrl := asBytes record.sourceUrl
  sourceHash := asBytes record.sourceHash
  schema := asBytes record.schema
  tags := joinedTags record.tags
  body := asBytes record.body
  createdAt := asBytes (toString record.createdAt)
  expiresAt := asBytes (toString record.expiresAt)
  scrapeSource := asBytes record.scrapeSource.asStr
  refreshPolicy := asBytes record.refreshPolicy.asStr

/-- The fields that `Store::insert_announcement` signs and `Store::verify_announcement` checks. -/
def announcementFields (ann : Announcement) : AnnouncementFields where
  recordId := asBytes ann.recordId
  sourceHash := asBytes ann.sourceHash
  schema := asBytes ann.schema
  tags := joinedTags ann.tags
  holderAddr := asBytes ann.holderAddr
  expiresAt := asBytes (toString ann.expiresAt)

@[simp] theorem recordFields_sig (record : ContentRecord) (sig : String) :
    recordFields { record with sig := sig } = recordFields record := rfl

@[simp] theorem announcementFields_sig (ann : Announcement) (sig : String) :
    announcementFields { ann with sig := sig } = announcementFields ann := rfl

variable (ed : Ed25519)

def signRecord (key : ed.SigningKey) (fields : RecordFields) : Vector UInt8 64 :=
  ed.sign key fields.encode

def verifyRecordSig (key : ed.VerifyingKey) (fields : RecordFields) (sig : Vector UInt8 64) : Bool :=
  ed.verify key fields.encode sig

def signAnnouncement (key : ed.SigningKey) (fields : AnnouncementFields) : Vector UInt8 64 :=
  ed.sign key fields.encode

def verifyAnnouncementSig (key : ed.VerifyingKey) (fields : AnnouncementFields)
    (sig : Vector UInt8 64) : Bool :=
  ed.verify key fields.encode sig

/-! ## Signatures as text -/

def hexChar (n : ℕ) : Char := Char.ofNat (JsonText.hexDigit n).toNat

def toHex (bytes : Bytes) : String :=
  String.ofList (bytes.flatMap fun b => [hexChar (b.toNat / 16), hexChar (b.toNat % 16)])

theorem length_toHex (bytes : Bytes) : (toHex bytes).toList.length = 2 * bytes.length := by
  rw [toHex, String.toList_ofList, List.length_flatMap]
  simp [List.map_const', mul_comm]

theorem utf8ByteSize_toHex_le (bytes : Bytes) : (toHex bytes).utf8ByteSize ≤ 8 * bytes.length := by
  have hsize := JsonText.utf8ByteSize_ofList_le (toHex bytes).toList
  rw [String.ofList_toList, length_toHex] at hsize
  omega

theorem toHex_ne_empty (sig : Vector UInt8 64) : toHex sig.toList ≠ "" := by
  intro h
  have hlength := length_toHex sig.toList
  rw [h, Vector.length_toList] at hlength
  cases hlength

theorem hexChar_range : ∀ n : Fin 16,
    ('0' ≤ hexChar n ∧ hexChar n ≤ '9') ∨ ('a' ≤ hexChar n ∧ hexChar n ≤ 'f') := by decide

theorem toHex_hexadecimal (bytes : Bytes) : ∀ ch ∈ (toHex bytes).toList,
    ('0' ≤ ch ∧ ch ≤ '9') ∨ ('a' ≤ ch ∧ ch ≤ 'f') := by
  intro ch hch
  rw [toHex, String.toList_ofList] at hch
  obtain ⟨b, -, hb⟩ := List.mem_flatMap.mp hch
  have hlt := b.toNat_lt
  rcases List.mem_pair.mp hb with rfl | rfl
  · exact hexChar_range ⟨b.toNat / 16, by omega⟩
  · exact hexChar_range ⟨b.toNat % 16, by omega⟩

theorem toHex_injective : Function.Injective toHex := by
  have hdigit : ∀ m n : Fin 16, hexChar m = hexChar n → m = n := by decide
  have hnibble : ∀ {m n : ℕ}, m < 16 → n < 16 → hexChar m = hexChar n → m = n :=
    fun hm hn h => congrArg Fin.val (hdigit ⟨_, hm⟩ ⟨_, hn⟩ h)
  intro bytes bytes' h
  have hchars := String.ofList_inj.mp h
  clear h
  induction bytes generalizing bytes' with
  | nil =>
    cases bytes' with
    | nil => rfl
    | cons b bytes' => cases hchars
  | cons b bytes ih =>
    cases bytes' with
    | nil => cases hchars
    | cons b' bytes' =>
      rw [List.flatMap_cons, List.flatMap_cons] at hchars
      obtain ⟨hfirst, hrest⟩ := List.append_inj hchars rfl
      have hb := b.toNat_lt
      have hb' := b'.toNat_lt
      have hhigh := hnibble (by omega) (by omega) (List.cons.inj hfirst).1
      have hlow := hnibble (by omega) (by omega) (List.cons.inj (List.cons.inj hfirst).2).1
      have hbyte : b = b' := UInt8.toNat_inj.mp (by omega)
      rw [hbyte, ih hrest]

def digitValue (b : UInt8) : Option ℕ :=
  let n := b.toNat
  if 48 ≤ n ∧ n ≤ 57 then some (n - 48)
  else if 97 ≤ n ∧ n ≤ 102 then some (n - 87)
  else if 65 ≤ n ∧ n ≤ 70 then some (n - 55)
  else none

/-- `u8::from_str_radix(_, 16)` on a text of one or two bytes; a leading `+` is allowed. -/
def fromStrRadix16 : Bytes → Option UInt8
  | [a] => (digitValue a).map UInt8.ofNat
  | [a, b] =>
    if a = 43 then (digitValue b).map UInt8.ofNat
    else do return UInt8.ofNat (16 * (← digitValue a) + (← digitValue b))
  | _ => none

def isContinuation (b : UInt8) : Bool := b.toNat / 64 = 2

/-- The bytes of a signature text: every two bytes of text that read as a number, others left out.
`none` is the panic of slicing the text inside a character. -/
def parseSigBytes : Bytes → Option Bytes
  | [] => some []
  | [a] => if isContinuation a then none else some (fromStrRadix16 [a]).toList
  | a :: b :: rest =>
    if isContinuation a then none
    else (parseSigBytes rest).map ((fromStrRadix16 [a, b]).toList ++ ·)

example : parseSigBytes (asBytes (toHex [0, 15, 255])) = some [0, 15, 255] := by decide +kernel

end Sign

end DSearch
