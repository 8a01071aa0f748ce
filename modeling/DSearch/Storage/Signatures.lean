import DSearch.Storage.InsertEnds

/-! # Signatures of stored records

A signature is kept as 128 hexadecimal digits and read back by the verifier's own decoder, which takes
every two bytes of text. What `insert_record` signs and stores is what `verify_record` reads and
accepts. -/

namespace DSearch
set_option autoImplicit false
open Transaction Sign

/-! ## Signatures as text -/

theorem asBytes_append (s t : String) : asBytes (s ++ t) = asBytes s ++ asBytes t := by
  rw [asBytes_eq, asBytes_eq, asBytes_eq, String.toList_append, List.flatMap_append]

theorem asBytes_toHex_cons (b : UInt8) (bytes : Bytes) :
    asBytes (toHex (b :: bytes)) = JsonText.hexDigit (b.toNat / 16) ::
      JsonText.hexDigit (b.toNat % 16) :: asBytes (toHex bytes) := by
  have hascii : ∀ n : Fin 16, String.utf8EncodeChar (hexChar n) = [JsonText.hexDigit n] := by decide
  have hlt := b.toNat_lt
  have hhigh := hascii ⟨b.toNat / 16, by omega⟩
  have hlow := hascii ⟨b.toNat % 16, by omega⟩
  dsimp only at hhigh hlow
  rw [asBytes_eq, asBytes_eq, toHex, toHex, String.toList_ofList, String.toList_ofList,
    List.flatMap_cons, List.flatMap_append, List.flatMap_cons, List.flatMap_cons, hhigh, hlow]
  rfl

theorem fromStrRadix16_hexDigits (b : UInt8) :
    fromStrRadix16 [JsonText.hexDigit (b.toNat / 16), JsonText.hexDigit (b.toNat % 16)] = some b := by
  have hpair : ∀ high low : Fin 16, fromStrRadix16 [JsonText.hexDigit high, JsonText.hexDigit low] =
      some (UInt8.ofNat (16 * high.val + low.val)) := by
    decide
  have hlt := b.toNat_lt
  have hboth := hpair ⟨b.toNat / 16, by omega⟩ ⟨b.toNat % 16, by omega⟩
  dsimp only at hboth
  rw [hboth, Nat.div_add_mod, UInt8.ofNat_toNat]

theorem parseSigBytes_toHex_append (bytes rest : Bytes) :
    parseSigBytes (asBytes (toHex bytes) ++ rest) = (parseSigBytes rest).map (bytes ++ ·) := by
  have hstart : ∀ n : Fin 16, isContinuation (JsonText.hexDigit n) = false := by decide
  induction bytes with
  | nil => exact Option.map_id'.symm
  | cons b bytes ih =>
    have hlt := b.toNat_lt
    have hfirst := hstart ⟨b.toNat / 16, by omega⟩
    dsimp only at hfirst
    rw [asBytes_toHex_cons, List.cons_append, List.cons_append, parseSigBytes, hfirst,
      if_neg Bool.false_ne_true, ih, fromStrRadix16_hexDigits, Option.map_map]
    rfl

/-- The verifier's decoder inverts the encoder. -/
theorem parseSigBytes_toHex (bytes : Bytes) : parseSigBytes (asBytes (toHex bytes)) = some bytes := by
  have hwhole := parseSigBytes_toHex_append bytes []
  rw [List.append_nil] at hwhole
  rw [hwhole, parseSigBytes, Option.map_some, List.append_nil]

/-- Ed25519 is ideal at a signature text: under this key it verifies for one message at most. -/
def VerifiesOne (ed : Ed25519) (key : ed.VerifyingKey) (sig : String) : Prop :=
  ∀ sigBytes : Vector UInt8 64, parseSigBytes (asBytes sig) = some sigBytes.toList →
    ∀ message message', ed.verify key message sigBytes = true →
      ed.verify key message' sigBytes = true → message = message'

theorem verifySigText_ok {sig : String} {check : Vector UInt8 64 → Bool} {failure : String}
    (h : Store.verifySigText sig check failure = .ok .ok) :
    ∃ sigBytes : Vector UInt8 64, parseSigBytes (asBytes sig) = some sigBytes.toList ∧
      check sigBytes = true := by
  unfold Store.verifySigText at h
  split at h
  · cases h
  · next bytes hparsed =>
    split at h
    · next hlength =>
      split at h
      · next hcheck => exact ⟨⟨bytes.toArray, by simpa using hlength⟩, hparsed, hcheck⟩
      · cases h
    · cases h

theorem verifySigText_of_parsed {sig : String} {sigBytes : Vector UInt8 64}
    (hparsed : parseSigBytes (asBytes sig) = some sigBytes.toList) (check : Vector UInt8 64 → Bool)
    (failure : String) :
    Store.verifySigText sig check failure =
      if check sigBytes then .ok .ok else .ok (.fail failure) := by
  have hback : ∀ h : sigBytes.toList.toArray.size = 64,
      (⟨sigBytes.toList.toArray, h⟩ : Vector UInt8 64) = sigBytes := by
    obtain ⟨⟨bytes⟩, hsize⟩ := sigBytes
    exact fun _ => rfl
  unfold Store.verifySigText
  rw [hparsed]
  simp only [Vector.length_toList, dite_true, hback]

/-! ## What is stored verifies -/

namespace Records

/-- The text of a row, as `to_string` wrote it. -/
def rowJson (db : Db) (id : String) : Option Bytes := db.records[id]?.map ContentRecord.toJson

/-- `get_record`, with serde_json's `from_str` as a parameter. -/
def getRecordFrom (fromStr : Bytes → Except String ContentRecord) (db : Db) (id : String) :
    Except String (Option ContentRecord) :=
  match rowJson db id with
  | some json =>
    match fromStr json with
    | .ok record => .ok (some record)
    | .error e => .error ("deserialize record: " ++ e)
  | none => .ok none

end Records

namespace Store
variable {ed : Ed25519} (store : Store ed)

theorem signed_of_key {key : ed.SigningKey} (hkey : store.signingKey = some key)
    {record : ContentRecord} (hunsigned : record.sig = "") :
    store.signed record =
      { record with sig := toHex (signRecord ed key (recordFields record)).toList } := by
  rw [signed, hkey]
  exact if_pos hunsigned

/-- What the store signs verifies under its own key, also with pieces after it that are no numbers. -/
theorem verifyRecord_signed_append {key : ed.SigningKey} (hkey : store.signingKey = some key)
    {record : ContentRecord} (hunsigned : record.sig = "") {rest : String}
    (hrest : parseSigBytes (asBytes rest) = some []) :
    verifyRecord { store.signed record with sig := (store.signed record).sig ++ rest }
      (ed.verifyingKey key) = .ok .ok := by
  rw [store.signed_of_key hkey hunsigned]
  have hparsed : parseSigBytes
      (asBytes (toHex (signRecord ed key (recordFields record)).toList ++ rest)) =
        some (signRecord ed key (recordFields record)).toList := by
    rw [asBytes_append, parseSigBytes_toHex_append, hrest, Option.map_some, List.append_nil]
  rw [verifyRecord, verifySigText_of_parsed hparsed, if_pos]
  rw [recordFields_sig, recordFields_sig]
  exact ed.verify_sign key _

theorem verifyRecord_signed {key : ed.SigningKey} (hkey : store.signingKey = some key)
    {record : ContentRecord} (hunsigned : record.sig = "") :
    verifyRecord (store.signed record) (ed.verifyingKey key) = .ok .ok := by
  have hrest : parseSigBytes (asBytes "") = some [] := rfl
  have hwhole := store.verifyRecord_signed_append hkey hunsigned hrest
  rwa [String.append_empty] at hwhole

theorem insertRecord_stored {record : ContentRecord} {db : Db} {result : InsertResult}
    (hresult : result ≠ .skippedOlder)
    (hinsert : ((store.insertRecord record).run db).2 = .ok result) :
    ((store.insertRecord record).run db).1.records[record.id]? = some (store.signed record) := by
  obtain ⟨-, e, hrun⟩ | ⟨-, -, hrun⟩ | ⟨-, -, hstored, -⟩ := store.insertRecord_ends record db
  · rw [hrun] at hinsert
    cases hinsert
  · rw [hrun] at hinsert
    exact absurd (Outcome.ok.inj hinsert).symm hresult
  · rw [hstored.records, OrderedTable.get_insert, if_pos rfl]

/-- An unsigned record that a signing store inserts is loaded as a record that verifies, and that has the
stored text. -/
theorem inserted_record_verifies {key : ed.SigningKey} (hkey : store.signingKey = some key)
    {record : ContentRecord} (hunsigned : record.sig = "")
    (fromStr : Bytes → Except String ContentRecord)
    (hround : fromStr (store.signed record).toJson = .ok (store.signed record))
    {db : Db} {result : InsertResult} (hresult : result = .inserted ∨ result = .replacedNewer)
    (hinsert : ((store.insertRecord record).run db).2 = .ok result) :
    ∃ loaded json,
      Records.rowJson ((store.insertRecord record).run db).1 record.id = some json ∧
      Records.getRecordFrom fromStr ((store.insertRecord record).run db).1 record.id =
        .ok (some loaded) ∧
      verifyRecord loaded (ed.verifyingKey key) = .ok .ok ∧ loaded.toJson = json := by
  have hnotSkipped : result ≠ .skippedOlder := by
    rcases hresult with rfl | rfl <;> decide
  have hrow : Records.rowJson ((store.insertRecord record).run db).1 record.id =
      some (store.signed record).toJson := by
    rw [Records.rowJson, store.insertRecord_stored hnotSkipped hinsert]
    rfl
  refine ⟨store.signed record, _, hrow, ?_, store.verifyRecord_signed hkey hunsigned, rfl⟩
  unfold Records.getRecordFrom
  rw [hrow]
  dsimp only
  rw [hround]

end Store

/-- A store that signs. -/
def signingStore : Store .checksum := ⟨⟨0, ""⟩, some (7 : UInt8)⟩

def storedSigned : ContentRecord := signingStore.signed (makeRecord "r1" "src" 1 0)

def readsSigned (text : Bytes) : Except String ContentRecord :=
  if text = storedSigned.toJson then .ok storedSigned else .error "expected value"

theorem inserted_record_verifies_signed :
    ∃ loaded json,
      Records.rowJson ((signingStore.insertRecord (makeRecord "r1" "src" 1 0)).run .empty).1 "r1" =
        some json ∧
      Records.getRecordFrom readsSigned
        ((signingStore.insertRecord (makeRecord "r1" "src" 1 0)).run .empty).1 "r1" =
          .ok (some loaded) ∧
      Store.verifyRecord loaded (Ed25519.checksum.verifyingKey (7 : UInt8)) = .ok .ok ∧
        loaded.toJson = json :=
  have hfresh : ¬ Index.Relisted Db.empty "r1" "wiki/article" ["test"] := fun h =>
    h.2 ⟨List.nodup_singleton _, fun tag _ => List.not_mem_nil⟩
  @Store.inserted_record_verifies .checksum signingStore (7 : UInt8) rfl (makeRecord "r1" "src" 1 0)
    rfl readsSigned (if_pos rfl) .empty .inserted (.inl rfl)
    (signingStore.insertRecord_inserts rfl (by decide +kernel) hfresh)

end DSearch
