import DSearch.Node.Handshake
import DSearch.Storage.Signatures

/-! # Announcements of stored records

A record and its announcement are different messages: they are signed over different encodings, they
have different limits of size, and the sweeps read their `expires_at` differently. `connect_to_peer`
announces every record with the record's own signature and expiry. -/

namespace DSearch
set_option autoImplicit false
open JsonText Transaction Sign

/-! ## Size -/

theorem length_ofString_ge (s : String) : s.toList.length + 2 ≤ (ofString s).length := by
  have hchars := length_toList_le_escapedLength s
  rw [length_ofString]
  omega

/-- The text of an announcement has room for its two hashes and its signature. -/
theorem jsonLen_ge (ann : Announcement) :
    ann.recordId.toList.length + ann.sourceHash.toList.length + ann.sig.toList.length <
      ann.jsonLen := by
  have hid := length_ofString_ge ann.recordId
  have hhash := length_ofString_ge ann.sourceHash
  have hsig := length_ofString_ge ann.sig
  simp only [Announcement.jsonLen, Announcement.toJson, ofFields, commaSeparated, List.map_cons,
    List.map_nil, List.length_cons, List.length_append, List.length_nil]
  omega

/-- 64 hex digits, as `toHex` writes a Blake3 hash. -/
def IsHash (s : String) : Prop :=
  s.toList.length = 64 ∧ ∀ c ∈ s.toList, c ∈ "0123456789abcdef".toList

instance (s : String) : Decidable (IsHash s) := inferInstanceAs (Decidable (_ ∧ _))

/-- The announcement of a record that is not signed yet. -/
def unsignedAnnouncement (record : ContentRecord) (holderAddr : String) (expiresAt : ℕ) :
    Announcement where
  recordId := record.id
  sourceHash := record.sourceHash
  schema := record.schema
  tags := record.tags
  holderAddr := holderAddr
  expiresAt := expiresAt
  sig := ""

section
variable {ed : Ed25519} (store : Store ed)

theorem insertAnnouncement_long {ann : Announcement}
    (hlong : MAX_ANNOUNCEMENT_SIZE < (store.signedAnnouncement ann).jsonLen) (db : Db) :
    ∃ e, (store.insertAnnouncement ann).run db = (db, .err e) := by
  rw [Store.insertAnnouncement_run, Announcement.validateSize, if_pos hlong]
  exact ⟨_, rfl⟩

/-- Two hashes and a signature take 256 characters. -/
theorem signedAnnouncement_long {key : ed.SigningKey} (hkey : store.signingKey = some key)
    {record : ContentRecord} (hid : IsHash record.id) (hhash : IsHash record.sourceHash)
    (holderAddr : String) (expiresAt : ℕ) : MAX_ANNOUNCEMENT_SIZE <
      (store.signedAnnouncement (unsignedAnnouncement record holderAddr expiresAt)).jsonLen := by
  have hsigned : store.signedAnnouncement (unsignedAnnouncement record holderAddr expiresAt) =
      { unsignedAnnouncement record holderAddr expiresAt with
        sig := toHex (signAnnouncement ed key
          (announcementFields (unsignedAnnouncement record holderAddr expiresAt))).toList } := by
    rw [Store.signedAnnouncement, hkey]
    exact if_pos rfl
  have hsize := jsonLen_ge (store.signedAnnouncement (unsignedAnnouncement record holderAddr expiresAt))
  have hsig : (store.signedAnnouncement
      (unsignedAnnouncement record holderAddr expiresAt)).sig.toList.length = 128 := by
    rw [hsigned, length_toHex, Vector.length_toList]
  have hidLength : (store.signedAnnouncement
      (unsignedAnnouncement record holderAddr expiresAt)).recordId.toList.length = 64 := by
    rw [hsigned]
    exact hid.1
  have hhashLength : (store.signedAnnouncement
      (unsignedAnnouncement record holderAddr expiresAt)).sourceHash.toList.length = 64 := by
    rw [hsigned]
    exact hhash.1
  unfold MAX_ANNOUNCEMENT_SIZE
  omega

/-- An announcement may have 256 bytes: a store that signs refuses the announcement of every record. -/
theorem insertAnnouncement_signed_refused {key : ed.SigningKey} (hkey : store.signingKey = some key)
    (record : ContentRecord) (hid : IsHash record.id) (hhash : IsHash record.sourceHash)
    (holderAddr : String) (expiresAt : ℕ) (db : Db) :
    ∃ e, (store.insertAnnouncement (unsignedAnnouncement record holderAddr expiresAt)).run db =
      (db, .err e) :=
  insertAnnouncement_long store (signedAnnouncement_long store hkey hid hhash holderAddr expiresAt) db

end

/-- A record that has two hashes and no tags. -/
def hashedRecord : ContentRecord := { makeRecord (letters 64) (letters 64) 1 0 with tags := [] }

theorem isHash_letters : IsHash (letters 64) := by
  rw [IsHash, letters, String.toList_ofList]
  refine ⟨List.length_replicate, fun c hc => ?_⟩
  rw [List.eq_of_mem_replicate hc]
  decide

theorem signed_announcement_not_stored :
    ((signingStore.insertAnnouncement
      (unsignedAnnouncement hashedRecord "127.0.0.1:7744" 99)).run .empty).2 ≠ .ok () := by
  have hkey : signingStore.signingKey = some (7 : UInt8) := rfl
  have hid : IsHash hashedRecord.id := isHash_letters
  have hhash : IsHash hashedRecord.sourceHash := isHash_letters
  obtain ⟨e, hrefused⟩ := insertAnnouncement_long signingStore
    (signedAnnouncement_long signingStore hkey hid hhash "127.0.0.1:7744" 99) .empty
  rw [hrefused]
  exact fun hok => nomatch hok

theorem insertAnnouncement_signed_refused_hashed :
    ∃ e, (signingStore.insertAnnouncement
      (unsignedAnnouncement hashedRecord "127.0.0.1:7744" 99)).run .empty = (.empty, .err e) :=
  insertAnnouncement_signed_refused signingStore rfl hashedRecord isHash_letters isHash_letters
    "127.0.0.1:7744" 99 .empty

/-! ## Signatures -/

theorem getLast?_canonicalEncodeFields (fields : List Bytes) {last : Bytes} (h : last ≠ []) :
    (canonicalEncodeFields (fields ++ [last])).getLast? = last.getLast? := by
  obtain ⟨b, hb⟩ := Option.ne_none_iff_exists'.mp (mt List.getLast?_eq_none_iff.mp h)
  rw [canonicalEncodeFields, List.flatMap_append, List.flatMap_singleton, List.getLast?_append,
    List.getLast?_append, hb]
  rfl

theorem ofNat_ne_nil (n : ℕ) : ofNat n ≠ [] := by
  intro hempty
  have hbytes := length_asBytes (toString n)
  rw [show asBytes (toString n) = [] from hempty] at hbytes
  have hchars : (toString n) = "" := String.utf8ByteSize_eq_zero_iff.mp hbytes.symm
  have hrepr := congrArg String.toList hchars
  rw [Nat.toString_eq_repr, Nat.toList_repr] at hrepr
  exact Nat.toDigits_ne_nil hrepr

/-- The encoding of a record ends in a letter, that of an announcement in a digit. -/
theorem recordEncoding_ne_announcementEncoding (record : ContentRecord) (ann : Announcement) :
    (recordFields record).encode ≠ (announcementFields ann).encode := by
  have hletter : ∃ b, (asBytes record.refreshPolicy.asStr).getLast? = some b ∧ 97 ≤ b.toNat := by
    cases record.refreshPolicy
    · exact ⟨101, by decide +kernel, by decide⟩
    · exact ⟨108, by decide +kernel, by decide⟩
    · exact ⟨101, by decide +kernel, by decide⟩
  obtain ⟨b, hb, hlow⟩ := hletter
  have hrecord : (recordFields record).encode.getLast? = some b := by
    rw [← hb]
    refine getLast?_canonicalEncodeFields [_, _, _, _, _, _, _, _, _] fun hempty => ?_
    cases (congrArg List.getLast? hempty).symm.trans hb
  intro hsame
  rw [hsame] at hrecord
  have hann : (announcementFields ann).encode.getLast? = (ofNat ann.expiresAt).getLast? :=
    getLast?_canonicalEncodeFields [_, _, _, _, _] (ofNat_ne_nil ann.expiresAt)
  rw [hann] at hrecord
  have hdigit := digit_of_mem_ofNat (List.mem_of_getLast? hrecord)
  omega

section
variable {ed : Ed25519}

/-- A record that verifies is announced with a signature that does not: it was made for the record's
encoding. -/
theorem sent_announcement_fails (key : ed.VerifyingKey) (record : ContentRecord)
    (hverifies : Store.verifyRecord record key = .ok .ok)
    (hideal : VerifiesOne ed key record.sig) (listenAddr : String) :
    Store.verifyAnnouncement (sendAnnounce (connectAnnouncement listenAddr record)).announcement key =
      .ok (.fail "Announcement signature verification failed") := by
  obtain ⟨sigBytes, hparsed, hcheck⟩ := verifySigText_ok hverifies
  have hparsedAnn : parseSigBytes
      (asBytes (sendAnnounce (connectAnnouncement listenAddr record)).announcement.sig) =
        some sigBytes.toList := hparsed
  rw [Store.verifyAnnouncement, verifySigText_of_parsed hparsedAnn, if_neg]
  intro hann
  exact recordEncoding_ne_announcementEncoding record (connectAnnouncement listenAddr record)
    (hideal sigBytes hparsed _ _ hcheck hann)

end

/-- A stand-in for concrete runs that tells one message from all others. -/
def Ed25519.oneMessage (message : Bytes) : Ed25519 where
  SigningKey := Unit
  VerifyingKey := Unit
  verifyingKey := id
  sign _ m := Vector.replicate 64 (if m = message then 1 else 0)
  verify _ m sig := sig == Vector.replicate 64 (if m = message then 1 else 0)
  verify_sign _ _ := by simp

def recordToSign : ContentRecord := makeRecord "r1" "src" 1 0

abbrev oneRecord : Ed25519 := .oneMessage (recordFields recordToSign).encode

def signedOnce : ContentRecord :=
  { recordToSign with sig := toHex (signRecord oneRecord () (recordFields recordToSign)).toList }

theorem verifyRecord_signedOnce : @Store.verifyRecord oneRecord signedOnce () = .ok .ok := by
  let store : Store oneRecord := ⟨⟨0, ""⟩, some ()⟩
  have hkey : store.signingKey = some () := rfl
  have hunsigned : recordToSign.sig = "" := rfl
  have hsigned : store.signed recordToSign = signedOnce := store.signed_of_key hkey hunsigned
  rw [← hsigned]
  exact store.verifyRecord_signed hkey hunsigned

theorem announced_with_record_signature :
    @Store.verifyRecord oneRecord signedOnce () = .ok .ok ∧
      @Store.verifyAnnouncement oneRecord
        (sendAnnounce (connectAnnouncement "127.0.0.1:9000" signedOnce)).announcement () ≠
          .ok .ok :=
  ⟨verifyRecord_signedOnce, by decide +kernel⟩

theorem verifiesOne_signedOnce : VerifiesOne oneRecord () signedOnce.sig := by
  intro sigBytes hparsed
  have hones : parseSigBytes (asBytes signedOnce.sig) = some (Vector.replicate 64 1).toList := by
    have hsign : signRecord oneRecord () (recordFields recordToSign) = Vector.replicate 64 1 :=
      congrArg (Vector.replicate 64) (if_pos rfl)
    rw [signedOnce, hsign]
    exact parseSigBytes_toHex _
  have hbytes : sigBytes = Vector.replicate 64 1 :=
    Vector.toList_inj.mp (Option.some.inj (hparsed.symm.trans hones))
  have hone : ∀ m, oneRecord.verify () m sigBytes = true →
      m = (recordFields recordToSign).encode := by
    intro m hm
    rw [hbytes] at hm
    by_contra hother
    simp [oneRecord, Ed25519.oneMessage, hother] at hm
  intro message message' hmessage hmessage'
  rw [hone message hmessage, hone message' hmessage']

theorem sent_announcement_fails_signedOnce :
    @Store.verifyAnnouncement oneRecord
      (sendAnnounce (connectAnnouncement "127.0.0.1:9000" signedOnce)).announcement () =
        .ok (.fail "Announcement signature verification failed") :=
  @sent_announcement_fails oneRecord () signedOnce verifyRecord_signedOnce verifiesOne_signedOnce
    "127.0.0.1:9000"

/-! ## Expiry -/

theorem deleteExpiredRecords_get (now : ℕ) {db : Db} {key : String} {record : ContentRecord}
    (hstored : db.records[key]? = some record) (hpin : db.pins[key]? = none) :
    ((Records.deleteExpiredRecords now).run db).1.records[key]? =
      if 0 < record.expiresAt ∧ record.expiresAt < now then none else some record := by
  have hexpired : key ∈ (Records.expiredRows now db).map Prod.fst ↔
      0 < record.expiresAt ∧ record.expiresAt < now := by
    rw [Records.mem_expiredRows_ids, Records.Expired]
    simp [hstored, hpin]
  rw [Records.deleteExpiredRecords_run, Records.removeRows_records, hstored]
  simp only [hexpired]

theorem mem_expiredAnnouncements {now : ℕ} {db : Db} {key : String} {ann : Announcement}
    (hstored : db.announcements[key]? = some ann) :
    key ∈ Records.expiredAnnouncements now db ↔ ann.expiresAt < now := by
  simp only [Records.expiredAnnouncements, List.mem_filterMap, Prod.exists,
    Std.ExtTreeMap.mem_toList_iff_getElem?_eq_some]
  constructor
  · rintro ⟨key', ann', hrow, hkey⟩
    split at hkey
    · next hlt =>
      obtain rfl := Option.some.inj hkey
      obtain rfl := Option.some.inj (hrow.symm.trans hstored)
      exact hlt
    · cases hkey
  · intro hlt
    exact ⟨key, ann, hstored, if_pos hlt⟩

/-- Here a time of 0 is over, as any other is. -/
theorem deleteExpiredAnnouncements_get (now : ℕ) {db : Db} {key : String} {ann : Announcement}
    (hstored : db.announcements[key]? = some ann) :
    ((Records.deleteExpiredAnnouncements now).run db).1.announcements[key]? =
      if ann.expiresAt < now then none else some ann := by
  have herased := OrderedTable.get_foldl_erase id (Records.expiredAnnouncements now db)
    db.announcements key
  rw [List.map_id, hstored] at herased
  simp only [mem_expiredAnnouncements hstored] at herased
  rw [← herased]
  unfold Records.deleteExpiredAnnouncements
  rw [Client.run_read]
  by_cases hempty : Records.expiredAnnouncements now db = []
  · simp [hempty]
  · simp [hempty]

section
variable {ed : Ed25519} (store : Store ed)

/-- What an accepted announcement leaves in the table of the peer. -/
theorem handleAnnounce_accepted {msg : Announce} {db : Db} {ack : AnnounceAck}
    (hack : ((Node.handleAnnounce store msg).run db).2 = .ok ack) (haccepted : ack.accepted = true) :
    ((Node.handleAnnounce store msg).run db).1.announcements[msg.recordId ++ ":" ++ msg.holderAddr]? =
      some (store.signedAnnouncement msg.announcement) := by
  rw [Node.handleAnnounce, Client.run_bind, Store.insertAnnouncement_run] at hack ⊢
  cases hsize : (store.signedAnnouncement msg.announcement).validateSize with
  | error e =>
    rw [hsize] at hack
    obtain rfl := Outcome.ok.inj hack
    cases haccepted
  | ok _ =>
    dsimp only
    exact (OrderedTable.get_insert _ _ _ _).trans (if_pos rfl)

/-- The record is in the table after the sweep of records. -/
def KeptRecord (now : ℕ) (db : Db) (id : String) : Prop :=
  ((Records.deleteExpiredRecords now).run db).1.records[id]? ≠ none

def KeptAnnouncement (now : ℕ) (db : Db) (key : String) : Prop :=
  ((Records.deleteExpiredAnnouncements now).run db).1.announcements[key]? ≠ none

/-- The peer keeps the announcement of every unpinned record that its sender keeps, if and only if the
record has an expiry: the two sweeps part at 0. -/
theorem sweeps_agree_iff (now : ℕ) (record : ContentRecord) (listenAddr : String) (sender peer : Db)
    (hstored : sender.records[record.id]? = some record) (hpin : sender.pins[record.id]? = none)
    (ack : AnnounceAck) (hack : ((Node.handleAnnounce store
      (sendAnnounce (connectAnnouncement listenAddr record))).run peer).2 = .ok ack)
    (haccepted : ack.accepted = true) :
    (KeptRecord now sender record.id → KeptAnnouncement now
        ((Node.handleAnnounce store (sendAnnounce (connectAnnouncement listenAddr record))).run peer).1
        (record.id ++ ":" ++ listenAddr)) ↔
      record.expiresAt ≠ 0 ∨ now = 0 := by
  have hann := handleAnnounce_accepted store hack haccepted
  have hexpiry : (store.signedAnnouncement
      (sendAnnounce (connectAnnouncement listenAddr record)).announcement).expiresAt =
        record.expiresAt := by
    obtain ⟨sig, hsigned⟩ := store.signedAnnouncement_eq
      (sendAnnounce (connectAnnouncement listenAddr record)).announcement
    rw [hsigned]
    rfl
  have hkept : KeptAnnouncement now
      ((Node.handleAnnounce store (sendAnnounce (connectAnnouncement listenAddr record))).run peer).1
      (record.id ++ ":" ++ listenAddr) ↔ ¬ record.expiresAt < now := by
    have hget := deleteExpiredAnnouncements_get now hann
    rw [hexpiry] at hget
    rw [KeptAnnouncement]
    change ((Records.deleteExpiredAnnouncements now).run _).1.announcements[record.id ++ ":" ++
      listenAddr]? = _ at hget
    rw [hget]
    simp
  rw [hkept, KeptRecord, deleteExpiredRecords_get now hstored hpin]
  by_cases hzero : record.expiresAt = 0
  · simp only [hzero]
    simp
  · have hpos := Nat.pos_of_ne_zero hzero
    simp [hzero, hpos]

end

instance (now : ℕ) (db : Db) (id : String) : Decidable (KeptRecord now db id) :=
  inferInstanceAs (Decidable (_ ≠ none))

instance (now : ℕ) (db : Db) (key : String) : Decidable (KeptAnnouncement now db key) :=
  inferInstanceAs (Decidable (_ ≠ none))

/-- The store of a node that has one record, with this expiry. -/
def storing (expiresAt : ℕ) : Db :=
  ((plainStore.insertRecord (makeRecord "r1" "src" 1 expiresAt)).run .empty).1

def announcedTo (peer : Db) (expiresAt : ℕ) : Db :=
  ((Node.handleAnnounce plainStore
    (sendAnnounce (connectAnnouncement "127.0.0.1:9000" (makeRecord "r1" "src" 1 expiresAt)))).run
      peer).1

/-- A record without expiry stays, and its announcement goes with the first sweep. -/
theorem announcement_of_lasting_record_swept :
    KeptRecord 5 (storing 0) "r1" ∧
      ¬ KeptAnnouncement 5 (announcedTo .empty 0) "r1:127.0.0.1:9000" := by
  decide +kernel

theorem sweeps_agree_iff_expiring :
    (KeptRecord 5 (storing 9) "r1" → KeptAnnouncement 5 (announcedTo .empty 9) "r1:127.0.0.1:9000") ↔
      9 ≠ 0 ∨ 5 = 0 :=
  sweeps_agree_iff plainStore 5 (makeRecord "r1" "src" 1 9) "127.0.0.1:9000" (storing 9) .empty
    (by decide +kernel) (by decide +kernel) ⟨"r1", true, ""⟩ (by decide +kernel) rfl

end DSearch
