import DSearch.Storage.Index
import DSearch.Storage.Operations
import DSearch.Trust.Sign

/-! # `Store` of `storage/mod.rs`

The calls that coordinate the tables: sign what is not signed, insert, index. Of the fields of
`Store` the model keeps those that these calls read: the configuration and the signing key. -/

namespace DSearch
set_option autoImplicit false
open Transaction Sign

structure Store (ed : Ed25519) where
  config : StorageConfig
  signingKey : Option ed.SigningKey

structure VerifyResult where
  valid : Bool
  reason : Option String
  deriving DecidableEq, Repr

def VerifyResult.ok : VerifyResult := ⟨true, none⟩

def VerifyResult.fail (reason : String) : VerifyResult := ⟨false, some reason⟩

namespace Store
variable {ed : Ed25519} (store : Store ed)

def signIfUnsigned (record : ContentRecord) : Except String ContentRecord :=
  match store.signingKey with
  | some key =>
    if record.sig = "" then
      let fields := recordFields record
      let sig := signRecord ed key fields
      if verifyRecordSig ed (ed.verifyingKey key) fields sig then
        .ok { record with sig := toHex sig.toList }
      else .error "self-verification of record signature failed"
    else .ok record
  | none => .ok record

def insertRecord (record : ContentRecord) : Client Db (Outcome InsertResult) :=
  match store.signIfUnsigned record with
  | .error e => .done (.err e)
  | .ok record =>
    (Records.insertRecord record (some store.config)).andThen fun result =>
      match result with
      | .inserted | .replacedNewer =>
        (Index.indexRecord record.id record.schema record.tags).andThen fun _ => .done (.ok result)
      | .skippedOlder => .done (.ok result)

def deleteRecord (id : String) : Client Db (Outcome Bool) :=
  .read fun db =>
    let record := Records.getRecord db id
    (Records.deleteRecord id).andThen fun deleted =>
      if deleted then
        match record with
        | some r =>
          (Index.deindexRecord r.id r.schema r.tags).andThen fun _ => .done (.ok deleted)
        | none => .done (.ok deleted)
      else .done (.ok deleted)

def signAnnouncementIfUnsigned (ann : Announcement) : Except String Announcement :=
  match store.signingKey with
  | some key =>
    if ann.sig = "" then
      let fields := announcementFields ann
      let sig := signAnnouncement ed key fields
      if verifyAnnouncementSig ed (ed.verifyingKey key) fields sig then
        .ok { ann with sig := toHex sig.toList }
      else .error "self-verification of announcement signature failed"
    else .ok ann
  | none => .ok ann

def insertAnnouncement (ann : Announcement) : Client Db (Outcome Unit) :=
  match store.signAnnouncementIfUnsigned ann with
  | .error e => .done (.err e)
  | .ok ann => Records.insertAnnouncement ann

/-- The signature in `sig` against an encoded message: `None` from slicing a character is a panic. -/
def verifySigText (sig : String) (check : Vector UInt8 64 → Bool) (failure : String) :
    Outcome VerifyResult :=
  match parseSigBytes (asBytes sig) with
  | none => .panic
  | some sigBytes =>
    if h : sigBytes.length = 64 then
      if check ⟨sigBytes.toArray, by simpa using h⟩ then .ok .ok else .ok (.fail failure)
    else .ok (.fail "invalid signature length")

def verifyRecord (record : ContentRecord) (key : ed.VerifyingKey) : Outcome VerifyResult :=
  verifySigText record.sig (verifyRecordSig ed key (recordFields record))
    "ContentRecord signature verification failed"

def verifyAnnouncement (ann : Announcement) (key : ed.VerifyingKey) : Outcome VerifyResult :=
  verifySigText ann.sig (verifyAnnouncementSig ed key (announcementFields ann))
    "Announcement signature verification failed"

/-! ## What the calls do alone -/

/-- The record that is stored for `record`: self-verification never fails. -/
def signed (record : ContentRecord) : ContentRecord :=
  match store.signingKey with
  | some key =>
    if record.sig = "" then
      { record with sig := toHex (signRecord ed key (recordFields record)).toList }
    else record
  | none => record

theorem signIfUnsigned_eq (record : ContentRecord) :
    store.signIfUnsigned record = .ok (store.signed record) := by
  unfold signIfUnsigned signed
  cases store.signingKey with
  | none => rfl
  | some key =>
    by_cases hsig : record.sig = ""
    · simp [hsig, verifyRecordSig, signRecord, ed.verify_sign]
    · simp [hsig]

theorem signed_eq (record : ContentRecord) :
    ∃ sig, store.signed record = { record with sig := sig } := by
  unfold signed
  cases store.signingKey with
  | none => exact ⟨record.sig, rfl⟩
  | some key =>
    by_cases hsig : record.sig = ""
    · exact ⟨_, if_pos hsig⟩
    · exact ⟨record.sig, if_neg hsig⟩

@[simp] theorem signed_id (record : ContentRecord) : (store.signed record).id = record.id := by
  obtain ⟨sig, hsigned⟩ := store.signed_eq record
  rw [hsigned]

@[simp] theorem signed_sourceHash (record : ContentRecord) :
    (store.signed record).sourceHash = record.sourceHash := by
  obtain ⟨sig, hsigned⟩ := store.signed_eq record
  rw [hsigned]

@[simp] theorem signed_createdAt (record : ContentRecord) :
    (store.signed record).createdAt = record.createdAt := by
  obtain ⟨sig, hsigned⟩ := store.signed_eq record
  rw [hsigned]

@[simp] theorem signed_schema (record : ContentRecord) :
    (store.signed record).schema = record.schema := by
  obtain ⟨sig, hsigned⟩ := store.signed_eq record
  rw [hsigned]

@[simp] theorem signed_tags (record : ContentRecord) : (store.signed record).tags = record.tags := by
  obtain ⟨sig, hsigned⟩ := store.signed_eq record
  rw [hsigned]

@[simp] theorem dedupResult_signed (db : Db) (record : ContentRecord) :
    Records.dedupResult db (store.signed record) = Records.dedupResult db record := by
  simp only [Records.dedupResult, signed_sourceHash, signed_createdAt]

def signedAnnouncement (ann : Announcement) : Announcement :=
  match store.signingKey with
  | some key =>
    if ann.sig = "" then
      { ann with sig := toHex (signAnnouncement ed key (announcementFields ann)).toList }
    else ann
  | none => ann

theorem signAnnouncementIfUnsigned_eq (ann : Announcement) :
    store.signAnnouncementIfUnsigned ann = .ok (store.signedAnnouncement ann) := by
  unfold signAnnouncementIfUnsigned signedAnnouncement
  cases store.signingKey with
  | none => rfl
  | some key =>
    by_cases hsig : ann.sig = ""
    · simp [hsig, verifyAnnouncementSig, signAnnouncement, ed.verify_sign]
    · simp [hsig]

theorem signedAnnouncement_eq (ann : Announcement) :
    ∃ sig, store.signedAnnouncement ann = { ann with sig := sig } := by
  unfold signedAnnouncement
  cases store.signingKey with
  | none => exact ⟨ann.sig, rfl⟩
  | some key =>
    by_cases hsig : ann.sig = ""
    · exact ⟨_, if_pos hsig⟩
    · exact ⟨ann.sig, if_neg hsig⟩

theorem signed_of_sig {record : ContentRecord} (h : record.sig ≠ "") :
    store.signed record = record := by
  unfold signed
  cases store.signingKey with
  | none => rfl
  | some key => exact if_neg h

theorem signedAnnouncement_of_sig {ann : Announcement} (h : ann.sig ≠ "") :
    store.signedAnnouncement ann = ann := by
  unfold signedAnnouncement
  cases store.signingKey with
  | none => rfl
  | some key => exact if_neg h

theorem insertAnnouncement_run (ann : Announcement) (db : Db) :
    (store.insertAnnouncement ann).run db = match (store.signedAnnouncement ann).validateSize with
      | .error e => (db, .err ("announcement validation: " ++ e))
      | .ok () => ({ db with
          announcements := db.announcements.insert (ann.recordId ++ ":" ++ ann.holderAddr)
            (store.signedAnnouncement ann) }, .ok ()) := by
  obtain ⟨sig, hsigned⟩ := store.signedAnnouncement_eq ann
  rw [insertAnnouncement, signAnnouncementIfUnsigned_eq, hsigned]
  dsimp only
  unfold Records.insertAnnouncement
  cases Announcement.validateSize { ann with sig := sig } <;> rfl

/-- What happens after the record is written: a stored record is indexed, a skipped one is not. -/
theorem insertRecord_run (record : ContentRecord) (db : Db) :
    (store.insertRecord record).run db =
      match (Records.insertRecord (store.signed record) (some store.config)).run db with
      | (db', .ok .skippedOlder) => (db', .ok .skippedOlder)
      | (db', .ok result) => (((Index.indexRecord record.id record.schema record.tags).run db').1,
          ((Index.indexRecord record.id record.schema record.tags).run db').2.map fun _ => result)
      | (db', .err e) => (db', .err e)
      | (db', .panic) => (db', .panic) := by
  obtain ⟨sig, hsigned⟩ := store.signed_eq record
  rw [insertRecord, signIfUnsigned_eq]
  dsimp only
  rw [Client.run_andThen]
  generalize (Records.insertRecord (store.signed record) (some store.config)).run db = out
  obtain ⟨db', result⟩ := out
  cases result with
  | ok result => cases result <;> simp only [hsigned, Client.run_andThen_done, Client.run_done]
  | err e => rfl
  | panic => rfl

theorem insertRecord_tables (record : ContentRecord) (db : Db) :
    Index.OnlyIndexChanged
      ((Records.insertRecord (store.signed record) (some store.config)).run db).1
      ((store.insertRecord record).run db).1 := by
  rw [insertRecord_run]
  generalize (Records.insertRecord (store.signed record) (some store.config)).run db = out
  obtain ⟨db', result⟩ := out
  have hindexed := Index.indexRecord_onlyIndexChanged record.id record.schema record.tags db'
  cases result with
  | ok result =>
    cases result with
    | skippedOlder => rfl
    | inserted => exact hindexed
    | replacedNewer => exact hindexed
  | err e => rfl
  | panic => rfl

def Refuses (db : Db) (record : ContentRecord) : Prop :=
  (store.signed record).validateSize ≠ .ok () ∨
    (∀ id, Records.dedupResult db record ≠ some (id, false)) ∧
      Records.overQuota db (store.signed record) (some store.config) = true

def Skips (db : Db) (record : ContentRecord) : Prop :=
  ∃ id, Records.dedupResult db record = some (id, false)

/-- The record stored under `id` goes when `record` is written: it has its id, or it is the older
record of its source. -/
def Displaces (db : Db) (record : ContentRecord) (id : String) : Prop :=
  id = record.id ∨ Records.dedupResult db record = some (id, true)

instance (db : Db) (record : ContentRecord) (id : String) : Decidable (Displaces db record id) :=
  inferInstanceAs (Decidable (_ ∨ _))

/-- `db'` is `db` with the signed record written: not yet indexed, and without what it displaces. -/
structure Written (db : Db) (record : ContentRecord) (db' : Db) : Prop where
  invertedIndex : db'.invertedIndex = db.invertedIndex
  pins : db'.pins = db.pins
  stored : db'.records[record.id]? = some (store.signed record)
  others : ∀ id : String, id ≠ record.id →
    db'.records[id]? = if Displaces db record id then none else db.records[id]?

/-- The older record of the source, if there is one, goes before the record is written. -/
def recordsBefore (db : Db) (record : ContentRecord) : Table ContentRecord :=
  match Records.dedupResult db record with
  | some (oldId, true) => db.records.erase oldId
  | _ => db.records

/-- `db'` has the content tables of `db` with the signed record written. -/
structure StoredContent (db : Db) (record : ContentRecord) (db' : Db) : Prop where
  records : db'.records = (recordsBefore db record).insert record.id (store.signed record)
  sourceIndex : db'.sourceIndex = db.sourceIndex.insert record.sourceHash record.id
  pins : db'.pins = db.pins

theorem StoredContent.written {db db' : Db} {record : ContentRecord}
    (h : store.StoredContent db record db') (hskips : ¬ Skips db record)
    (hindex : db'.invertedIndex = db.invertedIndex) : store.Written db record db' := by
  refine ⟨hindex, h.pins, ?_, fun key hkey => ?_⟩
  · rw [h.records, OrderedTable.get_insert, if_pos rfl]
  · rw [h.records, OrderedTable.get_insert, if_neg (Ne.symm hkey), recordsBefore]
    cases hdedup : Records.dedupResult db record with
    | none => simp [Displaces, hdedup, hkey]
    | some found =>
      obtain ⟨oldId, replaces⟩ := found
      cases replaces with
      | false => exact absurd ⟨oldId, hdedup⟩ hskips
      | true => simp [Displaces, hdedup, hkey, OrderedTable.get_erase]

/-- The three ends of an insert: refused, skipped, or written and then indexed. -/
theorem insertRecord_cases (record : ContentRecord) (db : Db) :
    (store.Refuses db record ∧ ∃ e, (store.insertRecord record).run db = (db, .err e)) ∨
    (¬ store.Refuses db record ∧ Skips db record ∧
      (store.insertRecord record).run db = (db, .ok .skippedOlder)) ∨
    (¬ store.Refuses db record ∧ ¬ Skips db record ∧ ∃ db₁ result, store.Written db record db₁ ∧
      store.StoredContent db record db₁ ∧ result ≠ .skippedOlder ∧
      (store.insertRecord record).run db =
        (((Index.indexRecord record.id record.schema record.tags).run db₁).1,
          ((Index.indexRecord record.id record.schema record.tags).run db₁).2.map fun _ =>
            result)) := by
  have hcases := Records.insertRecordTx_cases (store.signed record) (some store.config) db
  rw [dedupResult_signed, signed_id, signed_sourceHash] at hcases
  rw [insertRecord_run, Records.insertRecord_run]
  unfold Refuses Skips
  cases hsize : (store.signed record).validateSize with
  | error e => exact .inl ⟨.inl (by simp), _, rfl⟩
  | ok _ =>
    obtain ⟨id, hskip, heq⟩ | ⟨hnew, hquota, heq⟩ | ⟨oldId, hreplace, hquota, heq⟩ |
      ⟨hfresh, hquota, heq⟩ := hcases
    · exact .inr (.inl ⟨by simp [hskip], ⟨id, hskip⟩, by rw [heq]⟩)
    · exact .inl ⟨.inr ⟨hnew, hquota⟩, _, by rw [heq]⟩
    · have hnotSkipped : ¬ ∃ id, Records.dedupResult db record = some (id, false) := by
        simp [hreplace]
      have hstored : store.StoredContent db record
          (Records.insertRecordTx (store.signed record) (some store.config) db).1 := by
        rw [heq]
        refine ⟨?_, rfl, rfl⟩
        rw [recordsBefore, hreplace]
      refine .inr (.inr ⟨by simp [hquota], hnotSkipped, _, .replacedNewer,
        hstored.written store hnotSkipped (by rw [heq]), hstored, by decide, by rw [heq]⟩)
    · have hnotSkipped : ¬ ∃ id, Records.dedupResult db record = some (id, false) := by
        simp [hfresh]
      have hstored : store.StoredContent db record
          (Records.insertRecordTx (store.signed record) (some store.config) db).1 := by
        rw [heq]
        refine ⟨?_, rfl, rfl⟩
        rw [recordsBefore, hfresh]
      refine .inr (.inr ⟨by simp [hquota], hnotSkipped, _, .inserted,
        hstored.written store hnotSkipped (by rw [heq]), hstored, by decide, by rw [heq]⟩)

theorem deleteRecord_run (id : String) (db : Db) :
    (Store.deleteRecord id).run db = match db.records[id]? with
      | none => (db, .ok false)
      | some record => (((Index.deindexRecord record.id record.schema record.tags).run
          (Records.deleteRecordTx id record.sourceHash db)).1, .ok true) := by
  rw [deleteRecord, Client.run_read, Client.run_andThen, Records.deleteRecord_run]
  unfold Records.getRecord
  cases db.records[id]? with
  | none => rfl
  | some record =>
    simp only [if_true, Client.run_andThen_done, Index.deindexRecord_ok, Outcome.map]

end Store

/-! ## Runs of the store's calls -/

inductive StoreOp where
  | insert (record : ContentRecord)
  | delete (id : String)
  | pin (id : String) (now : ℕ)
  | unpin (id : String)
  | sweep (now : ℕ)
  | evict (needed : ℕ)
  deriving DecidableEq, Repr

namespace StoreOp
variable {ed : Ed25519} (store : Store ed)

def client : StoreOp → Client Db (Outcome Reply)
  | insert record => (store.insertRecord record).andThen fun r => .done (.ok (.inserted r))
  | delete id => (Store.deleteRecord id).andThen fun b => .done (.ok (.flag b))
  | pin id now => (RecordsOp.pin id now).client
  | unpin id => (RecordsOp.unpin id).client
  | sweep now => (RecordsOp.sweep now).client
  | evict needed => (RecordsOp.evict needed).client

def run (op : StoreOp) (db : Db) : Db × Outcome Reply := (op.client store).run db

def exec (ops : List StoreOp) (db : Db) : Db := ops.foldl (fun db op => (op.run store db).1) db

@[simp] theorem exec_nil (db : Db) : exec store [] db = db := rfl

@[simp] theorem exec_cons (op : StoreOp) (ops : List StoreOp) (db : Db) :
    exec store (op :: ops) db = exec store ops (op.run store db).1 := rfl

theorem exec_append (ops₁ ops₂ : List StoreOp) (db : Db) :
    exec store (ops₁ ++ ops₂) db = exec store ops₂ (exec store ops₁ db) := List.foldl_append

def isCleanup : StoreOp → Bool
  | sweep _ => true
  | evict _ => true
  | _ => false

/-- Each call of the run is related by `P` to the state it starts in. -/
def Along (P : Db → StoreOp → Prop) : List StoreOp → Db → Prop
  | [], _ => True
  | op :: ops, db => P db op ∧ Along P ops (op.run store db).1

def Returns (db : Db) (op : StoreOp) : Prop := ∃ reply, (op.run store db).2 = .ok reply

theorem run_insert (record : ContentRecord) (db : Db) :
    (insert record).run store db = (((store.insertRecord record).run db).1,
      ((store.insertRecord record).run db).2.map .inserted) :=
  Client.run_andThen_done _ _ _

theorem run_delete (id : String) (db : Db) :
    (delete id).run store db = (((Store.deleteRecord id).run db).1,
      ((Store.deleteRecord id).run db).2.map .flag) :=
  Client.run_andThen_done _ _ _

theorem run_pin (id : String) (now : ℕ) (db : Db) :
    (pin id now).run store db = if db.records[id]?.isNone then (db, .ok (.flag false))
      else ({ db with pins := db.pins.insert id (toString now) }, .ok (.flag true)) :=
  RecordsOp.run_pin id now db

theorem run_sweep (now : ℕ) (db : Db) :
    (sweep now).run store db = (Records.removeRows (Records.expiredRows now db) db,
      .ok (.count (Records.expiredRows now db).length)) :=
  RecordsOp.run_sweep now db

theorem run_evict (needed : ℕ) (db : Db) :
    (evict needed).run store db = (Records.removeRows (Quota.victims needed db).1 db,
      .ok (.count (Quota.victims needed db).2)) :=
  RecordsOp.run_evict needed db

end StoreOp

/-- A store without a quota and without a signing key. -/
def plainStore : Store .checksum := ⟨⟨0, ""⟩, none⟩

end DSearch
