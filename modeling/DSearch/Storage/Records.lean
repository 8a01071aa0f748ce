import DSearch.Foundations.OrderedTable
import DSearch.Foundations.Transaction
import DSearch.Model.Record

/-! # The tables of `store.redb` and the operations of `storage/records.rs`

A table is an ordered map from strings, as a redb table is. The values of `records` and
`announcements` are JSON texts that only `serde_json::to_string` writes and that are read back
with `from_str`; the model keeps the value itself and takes its text where the code measures it.
A database error (`map_err` on a redb call) is not modelled: redb answers. Each operation is a
`Client`: one `read` or `transact` for each `begin_read` or `begin_write` of the source. -/

namespace DSearch
set_option autoImplicit false
open Transaction

abbrev Table (ν : Type) := Std.ExtTreeMap String ν

structure Db where
  records : Table ContentRecord
  sourceIndex : Table String
  pins : Table String
  announcements : Table Announcement
  invertedIndex : Table String

def Db.empty : Db := ⟨∅, ∅, ∅, ∅, ∅⟩

structure StorageConfig where
  quotaMb : ℕ
  quotaAction : String
  deriving DecidableEq, Repr

inductive InsertResult where
  | inserted | skippedOlder | replacedNewer
  deriving DecidableEq, Repr

namespace Records

def recordsSizeBytes (db : Db) : ℕ := (db.records.toList.map fun row => row.2.jsonLen).sum

/-- The dedup check: the id that `source_index` names for the record's source, if it is stored,
and whether the new record replaces it. -/
def dedupResult (db : Db) (record : ContentRecord) : Option (String × Bool) :=
  match db.sourceIndex[record.sourceHash]? with
  | some existingId =>
    match db.records[existingId]? with
    | some existing =>
      if existing.createdAt ≥ record.createdAt then some (existingId, false)
      else some (existingId, true)
    | none => none
  | none => none

theorem dedupResult_eq_none {db : Db} {record : ContentRecord} :
    dedupResult db record = none ↔
      ∀ existingId, db.sourceIndex[record.sourceHash]? = some existingId →
        db.records[existingId]? = none := by
  unfold dedupResult
  cases db.sourceIndex[record.sourceHash]? with
  | none => grind
  | some existingId => grind

theorem dedupResult_eq_some {db : Db} {record : ContentRecord} {id : String} {newer : Bool} :
    dedupResult db record = some (id, newer) ↔
      ∃ existing, db.sourceIndex[record.sourceHash]? = some id ∧ db.records[id]? = some existing ∧
        newer = decide (existing.createdAt < record.createdAt) := by
  unfold dedupResult
  cases db.sourceIndex[record.sourceHash]? with
  | none => grind
  | some existingId =>
    cases hrec : db.records[existingId]? with
    | none => grind
    | some existing => grind

/-- The quota check of the write transaction. `records_size_bytes` opens a read transaction of its
own, so it measures the committed table, not the one being written. -/
def overQuota (db : Db) (record : ContentRecord) : Option StorageConfig → Bool
  | none => false
  | some cfg =>
    cfg.quotaMb > 0 && recordsSizeBytes db + record.jsonLen > cfg.quotaMb * 1024 * 1024

def quotaError : Option StorageConfig → String
  | none => ""
  | some cfg => "Storage quota exceeded (" ++ toString cfg.quotaMb ++ " MB)."

def insertRecordTx (record : ContentRecord) (config : Option StorageConfig) (db : Db) :
    Db × Outcome InsertResult :=
  match dedupResult db record with
  | some (_, false) => (db, .ok .skippedOlder)
  | dedup =>
    let records := match dedup with
      | some (existingId, true) => db.records.erase existingId
      | _ => db.records
    let written := { db with
      records := records.insert record.id record
      sourceIndex := db.sourceIndex.insert record.sourceHash record.id }
    -- not committed: the changes of the write transaction are discarded
    if overQuota db record config then (db, .err (quotaError config))
    else match dedup with
      | some (_, true) => (written, .ok .replacedNewer)
      | _ => (written, .ok .inserted)

/-- Everything the write transaction can do: skip, be refused, replace the record that
`source_index` names for the source, or insert. -/
theorem insertRecordTx_cases (record : ContentRecord) (config : Option StorageConfig) (db : Db) :
    (∃ id, dedupResult db record = some (id, false) ∧
      insertRecordTx record config db = (db, .ok .skippedOlder)) ∨
    ((∀ id, dedupResult db record ≠ some (id, false)) ∧ overQuota db record config = true ∧
      insertRecordTx record config db = (db, .err (quotaError config))) ∨
    (∃ id, dedupResult db record = some (id, true) ∧ overQuota db record config = false ∧
      insertRecordTx record config db = ({ db with
        records := (db.records.erase id).insert record.id record
        sourceIndex := db.sourceIndex.insert record.sourceHash record.id },
        .ok .replacedNewer)) ∨
    (dedupResult db record = none ∧ overQuota db record config = false ∧
      insertRecordTx record config db = ({ db with
        records := db.records.insert record.id record
        sourceIndex := db.sourceIndex.insert record.sourceHash record.id },
        .ok .inserted)) := by
  unfold insertRecordTx
  cases hdedup : dedupResult db record with
  | none => cases hquota : overQuota db record config <;> simp
  | some found =>
    obtain ⟨id, newer⟩ := found
    cases newer with
    | false => simp
    | true => cases hquota : overQuota db record config <;> simp

def insertRecord (record : ContentRecord) (config : Option StorageConfig) :
    Client Db (Outcome InsertResult) :=
  match record.validateSize with
  | .error e => .done (.err ("record validation: " ++ e))
  | .ok () => .atomically (insertRecordTx record config) .done

def getRecord (db : Db) (id : String) : Option ContentRecord := db.records[id]?

/-- The loop of `list_records`: the limit is looked at after a record was added. -/
def listRows (schema : Option String) (limit : ℕ) :
    List ContentRecord → List ContentRecord → List ContentRecord
  | results, [] => results
  | results, record :: rows =>
    if schema.any (record.schema ≠ ·) then listRows schema limit results rows
    else
      let results := results ++ [record]
      if results.length ≥ limit then results else listRows schema limit results rows

def listRecords (db : Db) (schema : Option String) (limit : ℕ) : List ContentRecord :=
  listRows schema limit [] (db.records.toList.map Prod.snd)

def recordCount (db : Db) : ℕ := db.records.size

/-- Remove a record and, if `source_index` points to it, its `source_index` entry. -/
def removeRow (db : Db) (row : String × String) : Db :=
  { db with
    records := db.records.erase row.1
    sourceIndex :=
      if db.sourceIndex[row.2]? = some row.1 then db.sourceIndex.erase row.2 else db.sourceIndex }

@[simp] theorem removeRow_pins (db : Db) (row : String × String) :
    (removeRow db row).pins = db.pins := rfl

@[simp] theorem removeRow_invertedIndex (db : Db) (row : String × String) :
    (removeRow db row).invertedIndex = db.invertedIndex := rfl

theorem removeRow_records (db : Db) (row : String × String) (key : String) :
    (removeRow db row).records[key]? = if row.1 = key then none else db.records[key]? :=
  OrderedTable.get_erase _ _ _

/-- `removeRow` drops exactly the `source_index` entry that is the row itself. -/
theorem removeRow_sourceIndex (db : Db) (row : String × String) (hash id : String) :
    (removeRow db row).sourceIndex[hash]? = some id ↔
      db.sourceIndex[hash]? = some id ∧ (id, hash) ≠ row := by
  obtain ⟨rowId, rowHash⟩ := row
  unfold removeRow
  by_cases hhash : rowHash = hash
  · subst hhash
    by_cases hpoints : db.sourceIndex[rowHash]? = some rowId <;> grind
  · grind

/-- The write transaction of `delete_record`, with the source hash its read transaction found. -/
def deleteRecordTx (id sourceHash : String) (db : Db) : Db :=
  let db := removeRow db (id, sourceHash)
  { db with pins := db.pins.erase id }

def deleteRecord (id : String) : Client Db (Outcome Bool) :=
  .read fun db =>
    match db.records[id]? with
    | none => .done (.ok false)
    | some record => .write (deleteRecordTx id record.sourceHash) (.done (.ok true))

/-- `now` is the clock reading of the write transaction. -/
def pinRecord (id : String) (now : ℕ) : Client Db (Outcome Bool) :=
  .read fun db =>
    if db.records[id]?.isNone then .done (.ok false)
    else .write (fun db => { db with pins := db.pins.insert id (toString now) }) (.done (.ok true))

def unpinRecord (id : String) : Client Db (Outcome Bool) :=
  .atomically (fun db => ({ db with pins := db.pins.erase id }, db.pins[id]?.isSome))
    fun removed => .done (.ok removed)

/-- Phase 1 of `delete_expired_records`: the ids and source hashes of the expired records. -/
def expiredRows (now : ℕ) (db : Db) : List (String × String) :=
  db.records.toList.filterMap fun (key, record) =>
    if record.expiresAt > 0 ∧ record.expiresAt < now then
      if db.pins[key]?.isSome then none else some (key, record.sourceHash)
    else none

/-- Phase 2 of `delete_expired_records` and of `evict_oldest`: one write transaction over the rows
that phase 1 collected. -/
def removeRows (rows : List (String × String)) (db : Db) : Db := rows.foldl removeRow db

@[simp] theorem removeRows_nil (db : Db) : removeRows [] db = db := rfl

@[simp] theorem removeRows_cons (row : String × String) (rows : List (String × String)) (db : Db) :
    removeRows (row :: rows) db = removeRows rows (removeRow db row) := rfl

@[simp] theorem removeRows_pins (rows : List (String × String)) (db : Db) :
    (removeRows rows db).pins = db.pins := by
  induction rows generalizing db with
  | nil => rfl
  | cons row rows ih => rw [removeRows_cons, ih, removeRow_pins]

@[simp] theorem removeRows_invertedIndex (rows : List (String × String)) (db : Db) :
    (removeRows rows db).invertedIndex = db.invertedIndex := by
  induction rows generalizing db with
  | nil => rfl
  | cons row rows ih => rw [removeRows_cons, ih, removeRow_invertedIndex]

theorem removeRows_table (rows : List (String × String)) (db : Db) :
    (removeRows rows db).records = rows.foldl (fun records row => records.erase row.1) db.records :=
  (List.foldl_hom Db.records fun _ _ => rfl).symm

theorem removeRows_records (rows : List (String × String)) (db : Db) (key : String) :
    (removeRows rows db).records[key]? =
      if key ∈ rows.map Prod.fst then none else db.records[key]? := by
  rw [removeRows_table, OrderedTable.get_foldl_erase]

theorem removeRows_records_eq_some {rows : List (String × String)} {db : Db} {key : String}
    {record : ContentRecord} : (removeRows rows db).records[key]? = some record ↔
      key ∉ rows.map Prod.fst ∧ db.records[key]? = some record := by
  rw [removeRows_records]
  by_cases hkey : key ∈ rows.map Prod.fst <;> simp [hkey]

theorem removeRows_sourceIndex (rows : List (String × String)) (db : Db) (hash id : String) :
    (removeRows rows db).sourceIndex[hash]? = some id ↔
      db.sourceIndex[hash]? = some id ∧ (id, hash) ∉ rows := by
  induction rows generalizing db with
  | nil => simp
  | cons row rows ih =>
    rw [removeRows_cons, ih, removeRow_sourceIndex, List.mem_cons, not_or, and_assoc]

def deleteExpiredRecords (now : ℕ) : Client Db (Outcome ℕ) :=
  .read fun db =>
    let toDelete := expiredRows now db
    if toDelete.length = 0 then .done (.ok 0)
    else .write (removeRows toDelete) (.done (.ok toDelete.length))

/-- Phase 1 of `delete_expired_announcements`: here 0 is a time like any other. -/
def expiredAnnouncements (now : ℕ) (db : Db) : List String :=
  db.announcements.toList.filterMap fun (key, ann) => if ann.expiresAt < now then some key else none

def deleteExpiredAnnouncements (now : ℕ) : Client Db (Outcome ℕ) :=
  .read fun db =>
    let toDelete := expiredAnnouncements now db
    if toDelete.length = 0 then .done (.ok 0)
    else .write (fun db =>
        { db with announcements := toDelete.foldl (fun table key => table.erase key) db.announcements })
      (.done (.ok toDelete.length))

/-- `sweep_once` of `storage/expiry.rs`, with the one clock reading of both calls. -/
def sweepOnce (now : ℕ) : Client Db (Outcome (ℕ × ℕ)) :=
  (deleteExpiredRecords now).andThen fun records =>
    (deleteExpiredAnnouncements now).andThen fun announcements => .done (.ok (records, announcements))

def insertAnnouncement (ann : Announcement) : Client Db (Outcome Unit) :=
  match ann.validateSize with
  | .error e => .done (.err ("announcement validation: " ++ e))
  | .ok () =>
    .write (fun db => { db with
      announcements := db.announcements.insert (ann.recordId ++ ":" ++ ann.holderAddr) ann })
      (.done (.ok ()))

/-! ## What the calls do when nothing runs in between -/

def Expired (db : Db) (now : ℕ) (id : String) : Prop :=
  ∃ record, db.records[id]? = some record ∧ 0 < record.expiresAt ∧ record.expiresAt < now ∧
    db.pins[id]? = none

theorem mem_expiredRows {now : ℕ} {db : Db} {row : String × String} :
    row ∈ expiredRows now db ↔ ∃ record, db.records[row.1]? = some record ∧
      record.sourceHash = row.2 ∧ 0 < record.expiresAt ∧ record.expiresAt < now ∧
        db.pins[row.1]? = none := by
  simp only [expiredRows, List.mem_filterMap, Prod.exists,
    Std.ExtTreeMap.mem_toList_iff_getElem?_eq_some]
  constructor
  · rintro ⟨key, record, hrecord, hrow⟩
    split at hrow
    · next hexpired =>
      split at hrow
      · cases hrow
      · next hpin =>
        obtain rfl := Option.some.inj hrow
        exact ⟨record, hrecord, rfl, hexpired.1, hexpired.2, by simpa using hpin⟩
    · cases hrow
  · rintro ⟨record, hrecord, hhash, hpos, hlt, hpin⟩
    refine ⟨row.1, record, hrecord, ?_⟩
    rw [if_pos ⟨hpos, hlt⟩, hpin, hhash]
    rfl

theorem mem_expiredRows_ids {now : ℕ} {db : Db} {id : String} :
    id ∈ (expiredRows now db).map Prod.fst ↔ Expired db now id := by
  simp only [List.mem_map, mem_expiredRows, Expired]
  constructor
  · rintro ⟨row, ⟨record, hrecord, -, hrest⟩, rfl⟩
    exact ⟨record, hrecord, hrest⟩
  · rintro ⟨record, hrecord, hrest⟩
    exact ⟨(id, record.sourceHash), ⟨record, hrecord, rfl, hrest⟩, rfl⟩

theorem insertRecord_run (record : ContentRecord) (config : Option StorageConfig) (db : Db) :
    (insertRecord record config).run db = match record.validateSize with
      | .error e => (db, .err ("record validation: " ++ e))
      | .ok () => insertRecordTx record config db := by
  unfold insertRecord
  cases record.validateSize <;> rfl

theorem deleteRecord_run (id : String) (db : Db) :
    (deleteRecord id).run db = match db.records[id]? with
      | none => (db, .ok false)
      | some record => (deleteRecordTx id record.sourceHash db, .ok true) := by
  unfold deleteRecord
  rw [Client.run_read]
  cases db.records[id]? <;> rfl

theorem deleteExpiredRecords_run (now : ℕ) (db : Db) :
    (deleteExpiredRecords now).run db =
      (removeRows (expiredRows now db) db, .ok (expiredRows now db).length) := by
  unfold deleteExpiredRecords
  rw [Client.run_read]
  by_cases hempty : expiredRows now db = []
  · simp [hempty]
  · simp [hempty]

end Records

/-- The record of the source's own tests (`make_record` of `storage/records.rs`). -/
def makeRecord (id sourceHash : String) (createdAt expiresAt : ℕ) : ContentRecord where
  id := id
  sourceUrl := "https://example.com"
  sourceHash := sourceHash
  schema := "wiki/article"
  tags := ["test"]
  body := "Hello world"
  createdAt := createdAt
  expiresAt := expiresAt
  scrapeSource := .url
  refreshPolicy := .once
  sig := ""

theorem makeRecord_short {id sourceHash : String} {createdAt expiresAt : ℕ} (sig : String)
    (hid : id.utf8ByteSize ≤ 8000) (hhash : sourceHash.utf8ByteSize ≤ 8000)
    (hsig : sig.utf8ByteSize ≤ 8000) (hcreated : createdAt < 10 ^ 20) (hexpires : expiresAt < 10 ^ 20) :
    { makeRecord id sourceHash createdAt expiresAt with sig := sig }.Short where
  id := hid
  sourceUrl := JsonText.utf8ByteSize_literal_le (by decide)
  sourceHash := hhash
  schema := JsonText.utf8ByteSize_literal_le (by decide)
  tags := (JsonText.length_ofArray_singleton_le (JsonText.utf8ByteSize_literal_le le_rfl)).trans
    (by decide)
  body := JsonText.utf8ByteSize_literal_le (by decide)
  createdAt := hcreated
  expiresAt := hexpires
  sig := hsig

end DSearch
