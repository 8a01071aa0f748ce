import DSearch.Api.SafeGet
import DSearch.Storage.InsertEnds

/-! # Insert requests and what they leave behind

`handle_insert_record` runs a quota check that may evict, an insert and an index update, each in
transactions of its own. `LeavesTraces` says when it answers that nothing was stored, or panics, and the
tables have changed all the same. -/

namespace DSearch
set_option autoImplicit false
open Transaction Records

/-! ## What an insert does to the content tables -/

/-- The records, their sources and the pins are as before. -/
def SameContent (db db' : Db) : Prop :=
  db'.records = db.records ∧ db'.sourceIndex = db.sourceIndex ∧ db'.pins = db.pins

namespace Store
variable {ed : Ed25519} (store : Store ed)

/-! ## A write over an eviction -/

theorem StoredContent.absent {db db' : Db} {record : ContentRecord}
    (h : store.StoredContent db record db') {key : String} (hkey : key ≠ record.id)
    (habsent : db.records[key]? = none) : db'.records[key]? = none := by
  rw [h.records, OrderedTable.get_insert, if_neg (Ne.symm hkey), recordsBefore]
  split
  · rw [OrderedTable.get_erase, habsent, ite_self]
  · exact habsent

/-- The eviction deleted the stored copy of the record, and nothing else. -/
def EvictsOwnCopy (record : ContentRecord) (db : Db) : Prop :=
  Quota.evicted store.config record.body.utf8ByteSize db = [(record.id, record.sourceHash)] ∧
    db.records[record.id]? = some (store.signed record) ∧
    db.sourceIndex[record.sourceHash]? = some record.id

/-- What a write after an eviction restores is the record itself, evicted alone. -/
theorem evictsOwnCopy_of_sameContent {record : ContentRecord} {db db' : Db}
    (hskips : ¬ Skips (removeRows (Quota.evicted store.config record.body.utf8ByteSize db) db) record)
    (hstored : store.StoredContent
      (removeRows (Quota.evicted store.config record.body.utf8ByteSize db) db) record db')
    (hsame : SameContent db db') : store.EvictsOwnCopy record db := by
  obtain ⟨hrecords, hsources, -⟩ := hsame
  have hpresent := fun (row : String × String)
    (hrow : row ∈ Quota.evicted store.config record.body.utf8ByteSize db) => Quota.evicted_stored hrow
  have hdistinct := Quota.evicted_nodup store.config record.body.utf8ByteSize db
  unfold EvictsOwnCopy
  generalize Quota.evicted store.config record.body.utf8ByteSize db = evicted at *
  have hrow : db.records[record.id]? = some (store.signed record) := by
    rw [← hrecords, hstored.records, OrderedTable.get_insert, if_pos rfl]
  have hsource : db.sourceIndex[record.sourceHash]? = some record.id := by
    rw [← hsources, hstored.sourceIndex, OrderedTable.get_insert, if_pos rfl]
  have honly : ∀ row ∈ evicted, row = (record.id, record.sourceHash) := by
    intro row hmem
    obtain ⟨old, hold, holdHash⟩ := hpresent row hmem
    have hkey : row.1 = record.id := by
      by_contra hne
      have hgone : (removeRows evicted db).records[row.1]? = none := by
        rw [removeRows_records, if_pos (List.mem_map_of_mem hmem)]
      rw [← hrecords, hstored.absent store hne hgone] at hold
      cases hold
    rw [hkey, hrow] at hold
    obtain rfl := Option.some.inj hold
    exact Prod.ext hkey (holdHash.symm.trans (store.signed_sourceHash record))
  refine ⟨?_, hrow, hsource⟩
  match evicted, hdistinct, honly with
  | [], _, _ =>
    -- nothing was evicted, so the stored copy would have made the insert skip
    refine absurd ⟨record.id, ?_⟩ hskips
    apply dedupResult_eq_some.mpr
    exact ⟨store.signed record, hsource, hrow, by simp⟩
  | [row], _, honly => rw [honly row List.mem_cons_self]
  | row :: row' :: rest, hdistinct, honly =>
    have hfirst := honly row List.mem_cons_self
    have hsecond := honly row' (List.mem_cons_of_mem row List.mem_cons_self)
    simp [hfirst, hsecond] at hdistinct

theorem sameContent_of_evictsOwnCopy {record : ContentRecord} {db db' : Db}
    (hstored : store.StoredContent
      (removeRows (Quota.evicted store.config record.body.utf8ByteSize db) db) record db')
    (hown : store.EvictsOwnCopy record db) : SameContent db db' := by
  obtain ⟨hevicted, hrow, hsource⟩ := hown
  have hkept : (removeRow db (record.id, record.sourceHash)).sourceIndex =
      db.sourceIndex.erase record.sourceHash := if_pos hsource
  have hfresh : dedupResult (removeRow db (record.id, record.sourceHash)) record = none := by
    apply dedupResult_eq_none.mpr
    intro existingId hpoints
    rw [hkept, OrderedTable.get_erase, if_pos rfl] at hpoints
    cases hpoints
  rw [hevicted, removeRows_cons, removeRows_nil] at hstored
  obtain ⟨hrecords, hsources, hpins⟩ := hstored
  refine ⟨?_, ?_, hpins⟩
  · rw [hrecords, recordsBefore, hfresh]
    exact OrderedTable.insert_erase_of_get hrow
  · rw [hsources, hkept]
    exact OrderedTable.insert_erase_of_get hsource

/-- After an eviction, a write restores the content tables only where it writes back what alone was
evicted. -/
theorem sameContent_iff {record : ContentRecord} {db db' : Db}
    (hskips : ¬ Skips (removeRows (Quota.evicted store.config record.body.utf8ByteSize db) db) record)
    (hstored : store.StoredContent
      (removeRows (Quota.evicted store.config record.body.utf8ByteSize db) db) record db') :
    SameContent db db' ↔ store.EvictsOwnCopy record db :=
  ⟨store.evictsOwnCopy_of_sameContent hskips hstored, store.sameContent_of_evictsOwnCopy hstored⟩

/-- The request answers that nothing was stored, or panics, and the content tables have changed: what
the gate evicts is not brought back, or the record is written before its indexing panics. -/
def LeavesTraces (record : ContentRecord) (db : Db) : Prop :=
  let body := record.body.utf8ByteSize
  let kept := removeRows (Quota.evicted store.config body db) db
  (Quota.Deletes store.config body db ∧
    (¬ Quota.Passes store.config body db ∨ store.Refuses kept record ∨ Skips kept record)) ∨
  (Quota.Passes store.config body db ∧ ¬ store.Refuses kept record ∧ ¬ Skips kept record ∧
    Index.Relisted db record.id record.schema record.tags ∧ ¬ store.EvictsOwnCopy record db)

theorem sameContent_kept_iff (additionalBytes : ℕ) (db : Db) :
    SameContent db (removeRows (Quota.evicted store.config additionalBytes db) db) ↔
      ¬ Quota.Deletes store.config additionalBytes db := by
  rw [← Quota.evicted_ne_nil_iff, not_not]
  constructor
  · intro hsame
    exact (Quota.removeRows_evicted_eq_iff _ _ _).mp hsame.1
  · intro hnil
    rw [hnil]
    exact ⟨rfl, rfl, rfl⟩

end Store

/-! ## The handler -/

namespace LocalApi
variable {ed : Ed25519} (api : LocalApi ed)

/-- The answer has the action inserted or replaced. -/
def ReportsStored (out : Outcome HttpResponse) : Prop :=
  ∃ id result, result ≠ .skippedOlder ∧ out = .ok (api.insertReply id result)

/-- The first letter of the action in an answer. -/
theorem insertReply_letter (id : String) (result : InsertResult) :
    ((api.insertReply id result).body.drop 11).head? = some (match result with
      | .inserted => (105 : UInt8)
      | .replacedNewer => 114
      | .skippedOlder => 115) := by
  cases result <;> rfl

theorem not_reportsStored_skipped (id : String) :
    ¬ api.ReportsStored (.ok (api.insertReply id .skippedOlder)) := by
  rintro ⟨id', result, hresult, heq⟩
  have hletter := api.insertReply_letter id .skippedOlder
  rw [Outcome.ok.inj heq, insertReply_letter] at hletter
  cases result with
  | inserted => cases hletter
  | replacedNewer => cases hletter
  | skippedOlder => exact hresult rfl

theorem not_reportsStored_error (e : String) :
    ¬ api.ReportsStored (.ok (.internalError e)) := by
  rintro ⟨id, result, -, heq⟩
  have hstatus : (500 : ℕ) = 200 := congrArg HttpResponse.status (Outcome.ok.inj heq)
  cases hstatus

theorem not_reportsStored_panic : ¬ api.ReportsStored .panic := by
  rintro ⟨id, result, -, heq⟩
  cases heq

theorem onStore_run {α : Type} (c : Client Db (Outcome α)) (next : α → HttpResponse) (s : NodeState) :
    (onStore c next).run s = ({ s with db := (c.run s.db).1 }, match (c.run s.db).2 with
      | .ok a => .ok (next a)
      | .err e => .ok (.internalError e)
      | .panic => .panic) := by
  rw [onStore, Client.run_bind, NodeState.run_onDb]
  rcases c.run s.db with ⟨db', a | e | _⟩ <;> rfl

/-- The gate refuses, or the insert runs on what it leaves. -/
theorem handleInsertRecord_run {req : HttpRequest} {record : ContentRecord}
    (hreceived : api.receivedRecord req = .ok record) (s : NodeState) :
    let body := record.body.utf8ByteSize
    let kept := removeRows (Quota.evicted api.store.config body s.db) s.db
    (¬ Quota.Passes api.store.config body s.db ∧ ∃ e,
      (api.handleInsertRecord req).run s = ({ s with db := kept }, .ok (.internalError e))) ∨
    (Quota.Passes api.store.config body s.db ∧
      (api.handleInsertRecord req).run s =
        (onStore (api.store.insertRecord record) (api.insertReply record.id)).run
          { s with db := kept }) := by
  dsimp only
  rw [handleInsertRecord, hreceived]
  dsimp only
  rw [Client.run_bind, NodeState.run_onDb, Store.checkQuota]
  rcases Quota.checkQuota_run api.store.config record.body.utf8ByteSize s.db with
    ⟨hpasses, hrun⟩ | ⟨hpasses, e, hrun⟩
  · rw [hrun]
    exact .inr ⟨hpasses, rfl⟩
  · rw [hrun]
    exact .inl ⟨hpasses, _, rfl⟩

end LocalApi

/-- What the gate evicts is gone when the insert refuses the record for its size. -/
theorem handleInsertRecord_loses {ed : Ed25519} (api : LocalApi ed) {req : HttpRequest}
    {record : ContentRecord} {s : NodeState} (hreceived : api.receivedRecord req = .ok record)
    (hdeletes : Quota.Deletes api.store.config record.body.utf8ByteSize s.db)
    (hsize : (api.store.signed record).validateSize ≠ .ok ()) :
    ¬ api.ReportsStored ((api.handleInsertRecord req).run s).2 ∧
      ¬ SameContent s.db ((api.handleInsertRecord req).run s).1.db := by
  have hlost : ¬ SameContent s.db
      (removeRows (Quota.evicted api.store.config record.body.utf8ByteSize s.db) s.db) := by
    rw [api.store.sameContent_kept_iff, not_not]
    exact hdeletes
  rcases api.handleInsertRecord_run hreceived s with ⟨-, e, hrun⟩ | ⟨-, hrun⟩
  · rw [hrun]
    exact ⟨api.not_reportsStored_error e, hlost⟩
  · have hrefused : api.store.Refuses
        (removeRows (Quota.evicted api.store.config record.body.utf8ByteSize s.db) s.db) record :=
      .inl hsize
    rw [hrun, LocalApi.onStore_run]
    rcases api.store.insertRecord_ends record
        (removeRows (Quota.evicted api.store.config record.body.utf8ByteSize s.db) s.db) with
      ⟨-, e, hend⟩ | ⟨haccepted, -⟩ | ⟨haccepted, -⟩
    · rw [hend]
      exact ⟨api.not_reportsStored_error e, hlost⟩
    · exact absurd hrefused haccepted
    · exact absurd hrefused haccepted

/-- The JSON text of a record, as the body of a request. -/
def jsonText (record : ContentRecord) : String :=
  String.ofList (record.toJson.map fun byte => Char.ofNat byte.toNat)

def insertRequest (record : ContentRecord) : HttpRequest :=
  ⟨"POST", "/record/insert", ∅, ∅, jsonText record⟩

theorem longRecord_unchanged {createdAt length : ℕ} (hshort : length ≤ MAX_RECORD_SIZE) :
    Sanitize.Unchanged (longRecord createdAt length) where
  id := Sanitize.sanitizeString_ascii (by decide)
  sourceUrl := Sanitize.sanitizeString_ascii (by decide)
  sourceHash := Sanitize.sanitizeString_ascii (by decide)
  schema := Sanitize.sanitizeString_ascii (by decide)
  tags := show ["test"].mapM Sanitize.sanitizeTag = .ok ["test"] by decide +kernel
  body := Sanitize.sanitizeString_letters length
  bodySize := (JsonText.utf8ByteSize_letters length).trans_le hshort

theorem bareApi_receivedRecord {config : StorageConfig} {text : String} {record : ContentRecord}
    {req : HttpRequest} (hbody : req.body = text)
    (hclean : Sanitize.sanitizeRecord record = .ok record) :
    (bareApi config text record).receivedRecord req = .ok record := by
  have hparsed : (bareApi config text record).recordFromStr req.body = .ok record := if_pos hbody
  rw [LocalApi.receivedRecord, hparsed]
  dsimp only
  rw [hclean]

theorem longRecord_deletes {length additionalBytes : ℕ} (hfull : 1024 * 1024 < length + additionalBytes) :
    Quota.Deletes ⟨1, "evict_oldest"⟩ additionalBytes (onlyRecord (longRecord 1000 length)) := by
  have hlen := longRecord_jsonLen length (show (JsonText.ofNat 1000).length = 4 by decide)
  have hsize := onlyRecord_size (longRecord 1000 length)
  have hquota : (StorageConfig.mk 1 "evict_oldest").quotaBytes = 1024 * 1024 := rfl
  refine ⟨⟨Nat.one_pos, ?_⟩, rfl, "r1", _, longRecord_stored length, rfl⟩
  omega

/-- An insert of `r1` over a shorter `r1`, with a JSON text that is too long. -/
theorem longRecord_loses (stored length : ℕ) (hlong : 1024 * 1024 < length + 207)
    (hshort : length ≤ MAX_RECORD_SIZE) (hfull : 1024 * 1024 < stored + length) :
    let api := bareApi ⟨1, "evict_oldest"⟩ (jsonText (longRecord 2000 length)) (longRecord 2000 length)
    let req := insertRequest (longRecord 2000 length)
    let s := NodeState.new (onlyRecord (longRecord 1000 stored))
    ¬ api.ReportsStored ((api.handleInsertRecord req).run s).2 ∧
      ¬ SameContent s.db ((api.handleInsertRecord req).run s).1.db := by
  have hlen := longRecord_jsonLen length (show (JsonText.ofNat 2000).length = 4 by decide)
  have hbytes := JsonText.utf8ByteSize_letters length
  intro api req s
  have hreceived : api.receivedRecord req = .ok (longRecord 2000 length) :=
    bareApi_receivedRecord rfl ((longRecord_unchanged hshort).sanitizeRecord)
  have hdeletes : Quota.Deletes api.store.config (longRecord 2000 length).body.utf8ByteSize s.db :=
    longRecord_deletes (hfull.trans_eq (congrArg (stored + ·) hbytes.symm))
  have hrefused : (api.store.signed (longRecord 2000 length)).validateSize ≠ .ok () := by
    have hsigned : api.store.signed (longRecord 2000 length) = longRecord 2000 length := rfl
    rw [hsigned, ContentRecord.validateSize, hlen, if_pos]
    · intro heq
      cases heq
    · unfold MAX_RECORD_SIZE
      omega
  exact handleInsertRecord_loses api hreceived hdeletes hrefused

end DSearch
