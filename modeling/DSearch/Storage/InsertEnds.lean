import DSearch.Storage.Store

/-! # How an insert ends

`Store::insert_record` refuses a record, skips it, or writes it. A call that writes indexes the record
next, and panics there if the index lists it already. -/

namespace DSearch
set_option autoImplicit false
open Transaction Records

/-! ## When indexing panics -/

namespace Index

/-- Indexing meets the id under one of its keys: two tags have the same key, or the id is there. -/
def Relisted (db : Db) (recordId schema : String) (tags : List String) : Prop :=
  ',' ∉ recordId.toList ∧ ¬ ((tags.map (indexKey schema)).Nodup ∧
    ∀ tag ∈ tags, recordId ∉ idsUnder db (indexKey schema tag))

theorem indexRecord_ok_of_comma {recordId : String} (hcomma : ',' ∈ recordId.toList) (schema : String)
    (tags : List String) (db : Db) : ((indexRecord recordId schema tags).run db).2 = .ok () := by
  induction tags generalizing db with
  | nil => rfl
  | cons tag tags ih =>
    rw [indexRecord_run_cons, if_neg (not_mem_idsUnder_of_comma hcomma)]
    exact ih _

theorem indexRecord_panic_iff (recordId schema : String) (tags : List String) (db : Db) :
    (Relisted db recordId schema tags ∧ ((indexRecord recordId schema tags).run db).2 = .panic) ∨
    (¬ Relisted db recordId schema tags ∧
      ((indexRecord recordId schema tags).run db).2 = .ok ()) := by
  unfold Relisted
  by_cases hcomma : ',' ∈ recordId.toList
  · exact .inr ⟨fun h => h.1 hcomma, indexRecord_ok_of_comma hcomma schema tags db⟩
  · have hok := indexRecord_ok_iff hcomma schema tags db
    by_cases hfresh : (tags.map (indexKey schema)).Nodup ∧
        ∀ tag ∈ tags, recordId ∉ idsUnder db (indexKey schema tag)
    · exact .inr ⟨fun h => h.2 hfresh, hok.mpr hfresh⟩
    · refine .inl ⟨⟨hcomma, hfresh⟩, ?_⟩
      cases hout : ((indexRecord recordId schema tags).run db).2 with
      | ok _ => exact absurd (hok.mp hout) hfresh
      | err e => exact absurd hout (indexRecord_ne_err recordId schema tags db e)
      | panic => rfl

theorem idsUnder_congr {db db' : Db} (h : db'.invertedIndex = db.invertedIndex) (key : String) :
    idsUnder db' key = idsUnder db key := by
  unfold idsUnder
  rw [h]

theorem relisted_congr {db db' : Db} (h : db'.invertedIndex = db.invertedIndex)
    (recordId schema : String) (tags : List String) :
    Relisted db' recordId schema tags ↔ Relisted db recordId schema tags := by
  unfold Relisted
  simp only [idsUnder_congr h]

end Index

namespace Store
variable {ed : Ed25519} (store : Store ed)

/-- How a call ends that has written `record`: it panics in the index, or reports the record. -/
def EndsStored (db : Db) (record : ContentRecord) (end_ : Db × Outcome InsertResult) : Prop :=
  store.StoredContent db record end_.1 ∧
    (Index.Relisted db record.id record.schema record.tags ∧ end_.2 = .panic ∨
      ¬ Index.Relisted db record.id record.schema record.tags ∧
        ∃ result, result ≠ .skippedOlder ∧ end_.2 = .ok result)

theorem endsStored_index {db db₁ : Db} {record : ContentRecord} {result : InsertResult}
    (hindex : db₁.invertedIndex = db.invertedIndex) (hresult : result ≠ .skippedOlder)
    (hstored : store.StoredContent db record db₁) :
    store.EndsStored db record
      (((Index.indexRecord record.id record.schema record.tags).run db₁).1,
        ((Index.indexRecord record.id record.schema record.tags).run db₁).2.map fun _ => result) := by
  have htables := Index.indexRecord_onlyIndexChanged record.id record.schema record.tags db₁
  have hpanic := Index.indexRecord_panic_iff record.id record.schema record.tags db₁
  rw [Index.relisted_congr hindex] at hpanic
  constructor
  · constructor
    · exact htables.records.trans hstored.records
    · exact (congrArg Db.sourceIndex htables).trans hstored.sourceIndex
    · exact (congrArg Db.pins htables).trans hstored.pins
  · rcases hpanic with ⟨hrelisted, hout⟩ | ⟨hfresh, hout⟩
    · exact .inl ⟨hrelisted, by rw [hout]; rfl⟩
    · exact .inr ⟨hfresh, result, hresult, by rw [hout]; rfl⟩

/-- What an insert ends in: refused, skipped, or stored. -/
theorem insertRecord_ends (record : ContentRecord) (db : Db) :
    (store.Refuses db record ∧ ∃ e, (store.insertRecord record).run db = (db, .err e)) ∨
    (¬ store.Refuses db record ∧ Skips db record ∧
      (store.insertRecord record).run db = (db, .ok .skippedOlder)) ∨
    (¬ store.Refuses db record ∧ ¬ Skips db record ∧
      store.EndsStored db record ((store.insertRecord record).run db)) := by
  obtain hrefused | hskipped | ⟨hrefuses, hskips, db₁, result, hwritten, hstored, hresult, hrun⟩ :=
    store.insertRecord_cases record db
  · exact .inl hrefused
  · exact .inr (.inl hskipped)
  · refine .inr (.inr ⟨hrefuses, hskips, ?_⟩)
    rw [hrun]
    exact store.endsStored_index hwritten.invertedIndex hresult hstored

/-- A store without a quota takes what is not too large. -/
theorem not_refuses {record : ContentRecord} (hquota : store.config.quotaMb = 0)
    (hsize : (store.signed record).validateSize = .ok ()) (db : Db) : ¬ store.Refuses db record := by
  rintro (hlarge | ⟨-, hover⟩)
  · exact hlarge hsize
  · simp [overQuota, hquota] at hover

/-- An empty store holds the record that it does not refuse. -/
theorem insertRecord_stores {record : ContentRecord} (htaken : ¬ store.Refuses Db.empty record) :
    ((store.insertRecord record).run Db.empty).1.records[record.id]? = some (store.signed record) := by
  have hnotSkipped : ¬ Skips Db.empty record := by
    rintro ⟨id, hdedup⟩
    cases hdedup
  obtain ⟨hrefuses, -⟩ | ⟨-, hskips, -⟩ | ⟨-, -, hstored, -⟩ := store.insertRecord_ends record Db.empty
  · exact absurd hrefuses htaken
  · exact absurd hskips hnotSkipped
  · rw [hstored.records, OrderedTable.get_insert, if_pos rfl]

/-- An empty store without a quota reports the record as inserted, if it is not too large and has no
two tags with one key. -/
theorem insertRecord_inserts {record : ContentRecord} (hquota : store.config.quotaMb = 0)
    (hsize : (store.signed record).validateSize = .ok ())
    (hfresh : ¬ Index.Relisted Db.empty record.id record.schema record.tags) :
    ((store.insertRecord record).run Db.empty).2 = .ok .inserted := by
  have hnone : dedupResult Db.empty record = none := by simp [dedupResult, Db.empty]
  have hroom : overQuota Db.empty (store.signed record) (some store.config) = false := by
    simp [overQuota, hquota]
  have hcases := insertRecordTx_cases (store.signed record) (some store.config) Db.empty
  rw [dedupResult_signed, hnone, hroom] at hcases
  rw [insertRecord_run, Records.insertRecord_run, hsize]
  obtain ⟨id, hskip, -⟩ | ⟨-, hover, -⟩ | ⟨id, hreplace, -⟩ | ⟨-, -, hwritten⟩ := hcases
  · cases hskip
  · cases hover
  · cases hreplace
  · dsimp only
    rw [hwritten]
    dsimp only
    generalize hdb : Db.mk _ _ _ _ _ = db
    have hindex : db.invertedIndex = Db.empty.invertedIndex := by rw [← hdb]
    have hpanic := Index.indexRecord_panic_iff record.id record.schema record.tags db
    rw [Index.relisted_congr hindex] at hpanic
    obtain ⟨hrelisted, -⟩ | ⟨-, hout⟩ := hpanic
    · exact absurd hrelisted hfresh
    · rw [hout]
      rfl

theorem insertRecord_panic_iff (record : ContentRecord) (db : Db) :
    ((store.insertRecord record).run db).2 = .panic ↔
      ¬ store.Refuses db record ∧ ¬ Skips db record ∧
        Index.Relisted db record.id record.schema record.tags := by
  rcases store.insertRecord_ends record db with ⟨hrefuses, e, hrun⟩ | ⟨hrefuses, hskips, hrun⟩ |
    ⟨hrefuses, hskips, -, ⟨hrelisted, hout⟩ | ⟨hfresh, result, -, hout⟩⟩
  · simp [hrun, hrefuses]
  · simp [hrun, hskips]
  · simp [hout, hrefuses, hskips, hrelisted]
  · simp [hout, hfresh]

end Store

end DSearch
