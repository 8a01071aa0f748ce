import DSearch.Storage.Operations

/-! # What `source_index` says about the stored records

Every stored record is the one `source_index` names for its source, under every interleaving of the
transactions: the rows that a delete, a sweep or an eviction removes may be stale, but each
`source_index` entry goes together with the row it names. The converse fails. An entry may name an
id that is stored under another source by now, and then the dedup of `insert_record` deletes that
other source's record. -/

namespace DSearch
set_option autoImplicit false
open Transaction Records

/-- Every stored record is under its own id, and `source_index` names it for its source. -/
def SourceIndexed (db : Db) : Prop :=
  ∀ (key : String) (record : ContentRecord), db.records[key]? = some record →
    record.id = key ∧ db.sourceIndex[record.sourceHash]? = some record.id

def SourcesDistinct (db : Db) : Prop :=
  ∀ (key₁ key₂ : String) (record₁ record₂ : ContentRecord), db.records[key₁]? = some record₁ →
    db.records[key₂]? = some record₂ → record₁.sourceHash = record₂.sourceHash → key₁ = key₂

namespace SourceIndexed

theorem empty : SourceIndexed Db.empty := by
  intro key record h
  simp [Db.empty] at h

theorem sourcesDistinct {db : Db} (h : SourceIndexed db) : SourcesDistinct db := by
  intro key₁ key₂ record₁ record₂ h₁ h₂ hsame
  obtain ⟨rfl, hnamed₁⟩ := h _ _ h₁
  obtain ⟨rfl, hnamed₂⟩ := h _ _ h₂
  rw [hsame, hnamed₂] at hnamed₁
  exact (Option.some.inj hnamed₁).symm

/-- A written record takes over its source: whatever was stored for the source is gone, and the
entries of the other sources are as before. -/
theorem written {db : Db} (h : SourceIndexed db) {records : Table ContentRecord}
    {record : ContentRecord}
    (hsub : ∀ (key : String) (r : ContentRecord), records[key]? = some r → db.records[key]? = some r)
    (hgone : ∀ (key : String) (r : ContentRecord), records[key]? = some r → r.sourceHash ≠ record.sourceHash) :
    SourceIndexed { db with
      records := records.insert record.id record
      sourceIndex := db.sourceIndex.insert record.sourceHash record.id } := by
  intro key r hr
  dsimp only at hr ⊢
  rcases OrderedTable.get_insert_eq_some.mp hr with ⟨hkey, rfl⟩ | ⟨-, hr⟩
  · exact ⟨hkey, by simp⟩
  · rw [OrderedTable.get_insert, if_neg (hgone key r hr).symm]
    exact h key r (hsub key r hr)

theorem insertRecordTx {db : Db} (h : SourceIndexed db) (record : ContentRecord)
    (config : Option StorageConfig) : SourceIndexed (insertRecordTx record config db).1 := by
  obtain ⟨_, -, heq⟩ | ⟨-, -, heq⟩ | ⟨id, hdedup, -, heq⟩ | ⟨hdedup, -, heq⟩ :=
    insertRecordTx_cases record config db
  · rw [heq]; exact h
  · rw [heq]; exact h
  · rw [heq]
    obtain ⟨existing, hnamed, -, -⟩ := dedupResult_eq_some.mp hdedup
    have hsub : ∀ (key : String) (r : ContentRecord), (db.records.erase id)[key]? = some r →
        db.records[key]? = some r := by
      intro key r hr
      exact (OrderedTable.get_erase_eq_some.mp hr).2
    apply h.written hsub
    intro key r hr hsame
    obtain ⟨hne, hr⟩ := OrderedTable.get_erase_eq_some.mp hr
    obtain ⟨rfl, hentry⟩ := h key r hr
    rw [hsame, hnamed] at hentry
    exact hne (Option.some.inj hentry)
  · rw [heq]
    apply h.written fun key r hr => hr
    intro key r hr hsame
    obtain ⟨rfl, hentry⟩ := h key r hr
    rw [hsame] at hentry
    rw [dedupResult_eq_none.mp hdedup _ hentry] at hr
    cases hr

theorem removeRow {db : Db} (h : SourceIndexed db) (row : String × String) :
    SourceIndexed (removeRow db row) := by
  intro key r hr
  obtain ⟨hne, hr⟩ := OrderedTable.get_erase_eq_some.mp hr
  obtain ⟨rfl, hentry⟩ := h key r hr
  refine ⟨rfl, (removeRow_sourceIndex _ _ _ _).mpr ⟨hentry, ?_⟩⟩
  rintro rfl
  exact hne rfl

theorem removeRows {db : Db} (h : SourceIndexed db) (rows : List (String × String)) :
    SourceIndexed (removeRows rows db) := by
  induction rows generalizing db with
  | nil => exact h
  | cons row rows ih => exact ih (h.removeRow row)

theorem client_keeps (op : RecordsOp) : op.client.Keeps SourceIndexed :=
  RecordsOp.client_within op (fun _ h => h)
    (fun record config _ _ h => h.insertRecordTx record config) (fun rows _ h => h.removeRows rows)
    (fun id sourceHash _ h => h.removeRow (id, sourceHash)) (fun _ _ h => h)

end SourceIndexed

/-- Whatever the order of the transactions, every stored record is named by `source_index` for its
source, so no two stored records share a source. -/
theorem interleaved_sourceIndexed (ops : ℕ → RecordsOp) (schedule : List ℕ) :
    SourceIndexed (RecordsOp.interleaved ops schedule) ∧
      SourcesDistinct (RecordsOp.interleaved ops schedule) := by
  have h := RecordsOp.interleaved_invariant SourceIndexed.empty SourceIndexed.client_keeps ops schedule
  exact ⟨h, h.sourcesDistinct⟩

/-! ## Inserting one source and the records of the others -/

def OtherSourcesKept (record : ContentRecord) (db db' : Db) : Prop :=
  ∀ (key : String) (other : ContentRecord), db.records[key]? = some other → other.id ≠ record.id →
    other.sourceHash ≠ record.sourceHash → db'.records[key]? = some other

/-- The stored record that the dedup of `record` is about to delete, if there is one, belongs to the
source of `record` or is stored under the id of `record`. -/
def DedupHitsOwnSource (record : ContentRecord) (db : Db) : Prop :=
  ∀ (id : String) (existing : ContentRecord), db.sourceIndex[record.sourceHash]? = some id →
    db.records[id]? = some existing → existing.createdAt < record.createdAt →
      existing.sourceHash = record.sourceHash ∨ existing.id = record.id

theorem SourceIndexed.insertRecordTx_otherSourcesKept {db db' : Db} (h : SourceIndexed db)
    {record : ContentRecord} {config : Option StorageConfig} {result : InsertResult}
    (hrun : Records.insertRecordTx record config db = (db', .ok result)) :
    OtherSourcesKept record db db' ↔ DedupHitsOwnSource record db := by
  obtain ⟨skipId, hdedup, heq⟩ | ⟨-, -, heq⟩ | ⟨oldId, hdedup, -, heq⟩ | ⟨hdedup, -, heq⟩ :=
    insertRecordTx_cases record config db
  · -- skipped: nothing is written, and the record the dedup found is not older
    obtain ⟨rfl, -⟩ := Prod.mk.inj (heq.symm.trans hrun)
    obtain ⟨found, hnamed, hfound, hnewer⟩ := dedupResult_eq_some.mp hdedup
    constructor
    · intro _ id existing hid hexisting hlt
      obtain rfl := Option.some.inj (hnamed.symm.trans hid)
      obtain rfl := Option.some.inj (hfound.symm.trans hexisting)
      simp [hlt] at hnewer
    · intro _ key other hother _ _
      exact hother
  · simp [heq] at hrun
  · -- replaced: exactly the record under `oldId` goes, apart from the one under the new id
    obtain ⟨rfl, -⟩ := Prod.mk.inj (heq.symm.trans hrun)
    obtain ⟨old, hnamed, hold, hnewer⟩ := dedupResult_eq_some.mp hdedup
    obtain ⟨holdId, -⟩ := h oldId old hold
    constructor
    · intro hkept id existing hid hexisting _
      obtain rfl := Option.some.inj (hnamed.symm.trans hid)
      obtain rfl := Option.some.inj (hold.symm.trans hexisting)
      by_contra hforeign
      obtain ⟨hsource, hne⟩ := not_or.mp hforeign
      have hlost := hkept oldId old hold hne hsource
      rw [OrderedTable.get_insert, if_neg (holdId ▸ Ne.symm hne), OrderedTable.get_erase,
        if_pos rfl] at hlost
      cases hlost
    · intro hown key other hother hne hsource
      obtain ⟨hkey, -⟩ := h key other hother
      have hold' := hown oldId old hnamed hold (by simpa using hnewer)
      have hother_ne : oldId ≠ key := by
        rintro rfl
        obtain rfl := Option.some.inj (hold.symm.trans hother)
        exact hold'.elim hsource hne
      rw [OrderedTable.get_insert, if_neg (hkey ▸ Ne.symm hne), OrderedTable.get_erase,
        if_neg hother_ne]
      exact hother
  · -- inserted: no record is stored under the id that the source is named for
    obtain ⟨rfl, -⟩ := Prod.mk.inj (heq.symm.trans hrun)
    constructor
    · intro _ id existing hid hexisting _
      rw [dedupResult_eq_none.mp hdedup id hid] at hexisting
      cases hexisting
    · intro _ key other hother hne _
      obtain ⟨hkey, -⟩ := h key other hother
      rw [OrderedTable.get_insert, if_neg (hkey ▸ Ne.symm hne)]
      exact hother

/-- After any interleaving, an insert that succeeds keeps the records of all other sources exactly
when the record its dedup deletes is one of its own source or id. -/
theorem insertRecord_keeps_other_sources (ops : ℕ → RecordsOp) (schedule : List ℕ)
    (record : ContentRecord) (config : Option StorageConfig) (db' : Db) (result : InsertResult)
    (hrun : (insertRecord record config).run (RecordsOp.interleaved ops schedule) =
      (db', .ok result)) :
    OtherSourcesKept record (RecordsOp.interleaved ops schedule) db' ↔
      DedupHitsOwnSource record (RecordsOp.interleaved ops schedule) := by
  have htx : insertRecordTx record config (RecordsOp.interleaved ops schedule) =
      (db', .ok result) := by
    unfold insertRecord at hrun
    cases hsize : record.validateSize with
    | error e => simp [hsize] at hrun
    | ok _ => simpa [hsize] using hrun
  exact (interleaved_sourceIndexed ops schedule).1.insertRecordTx_otherSourcesKept htx

/-- An id re-used for a second source: `source_index` still names it for the first one. -/
def reusedId : ℕ → RecordsOp
  | 0 => .insert (makeRecord "r1" "sh1" 1000 5000) none
  | _ => .insert (makeRecord "r1" "sh2" 2000 5000) none

theorem insertRecord_keeps_other_sources_reusedId :
    OtherSourcesKept (makeRecord "r3" "sh3" 3000 5000) (RecordsOp.interleaved reusedId [0, 1])
        ((insertRecord (makeRecord "r3" "sh3" 3000 5000) none).run
          (RecordsOp.interleaved reusedId [0, 1])).1 ↔
      DedupHitsOwnSource (makeRecord "r3" "sh3" 3000 5000)
        (RecordsOp.interleaved reusedId [0, 1]) :=
  insertRecord_keeps_other_sources reusedId [0, 1] (makeRecord "r3" "sh3" 3000 5000) none _ .inserted
    (Client.run_eq (by decide +kernel))

/-- The third insert, of the first source again, deletes the record of the second source. -/
theorem insertRecord_deletes_other_source :
    ¬ ∀ (ops : ℕ → RecordsOp) (schedule : List ℕ) (record : ContentRecord)
      (config : Option StorageConfig) (db' : Db) (result : InsertResult),
      (insertRecord record config).run (RecordsOp.interleaved ops schedule) = (db', .ok result) →
        OtherSourcesKept record (RecordsOp.interleaved ops schedule) db' := by
  intro hclaim
  have hkept := hclaim reusedId [0, 1] (makeRecord "r2" "sh1" 3000 5000) none _ .replacedNewer
    (Client.run_eq (by decide +kernel)) "r1" (makeRecord "r1" "sh2" 2000 5000) (by decide +kernel)
    (by decide) (by decide)
  revert hkept
  decide +kernel

end DSearch
