import DSearch.Storage.Operations

/-! # The quota check of `insert_record`

The check runs inside the write transaction but measures the table as it was committed before. The
committed table and the new record together bound what the transaction commits, so the quota holds
in every interleaving. For a record that takes the place of stored ones that bound is too high. -/

namespace DSearch
set_option autoImplicit false
open Transaction Records

namespace Capacity

theorem recordsSizeBytes_removeRows_le (rows : List (String × String)) (db : Db) :
    recordsSizeBytes (removeRows rows db) ≤ recordsSizeBytes db := by
  induction rows generalizing db with
  | nil => exact le_refl _
  | cons row rows ih =>
    have hrow := Quota.recordsSizeBytes_removeRow db row
    have hrows := ih (removeRow db row)
    rw [removeRows_cons]
    omega

/-- What the transaction commits, the rows that go included, is bounded by what it measures. -/
theorem recordsSizeBytes_insertRecordTx_le (record : ContentRecord) (config : Option StorageConfig)
    (db : Db) :
    recordsSizeBytes (insertRecordTx record config db).1 ≤ recordsSizeBytes db ∨
      overQuota db record config = false ∧
        recordsSizeBytes (insertRecordTx record config db).1 ≤
          recordsSizeBytes db + record.jsonLen := by
  have hwritten : ∀ records : Table ContentRecord,
      OrderedTable.weight ContentRecord.jsonLen records ≤ recordsSizeBytes db →
        OrderedTable.weight ContentRecord.jsonLen (records.insert record.id record) ≤
          recordsSizeBytes db + record.jsonLen := by
    intro records hle
    have herase := OrderedTable.weight_erase_le (w := ContentRecord.jsonLen) records record.id
    rw [OrderedTable.weight_insert]
    omega
  obtain ⟨_, -, heq⟩ | ⟨-, -, heq⟩ | ⟨id, -, hquota, heq⟩ | ⟨-, hquota, heq⟩ :=
    insertRecordTx_cases record config db
  · rw [heq]; exact .inl (le_refl _)
  · rw [heq]; exact .inl (le_refl _)
  · rw [heq]
    exact .inr ⟨hquota, hwritten _ (OrderedTable.weight_erase_le db.records id)⟩
  · rw [heq]
    exact .inr ⟨hquota, hwritten _ (le_refl _)⟩

def WithinQuota (cfg : StorageConfig) (db : Db) : Prop :=
  recordsSizeBytes db ≤ cfg.quotaMb * 1024 * 1024

theorem withinQuota_insertRecordTx {cfg : StorageConfig} {db : Db} (hquota : 0 < cfg.quotaMb)
    (h : WithinQuota cfg db) (record : ContentRecord) :
    WithinQuota cfg (insertRecordTx record (some cfg) db).1 := by
  unfold WithinQuota at h ⊢
  rcases recordsSizeBytes_insertRecordTx_le record (some cfg) db with hle | ⟨hover, hle⟩
  · exact le_trans hle h
  · have hfits : recordsSizeBytes db + record.jsonLen ≤ cfg.quotaMb * 1024 * 1024 := by
      simpa [overQuota, hquota] using hover
    exact le_trans hle hfits

theorem client_keeps_withinQuota {cfg : StorageConfig} (hquota : 0 < cfg.quotaMb) {op : RecordsOp}
    (hconfig : ∀ record config, op = .insert record config → config = some cfg) :
    op.client.Keeps (WithinQuota cfg) := by
  have hremove : ∀ rows db, WithinQuota cfg db → WithinQuota cfg (removeRows rows db) :=
    fun rows db h => le_trans (recordsSizeBytes_removeRows_le rows db) h
  refine RecordsOp.client_within op (fun _ h => h) ?_ hremove ?_ (fun _ _ h => h)
  · intro record config hop db h
    rw [hconfig record config hop]
    exact withinQuota_insertRecordTx hquota h record
  · intro id sourceHash db h
    exact hremove [(id, sourceHash)] db h

end Capacity

open Capacity

/-- From a store within its quota, no order of the transactions of inserts, deletes, sweeps and
evictions leaves it. -/
theorem interleave_withinQuota (cfg : StorageConfig) (hquota : 0 < cfg.quotaMb)
    (ops : ℕ → RecordsOp)
    (hconfig : ∀ i record config, ops i = .insert record config → config = some cfg)
    (db : Db) (hdb : recordsSizeBytes db ≤ cfg.quotaMb * 1024 * 1024) (schedule : List ℕ) :
    recordsSizeBytes (interleave (db, fun i => (ops i).client) schedule).1 ≤
      cfg.quotaMb * 1024 * 1024 := by
  have hkeeps : ∀ i, ((db, fun i => (ops i).client).2 i).Keeps (WithinQuota cfg) :=
    fun i => client_keeps_withinQuota hquota (hconfig i)
  exact Client.Keeps.interleave hkeeps hdb schedule

def twoInserts : ℕ → RecordsOp
  | 0 => .insert (makeRecord "r1" "sh1" 1000 5000) (some ⟨1, "evict_oldest"⟩)
  | 1 => .insert (makeRecord "r2" "sh2" 1000 5000) (some ⟨1, "evict_oldest"⟩)
  | _ => .evict 100

theorem interleave_withinQuota_twoInserts :
    recordsSizeBytes (interleave (Db.empty, fun i => (twoInserts i).client) [0, 2, 1, 2]).1 ≤
      1 * 1024 * 1024 := by
  refine interleave_withinQuota ⟨1, "evict_oldest"⟩ (by decide) twoInserts ?_ Db.empty
    (by decide +kernel) [0, 2, 1, 2]
  intro i record config hop
  match i with
  | 0 => exact (RecordsOp.insert.inj hop).2.symm
  | 1 => exact (RecordsOp.insert.inj hop).2.symm
  | _ + 2 => cases hop

/-! ## Which inserts the check refuses wrongly -/

namespace Capacity

/-- The records table with `record` written: without the older record of its source, and with
`record` in the place of what was stored under its id. -/
def tableAfter (record : ContentRecord) (db : Db) : Table ContentRecord :=
  (match dedupResult db record with
    | some (existingId, true) => db.records.erase existingId
    | _ => db.records).insert record.id record

/-- The bytes of the rows that go when `record` is written. -/
def displacedBytes (record : ContentRecord) (db : Db) : ℕ :=
  match dedupResult db record with
  | some (existingId, true) =>
    OrderedTable.weightAt ContentRecord.jsonLen db.records existingId +
      OrderedTable.weightAt ContentRecord.jsonLen (db.records.erase existingId) record.id
  | _ => OrderedTable.weightAt ContentRecord.jsonLen db.records record.id

theorem weight_tableAfter (record : ContentRecord) (db : Db) :
    OrderedTable.weight ContentRecord.jsonLen (tableAfter record db) + displacedBytes record db =
      recordsSizeBytes db + record.jsonLen := by
  have hwritten : ∀ records : Table ContentRecord,
      OrderedTable.weight ContentRecord.jsonLen (records.insert record.id record) +
          OrderedTable.weightAt ContentRecord.jsonLen records record.id =
        OrderedTable.weight ContentRecord.jsonLen records + record.jsonLen := by
    intro records
    have herase := OrderedTable.weight_erase (w := ContentRecord.jsonLen) records record.id
    rw [OrderedTable.weight_insert, herase]
    omega
  have hsame := hwritten db.records
  unfold tableAfter displacedBytes recordsSizeBytes
  cases hdedup : dedupResult db record with
  | none => exact hsame
  | some found =>
    obtain ⟨id, newer⟩ := found
    cases newer with
    | false => exact hsame
    | true =>
      have hreplaced := hwritten (db.records.erase id)
      have hold := OrderedTable.weight_erase (w := ContentRecord.jsonLen) db.records id
      unfold OrderedTable.weight at hreplaced hold ⊢
      dsimp only at hreplaced hold ⊢
      omega

def Exceeds (config : Option StorageConfig) (size : ℕ) : Prop :=
  ∃ cfg, config = some cfg ∧ 0 < cfg.quotaMb ∧ cfg.quotaMb * 1024 * 1024 < size

theorem overQuota_iff (db : Db) (record : ContentRecord) (config : Option StorageConfig) :
    overQuota db record config = true ↔ Exceeds config (recordsSizeBytes db + record.jsonLen) := by
  cases config with
  | none => simp [overQuota, Exceeds]
  | some cfg => simp [overQuota, Exceeds]

theorem validationError_ne_quotaError (e : String) (config : Option StorageConfig) :
    "record validation: " ++ e ≠ quotaError config := by
  have hfirst : ∀ {c : Char} {cs : List Char} (s : String),
      (String.ofList (c :: cs) ++ s).toList.head? = some c := by
    intro c cs s
    rw [String.toList_append, String.toList_ofList]
    rfl
  have hvalidation : ("record validation: " ++ e).toList.head? = some 'r' := hfirst e
  intro heq
  rw [heq] at hvalidation
  cases config with
  | none => cases hvalidation
  | some cfg =>
    have hquota : ("Storage quota exceeded (" ++ toString cfg.quotaMb).toList.head? = some 'S' :=
      hfirst _
    have htext : quotaError (some cfg) =
        "Storage quota exceeded (" ++ toString cfg.quotaMb ++ " MB)." := rfl
    rw [htext, String.toList_append, List.head?_append, hquota] at hvalidation
    exact absurd hvalidation (by decide)

/-- The store and the record together exceed the quota, without the displaced rows they do not. -/
def FitsByDisplacing (record : ContentRecord) (config : Option StorageConfig) (db : Db) : Prop :=
  record.validateSize = .ok () ∧ (∀ id, dedupResult db record ≠ some (id, false)) ∧
    Exceeds config (recordsSizeBytes db + record.jsonLen) ∧
    ¬ Exceeds config (recordsSizeBytes db + record.jsonLen - displacedBytes record db)

end Capacity

/-- The quota error means that the written table would exceed the quota, except where the record
fits only because of the rows it displaces. -/
theorem insertRecord_quotaError_iff (record : ContentRecord) (config : Option StorageConfig)
    (db : Db) :
    (((insertRecord record config).run db).2 = .err (quotaError config) →
        Exceeds config (OrderedTable.weight ContentRecord.jsonLen (tableAfter record db))) ↔
      ¬ FitsByDisplacing record config db := by
  have hafter : OrderedTable.weight ContentRecord.jsonLen (tableAfter record db) =
      recordsSizeBytes db + record.jsonLen - displacedBytes record db := by
    have hweight := weight_tableAfter record db
    omega
  have hover := overQuota_iff db record config
  rw [insertRecord_run, hafter]
  unfold FitsByDisplacing
  cases hsize : record.validateSize with
  | error e =>
    have hne := validationError_ne_quotaError e config
    simp [hne]
  | ok _ =>
    dsimp only
    obtain ⟨id, hskip, heq⟩ | ⟨hnew, hquota, heq⟩ | ⟨id, hreplace, hquota, heq⟩ |
      ⟨hfresh, hquota, heq⟩ := insertRecordTx_cases record config db
    · rw [heq]
      simp [hskip]
    · rw [heq]
      have hexceeds := hover.mp hquota
      simp [hnew, hexceeds]
    · rw [hquota] at hover
      rw [heq]
      simp [← hover]
    · rw [hquota] at hover
      rw [heq]
      simp [← hover]

/-- The store after `record` alone was inserted. -/
def onlyRecord (record : ContentRecord) : Db :=
  { Db.empty with
    records := Db.empty.records.insert record.id record
    sourceIndex := Db.empty.sourceIndex.insert record.sourceHash record.id }

theorem onlyRecord_size (record : ContentRecord) :
    recordsSizeBytes (onlyRecord record) = record.jsonLen := by
  have hweight := OrderedTable.weight_insert (w := ContentRecord.jsonLen) Db.empty.records record.id
    record
  have hempty : OrderedTable.weight ContentRecord.jsonLen (Db.empty.records.erase record.id) = 0 := by
    simp only [Db.empty, Std.ExtTreeMap.erase_empty]
    rfl
  rw [hempty] at hweight
  exact hweight

def longRecord (createdAt length : ℕ) : ContentRecord :=
  { makeRecord "r1" "sh1" createdAt 5000 with body := JsonText.letters length }

theorem longRecord_jsonLen {createdAt : ℕ} (length : ℕ)
    (hdigits : (JsonText.ofNat createdAt).length = 4) :
    (longRecord createdAt length).jsonLen = 207 + length := by
  have hbare : { makeRecord "r1" "sh1" 1000 5000 with body := "" }.jsonLen = 207 := by decide +kernel
  have hcreated := ContentRecord.jsonLen_createdAt
    { makeRecord "r1" "sh1" 1000 5000 with body := "" } createdAt
  have hbody := JsonText.escapedLength_letters length
  have hlen := ContentRecord.jsonLen_body (longRecord createdAt length)
  have hthousand : (JsonText.ofNat 1000).length = 4 := by decide
  unfold makeRecord at hbare hcreated
  dsimp only at hbare hcreated
  unfold longRecord makeRecord at hlen ⊢
  dsimp only at hlen
  rw [hlen, hbody]
  omega

theorem longRecord_valid {createdAt length : ℕ}
    (hlen : (longRecord createdAt length).jsonLen = 207 + length)
    (hshort : length + 207 ≤ 1024 * 1024) : (longRecord createdAt length).validateSize = .ok () := by
  rw [ContentRecord.validateSize, hlen, if_neg]
  unfold MAX_RECORD_SIZE
  omega

theorem longRecord_stored (length : ℕ) : (onlyRecord (longRecord 1000 length)).records["r1"]? =
    some (longRecord 1000 length) :=
  OrderedTable.get_insert_eq_some.mpr (.inl ⟨rfl, rfl⟩)

theorem longRecord_replaces (length : ℕ) :
    dedupResult (onlyRecord (longRecord 1000 length)) (longRecord 2000 length) =
      some ("r1", true) := by
  have hnamed : (onlyRecord (longRecord 1000 length)).sourceIndex["sh1"]? = some "r1" :=
    OrderedTable.get_insert_eq_some.mpr (.inl ⟨rfl, rfl⟩)
  exact dedupResult_eq_some.mpr ⟨longRecord 1000 length, hnamed, longRecord_stored length, rfl⟩

/-- A newer copy of the only record, of more than half the quota. -/
theorem insertRecord_refuses_copy (length : ℕ) (hlong : 1024 * 1024 < 2 * length)
    (hshort : length + 207 ≤ 1024 * 1024) :
    ((insertRecord (longRecord 2000 length) (some ⟨1, ""⟩)).run
        (onlyRecord (longRecord 1000 length))).2 = .err (quotaError (some ⟨1, ""⟩)) ∧
      ¬ Exceeds (some ⟨1, ""⟩) (OrderedTable.weight ContentRecord.jsonLen
        (tableAfter (longRecord 2000 length) (onlyRecord (longRecord 1000 length)))) := by
  have hold := longRecord_jsonLen length (show (JsonText.ofNat 1000).length = 4 by decide)
  have hnew := longRecord_jsonLen length (show (JsonText.ofNat 2000).length = 4 by decide)
  have hsize := onlyRecord_size (longRecord 1000 length)
  have hdedup := longRecord_replaces length
  constructor
  · have hover : overQuota (onlyRecord (longRecord 1000 length)) (longRecord 2000 length)
        (some ⟨1, ""⟩) = true := by
      rw [overQuota_iff, hsize, hold, hnew]
      exact ⟨_, rfl, Nat.one_pos, by dsimp only; omega⟩
    rw [insertRecord_run, longRecord_valid hnew hshort]
    simp [insertRecordTx, hdedup, hover]
  · have hrow : OrderedTable.weightAt ContentRecord.jsonLen
        (onlyRecord (longRecord 1000 length)).records "r1" = 207 + length := by
      rw [OrderedTable.weightAt, longRecord_stored, Option.map_some, hold]
      rfl
    have hdisplaced : 207 + length ≤
        displacedBytes (longRecord 2000 length) (onlyRecord (longRecord 1000 length)) := by
      rw [displacedBytes, hdedup]
      dsimp only
      rw [hrow]
      exact Nat.le_add_right _ _
    have hweight := weight_tableAfter (longRecord 2000 length) (onlyRecord (longRecord 1000 length))
    rw [hsize, hold, hnew] at hweight
    rintro ⟨cfg, hcfg, -, hexceeds⟩
    obtain rfl := Option.some.inj hcfg
    dsimp only at hexceeds
    omega

/-- The quota error also refuses what fits: a newer copy of the only record. -/
theorem insertRecord_refuses_fitting_record :
    ¬ ∀ (record : ContentRecord) (config : Option StorageConfig) (db : Db),
      ((insertRecord record config).run db).2 = .err (quotaError config) →
        Exceeds config (OrderedTable.weight ContentRecord.jsonLen (tableAfter record db)) := by
  intro hclaim
  obtain ⟨hrefused, hfits⟩ := insertRecord_refuses_copy 600000 (by decide) (by decide)
  exact hfits (hclaim _ _ _ hrefused)

end DSearch
