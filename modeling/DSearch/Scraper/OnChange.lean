import DSearch.Scraper.ContentAddress

/-! # On-change jobs

`refresh = "on-change"` should store a page only if it changed. `run_url_job` makes a record whose id
and `created_at` come from the clock, and the dedup compares times: the page of a later run is stored
anew, whatever it says. -/

namespace DSearch
set_option autoImplicit false
open Transaction Records Scraper Sanitize

namespace Store
variable {ed : Ed25519} (store : Store ed)

/-- The table holds exactly this record already, and nothing else goes when it is written. -/
def Rewrites (db : Db) (record : ContentRecord) : Prop :=
  db.records[record.id]? = some (store.signed record) ∧
    ∀ oldId, dedupResult db record = some (oldId, true) → oldId = record.id

theorem recordsBefore_insert_eq_iff (db : Db) (record : ContentRecord) :
    (recordsBefore db record).insert record.id (store.signed record) = db.records ↔
      store.Rewrites db record := by
  unfold Rewrites
  constructor
  · intro hsame
    refine ⟨by rw [← hsame, OrderedTable.get_insert, if_pos rfl], fun oldId hdedup => ?_⟩
    by_contra hne
    obtain ⟨existing, -, hexisting, -⟩ := dedupResult_eq_some.mp hdedup
    rw [recordsBefore, hdedup] at hsame
    dsimp only at hsame
    rw [← hsame, OrderedTable.get_insert, if_neg (Ne.symm hne), OrderedTable.get_erase,
      if_pos rfl] at hexisting
    cases hexisting
  · rintro ⟨hstored, hreplaced⟩
    have herased : (db.records.erase record.id).insert record.id (store.signed record) = db.records :=
      OrderedTable.insert_erase_of_get hstored
    have hinserted : db.records.insert record.id (store.signed record) = db.records := by
      apply Std.ExtTreeMap.ext_getElem?
      intro key
      rw [OrderedTable.get_insert]
      by_cases hkey : record.id = key
      · rw [if_pos hkey, ← hkey, hstored]
      · rw [if_neg hkey]
    unfold recordsBefore
    cases hdedup : dedupResult db record with
    | none => exact hinserted
    | some found =>
      obtain ⟨oldId, newer⟩ := found
      cases newer with
      | false => exact hinserted
      | true =>
        obtain rfl := hreplaced oldId hdedup
        exact herased

/-- An insert leaves the records as they are if it is refused or skipped, or writes what is there. -/
theorem insertRecord_records_eq_iff (record : ContentRecord) (db : Db) :
    ((store.insertRecord record).run db).1.records = db.records ↔
      store.Refuses db record ∨ Skips db record ∨ store.Rewrites db record := by
  obtain ⟨hrefuses, e, hrun⟩ | ⟨-, hskips, hrun⟩ | ⟨hrefuses, hskips, hstored, -⟩ :=
    store.insertRecord_ends record db
  · rw [hrun]
    exact iff_of_true rfl (.inl hrefuses)
  · rw [hrun]
    exact iff_of_true rfl (.inr (.inl hskips))
  · rw [hstored.records, recordsBefore_insert_eq_iff, or_iff_right hrefuses, or_iff_right hskips]

end Store

variable {ed : Ed25519} (store : Store ed)

/-- An on-change url job, two runs of which fetch the same body; the clock may have moved on. -/
structure Refetched (job : JobState) (first second : ScrapeEnv) (body : String) : Prop where
  source : job.source = "url"
  refresh : job.refresh = "on-change"
  fetchFirst : first.fetchUrl job.target = .ok body
  fetchSecond : second.fetchUrl job.target = .ok body
  blake3 : second.blake3 = first.blake3
  toLowercase : second.toLowercase = first.toLowercase

def pageOf (env : ScrapeEnv) (job : JobState) (body : String) : ContentRecord :=
  urlRecord env job.name job.target job.lifecycle job.ttlSecs body (env.clock 0)

/-- Sanitizing refuses what was made, or the insert of what comes out leaves the records as they are. -/
def LeavesRecords (db : Db) (made : ContentRecord) : Prop :=
  ∀ record, sanitizeRecord made = .ok record →
    store.Refuses db record ∨ Store.Skips db record ∨ store.Rewrites db record

theorem runJob_url_records_eq_iff {env : ScrapeEnv} {job : JobState} {body : String}
    (hsource : job.source = "url") (hfetch : env.fetchUrl job.target = .ok body) (db : Db) :
    ((runJob store env job).run db).1.records = db.records ↔
      LeavesRecords store db (pageOf env job body) := by
  rw [runJob_url store hsource, LeavesRecords]
  cases hsanitized : sanitizeRecord (pageOf env job body) with
  | error e =>
    have hrun : ((runUrlJob store env job.name job.target job.lifecycle job.ttlSecs
        (env.clock 0)).run db).1 = db := by
      rw [pageOf] at hsanitized
      rw [runUrlJob, hfetch]
      dsimp only
      rw [hsanitized]
      rfl
    rw [hrun]
    exact iff_of_true rfl fun record hrecord => by cases hrecord
  | ok record =>
    rw [runUrlJob_db store hfetch hsanitized, store.insertRecord_records_eq_iff]
    constructor
    · rintro h found hfound
      obtain rfl := Except.ok.inj hfound
      exact h
    · exact fun h => h record rfl

/-- The second of two runs of an on-change job that fetch the same body leaves the records as they are,
whatever calls ran in between, exactly if the page is refused by then, a record of its source is
stored that is not older than the second reading of the clock, or it is stored as it is. -/
theorem onChange_unchanged_iff (job : JobState) (first second : ScrapeEnv) (body : String)
    (hfetched : Refetched job first second body) (db : Db) (ops : List StoreOp) :
    ((runJob store second job).run (StoreOp.exec store ops
        ((runJob store first job).run db).1)).1.records =
      (StoreOp.exec store ops ((runJob store first job).run db).1).records ↔
      LeavesRecords store (StoreOp.exec store ops ((runJob store first job).run db).1)
        (pageOf second job body) :=
  runJob_url_records_eq_iff store hfetched.source hfetched.fetchSecond _

/-- A page that was stored is not skipped by a later run: it is stored anew if it is not refused. -/
theorem stored_page_rewritten {job : JobState} {first second : ScrapeEnv} {body : String}
    (hfetched : Refetched job first second body) (hlater : first.clock 0 < second.clock 0) {db : Db}
    {old new : ContentRecord} (hold : sanitizeRecord (pageOf first job body) = .ok old)
    (hnew : sanitizeRecord (pageOf second job body) = .ok new) (hstored : ¬ store.Refuses db old)
    (hskipped : ¬ Store.Skips db old)
    (htaken : ¬ store.Refuses ((runJob store first job).run db).1 new) :
    ((runJob store second job).run ((runJob store first job).run db).1).1.records ≠
      ((runJob store first job).run db).1.records := by
  have htimes : old.createdAt < new.createdAt := by
    rw [(sanitizeRecord_times hold).1, (sanitizeRecord_times hnew).1]
    exact hlater
  have hsource : new.sourceHash = old.sourceHash := by
    obtain ⟨-, _, -, rfl⟩ := sanitizeRecord_eq_ok.mp hold
    obtain ⟨-, _, -, rfl⟩ := sanitizeRecord_eq_ok.mp hnew
    simp only [pageOf, urlRecord, hfetched.blake3, hfetched.toLowercase]
  have hrun : ((runJob store first job).run db).1 = ((store.insertRecord old).run db).1 := by
    rw [runJob_url store hfetched.source, runUrlJob_db store hfetched.fetchFirst hold]
  rw [hrun] at htaken ⊢
  obtain ⟨hrefuses, -⟩ | ⟨-, hskips, -⟩ | ⟨-, -, hcontent, -⟩ := store.insertRecord_ends old db
  · exact absurd hrefuses hstored
  · exact absurd hskips hskipped
  have hrecord : ((store.insertRecord old).run db).1.records[old.id]? = some (store.signed old) := by
    rw [hcontent.records, OrderedTable.get_insert, if_pos rfl]
  have hdedup : dedupResult ((store.insertRecord old).run db).1 new = some (old.id, true) := by
    refine dedupResult_eq_some.mpr ⟨store.signed old, ?_, hrecord, ?_⟩
    · rw [hcontent.sourceIndex, OrderedTable.get_insert, if_pos hsource.symm]
    · rw [store.signed_createdAt]
      exact (decide_eq_true htimes).symm
  rw [Ne, runJob_url_records_eq_iff store hfetched.source hfetched.fetchSecond]
  intro hleaves
  obtain hrefuses | ⟨id, hskips⟩ | ⟨hsame, hreplaced⟩ := hleaves new hnew
  · exact htaken hrefuses
  · rw [hdedup] at hskips
    cases hskips
  · rw [← hreplaced old.id hdedup, hrecord] at hsame
    have hcreated := congrArg ContentRecord.createdAt (Option.some.inj hsame)
    rw [store.signed_createdAt, store.signed_createdAt] at hcreated
    omega

/-- The job of a page that does not change, and its two runs at 1000 and 2000. -/
def pageJob : JobState := JobState.new { pinnedJob .url with refresh := .onChange }

def laterEnv : ScrapeEnv := { stillEnv with clock := fun _ => 2000 }

theorem refetched_pageJob : Refetched pageJob stillEnv laterEnv "page" :=
  ⟨rfl, rfl, rfl, rfl, rfl, rfl⟩

theorem onChange_unchanged_iff_page :
    ((runJob plainStore laterEnv pageJob).run (StoreOp.exec plainStore []
        ((runJob plainStore stillEnv pageJob).run Db.empty).1)).1.records =
      (StoreOp.exec plainStore [] ((runJob plainStore stillEnv pageJob).run Db.empty).1).records ↔
      LeavesRecords plainStore (StoreOp.exec plainStore []
        ((runJob plainStore stillEnv pageJob).run Db.empty).1) (pageOf laterEnv pageJob "page") :=
  onChange_unchanged_iff plainStore pageJob stillEnv laterEnv "page" refetched_pageJob Db.empty []

/-- The same page is stored anew at 2000. -/
theorem unchanged_page_rewritten :
    ¬ ∀ (ed : Ed25519) (store : Store ed) (job : JobState) (first second : ScrapeEnv) (body : String),
      Refetched job first second body → ∀ db : Db,
        ((runJob store second job).run ((runJob store first job).run db).1).1.records =
          ((runJob store first job).run db).1.records := by
  intro hclaim
  have hsame := hclaim .checksum plainStore pageJob stillEnv laterEnv "page" refetched_pageJob Db.empty
  have hstored := congrArg (fun table : Table ContentRecord =>
    (table[(pageOf stillEnv pageJob "page").id]?).map ContentRecord.createdAt) hsame
  revert hstored
  decide +kernel

end DSearch
