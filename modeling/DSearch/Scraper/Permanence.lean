import DSearch.Scraper.Adds
import DSearch.Storage.InsertEnds

/-! # Whether the records of a pinned job stay

`lifecycle = "pinned"` is encoded in two ways that do not meet: `run_url_job` sets `expires_at` to 0,
which a sweep looks at and an eviction does not, and the pins table, which both look at, is not
written by any job. Feed and api jobs are not given the lifecycle at all. -/

namespace DSearch
set_option autoImplicit false
open Transaction Records Scraper

def ExpiresAsMade (job : JobState) (record : ContentRecord) : Prop :=
  record.expiresAt =
    if (job.source = "url" ∨ job.source = "keyword") ∧ job.lifecycle = "pinned" then 0
    else addSecs record.createdAt job.ttlSecs

variable {ed : Ed25519} (store : Store ed) (env : ScrapeEnv)

/-- Every record that a run of a job adds has the expiry that its runner gives it. -/
theorem runJob_addsExpiring (job : JobState) :
    (runJob store env job).Guarantees (AddsOnly (ExpiresAsMade job)) := by
  -- feed and api records: the lifecycle plays no part
  have hbatch : job.source ≠ "url" → job.source ≠ "keyword" → ∀ made : ContentRecord,
      made.expiresAt = addSecs made.createdAt job.ttlSecs →
        Inserts store (fun _ => True) (AddsOnly (ExpiresAsMade job)) made := by
    intro hurl hkeyword made hexpiry
    refine Yields.inserts store fun record hsanitized sig => ?_
    obtain ⟨hcreated, hexpires⟩ := Sanitize.sanitizeRecord_times hsanitized
    simp only [ExpiresAsMade, hurl, hkeyword, or_self, false_and, if_false, hexpires, hcreated, hexpiry]
  refine runJob_within ?_ ?_ ?_
  · intro hsource name target body now
    refine Yields.inserts store fun record hsanitized sig => ?_
    obtain ⟨hcreated, hexpires⟩ := Sanitize.sanitizeRecord_times hsanitized
    simp only [ExpiresAsMade, hsource, true_and, hexpires, hcreated, urlRecord]
  · intro hsource entry now
    exact hbatch (by simp [hsource]) (by simp [hsource]) _ rfl
  · intro hsource item now
    exact hbatch (by simp [hsource]) (by simp [hsource]) _ rfl

/-! ## Later runs -/

def CleanupSpares (ops : List StoreOp) (id : String) (record : ContentRecord) (db : Db) : Prop :=
  ∀ pre op post, ops = pre ++ op :: post → op.isCleanup = true →
    (StoreOp.exec store pre db).records[id]? = some record →
      (StoreOp.exec store (pre ++ [op]) db).records[id]? = some record

/-- What spares a record of a pinned job: before a sweep, that the job scrapes urls, that the record
is pinned by its id, or that its time to live is not over; before an eviction, that the record is
pinned by its id or the older unpinned records free enough. -/
def PermanenceHolds (job : ScrapeJob) (id : String) (record : ContentRecord) (db : Db) :
    StoreOp → Prop
  | .sweep now => job.source = .url ∨ job.source = .keyword ∨ db.pins[id]?.isSome ∨
      ¬ (0 < addSecs record.createdAt job.ttlSecs ∧ addSecs record.createdAt job.ttlSecs < now)
  | .evict needed => ¬ Quota.Evictable db needed id
  | _ => True

theorem ExpiresAsMade.pinned {job : ScrapeJob} (hpinned : job.lifecycle = .pinned)
    {record : ContentRecord} (h : ExpiresAsMade (JobState.new job) record) :
    record.expiresAt = if job.source = .url ∨ job.source = .keyword then 0
      else addSecs record.createdAt job.ttlSecs := by
  rw [ExpiresAsMade] at h
  rw [h]
  cases hsource : job.source <;>
    simp [JobState.new, hsource, hpinned, ScrapeSource.asStr, Lifecycle.asStr]

/-- A sweep or an eviction spares a stored record with the expiry of a pinned job exactly if
something protects it. -/
theorem cleanup_spares_iff {job : ScrapeJob} (hpinned : job.lifecycle = .pinned) {id : String}
    {record : ContentRecord} (hexpiry : ExpiresAsMade (JobState.new job) record) {db : Db}
    (hstored : db.records[id]? = some record) {op : StoreOp} (hop : op.isCleanup = true) :
    (op.run store db).1.records[id]? = some record ↔ PermanenceHolds job id record db op := by
  cases op with
  | sweep now =>
    rw [StoreOp.run_sweep, removeRows_records_eq_some, and_iff_left hstored, mem_expiredRows_ids,
      PermanenceHolds]
    simp only [Expired, hstored, Option.some.injEq, exists_eq_left', hexpiry.pinned hpinned]
    cases hpin : db.pins[id]? with
    | some _ => simp
    | none =>
      by_cases hurl : job.source = .url ∨ job.source = .keyword
      · rcases hurl with hurl | hurl <;> simp [hurl]
      · obtain ⟨hnotUrl, hnotKeyword⟩ := not_or.mp hurl
        simp [hnotUrl, hnotKeyword]
  | evict needed =>
    rw [StoreOp.run_evict, removeRows_records_eq_some, and_iff_left hstored, Quota.mem_victims_ids]
    rfl
  | _ => cases hop

/-- A record that a pinned job newly stored is spared by every sweep and eviction of a later run
exactly if at each of them something protects it. -/
theorem pinned_job_records_kept_iff (job : ScrapeJob) (db : Db) (id : String)
    (record : ContentRecord) (ops : List StoreOp) (hpinned : job.lifecycle = .pinned)
    (hnew : db.records[id]? ≠ some record)
    (hstored : ((runJob store env (JobState.new job)).run db).1.records[id]? = some record) :
    CleanupSpares store ops id record ((runJob store env (JobState.new job)).run db).1 ↔
      ∀ pre op post, ops = pre ++ op :: post → op.isCleanup = true →
        (StoreOp.exec store pre ((runJob store env (JobState.new job)).run db).1).records[id]? =
          some record →
        PermanenceHolds job id record
          (StoreOp.exec store pre ((runJob store env (JobState.new job)).run db).1) op := by
  have hadds := (runJob_addsExpiring store env (JobState.new job)).run AddsOnly.refl AddsOnly.trans db
  have hexpiry : ExpiresAsMade (JobState.new job) record :=
    (hadds.2 id record hstored).resolve_left hnew
  unfold CleanupSpares
  simp only [StoreOp.exec_append, StoreOp.exec_cons, StoreOp.exec_nil]
  constructor
  · intro hspares pre op post hops hop hbefore
    exact (cleanup_spares_iff store hpinned hexpiry hbefore hop).mp (hspares pre op post hops hop hbefore)
  · intro hholds pre op post hops hop hbefore
    exact (cleanup_spares_iff store hpinned hexpiry hbefore hop).mpr (hholds pre op post hops hop hbefore)

/-- A clock that stands at 1000, a page and a feed with one entry, and a checksum for a digest. -/
def stillEnv : ScrapeEnv where
  fetchUrl _ := .ok "page"
  feedEntries _ := .ok [⟨"https://h/a", "text"⟩]
  apiItems _ := .ok []
  loadProviders _ := []
  clock _ := 1000
  blake3 bytes := Sign.toHex [bytes.sum]
  toLowercase := id

def pinnedJob (source : ScrapeSource) : ScrapeJob where
  name := "news"
  source := source
  target := "https://h/a"
  transform := none
  refresh := .interval
  intervalSecs := 3600
  lifecycle := .pinned
  ttlSecs := 500
  maxResults := none

def newsRecord : ContentRecord := feedRecord stillEnv "news" 500 ⟨"https://h/a", "text"⟩ 1000

theorem stillEnv_blake3 (bytes : Bytes) : (stillEnv.blake3 bytes).utf8ByteSize ≤ 8000 :=
  (Sign.utf8ByteSize_toHex_le [bytes.sum]).trans (show 8 * 1 ≤ 8000 by decide)

theorem newsRecord_short : newsRecord.Short where
  id := stillEnv_blake3 _
  sourceUrl := JsonText.utf8ByteSize_literal_le (by decide)
  sourceHash := stillEnv_blake3 _
  schema := JsonText.utf8ByteSize_literal_le (by decide)
  tags := (JsonText.length_ofArray_singleton_le (JsonText.utf8ByteSize_literals_le le_rfl)).trans
    (by decide)
  body := JsonText.utf8ByteSize_literal_le (by decide)
  createdAt := by decide
  expiresAt := by decide
  sig := by decide

theorem stillEnv_kept (bytes : Bytes) : Sanitize.sanitizeString (stillEnv.blake3 bytes) =
    stillEnv.blake3 bytes :=
  Sanitize.sanitizeString_eq_self_iff.mpr fun ch hch =>
    Sanitize.isKept_hexadecimal (Sign.toHex_hexadecimal _ ch hch)

theorem newsRecord_unchanged : Sanitize.Unchanged newsRecord where
  id := stillEnv_kept _
  sourceUrl := Sanitize.sanitizeString_ascii (by decide)
  sourceHash := stillEnv_kept _
  schema := Sanitize.sanitizeString_ascii (by decide)
  tags := Sanitize.mapM_sanitizeTag_literals rfl (by decide)
  body := Sanitize.sanitizeString_ascii (by decide)
  bodySize := JsonText.utf8ByteSize_literal_le (by decide)

theorem runJob_newsRecord (db : Db) :
    ((runJob plainStore stillEnv (JobState.new (pinnedJob .feed))).run db).1 =
      ((plainStore.insertRecord newsRecord).run db).1 := by
  rw [runJob_feed plainStore rfl]
  exact runFeedJob_db plainStore rfl newsRecord_unchanged.sanitizeRecord db

theorem newsRecord_stored :
    ((runJob plainStore stillEnv (JobState.new (pinnedJob .feed))).run Db.empty).1.records[
      newsRecord.id]? = some newsRecord := by
  rw [runJob_newsRecord]
  exact plainStore.insertRecord_stores
    (plainStore.not_refuses rfl newsRecord_short.validateSize Db.empty)

/-- The page of a pinned url job. -/
def pinnedPage : ContentRecord := urlRecord stillEnv "news" "https://h/a" "pinned" 500 "page" 1000

theorem pinnedPage_short : pinnedPage.Short where
  id := stillEnv_blake3 _
  sourceUrl := JsonText.utf8ByteSize_literal_le (by decide)
  sourceHash := stillEnv_blake3 _
  schema := JsonText.utf8ByteSize_literal_le (by decide)
  tags := (JsonText.length_ofArray_singleton_le (JsonText.utf8ByteSize_literals_le le_rfl)).trans
    (by decide)
  body := JsonText.utf8ByteSize_literal_le (by decide)
  createdAt := by decide
  expiresAt := by decide
  sig := by decide

theorem pinnedPage_unchanged : Sanitize.Unchanged pinnedPage where
  id := stillEnv_kept _
  sourceUrl := Sanitize.sanitizeString_ascii (by decide)
  sourceHash := stillEnv_kept _
  schema := Sanitize.sanitizeString_ascii (by decide)
  tags := Sanitize.mapM_sanitizeTag_literals rfl (by decide)
  body := Sanitize.sanitizeString_ascii (by decide)
  bodySize := JsonText.utf8ByteSize_literal_le (by decide)

theorem runJob_pinnedPage (db : Db) :
    ((runJob plainStore stillEnv (JobState.new (pinnedJob .url))).run db).1 =
      ((plainStore.insertRecord pinnedPage).run db).1 := by
  rw [runJob_url plainStore rfl]
  exact runUrlJob_db plainStore rfl pinnedPage_unchanged.sanitizeRecord db

theorem pinned_job_records_kept_iff_news :
    CleanupSpares plainStore [.sweep 2000] newsRecord.id newsRecord
        ((runJob plainStore stillEnv (JobState.new (pinnedJob .feed))).run Db.empty).1 ↔
      ∀ pre op post, [.sweep 2000] = pre ++ op :: post → op.isCleanup = true →
        (StoreOp.exec plainStore pre ((runJob plainStore stillEnv
          (JobState.new (pinnedJob .feed))).run Db.empty).1).records[newsRecord.id]? =
          some newsRecord →
        PermanenceHolds (pinnedJob .feed) newsRecord.id newsRecord (StoreOp.exec plainStore pre
          ((runJob plainStore stillEnv (JobState.new (pinnedJob .feed))).run Db.empty).1) op :=
  pinned_job_records_kept_iff plainStore stillEnv (pinnedJob .feed) Db.empty newsRecord.id newsRecord
    [.sweep 2000] rfl (by decide +kernel) newsRecord_stored

/-- The record of a pinned feed job is swept when its time to live is over, and the record of a
pinned url job is evicted. -/
theorem pinned_job_records_removed :
    (¬ ∀ (ed : Ed25519) (store : Store ed) (env : ScrapeEnv) (job : ScrapeJob) (id : String)
      (record : ContentRecord) (now : ℕ), job.lifecycle = .pinned →
      ((runJob store env (JobState.new job)).run Db.empty).1.records[id]? = some record →
        CleanupSpares store [.sweep now] id record
          ((runJob store env (JobState.new job)).run Db.empty).1) ∧
    ¬ ∀ (ed : Ed25519) (store : Store ed) (env : ScrapeEnv) (job : ScrapeJob) (id : String)
      (record : ContentRecord) (needed : ℕ), job.lifecycle = .pinned → job.source = .url →
      ((runJob store env (JobState.new job)).run Db.empty).1.records[id]? = some record →
        CleanupSpares store [.evict needed] id record
          ((runJob store env (JobState.new job)).run Db.empty).1 := by
  constructor
  · intro hclaim
    have hsize : (plainStore.signed newsRecord).validateSize = .ok () := newsRecord_short.validateSize
    have hstored := newsRecord_stored
    have hkept := hclaim .checksum plainStore stillEnv (pinnedJob .feed) newsRecord.id newsRecord 2000
      rfl hstored [] (.sweep 2000) [] rfl rfl (by rwa [StoreOp.exec_nil])
    rw [runJob_newsRecord, Store.insertRecord_run, Records.insertRecord_run, hsize] at hkept
    revert hkept
    decide +kernel
  · intro hclaim
    have hsize : (plainStore.signed pinnedPage).validateSize = .ok () := pinnedPage_short.validateSize
    have hstored : ((runJob plainStore stillEnv (JobState.new (pinnedJob .url))).run Db.empty).1.records[
        pinnedPage.id]? = some pinnedPage := by
      rw [runJob_pinnedPage]
      exact plainStore.insertRecord_stores (plainStore.not_refuses rfl hsize Db.empty)
    have hkept := hclaim .checksum plainStore stillEnv (pinnedJob .url) pinnedPage.id pinnedPage 1 rfl
      rfl hstored [] (.evict 1) [] rfl rfl (by rwa [StoreOp.exec_nil])
    rw [runJob_pinnedPage, Store.insertRecord_run, Records.insertRecord_run, hsize] at hkept
    revert hkept
    decide +kernel

end DSearch
