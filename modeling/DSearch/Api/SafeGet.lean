import DSearch.Api.Handlers
import DSearch.Storage.Capacity

/-! # GET requests and the tables

Every GET arm of `route` only reads the tables, but the one for `/storage/quota`: it asks `check_quota`
whether the store is within its quota, and `check_quota` evicts. -/

namespace DSearch
set_option autoImplicit false
open Transaction NodeState

namespace LocalApi
variable {ed : Ed25519} (api : LocalApi ed)

theorem respond_readsDb (resp : HttpResponse) : ReadsDb (respond resp) := ReadsDb.done _

theorem answering_readsDb {c : Client NodeState HttpResponse} (h : ReadsDb c) :
    ReadsDb (answering c) :=
  h.bind respond_readsDb

theorem inMemory_readsDb
    (f : NodeState → SearchCache (List ContentRecord) × Tier2Limiter × RelayBandwidthAccount)
    {next : Client NodeState (Outcome HttpResponse)} (h : ReadsDb next) : ReadsDb (inMemory f next) :=
  Client.Within.write (fun s _ => SameDb.refl s) h

theorem cacheReport_readsDb : ReadsDb api.cacheReport := by
  unfold cacheReport
  refine ReadsDb.read fun s₁ => ReadsDb.read fun s₂ => ReadsDb.read fun s₃ => ?_
  refine ReadsDb.read fun s₄ => ReadsDb.read fun s₅ => ?_
  exact inMemory_readsDb _ (respond_readsDb _)

theorem handleStorageCache_readsDb : ReadsDb api.handleStorageCache := by
  unfold handleStorageCache onCache onTier2 onRelay
  apply inMemory_readsDb
  apply inMemory_readsDb
  apply inMemory_readsDb
  apply inMemory_readsDb
  apply inMemory_readsDb
  apply inMemory_readsDb
  refine ReadsDb.read fun s => ?_
  split
  · exact ReadsDb.done _
  · split
    · exact ReadsDb.done _
    · exact api.cacheReport_readsDb
  · exact api.cacheReport_readsDb

/-- Every GET arm but one leaves the tables as they are, in every transaction. -/
theorem getRoute_readsDb {req : HttpRequest} (hpath : req.path ≠ "/storage/quota") :
    ReadsDb (api.getRoute req) := by
  unfold getRoute
  split
  case h_3 => exact answering_readsDb (Content.search_readsDb _ _ req)
  case h_4 => exact answering_readsDb (Content.list_readsDb _ req)
  case h_9 heq => exact absurd heq hpath
  case h_11 => exact api.handleStorageCache_readsDb
  case h_16 =>
    split
    · exact answering_readsDb (Content.getRecord_readsDb _ _)
    · exact respond_readsDb _
    · exact respond_readsDb _
  case h_2 => exact ReadsDb.read fun s => respond_readsDb _
  case h_8 => exact ReadsDb.read fun s => ReadsDb.read fun s' => respond_readsDb _
  all_goals exact respond_readsDb _

theorem handleStorageQuota_db (s : NodeState) :
    (api.handleStorageQuota.run s).1.db =
      Records.removeRows (Quota.evicted api.store.config 0 s.db) s.db := by
  unfold handleStorageQuota
  rw [Client.run_read, Client.run_read, Client.run_bind, run_onDb]
  rcases Quota.checkQuota_run api.store.config 0 s.db with ⟨-, hrun⟩ | ⟨-, e, hrun⟩
  · rw [Store.checkQuota, hrun]
    rfl
  · rw [Store.checkQuota, hrun]
    rfl

theorem route_storageQuota {req : HttpRequest} (hget : req.method = "GET")
    (hpath : req.path = "/storage/quota") : api.route req = api.handleStorageQuota := by
  simp only [route, hget, getRoute, hpath]

end LocalApi

/-- A GET request leaves all tables as they are, except that `/storage/quota` deletes what an
evicting quota check deletes. -/
theorem route_get_iff {ed : Ed25519} (api : LocalApi ed) (req : HttpRequest) (hget : req.method = "GET")
    (s : NodeState) :
    ((api.route req).run s).1.db = s.db ↔
      ¬ (req.path = "/storage/quota" ∧ Quota.Deletes api.store.config 0 s.db) := by
  by_cases hpath : req.path = "/storage/quota"
  · have hdb := api.handleStorageQuota_db s
    rw [api.route_storageQuota hget hpath, ← Quota.evicted_ne_nil_iff]
    simp only [hpath, true_and, not_not]
    constructor
    · intro hsame
      rw [hdb] at hsame
      exact (Quota.removeRows_evicted_eq_iff _ _ _).mp (congrArg Db.records hsame)
    · intro hnil
      rw [hdb, hnil, Records.removeRows_nil]
  · have hroute : api.route req = api.getRoute req := by simp only [LocalApi.route, hget]
    have hsame := (api.getRoute_readsDb hpath).run s
    rw [hroute]
    exact iff_of_true hsame fun h => hpath h.1

/-! ## A quota that was lowered -/

/-- The local API over a store, without files, where a body is `text` or nothing that can be read. -/
def bareApi (config : StorageConfig) (text : String) (record : ContentRecord) : LocalApi .checksum where
  store := ⟨config, none⟩
  nodeId := "n"
  settings := ⟨"full", 1, 100, [], 3600, "ephemeral"⟩
  files := ⟨[], .ok [], false, []⟩
  env := ⟨0, 0, .sorted, id⟩
  openapiJson _ := []
  blake3 _ := ""
  zeroKey := some (0 : UInt8)
  recordFromStr body := if body = text then .ok record else .error "expected value"
  recordsFromStr _ := .error "expected value"
  bodyField _ _ := .ok none
  readToString _ := .error "No such file or directory"
  otherPost _ := LocalApi.respond (.notFound "unknown route")

def getRequest (path : String) : HttpRequest := ⟨"GET", path, ∅, ∅, ""⟩

theorem route_get_iff_health :
    (((bareApi ⟨1, "evict_oldest"⟩ "" (longRecord 0 0)).route (getRequest "/health")).run
        (.new .empty)).1.db = (NodeState.new .empty).db ↔
      ¬ ((getRequest "/health").path = "/storage/quota" ∧
        Quota.Deletes (bareApi ⟨1, "evict_oldest"⟩ "" (longRecord 0 0)).store.config 0
          (NodeState.new .empty).db) :=
  route_get_iff _ (getRequest "/health") rfl _

/-- A second record, of another source. -/
def otherRecord (createdAt length : ℕ) : ContentRecord :=
  { longRecord createdAt length with id := "r2", sourceHash := "sh2" }

def twoRecords (length : ℕ) : Db :=
  { onlyRecord (longRecord 1000 length) with
    records := (onlyRecord (longRecord 1000 length)).records.insert "r2" (otherRecord 2000 length)
    sourceIndex := (onlyRecord (longRecord 1000 length)).sourceIndex.insert "sh2" "r2" }

theorem otherRecord_jsonLen (createdAt length : ℕ) :
    length ≤ (otherRecord createdAt length).jsonLen := by
  have hbody := JsonText.escapedLength_letters length
  have hlen := ContentRecord.jsonLen_body (otherRecord createdAt length)
  unfold otherRecord longRecord at hlen ⊢
  dsimp only at hlen ⊢
  omega

theorem twoRecords_size (length : ℕ) :
    length + length ≤ Records.recordsSizeBytes (twoRecords length) := by
  have hfirst := longRecord_jsonLen length (show (JsonText.ofNat 1000).length = 4 by decide)
  have hsecond := otherRecord_jsonLen 2000 length
  have honly := onlyRecord_size (longRecord 1000 length)
  have habsent : (onlyRecord (longRecord 1000 length)).records["r2"]? = none := by
    rw [onlyRecord, OrderedTable.get_insert]
    rfl
  have hweight := OrderedTable.weight_insert (w := ContentRecord.jsonLen)
    (onlyRecord (longRecord 1000 length)).records "r2" (otherRecord 2000 length)
  rw [OrderedTable.erase_of_get_eq_none habsent] at hweight
  have hsize : Records.recordsSizeBytes (twoRecords length) =
      Records.recordsSizeBytes (onlyRecord (longRecord 1000 length)) +
        (otherRecord 2000 length).jsonLen :=
    hweight.trans (Nat.add_comm _ _)
  omega

theorem twoRecords_deletes {length : ℕ} (hlong : 1024 * 1024 < 2 * length) :
    Quota.Deletes ⟨1, "evict_oldest"⟩ 0 (twoRecords length) := by
  have hsize := twoRecords_size length
  have hquota : (StorageConfig.mk 1 "evict_oldest").quotaBytes = 1024 * 1024 := rfl
  have hstored : (twoRecords length).records["r2"]? = some (otherRecord 2000 length) :=
    OrderedTable.get_insert_eq_some.mpr (.inl ⟨rfl, rfl⟩)
  have hunpinned : (twoRecords length).pins["r2"]? = none := rfl
  have hover : Quota.Over ⟨1, "evict_oldest"⟩ 0 (twoRecords length) := by
    refine ⟨Nat.one_pos, ?_⟩
    omega
  exact ⟨hover, rfl, "r2", _, hstored, hunpinned⟩

theorem storageQuota_evicts (length : ℕ) (hlong : 1024 * 1024 < 2 * length) :
    (((bareApi ⟨1, "evict_oldest"⟩ "" (longRecord 0 0)).route (getRequest "/storage/quota")).run
      (.new (twoRecords length))).1.db ≠ (NodeState.new (twoRecords length)).db := by
  have hdb := (bareApi ⟨1, "evict_oldest"⟩ "" (longRecord 0 0)).handleStorageQuota_db
    (.new (twoRecords length))
  have hdeletes := twoRecords_deletes hlong
  intro hsame
  rw [LocalApi.route_storageQuota _ rfl rfl, hdb] at hsame
  have hrecords := congrArg Db.records hsame
  exact (Quota.evicted_ne_nil_iff _ _ _).mpr hdeletes
    ((Quota.removeRows_evicted_eq_iff _ _ _).mp hrecords)

/-- A store with two records of 600000 letters, and then a quota of 1 MB: reading the quota deletes. -/
theorem route_get_deletes :
    ¬ ∀ (api : LocalApi .checksum) (req : HttpRequest) (s : NodeState), req.method = "GET" →
      ((api.route req).run s).1.db = s.db := by
  intro hclaim
  exact storageQuota_evicts 600000 (by decide) (hclaim _ _ _ rfl)

end DSearch
