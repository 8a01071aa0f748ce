import DSearch.Api.Content
import DSearch.Bootstrap.Resolver
import DSearch.Model.Sanitize
import DSearch.Storage.QuotaGates
import DSearch.Trust.SourceUrl

/-! # Routes of the local API: `api/handlers.rs`

A handler is a client of the node's state that ends in a response, or in a panic, and then nothing is
answered. What it finds outside the store (files, settings, `serde_json`, `blake3`) is in `LocalApi`.
Results that the source drops are not computed here, and the routes that only write files or fetch
pages are a parameter. -/

namespace DSearch
set_option autoImplicit false
open JsonText Transaction

/-- The settings of `DsearchConfig` that handlers read; a job is its JSON value. -/
structure NodeSettings where
  role : String
  minProtocolVersion : ℕ
  bandwidthLimitMbps : ℕ
  jobs : List Bytes
  defaultIntervalSecs : ℕ
  defaultLifecycle : String

/-- What handlers read from the data directory. `peers` and `config` are JSON values. -/
structure NodeFiles where
  peers : List Bytes
  config : Except String Bytes
  hasIdentity : Bool
  bootstrapPeers : List BootstrapPeer

structure LocalApi (ed : Ed25519) where
  store : Store ed
  nodeId : String
  settings : NodeSettings
  files : NodeFiles
  env : NodeEnv
  /-- `api/openapi.rs`: a fixed text around the node id. -/
  openapiJson : String → Bytes
  blake3 : Bytes → String
  /-- The key of 32 zero bytes, if it is one. -/
  zeroKey : Option ed.VerifyingKey
  recordFromStr : String → Except String ContentRecord
  recordsFromStr : String → Except String (List ContentRecord)
  /-- The text under a name in a JSON body. -/
  bodyField : String → String → Except String (Option String)
  readToString : String → Except String String
  otherPost : HttpRequest → Client NodeState (Outcome HttpResponse)

def DEFAULT_DIFFICULTY : ℕ := 16

def knownSchemas : List String := ["wiki/article", "rust/crate", "link/media", "generic/kv"]

namespace LocalApi
variable {ed : Ed25519} (api : LocalApi ed)

/-! ## GET -/

def respond (resp : HttpResponse) : Client NodeState (Outcome HttpResponse) := .done (.ok resp)

def reply (fields : List (String × Bytes)) : HttpResponse := Content.jsonReply api.nodeId fields

def answering (c : Client NodeState HttpResponse) : Client NodeState (Outcome HttpResponse) :=
  c.bind respond

def handleNode : Client NodeState (Outcome HttpResponse) :=
  .read fun s => respond (api.reply [
    ("bandwidth_limit_mbps", ofNat api.settings.bandwidthLimitMbps),
    ("node_id", ofString api.nodeId),
    ("peers", ofNat 0),
    ("protocol_version", ofNat api.settings.minProtocolVersion),
    ("records", ofNat (Records.recordCount s.db)),
    ("role", ofString api.settings.role)])

def handleListSchemas : HttpResponse := api.reply [("schemas", ofArray (knownSchemas.map ofString))]

def handleGetSchema (id : String) : HttpResponse :=
  if id ∈ knownSchemas then api.reply [("id", ofString id), ("known", ofBool true)]
  else .notFound ("unknown schema: " ++ id)

def handleListPeers : HttpResponse :=
  api.reply [("count", ofNat api.files.peers.length), ("peers", ofArray api.files.peers)]

def handleListScrapers : HttpResponse :=
  api.reply [
    ("default_interval_secs", ofNat api.settings.defaultIntervalSecs),
    ("default_lifecycle", ofString api.settings.defaultLifecycle),
    ("jobs", ofArray api.settings.jobs)]

def handleStorageInfo : Client NodeState (Outcome HttpResponse) :=
  .read fun s => .read fun s' => respond (api.reply [
    ("record_count", ofNat (Records.recordCount s.db)),
    ("size_bytes", ofNat (Records.recordsSizeBytes s'.db))])

/-- The one GET handler with a policy: `check_quota` may evict. -/
def handleStorageQuota : Client NodeState (Outcome HttpResponse) :=
  .read fun s => .read fun s' =>
    (NodeState.onDb (api.store.checkQuota 0)).bind fun out => respond (api.reply [
      ("record_count", ofNat (Records.recordCount s.db)),
      ("size_bytes", ofNat (Records.recordsSizeBytes s'.db)),
      ("within_quota", ofBool (decide (out = .ok ())))])

/-- The proof of work that the handler mines and checks is dropped. -/
def handleStoragePow : HttpResponse := api.reply [("default_difficulty", ofNat DEFAULT_DIFFICULTY)]

/-- A call that changes only what the node has in memory. -/
def inMemory (f : NodeState → SearchCache (List ContentRecord) × Tier2Limiter × RelayBandwidthAccount)
    (next : Client NodeState (Outcome HttpResponse)) : Client NodeState (Outcome HttpResponse) :=
  .write (fun s => ⟨s.db, (f s).1, (f s).2.1, (f s).2.2⟩) next

def onCache (f : SearchCache (List ContentRecord) → SearchCache (List ContentRecord)) :=
  inMemory fun s => (f s.searchCache, s.tier2Limiter, s.bandwidthAccount)

def onTier2 (f : Tier2Limiter → Tier2Limiter) :=
  inMemory fun s => (s.searchCache, f s.tier2Limiter, s.bandwidthAccount)

def onRelay (f : RelayBandwidthAccount → RelayBandwidthAccount) :=
  inMemory fun s => (s.searchCache, s.tier2Limiter, f s.bandwidthAccount)

/-- What the handler reports after its calls. -/
def cacheReport : Client NodeState (Outcome HttpResponse) :=
  let now := api.env.instant
  .read fun s₁ => .read fun s₂ => .read fun s₃ => .read fun s₄ => .read fun s₅ =>
  onRelay (fun relay => relay.record "self" 0 now) <|
  respond (api.reply [
    ("cache_len", ofNat s₃.searchCache.len),
    ("relay_len", ofNat s₅.bandwidthAccount.len),
    ("relay_remaining", ofNat (s₂.bandwidthAccount.remaining "self" now)),
    ("tier2_len", ofNat s₄.tier2Limiter.len),
    ("tier2_remaining", ofNat (s₁.tier2Limiter.remaining "127.0.0.1" now))])

def handleStorageCache : Client NodeState (Outcome HttpResponse) :=
  let now := api.env.instant
  onCache (fun cache => cache.invalidate "") <|
  onCache SearchCache.clear <|
  onTier2 (fun limiter => (limiter.allow "127.0.0.1" now).1) <|
  onRelay (fun relay => (relay.allow "self" 0 now).1) <|
  onTier2 (fun limiter => limiter.pruneExpired now) <|
  onRelay (fun relay => relay.pruneExpired now) <|
  .read fun s =>
    -- a stored record with an empty id is verified, and slicing its signature may panic
    match api.zeroKey, Records.getRecord s.db "" with
    | none, _ => .done .panic
    | some key, some record =>
      if Store.verifyRecord record key = .panic then .done .panic else api.cacheReport
    | some _, none => api.cacheReport

def handleGetConfig : HttpResponse :=
  match api.files.config with
  | .ok config => (HttpResponse.json config).withNodeHeaders api.nodeId
  | .error e => .internalError e

def handleIdentity : HttpResponse :=
  api.reply [("has_identity", ofBool api.files.hasIdentity), ("node_id", ofString api.nodeId)]

def handleBootstrap : HttpResponse :=
  let peers := api.files.bootstrapPeers.map fun p =>
    ofFields [("addr", ofString p.addr), ("id", ofString p.id), ("note", ofString p.note)]
  api.reply [("count", ofNat peers.length), ("peers", ofArray peers)]

def handleOpenapi : HttpResponse :=
  (HttpResponse.json (api.openapiJson api.nodeId)).withNodeHeaders api.nodeId

/-- The GET arms of `route`. -/
def getRoute (req : HttpRequest) : Client NodeState (Outcome HttpResponse) :=
  match req.path with
  | "/health" => respond (Content.health api.nodeId)
  | "/node" => api.handleNode
  | "/search" => answering (Content.search api.env api.nodeId req)
  | "/records" => answering (Content.list api.nodeId req)
  | "/schema" => respond api.handleListSchemas
  | "/peers" => respond api.handleListPeers
  | "/scraper" => respond api.handleListScrapers
  | "/storage" => api.handleStorageInfo
  | "/storage/quota" => api.handleStorageQuota
  | "/storage/pow" => respond api.handleStoragePow
  | "/storage/cache" => api.handleStorageCache
  | "/config" => respond api.handleGetConfig
  | "/identity" => respond api.handleIdentity
  | "/bootstrap" => respond api.handleBootstrap
  | "/openapi.json" => respond api.handleOpenapi
  | path =>
    match Content.idAfter "/record/" path, Content.idAfter "/schema/" path with
    | some id, _ => answering (Content.getRecord api.nodeId id)
    | none, some id => respond (api.handleGetSchema id)
    | none, none => respond (.notFound "unknown route")

/-! ## POST -/

def withField (req : HttpRequest) (name : String)
    (next : String → Client NodeState (Outcome HttpResponse)) :
    Client NodeState (Outcome HttpResponse) :=
  match api.bodyField req.body name with
  | .error e => respond (.badRequest ("invalid JSON: " ++ e))
  | .ok none => respond (.badRequest ("missing field: " ++ name))
  | .ok (some value) => next value

/-- A call of the store: its error is an internal error. -/
def onStore {α : Type} (c : Client Db (Outcome α)) (next : α → HttpResponse) :
    Client NodeState (Outcome HttpResponse) :=
  (NodeState.onDb c).bind fun
    | .ok a => respond (next a)
    | .err e => respond (.internalError e)
    | .panic => .done .panic

def recordNotFound (id : String) : HttpResponse := .notFound ("record not found: " ++ id)

/-- The record of an insert request: parsed and sanitized. -/
def receivedRecord (req : HttpRequest) : Except HttpResponse ContentRecord :=
  match api.recordFromStr req.body with
  | .error e => .error (.badRequest ("invalid record JSON: " ++ e))
  | .ok parsed =>
    match Sanitize.sanitizeRecord parsed with
    | .error e => .error (.badRequest ("sanitization failed: " ++ e))
    | .ok record => .ok record

def actionOf : InsertResult → String
  | .inserted => "inserted"
  | .replacedNewer => "replaced"
  | .skippedOlder => "skipped"

def insertReply (id : String) (result : InsertResult) : HttpResponse :=
  api.reply [("action", ofString (actionOf result)), ("id", ofString id), ("ok", ofBool true)]

def handleInsertRecord (req : HttpRequest) : Client NodeState (Outcome HttpResponse) :=
  match api.receivedRecord req with
  | .error resp => respond resp
  | .ok record =>
    -- the quota is checked before the insert, in a transaction of its own
    (NodeState.onDb (api.store.checkQuota record.body.utf8ByteSize)).bind fun
      | .ok _ => onStore (api.store.insertRecord record) (api.insertReply record.id)
      | .err e => respond (.internalError ("quota check: " ++ e))
      | .panic => .done .panic

def handlePinRecord (req : HttpRequest) : Client NodeState (Outcome HttpResponse) :=
  api.withField req "id" fun id =>
    onStore (Records.pinRecord id api.env.now) fun pinned =>
      if pinned then api.reply [("id", ofString id), ("ok", ofBool true), ("pinned", ofBool true)]
      else recordNotFound id

def handleUnpinRecord (req : HttpRequest) : Client NodeState (Outcome HttpResponse) :=
  api.withField req "id" fun id =>
    onStore (Records.unpinRecord id) fun removed =>
      api.reply [("id", ofString id), ("ok", ofBool true), ("was_pinned", ofBool removed)]

def handleDeleteRecord (req : HttpRequest) : Client NodeState (Outcome HttpResponse) :=
  api.withField req "id" fun id =>
    onStore (Store.deleteRecord id) fun deleted =>
      if deleted then api.reply [("deleted", ofBool true), ("id", ofString id), ("ok", ofBool true)]
      else recordNotFound id

/-- `Store::verify_record_id`. -/
def verifyRecordId (record : ContentRecord) : VerifyResult :=
  let fields := Sign.recordFields record
  let computed := Sign.computeRecordId api.blake3 fields.sourceUrl fields.sourceHash fields.schema
    fields.tags fields.body fields.createdAt
  if computed = record.id then .ok else .fail "record_id does not match content hash"

/-- The announcement of a stored record, for a day if the record never expires. -/
def localAnnouncement (record : ContentRecord) : Announcement where
  recordId := record.id
  sourceHash := record.sourceHash
  schema := record.schema
  tags := record.tags
  holderAddr := "127.0.0.1:7744"
  expiresAt := if record.expiresAt = 0 then (api.env.now + 86400) % 2 ^ 64 else record.expiresAt
  sig := ""

def handleAnnounceRecord (req : HttpRequest) : Client NodeState (Outcome HttpResponse) :=
  api.withField req "id" fun id =>
    .read fun s =>
      match Records.getRecord s.db id with
      | none => respond (recordNotFound id)
      | some record =>
        let idResult := api.verifyRecordId record
        if ¬ idResult.valid then
          respond (.badRequest ("record ID verification failed: " ++ idResult.reason.getD ""))
        else
          onStore (api.store.insertAnnouncement (api.localAnnouncement record)) fun _ =>
            api.reply [("id", ofString id), ("ok", ofBool true)]

def handleSweep : Client NodeState (Outcome HttpResponse) :=
  onStore (Records.sweepOnce api.env.now) fun removed =>
    api.reply [
      ("announcements_removed", ofNat removed.2),
      ("ok", ofBool true),
      ("records_removed", ofNat removed.1)]

def handleStorageVacuum : Client NodeState (Outcome HttpResponse) :=
  .read fun s => .read fun s' => respond (api.reply [
    ("message", ofString "vacuum requires stopping the node first to compact the database"),
    ("ok", ofBool true),
    ("record_count", ofNat (Records.recordCount s.db)),
    ("size_bytes", ofNat (Records.recordsSizeBytes s'.db))])

structure ImportCounts where
  inserted : ℕ
  replaced : ℕ
  skipped : ℕ
  errors : ℕ
  deriving DecidableEq, Repr

def ImportCounts.count (counts : ImportCounts) : InsertResult → ImportCounts
  | .inserted => { counts with inserted := counts.inserted + 1 }
  | .replacedNewer => { counts with replaced := counts.replaced + 1 }
  | .skippedOlder => { counts with skipped := counts.skipped + 1 }

/-- The loop of an import, which goes on after a failure. -/
def importAll : List ContentRecord → ImportCounts → Client Db (Outcome ImportCounts)
  | [], counts => .done (.ok counts)
  | record :: records, counts =>
    let failed := { counts with errors := counts.errors + 1 }
    match Sanitize.sanitizeRecord record with
    | .error _ => importAll records failed
    | .ok record => (api.store.insertRecord record).bind fun
      | .ok result => importAll records (ImportCounts.count counts result)
      | .err _ => importAll records failed
      | .panic => .done .panic

def handleStorageImport (req : HttpRequest) : Client NodeState (Outcome HttpResponse) :=
  api.withField req "path" fun path =>
    match api.readToString path with
    | .error e => respond (.internalError ("read: " ++ e))
    | .ok text =>
      match api.recordsFromStr text with
      | .error e => respond (.badRequest ("parse: " ++ e))
      | .ok records =>
        onStore (api.importAll records ⟨0, 0, 0, 0⟩) fun counts =>
          api.reply [
            ("errors", ofNat counts.errors),
            ("inserted", ofNat counts.inserted),
            ("ok", ofBool true),
            ("path", ofString path),
            ("replaced", ofNat counts.replaced),
            ("skipped", ofNat counts.skipped)]

/-- The POST arms of `route`. -/
def postRoute (req : HttpRequest) : Client NodeState (Outcome HttpResponse) :=
  match req.path with
  | "/record/insert" => api.handleInsertRecord req
  | "/record/pin" => api.handlePinRecord req
  | "/record/unpin" => api.handleUnpinRecord req
  | "/record/delete" => api.handleDeleteRecord req
  | "/record/announce" => api.handleAnnounceRecord req
  | "/record/sweep" => api.handleSweep
  | "/storage/vacuum" => api.handleStorageVacuum
  | "/storage/import" => api.handleStorageImport req
  | "/peers/add" | "/peers/ban" | "/peers/unban" | "/scraper/run" | "/storage/export"
  | "/config/set" => api.otherPost req
  | _ => respond (.notFound "unknown route")

def route (req : HttpRequest) : Client NodeState (Outcome HttpResponse) :=
  match req.method with
  | "GET" => api.getRoute req
  | "POST" => api.postRoute req
  | _ => respond (.notFound "unknown route")

end LocalApi

end DSearch
