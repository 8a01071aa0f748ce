import DSearch.Model.Sanitize
import DSearch.Storage.Store
import DSearch.Trust.SourceUrl

/-! # Scrape jobs: `scraper/job.rs`, `discovery/html_scrape.rs`, `discovery/api.rs`, `run_job`

A job fetches, makes records and inserts them one by one. What the network, the clock and the
provider file answer is `ScrapeEnv`: any answers. Of the job state the lifecycle reaches only
`run_url_job`; feed and api records always get a time to live. -/

namespace DSearch
set_option autoImplicit false
open Transaction Sign Sanitize

structure FeedEntry where
  link : String
  body : String
  deriving DecidableEq, Repr

structure ApiItem where
  sourceUrl : String
  schema : String
  tags : List String
  body : String
  deriving DecidableEq, Repr

structure SearchProvider where
  name : String
  enabled : Bool
  endpoint : String
  deriving DecidableEq, Repr

/-- What a job gets from outside: fetched bodies, fetched and parsed feeds and API responses, the
enabled providers of a directory, the readings of the clock (one for each record of the job), and
the two functions of `Trust.SourceUrl`. -/
structure ScrapeEnv where
  fetchUrl : String → Except String String
  feedEntries : String → Except String (List FeedEntry)
  apiItems : String → Except String (List ApiItem)
  loadProviders : String → List SearchProvider
  clock : ℕ → ℕ
  blake3 : Bytes → String
  toLowercase : String → String

/-- `now + ttl_secs` in 64 bits. -/
def addSecs (now ttlSecs : ℕ) : ℕ := (now + ttlSecs) % 2 ^ 64

structure ScrapeResult where
  jobName : String
  recordId : String
  inserted : Bool
  replaced : Bool
  deriving DecidableEq, Repr

structure BatchResult where
  jobName : String
  total : ℕ
  inserted : ℕ
  replaced : ℕ
  skipped : ℕ
  deriving DecidableEq, Repr

namespace Scraper
variable {ed : Ed25519} (store : Store ed) (env : ScrapeEnv)

def urlRecord (name target lifecycle : String) (ttlSecs : ℕ) (body : String) (now : ℕ) :
    ContentRecord :=
  let sourceHash := computeSourceHash env.blake3 env.toLowercase target
  { id := computeRecordId env.blake3 (asBytes target) (asBytes sourceHash) (asBytes "generic/kv") []
      (asBytes body) (asBytes (toString now))
    sourceUrl := target
    sourceHash := sourceHash
    schema := "generic/kv"
    tags := ["scraper:" ++ name]
    body := body
    createdAt := now
    expiresAt := if lifecycle = "pinned" then 0 else addSecs now ttlSecs
    scrapeSource := .url
    refreshPolicy := .once
    sig := "" }

def runUrlJob (name target lifecycle : String) (ttlSecs now : ℕ) :
    Client Db (Outcome ScrapeResult) :=
  match env.fetchUrl target with
  | .error e => .done (.err e)
  | .ok body =>
    match sanitizeRecord (urlRecord env name target lifecycle ttlSecs body now) with
    | .error e => .done (.err e)
    | .ok record =>
      (store.insertRecord record).andThen fun result =>
        .done (.ok ⟨name, record.id, result = .inserted, result = .replacedNewer⟩)

def feedRecord (name : String) (ttlSecs : ℕ) (entry : FeedEntry) (now : ℕ) : ContentRecord :=
  let sourceHash := computeSourceHash env.blake3 env.toLowercase entry.link
  { id := computeRecordId env.blake3 (asBytes entry.link) (asBytes sourceHash) (asBytes "generic/kv")
      [] (asBytes entry.body) (asBytes (toString now))
    sourceUrl := entry.link
    sourceHash := sourceHash
    schema := "generic/kv"
    tags := ["feed:" ++ name]
    body := entry.body
    createdAt := now
    expiresAt := addSecs now ttlSecs
    scrapeSource := .feed
    refreshPolicy := .interval
    sig := "" }

def apiRecord (ttlSecs : ℕ) (item : ApiItem) (now : ℕ) : ContentRecord :=
  let sourceHash := computeSourceHash env.blake3 env.toLowercase item.sourceUrl
  { id := computeRecordId env.blake3 (asBytes item.sourceUrl) (asBytes sourceHash)
      (asBytes item.schema) [] (asBytes item.body) (asBytes (toString now))
    sourceUrl := item.sourceUrl
    sourceHash := sourceHash
    schema := item.schema
    tags := item.tags
    body := item.body
    createdAt := now
    expiresAt := addSecs now ttlSecs
    scrapeSource := .api
    refreshPolicy := .interval
    sig := "" }

def BatchResult.count (counts : BatchResult) : InsertResult → BatchResult
  | .inserted => { counts with inserted := counts.inserted + 1 }
  | .replacedNewer => { counts with replaced := counts.replaced + 1 }
  | .skippedOlder => { counts with skipped := counts.skipped + 1 }

/-- The loop of `run_feed_job` and `run_api_job`: sanitize and insert record after record. The first
failure ends the job; what was inserted before stays. -/
def insertAll : List ContentRecord → BatchResult → Client Db (Outcome BatchResult)
  | [], counts => .done (.ok counts)
  | record :: records, counts =>
    match sanitizeRecord record with
    | .error e => .done (.err e)
    | .ok record => (store.insertRecord record).andThen fun result =>
      insertAll records (BatchResult.count counts result)

def runFeedJob (name target : String) (ttlSecs : ℕ) : Client Db (Outcome BatchResult) :=
  match env.feedEntries target with
  | .error e => .done (.err e)
  | .ok entries =>
    insertAll store (entries.mapIdx fun i entry => feedRecord env name ttlSecs entry (env.clock i))
      ⟨name, entries.length, 0, 0, 0⟩

def runApiJob (name target : String) (ttlSecs : ℕ) : Client Db (Outcome BatchResult) :=
  match env.apiItems target with
  | .error e => .done (.err e)
  | .ok items =>
    insertAll store (items.mapIdx fun i item => apiRecord env ttlSecs item (env.clock i))
      ⟨name, items.length, 0, 0, 0⟩

def resolveKeywordToUrls (providers : List SearchProvider) (keyword : String) :
    List (String × String) :=
  (providers.filter fun provider => provider.enabled).map fun provider =>
    let separator := if '?' ∈ provider.endpoint.toList then "&" else "?"
    (provider.name, provider.endpoint ++ separator ++ "q=" ++
      String.ofList (keyword.toList.map fun c => if c = ' ' then '+' else c))

structure JobState where
  name : String
  source : String
  target : String
  refresh : String
  intervalSecs : ℕ
  lifecycle : String
  ttlSecs : ℕ
  lastRun : ℕ
  runCount : ℕ
  completed : Bool
  deriving DecidableEq, Repr

def JobState.new (job : ScrapeJob) : JobState where
  name := job.name
  source := job.source.asStr
  target := job.target
  refresh := job.refresh.asStr
  intervalSecs := job.intervalSecs
  lifecycle := job.lifecycle.asStr
  ttlSecs := job.ttlSecs
  lastRun := 0
  runCount := 0
  completed := false

/-- The loop over the urls of a keyword: the `i`-th is scraped when the clock shows `env.clock i`. A
url that fails is passed over. -/
def scrapeUrls (job : JobState) : List (String × String) → ℕ → ℕ → Client Db (Outcome ℕ)
  | [], _, totalInserted => .done (.ok totalInserted)
  | (providerName, url) :: urls, i, totalInserted =>
    (runUrlJob store env providerName url job.lifecycle job.ttlSecs (env.clock i)).bind fun
      | .ok r => scrapeUrls job urls (i + 1) (totalInserted + if r.inserted then 1 else 0)
      | .err _ => scrapeUrls job urls (i + 1) totalInserted
      | .panic => .done .panic

def batchText (what : String) (result : BatchResult) : String :=
  result.jobName ++ ": " ++ toString result.total ++ " " ++ what ++ ", " ++
    toString result.inserted ++ " inserted, " ++ toString result.replaced ++ " replaced, " ++
    toString result.skipped ++ " skipped"

def runJob (job : JobState) : Client Db (Outcome String) :=
  match job.source with
  | "url" =>
    (runUrlJob store env job.name job.target job.lifecycle job.ttlSecs (env.clock 0)).andThen
      fun result => .done (.ok result.recordId)
  | "feed" => (runFeedJob store env job.name job.target job.ttlSecs).andThen fun result =>
    .done (.ok (batchText "entries" result))
  | "api" => (runApiJob store env job.name job.target job.ttlSecs).andThen fun result =>
    .done (.ok (batchText "items" result))
  | "keyword" =>
    let urls := resolveKeywordToUrls (env.loadProviders job.target) job.name
    if urls.isEmpty then
      .done (.err ("No search providers found for keyword '" ++ job.name ++ "'"))
    else (scrapeUrls store env job urls 0 0).andThen fun totalInserted =>
      .done (.ok ("keyword '" ++ job.name ++ "': " ++ toString urls.length ++ " URLs scraped, " ++
        toString totalInserted ++ " inserted"))
  | source => .done (.err ("Unknown source type: " ++ source))

end Scraper

end DSearch
