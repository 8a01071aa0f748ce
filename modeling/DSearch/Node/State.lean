import DSearch.Node.Limits
import DSearch.Search.Cache
import DSearch.Search.Query
import DSearch.Storage.Store

/-! # The running store: `Store` of `storage/mod.rs`

What a `Store` keeps besides its configuration and key: the database and three tables in memory, each
behind a lock. A call that holds a lock is one transaction on the whole. -/

namespace DSearch
set_option autoImplicit false
open Transaction

structure NodeState where
  db : Db
  searchCache : SearchCache (List ContentRecord)
  tier2Limiter : Tier2Limiter
  bandwidthAccount : RelayBandwidthAccount

/-- `Store::new`: 100 Mbps are 12500000 bytes a second. -/
def NodeState.new (db : Db) : NodeState where
  db := db
  searchCache := .new (30 * NANOS_PER_SEC) 256
  tier2Limiter := .new 100 (60 * NANOS_PER_SEC)
  bandwidthAccount := .new 12500000 NANOS_PER_SEC

/-- What a call reads besides the store: the clocks (seconds since 1970, and nanoseconds of the
monotonic clock), the order of hash maps, and `str::to_lowercase`. -/
structure NodeEnv where
  now : ℕ
  instant : ℕ
  order : HashOrder
  toLowercase : String → String

namespace NodeState

def dbPart : Part NodeState Db where
  get s := s.db
  put db s := { s with db := db }
  get_put _ _ := rfl
  put_put _ _ _ := rfl
  put_get _ := rfl

/-- A call that uses the database only. -/
def onDb {α : Type} (c : Client Db α) : Client NodeState α := c.onPart dbPart

@[simp] theorem run_onDb {α : Type} (c : Client Db α) (s : NodeState) :
    (onDb c).run s = ({ s with db := (c.run s.db).1 }, (c.run s.db).2) :=
  Client.run_onPart dbPart c s

/-- The tables are as before. -/
def SameDb (s s' : NodeState) : Prop := s'.db = s.db

theorem SameDb.refl (s : NodeState) : SameDb s s := rfl

theorem SameDb.trans {s t u : NodeState} (hst : SameDb s t) (htu : SameDb t u) : SameDb s u :=
  Eq.trans htu hst

/-- A call that leaves the tables as they are, in every transaction. -/
def ReadsDb {α : Type} (c : Client NodeState α) : Prop := c.Guarantees SameDb

theorem ReadsDb.run {α : Type} {c : Client NodeState α} (h : ReadsDb c) (s : NodeState) :
    (c.run s).1.db = s.db :=
  Client.Guarantees.run h SameDb.refl (fun _ _ _ => SameDb.trans) s

theorem ReadsDb.done {α : Type} (a : α) : ReadsDb (.done a) := Client.Within.done a

theorem ReadsDb.read {α : Type} {resume : NodeState → Client NodeState α}
    (h : ∀ s, ReadsDb (resume s)) : ReadsDb (Client.read resume) :=
  Client.Within.read (fun s _ => SameDb.refl s) fun s _ => h s

theorem ReadsDb.atomically {α β : Type} {tx : NodeState → NodeState × β}
    {next : β → Client NodeState α} (htx : ∀ s, (tx s).1.db = s.db) (h : ∀ b, ReadsDb (next b)) :
    ReadsDb (Client.atomically tx next) :=
  Client.Within.atomically (fun s _ => htx s) h

theorem ReadsDb.bind {α β : Type} {c : Client NodeState α} {next : α → Client NodeState β}
    (hc : ReadsDb c) (h : ∀ a, ReadsDb (next a)) : ReadsDb (c.bind next) :=
  Client.Within.bind hc h

section
variable (env : NodeEnv)

/-- `Store::search_records`: a cached answer, or a scan whose answer is cached. -/
def searchRecords (queryStr : String) (limit : ℕ) : Client NodeState (List ContentRecord) :=
  let cacheKey := queryStr ++ ":" ++ toString limit
  .atomically (fun s =>
      let found := s.searchCache.get cacheKey env.instant
      ({ s with searchCache := found.1 }, found.2)) fun
    | some records => .done records
    | none =>
      let parsed := Query.parseQuery env.toLowercase queryStr
      let effectiveLimit := parsed.limit.getD limit
      .read fun s =>
        let allRecords := Records.listRecords s.db parsed.fields["schema"]?
          (effectiveLimit * 10 % 2 ^ 64)
        let matched := (allRecords.filter fun record =>
            Query.matchesQuery env.toLowercase record parsed).map fun record =>
          (record, Query.scoreRecord env.toLowercase record parsed 1 env.now)
        -- a stable sort, highest score first
        let ranked := matched.insertionSort fun a b => ¬ a.2 < b.2
        let results := (ranked.take effectiveLimit).map Prod.fst
        .atomically (fun s =>
            ({ s with
              searchCache := s.searchCache.insert env.order cacheKey results env.instant }, ()))
          fun _ => .done results

theorem searchRecords_readsDb (queryStr : String) (limit : ℕ) :
    ReadsDb (searchRecords env queryStr limit) := by
  unfold searchRecords
  apply ReadsDb.atomically
  · intro s
    rfl
  · intro found
    cases found with
    | some records => exact ReadsDb.done records
    | none =>
      refine ReadsDb.read fun s => ?_
      apply ReadsDb.atomically
      · intro s'
        rfl
      · intro _
        exact ReadsDb.done _

end

end NodeState

end DSearch
