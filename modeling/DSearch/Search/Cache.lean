import DSearch.Storage.Records

/-! # The search cache: `search/cache.rs`

Times are the node's monotonic clock in nanoseconds. The cached JSON text is read back with
`from_str`; the model keeps the value. A hash map iterates in an order of its own, which a
`HashOrder` gives. -/

namespace DSearch
set_option autoImplicit false

/-- An order in which hash maps iterate: all rows, in any order. -/
structure HashOrder where
  rows : ∀ {ν : Type}, Table ν → List (String × ν)
  perm : ∀ {ν : Type} (table : Table ν), (rows table).Perm table.toList

def HashOrder.sorted : HashOrder := ⟨fun table => table.toList, fun _ => List.Perm.refl _⟩

structure CacheEntry (ν : Type) where
  results : ν
  insertedAt : ℕ

structure SearchCache (ν : Type) where
  entries : Table (CacheEntry ν)
  ttl : ℕ
  maxEntries : ℕ

namespace SearchCache
variable {ν : Type}

def new (ttl maxEntries : ℕ) : SearchCache ν := ⟨∅, ttl, maxEntries⟩

/-- A lookup; an expired entry is removed. -/
def get (cache : SearchCache ν) (key : String) (now : ℕ) : SearchCache ν × Option ν :=
  match cache.entries[key]? with
  | some entry =>
    if now - entry.insertedAt < cache.ttl then (cache, some entry.results)
    else ({ cache with entries := cache.entries.erase key }, none)
  | none => (cache, none)

/-- The loop that removes the oldest entry while the cache is full, with at most `n` turns. -/
def evict (order : HashOrder) (maxEntries : ℕ) :
    ℕ → Table (CacheEntry ν) → Table (CacheEntry ν)
  | 0, entries => entries
  | n + 1, entries =>
    if entries.size ≥ maxEntries then
      match (order.rows entries).argmin fun row => row.2.insertedAt with
      | some oldest => evict order maxEntries n (entries.erase oldest.1)
      | none => entries
    else entries

def insert (order : HashOrder) (cache : SearchCache ν) (key : String) (results : ν) (now : ℕ) :
    SearchCache ν :=
  let live := cache.entries.filter fun _ entry => now - entry.insertedAt < cache.ttl
  -- every turn of the loop removes an entry
  let kept := evict order cache.maxEntries live.size live
  { cache with entries := kept.insert key ⟨results, now⟩ }

def invalidate (cache : SearchCache ν) (key : String) : SearchCache ν :=
  { cache with entries := cache.entries.erase key }

def clear (cache : SearchCache ν) : SearchCache ν := { cache with entries := ∅ }

def len (cache : SearchCache ν) : ℕ := cache.entries.size

end SearchCache

end DSearch
