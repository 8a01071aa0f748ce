import DSearch.Storage.Records

/-! # Limits per peer: `storage/tier2_limiter.rs` and the bandwidth account of `node/relay.rs`

Both count within a window that begins with the first call and is renewed by the first call after its
end. Times are the node's monotonic clock in nanoseconds. -/

namespace DSearch
set_option autoImplicit false

def NANOS_PER_SEC : ℕ := 10 ^ 9

structure TokenBucket where
  count : ℕ
  resetAt : ℕ
  deriving DecidableEq, Repr

structure Tier2Limiter where
  buckets : Table TokenBucket
  maxRequests : ℕ
  window : ℕ

namespace Tier2Limiter

def new (maxRequests window : ℕ) : Tier2Limiter := ⟨∅, maxRequests, window⟩

def allow (limiter : Tier2Limiter) (ip : String) (now : ℕ) : Tier2Limiter × Bool :=
  let bucket := limiter.buckets[ip]?.getD ⟨0, now + limiter.window⟩
  let bucket := if now ≥ bucket.resetAt then ⟨0, now + limiter.window⟩ else bucket
  if bucket.count < limiter.maxRequests then
    ({ limiter with buckets := limiter.buckets.insert ip { bucket with count := bucket.count + 1 } },
      true)
  else ({ limiter with buckets := limiter.buckets.insert ip bucket }, false)

def remaining (limiter : Tier2Limiter) (ip : String) (now : ℕ) : ℕ :=
  match limiter.buckets[ip]? with
  | some bucket =>
    if now ≥ bucket.resetAt then limiter.maxRequests else limiter.maxRequests - bucket.count
  | none => limiter.maxRequests

def pruneExpired (limiter : Tier2Limiter) (now : ℕ) : Tier2Limiter :=
  { limiter with buckets := limiter.buckets.filter fun _ bucket => now < bucket.resetAt }

def len (limiter : Tier2Limiter) : ℕ := limiter.buckets.size

end Tier2Limiter

structure BandwidthAccount where
  bytesUsed : ℕ
  resetAt : ℕ
  deriving DecidableEq, Repr

structure RelayBandwidthAccount where
  accounts : Table BandwidthAccount
  limitBytesPerWindow : ℕ
  window : ℕ

namespace RelayBandwidthAccount

def new (limitBytesPerWindow window : ℕ) : RelayBandwidthAccount := ⟨∅, limitBytesPerWindow, window⟩

/-- The account of a peer in the current window. -/
def account (relay : RelayBandwidthAccount) (peerId : String) (now : ℕ) : BandwidthAccount :=
  let found := relay.accounts[peerId]?.getD ⟨0, now + relay.window⟩
  if now ≥ found.resetAt then ⟨0, now + relay.window⟩ else found

/-- `u64` addition in a release build. -/
def wrappingAdd (a b : ℕ) : ℕ := (a + b) % 2 ^ 64

def allow (relay : RelayBandwidthAccount) (peerId : String) (bytes now : ℕ) :
    RelayBandwidthAccount × Bool :=
  let account := relay.account peerId now
  let charged := { account with bytesUsed := wrappingAdd account.bytesUsed bytes }
  if charged.bytesUsed ≤ relay.limitBytesPerWindow then
    ({ relay with accounts := relay.accounts.insert peerId charged }, true)
  else ({ relay with accounts := relay.accounts.insert peerId account }, false)

def record (relay : RelayBandwidthAccount) (peerId : String) (bytes now : ℕ) :
    RelayBandwidthAccount :=
  let account := relay.account peerId now
  let charged := { account with bytesUsed := wrappingAdd account.bytesUsed bytes }
  { relay with accounts := relay.accounts.insert peerId charged }

def remaining (relay : RelayBandwidthAccount) (peerId : String) (now : ℕ) : ℕ :=
  match relay.accounts[peerId]? with
  | some account =>
    if now ≥ account.resetAt then relay.limitBytesPerWindow
    else relay.limitBytesPerWindow - account.bytesUsed
  | none => relay.limitBytesPerWindow

def pruneExpired (relay : RelayBandwidthAccount) (now : ℕ) : RelayBandwidthAccount :=
  { relay with accounts := relay.accounts.filter fun _ account => now < account.resetAt }

def len (relay : RelayBandwidthAccount) : ℕ := relay.accounts.size

end RelayBandwidthAccount

end DSearch
