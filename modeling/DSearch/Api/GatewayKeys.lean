import DSearch.Storage.Records
import DSearch.Trust.Sign

/-! # Keys of the gateway: `api/gateway_keys.rs`

Keys are kept in `gateway_keys.json` as Blake3 digests, the request counts in memory. `hex::decode`,
`blake3` and `serde_json::from_str` are not part of the repository and are parameters. -/

namespace DSearch
set_option autoImplicit false

structure RateLimitEntry where
  count : ℕ
  windowStart : ℕ
  deriving DecidableEq, Repr

structure GatewayKeyInfo where
  nickname : String
  keyHash : String
  createdAt : ℕ
  lastUsed : ℕ
  requestCount : ℕ
  deriving DecidableEq, Repr

/-- `gateway_keys.json` as a request finds it. -/
inductive KeyFile where
  | missing
  | unreadable (reason : String)
  | text (contents : String)
  deriving DecidableEq, Repr

/-- What the key store calls outside the repository. `blake3` is the digest in hexadecimal. -/
structure KeyCodec where
  hexDecode : String → Except String Bytes
  blake3 : Bytes → String
  keysFromStr : String → Except String (List GatewayKeyInfo)

namespace GatewayKeys
variable (codec : KeyCodec)

def listKeys : KeyFile → Except String (List GatewayKeyInfo)
  | .missing => .ok []
  | .unreadable e => .error ("read gateway_keys.json: " ++ e)
  | .text contents =>
    match codec.keysFromStr contents with
    | .ok keys => .ok keys
    | .error e => .error ("parse gateway_keys.json: " ++ e)

def validateKey (file : KeyFile) (rawKey : String) : Bool :=
  match codec.hexDecode rawKey with
  | .error _ => false
  | .ok secretBytes =>
    if secretBytes.length = 32 then
      match listKeys codec file with
      | .ok keys => keys.any fun k => k.keyHash = codec.blake3 secretBytes
      | .error _ => false
    else false

/-- The key is one of the listed keys: it decodes to 32 bytes whose digest is in the file. -/
def Listed (file : KeyFile) (rawKey : String) : Prop :=
  ∃ secretBytes keys, codec.hexDecode rawKey = .ok secretBytes ∧ secretBytes.length = 32 ∧
    listKeys codec file = .ok keys ∧ ∃ k ∈ keys, k.keyHash = codec.blake3 secretBytes

theorem validateKey_iff (file : KeyFile) (rawKey : String) :
    validateKey codec file rawKey = true ↔ Listed codec file rawKey := by
  unfold validateKey Listed
  cases hdecode : codec.hexDecode rawKey with
  | error e => simp
  | ok secretBytes =>
    by_cases hlength : secretBytes.length = 32
    · cases hkeys : listKeys codec file with
      | error e => simp [hlength]
      | ok keys => simp [hlength]
    · simp [hlength]

/-- The count and the start of the window are an unsigned 32-bit and 64-bit number. -/
def checkRateLimit (limits : Table RateLimitEntry) (identifier : String) (limitPerMin now : ℕ) :
    Table RateLimitEntry × Bool :=
  let found := limits[identifier]?.getD ⟨0, now⟩
  let elapsed := if found.windowStart ≤ now then now - found.windowStart
    else now + 2 ^ 64 - found.windowStart
  let entry : RateLimitEntry := if elapsed ≥ 60 then ⟨0, now⟩ else found
  let counted := { entry with count := (entry.count + 1) % 2 ^ 32 }
  (limits.insert identifier counted, counted.count ≤ limitPerMin)

/-! ## Hexadecimal text, for concrete keys -/

/-- What `hex::decode` does: pairs of digits, of either case. -/
def hexPairs : Bytes → Except String Bytes
  | [] => .ok []
  | [_] => .error "Odd number of digits"
  | high :: low :: rest =>
    match Sign.digitValue high, Sign.digitValue low, hexPairs rest with
    | some h, some l, .ok bytes => .ok (UInt8.ofNat (h * 16 + l) :: bytes)
    | _, _, _ => .error "Invalid character"

end GatewayKeys

end DSearch
