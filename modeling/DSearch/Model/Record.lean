import DSearch.Foundations.JsonText

/-! # The records, announcements and jobs of `model.rs`

`ContentRecord` is a row of Tier 3, `Announcement` a row of Tier 2, `ScrapeJob` an entry of the
configuration. `u64` fields are natural numbers: the code only compares and prints them, the one
sum (`now + ttl_secs`) is reduced where it is made. A row's JSON text is `toJson`, in the order of
the struct's fields. -/

namespace DSearch
set_option autoImplicit false

def MAX_RECORD_SIZE : ℕ := 1_048_576

def MAX_ANNOUNCEMENT_SIZE : ℕ := 256

inductive ScrapeSource where
  | url | feed | api | keyword
  deriving DecidableEq, Repr

def ScrapeSource.asStr : ScrapeSource → String
  | .url => "url"
  | .feed => "feed"
  | .api => "api"
  | .keyword => "keyword"

inductive RefreshPolicy where
  | once | interval | onChange
  deriving DecidableEq, Repr

def RefreshPolicy.asStr : RefreshPolicy → String
  | .once => "once"
  | .interval => "interval"
  | .onChange => "on-change"

inductive Lifecycle where
  | ephemeral | pinned
  deriving DecidableEq, Repr

def Lifecycle.asStr : Lifecycle → String
  | .ephemeral => "ephemeral"
  | .pinned => "pinned"

structure ContentRecord where
  id : String
  sourceUrl : String
  sourceHash : String
  schema : String
  tags : List String
  body : String
  createdAt : ℕ
  expiresAt : ℕ
  scrapeSource : ScrapeSource
  refreshPolicy : RefreshPolicy
  sig : String
  deriving DecidableEq, Repr

/-- `serde_json::to_string` of a record. -/
def ContentRecord.toJson (record : ContentRecord) : Bytes :=
  JsonText.ofFields [
    ("id", JsonText.ofString record.id),
    ("source_url", JsonText.ofString record.sourceUrl),
    ("source_hash", JsonText.ofString record.sourceHash),
    ("schema", JsonText.ofString record.schema),
    ("tags", JsonText.ofArray (record.tags.map JsonText.ofString)),
    ("body", JsonText.ofString record.body),
    ("created_at", JsonText.ofNat record.createdAt),
    ("expires_at", JsonText.ofNat record.expiresAt),
    ("scrape_source", JsonText.ofString record.scrapeSource.asStr),
    ("refresh_policy", JsonText.ofString record.refreshPolicy.asStr),
    ("sig", JsonText.ofString record.sig)]

def ContentRecord.jsonLen (record : ContentRecord) : ℕ := record.toJson.length

theorem ContentRecord.jsonLen_body (record : ContentRecord) :
    record.jsonLen = { record with body := "" }.jsonLen + JsonText.escapedLength record.body := by
  have hempty : JsonText.escapedLength "" = 0 := rfl
  simp only [jsonLen, toJson, JsonText.ofFields, JsonText.commaSeparated, List.map_cons,
    List.map_nil, List.length_cons, List.length_append, JsonText.length_ofString, hempty]
  omega

theorem ContentRecord.jsonLen_createdAt (record : ContentRecord) (createdAt : ℕ) :
    { record with createdAt := createdAt }.jsonLen + (JsonText.ofNat record.createdAt).length =
      record.jsonLen + (JsonText.ofNat createdAt).length := by
  simp only [jsonLen, toJson, JsonText.ofFields, JsonText.commaSeparated, List.map_cons,
    List.map_nil, List.length_cons, List.length_append]
  omega

/-- What is not a text or a number of the record takes less than 8000 bytes. -/
theorem ContentRecord.jsonLen_le (record : ContentRecord) : record.jsonLen ≤ 8000 +
    (JsonText.escapedLength record.id + JsonText.escapedLength record.sourceUrl +
      JsonText.escapedLength record.sourceHash + JsonText.escapedLength record.schema +
      JsonText.escapedLength record.body + JsonText.escapedLength record.sig) +
    (JsonText.ofArray (record.tags.map JsonText.ofString)).length +
    ((JsonText.ofNat record.createdAt).length + (JsonText.ofNat record.expiresAt).length) := by
  have hliteral : ∀ {cs : List Char}, cs.length ≤ 20 →
      JsonText.escapedLength (String.ofList cs) ≤ 480 := by
    intro cs hcs
    have hescaped := JsonText.escapedLength_le (String.ofList cs)
    have hbytes := JsonText.utf8ByteSize_ofList_le cs
    omega
  have hsource : JsonText.escapedLength record.scrapeSource.asStr ≤ 480 := by
    cases record.scrapeSource <;> exact hliteral (by decide)
  have hpolicy : JsonText.escapedLength record.refreshPolicy.asStr ≤ 480 := by
    cases record.refreshPolicy <;> exact hliteral (by decide)
  have hnames : JsonText.escapedLength "id" ≤ 480 ∧ JsonText.escapedLength "source_url" ≤ 480 ∧
      JsonText.escapedLength "source_hash" ≤ 480 ∧ JsonText.escapedLength "schema" ≤ 480 ∧
      JsonText.escapedLength "tags" ≤ 480 ∧ JsonText.escapedLength "body" ≤ 480 ∧
      JsonText.escapedLength "created_at" ≤ 480 ∧ JsonText.escapedLength "expires_at" ≤ 480 ∧
      JsonText.escapedLength "scrape_source" ≤ 480 ∧ JsonText.escapedLength "refresh_policy" ≤ 480 ∧
      JsonText.escapedLength "sig" ≤ 480 := by
    refine ⟨?_, ?_, ?_, ?_, ?_, ?_, ?_, ?_, ?_, ?_, ?_⟩ <;> exact hliteral (by decide)
  simp only [jsonLen, toJson, JsonText.ofFields, JsonText.commaSeparated, List.map_cons,
    List.map_nil, List.length_cons, List.length_append, List.length_nil, JsonText.length_ofString]
  omega

theorem ContentRecord.id_of_toJson {r r' : ContentRecord} (h : r.toJson = r'.toJson) : r.id = r'.id :=
  JsonText.ofFields_first_inj h

theorem ContentRecord.printable_toJson (record : ContentRecord) :
    JsonText.Printable record.toJson := by
  have htags : ∀ item ∈ record.tags.map JsonText.ofString, JsonText.Printable item := by
    intro item hitem
    obtain ⟨tag, -, rfl⟩ := List.mem_map.mp hitem
    exact JsonText.printable_ofString tag
  apply JsonText.printable_ofFields
  simp [JsonText.printable_ofString, JsonText.printable_ofNat, JsonText.printable_ofArray htags]

def ContentRecord.validateSize (record : ContentRecord) : Except String Unit :=
  if record.jsonLen > MAX_RECORD_SIZE then
    .error ("record exceeds 1 MB limit (" ++ toString record.jsonLen ++ " bytes)")
  else .ok ()

/-- Every text of the record is short, and its times have at most 20 digits. -/
structure ContentRecord.Short (record : ContentRecord) : Prop where
  id : record.id.utf8ByteSize ≤ 8000
  sourceUrl : record.sourceUrl.utf8ByteSize ≤ 8000
  sourceHash : record.sourceHash.utf8ByteSize ≤ 8000
  schema : record.schema.utf8ByteSize ≤ 8000
  tags : (JsonText.ofArray (record.tags.map JsonText.ofString)).length ≤ 50000
  body : record.body.utf8ByteSize ≤ 8000
  createdAt : record.createdAt < 10 ^ 20
  expiresAt : record.expiresAt < 10 ^ 20
  sig : record.sig.utf8ByteSize ≤ 8000

theorem ContentRecord.Short.jsonLen_le {record : ContentRecord} (h : record.Short) :
    record.jsonLen ≤ 400000 := by
  have hid := (JsonText.escapedLength_le record.id).trans (Nat.mul_le_mul_left 6 h.id)
  have hurl := (JsonText.escapedLength_le record.sourceUrl).trans (Nat.mul_le_mul_left 6 h.sourceUrl)
  have hhash := (JsonText.escapedLength_le record.sourceHash).trans (Nat.mul_le_mul_left 6 h.sourceHash)
  have hschema := (JsonText.escapedLength_le record.schema).trans (Nat.mul_le_mul_left 6 h.schema)
  have hbody := (JsonText.escapedLength_le record.body).trans (Nat.mul_le_mul_left 6 h.body)
  have hsig := (JsonText.escapedLength_le record.sig).trans (Nat.mul_le_mul_left 6 h.sig)
  have hcreated := JsonText.length_ofNat_le (by decide) h.createdAt
  have hexpires := JsonText.length_ofNat_le (by decide) h.expiresAt
  have htags := h.tags
  have hlength := record.jsonLen_le
  omega

theorem ContentRecord.Short.validateSize {record : ContentRecord} (h : record.Short) :
    record.validateSize = .ok () := by
  have hlength := h.jsonLen_le
  have hmax : MAX_RECORD_SIZE = 1_048_576 := rfl
  exact if_neg (by omega)

/-- An announcement entry for Tier 2: points from a record id to the node that holds the
content. -/
structure Announcement where
  recordId : String
  sourceHash : String
  schema : String
  tags : List String
  holderAddr : String
  expiresAt : ℕ
  sig : String
  deriving DecidableEq, Repr

/-- `serde_json::to_string` of an announcement. -/
def Announcement.toJson (ann : Announcement) : Bytes :=
  JsonText.ofFields [
    ("record_id", JsonText.ofString ann.recordId),
    ("source_hash", JsonText.ofString ann.sourceHash),
    ("schema", JsonText.ofString ann.schema),
    ("tags", JsonText.ofArray (ann.tags.map JsonText.ofString)),
    ("holder_addr", JsonText.ofString ann.holderAddr),
    ("expires_at", JsonText.ofNat ann.expiresAt),
    ("sig", JsonText.ofString ann.sig)]

def Announcement.jsonLen (ann : Announcement) : ℕ := ann.toJson.length

def Announcement.validateSize (ann : Announcement) : Except String Unit :=
  if ann.jsonLen > MAX_ANNOUNCEMENT_SIZE then
    .error ("announcement exceeds 256 byte limit (" ++ toString ann.jsonLen ++ " bytes)")
  else .ok ()

structure ScrapeJob where
  name : String
  source : ScrapeSource
  target : String
  transform : Option String
  refresh : RefreshPolicy
  intervalSecs : ℕ
  lifecycle : Lifecycle
  ttlSecs : ℕ
  maxResults : Option ℕ
  deriving DecidableEq, Repr

end DSearch
