import DSearch.Scraper.Batches
import DSearch.Scraper.Permanence

/-! # The items of an API response

`parse_api_response` makes an item of each element of a JSON array. An element that names no url gets
`api://unknown`, so the records of all such elements have one source, in this response and in those of
all other jobs, and of one source the store keeps one record. -/

namespace DSearch
set_option autoImplicit false
open Transaction Records Scraper Sign

/-- `serde_json::Value`. A number is its text, an object the entries of its map. -/
inductive JsonValue where
  | null
  | bool (value : Bool)
  | number (text : String)
  | string (text : String)
  | array (items : List JsonValue)
  | object (entries : List (String × JsonValue))

namespace JsonValue

def get? (key : String) : JsonValue → Option JsonValue
  | object entries => entries.lookup key
  | _ => none

def asStr : JsonValue → Option String
  | string text => some text
  | _ => none

def asArray : JsonValue → Option (List JsonValue)
  | array items => some items
  | _ => none

/-- The value has the url as its `url` or as its `source_url`. -/
def Names (value : JsonValue) (url : String) : Prop :=
  (value.get? "url").bind asStr = some url ∨ (value.get? "source_url").bind asStr = some url

end JsonValue

/-- `serde_json::from_str` and `serde_json::to_string`. -/
structure SerdeJson where
  fromStr : String → Except String JsonValue
  toString : JsonValue → Except String String

/-- What the loop of `parse_api_response` makes of an element. A `url` that is no text hides a
`source_url`. -/
def parseItem (json : SerdeJson) (item : JsonValue) : ApiItem where
  sourceUrl := (((item.get? "url").or (item.get? "source_url")).bind JsonValue.asStr).getD
    "api://unknown"
  schema := ((item.get? "schema").bind JsonValue.asStr).getD "generic/kv"
  tags := (((item.get? "tags").bind JsonValue.asArray).map fun arr =>
    arr.filterMap JsonValue.asStr).getD []
  body := match ((item.get? "body").or (item.get? "content")).bind JsonValue.asStr with
    | some s => s
    | none => (json.toString item).toOption.getD ""

def parseApiResponse (json : SerdeJson) (response : String) : Except String (List ApiItem) :=
  match json.fromStr response with
  | .error e => .error ("parse API response: " ++ e)
  | .ok (.array items) => .ok (items.map (parseItem json))
  | .ok (.object entries) => .ok [parseItem json (.object entries)]
  | .ok _ => .error "API response must be a JSON array or object"

/-- The environment in which API responses are what `fetch_api` answers, parsed. -/
def ScrapeEnv.fetching (env : ScrapeEnv) (json : SerdeJson) (fetchApi : String → Except String String) :
    ScrapeEnv :=
  { env with apiItems := fun url => (fetchApi url).bind (parseApiResponse json) }

/-! ## Whether the items are kept -/

section
variable {ed : Ed25519} (store : Store ed) (env : ScrapeEnv) (json : SerdeJson) (ttlSecs : ℕ)
  (values : List JsonValue)

/-- What is stored for the `i`-th element if it is not skipped. -/
def itemRecord (i : ℕ) (value : JsonValue) : ContentRecord :=
  asStored store (apiRecord env ttlSecs (parseItem json value) (env.clock i))

def itemRecords : List ContentRecord := values.mapIdx (itemRecord store env json ttlSecs)

/-- An element has an explicit url with the normalised form of this one. -/
def NamedExplicitly (sourceUrl : String) : Prop :=
  ∃ value ∈ values, ∃ url, value.Names url ∧
    normalizeSourceUrl env.toLowercase url = normalizeSourceUrl env.toLowercase sourceUrl

def NamedByOther (i : ℕ) (value : JsonValue) : Prop :=
  ∃ j other url, j ≠ i ∧ values[j]? = some other ∧ other.Names url ∧
    normalizeSourceUrl env.toLowercase url =
      normalizeSourceUrl env.toLowercase (parseItem json value).sourceUrl

/-- Every element that no other one names is represented by a stored record of its source with its
body, and what was stored is there if no element names it. -/
structure ItemsKept (db db' : Db) : Prop where
  represented : ∀ i value, values[i]? = some value → NamedByOther env json values i value ∨
    ∃ (id : String) (record : ContentRecord), db'.records[id]? = some record ∧
      record.sourceHash = (itemRecord store env json ttlSecs i value).sourceHash ∧
      record.body = (itemRecord store env json ttlSecs i value).body
  spared : ∀ (id : String) (old : ContentRecord), db.records[id]? = some old →
    db'.records[id]? = some old ∨ NamedExplicitly env values old.sourceUrl

/-- The latest record of its source has the body of every element that no other one names, and a
record that is seen for the source of a newer one is named. -/
structure ItemsApart (db : Db) : Prop where
  represented : ∀ i value, values[i]? = some value → NamedByOther env json values i value ∨
    ∃ record, latest db (itemRecords store env json ttlSecs values)
        (itemRecord store env json ttlSecs i value).sourceHash = some record ∧
      record.sourceHash = (itemRecord store env json ttlSecs i value).sourceHash ∧
      record.body = (itemRecord store env json ttlSecs i value).body
  spared : ∀ record ∈ itemRecords store env json ttlSecs values, ∀ old,
    seen db record.sourceHash = some old → old.createdAt < record.createdAt →
      NamedExplicitly env values old.sourceUrl

end

section
variable {ed : Ed25519} {store : Store ed} {env : ScrapeEnv} {json : SerdeJson} {ttlSecs : ℕ}
  {values : List JsonValue}

theorem mem_itemRecords {i : ℕ} {value : JsonValue} (hvalue : values[i]? = some value) :
    itemRecord store env json ttlSecs i value ∈ itemRecords store env json ttlSecs values := by
  obtain ⟨hlt, rfl⟩ := List.getElem?_eq_some_iff.mp hvalue
  exact List.mem_mapIdx.mpr ⟨i, hlt, rfl⟩

/-- Two elements without a url and with different bodies are not both represented. -/
theorem not_itemsApart_of_unnamed {i j : ℕ} {value other : JsonValue} (hvalue : values[i]? = some value)
    (hother : values[j]? = some other) (hvalueUrl : (parseItem json value).sourceUrl = "api://unknown")
    (hotherUrl : (parseItem json other).sourceUrl = "api://unknown")
    (hunnamed : ¬ NamedExplicitly env values "api://unknown")
    (hbodies : (itemRecord store env json ttlSecs i value).body ≠
      (itemRecord store env json ttlSecs j other).body) (db : Db) :
    ¬ ItemsApart store env json ttlSecs values db := by
  intro hapart
  have hnotNamed : ∀ k item, (parseItem json item).sourceUrl = "api://unknown" →
      ¬ NamedByOther env json values k item := by
    rintro k item hurl ⟨j, named, url, -, hnamed, hnames, hsame⟩
    rw [hurl] at hsame
    exact hunnamed ⟨named, List.mem_of_getElem? hnamed, url, hnames, hsame⟩
  have hsource : (itemRecord store env json ttlSecs i value).sourceHash =
      (itemRecord store env json ttlSecs j other).sourceHash := by
    simp only [itemRecord, asStored, Store.signed_sourceHash, apiRecord, hvalueUrl, hotherUrl]
  obtain ⟨record, hrecord, -, hbody⟩ :=
    (hapart.represented i value hvalue).resolve_left (hnotNamed i value hvalueUrl)
  obtain ⟨record', hrecord', -, hbody'⟩ :=
    (hapart.represented j other hother).resolve_left (hnotNamed j other hotherUrl)
  rw [hsource, hrecord'] at hrecord
  obtain rfl := Option.some.inj hrecord
  exact hbodies (hbody.symm.trans hbody')

end

/-- The job inserts one batch: the records of the elements. -/
theorem runApiJob_fetching {ed : Ed25519} (store : Store ed) (env : ScrapeEnv) {json : SerdeJson}
    {fetchApi : String → Except String String} {target response : String} {values : List JsonValue}
    (hfetch : fetchApi target = .ok response) (hparse : json.fromStr response = .ok (.array values))
    (name : String) (ttlSecs : ℕ) :
    ∃ made counts, made.map (asStored store) = itemRecords store env json ttlSecs values ∧
      runApiJob store (env.fetching json fetchApi) name target ttlSecs =
        insertAll store made counts := by
  refine ⟨(values.map (parseItem json)).mapIdx fun i item => apiRecord env ttlSecs item (env.clock i),
    ⟨name, (values.map (parseItem json)).length, 0, 0, 0⟩, ?_, ?_⟩
  · apply List.ext_getElem?
    intro i
    simp only [itemRecords, List.getElem?_map, List.getElem?_mapIdx, Option.map_map]
    rfl
  · have hitems : (env.fetching json fetchApi).apiItems target = .ok (values.map (parseItem json)) := by
      simp only [ScrapeEnv.fetching, hfetch, Except.bind, parseApiResponse, hparse]
    rw [runApiJob, hitems]
    rfl

/-- A job that succeeds keeps the elements of the array and what was stored exactly if the latest record
of its source has the body of each element that no other one names, and a record that is seen for the
source of a newer one is named. -/
theorem runApiJob_keeps_items_iff {ed : Ed25519} (store : Store ed) (env : ScrapeEnv) (json : SerdeJson)
    (fetchApi : String → Except String String) (name target : String) (ttlSecs : ℕ) (response : String)
    (values : List JsonValue) (hfetch : fetchApi target = .ok response)
    (hparse : json.fromStr response = .ok (.array values)) (db : Db) (hdb : SourceIndexed db)
    (hids : OwnIds db (itemRecords store env json ttlSecs values)) (result : BatchResult)
    (hok : ((runApiJob store (env.fetching json fetchApi) name target ttlSecs).run db).2 =
      .ok result) :
    ItemsKept store env json ttlSecs values db
        ((runApiJob store (env.fetching json fetchApi) name target ttlSecs).run db).1 ↔
      ItemsApart store env json ttlSecs values db := by
  obtain ⟨made, counts, hmade, hjob⟩ := runApiJob_fetching store env hfetch hparse name ttlSecs
  rw [hjob] at hok ⊢
  rw [← hmade] at hids
  have hdb' := (SourceIndexed.insertAll_keeps store made counts).run hdb
  have hlast : ∀ i value, values[i]? = some value →
      seen ((insertAll store made counts).run db).1
          (itemRecord store env json ttlSecs i value).sourceHash =
        latest db (itemRecords store env json ttlSecs values)
          (itemRecord store env json ttlSecs i value).sourceHash := by
    intro i value hvalue
    rw [← hmade]
    refine insertAll_seen hids hok ?_
    rw [hmade]
    exact mem_itemRecords hvalue
  constructor
  · rintro ⟨hrepresented, hspared⟩
    constructor
    · intro i value hvalue
      refine (hrepresented i value hvalue).imp_right ?_
      rintro ⟨id, record, hrow, hsource, hbody⟩
      refine ⟨record, ?_, hsource, hbody⟩
      rw [← hlast i value hvalue]
      exact (hdb'.seen_iff hsource).mpr ⟨id, hrow⟩
    · intro record hrecord old hseen hlt
      obtain ⟨id, -, hold⟩ := seen_eq_some.mp hseen
      refine (hspared id old hold).resolve_left fun hstays => ?_
      rw [← hmade] at hrecord
      have hle := (insertAll_spares_iff hdb hids hok hold).mp hstays record hrecord hseen
      omega
  · rintro ⟨hrepresented, hspared⟩
    constructor
    · intro i value hvalue
      refine (hrepresented i value hvalue).imp_right ?_
      rintro ⟨record, hrecord, hsource, hbody⟩
      rw [← hlast i value hvalue, hdb'.seen_iff hsource] at hrecord
      obtain ⟨id, hrow⟩ := hrecord
      exact ⟨id, record, hrow, hsource, hbody⟩
    · intro id old hold
      rw [insertAll_spares_iff hdb hids hok hold, hmade, or_iff_not_imp_left]
      intro hnewer
      push Not at hnewer
      obtain ⟨record, hrecord, hseen, hlt⟩ := hnewer
      exact hspared record hrecord old hseen hlt

/-- A reader of one text. -/
def readingOnly (text : String) (values : List JsonValue) : SerdeJson where
  fromStr input := if input = text then .ok (.array values) else .error "expected value"
  toString _ := .ok "\x7b\x7d"

theorem readingOnly_fromStr (text : String) (values : List JsonValue) :
    (readingOnly text values).fromStr text = .ok (.array values) := if_pos rfl

def oneItem : String := "[\x7b\"url\":\"https://h/a\",\"body\":\"a\"\x7d]"

def oneItemValues : List JsonValue :=
  [.object [("url", .string "https://h/a"), ("body", .string "a")]]

theorem runApiJob_keeps_items_iff_oneItem :
    ItemsKept plainStore stillEnv (readingOnly oneItem oneItemValues) 500 oneItemValues Db.empty
        ((runApiJob plainStore (stillEnv.fetching (readingOnly oneItem oneItemValues)
          fun _ => .ok oneItem) "news" "https://h/api" 500).run Db.empty).1 ↔
      ItemsApart plainStore stillEnv (readingOnly oneItem oneItemValues) 500 oneItemValues Db.empty := by
  refine runApiJob_keeps_items_iff plainStore stillEnv (readingOnly oneItem oneItemValues)
    (fun _ => .ok oneItem) "news" "https://h/api" 500 oneItem oneItemValues rfl
    (readingOnly_fromStr _ _) Db.empty SourceIndexed.empty ⟨?_, ?_⟩ ⟨"news", 1, 1, 0, 0⟩
    (by decide +kernel)
  · intro id record hrecord other hother _ _
    obtain rfl := List.mem_singleton.mp hrecord
    obtain rfl := List.mem_singleton.mp hother
    rfl
  · intro record _ hrow
    exact absurd rfl hrow

def twoItems : String := "[\x7b\"body\":\"a\"\x7d,\x7b\"body\":\"b\"\x7d]"

def twoItemsValues : List JsonValue :=
  [.object [("body", .string "a")], .object [("body", .string "b")]]

/-- Of two elements without a url that are read within a second, the second one is skipped. -/
theorem unnamed_item_skipped :
    ¬ ∀ (ed : Ed25519) (store : Store ed) (env : ScrapeEnv) (json : SerdeJson)
      (fetchApi : String → Except String String) (name target : String) (ttlSecs : ℕ)
      (response : String) (values : List JsonValue) (result : BatchResult),
      store.config.quotaMb = 0 → fetchApi target = .ok response →
        json.fromStr response = .ok (.array values) →
        ((runApiJob store (env.fetching json fetchApi) name target ttlSecs).run Db.empty).2 =
          .ok result →
        ItemsKept store env json ttlSecs values Db.empty
          ((runApiJob store (env.fetching json fetchApi) name target ttlSecs).run Db.empty).1 := by
  intro hclaim
  have hkept := hclaim .checksum plainStore stillEnv (readingOnly twoItems twoItemsValues)
    (fun _ => .ok twoItems) "news" "https://h/api" 500 twoItems twoItemsValues ⟨"news", 2, 1, 0, 1⟩ rfl
    rfl (readingOnly_fromStr _ _) (by decide +kernel)
  rcases hkept.represented 1 _ rfl with ⟨j, other, url, hj, hother, hnames, -⟩ |
    ⟨id, record, hrow, -, hbody⟩
  · -- the first element names no url
    obtain rfl : j = 0 := by
      have hlt := (List.getElem?_eq_some_iff.mp hother).1
      simp only [twoItemsValues, List.length_cons, List.length_nil] at hlt
      omega
    obtain rfl := Option.some.inj hother
    rcases hnames with hurl | hsourceUrl
    · cases hurl
    · cases hsourceUrl
  · -- and only its record is stored
    have hbodies : ∀ row ∈ ((runApiJob plainStore (stillEnv.fetching (readingOnly twoItems
        twoItemsValues) fun _ => .ok twoItems) "news" "https://h/api" 500).run Db.empty).1.records.toList,
        row.2.body ≠ "b" := by
      decide +kernel
    have hmem := Std.ExtTreeMap.mem_toList_iff_getElem?_eq_some.mpr hrow
    refine hbodies _ hmem (hbody.trans ?_)
    decide +kernel

end DSearch
