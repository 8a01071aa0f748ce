import DSearch.Config.Version
import DSearch.Foundations.Fields
import DSearch.Storage.Records

/-! # The settings: `DsearchConfig` and `set_config_value` of `config/mod.rs`

Every arm of `set_config_value` parses the value as the type of one field and writes it there, so
`settings` lists the keys with their types and fields. -/

namespace DSearch
set_option autoImplicit false
open RustText Fields

/-! ## The configuration -/

structure NodeConfig where
  role : String
  maxConnections : ℕ
  minProtocolVersion : ℕ
  ipv4 : Bool
  ipv6 : Bool
  maxConcurrentQueries : ℕ
  deriving DecidableEq, Repr

structure ApiConfig where
  port : ℕ
  deriving DecidableEq, Repr

structure GatewayConfig where
  enabled : Bool
  bind : String
  rateLimitPerMin : ℕ
  requireApiKey : Bool
  deriving DecidableEq, Repr

/-- `StorageConfig` of `config/mod.rs`: what the store is given of it, and the size of a tier that
nothing reads. -/
structure StorageSection extends StorageConfig where
  tier2MaxMb : ℕ
  deriving DecidableEq, Repr

structure RelayConfig where
  bandwidthLimitMbps : ℕ
  deriving DecidableEq, Repr

structure ScraperConfig where
  defaultIntervalSecs : ℕ
  defaultReplicate : ℕ
  defaultLifecycle : String
  jobs : List ScrapeJob
  deriving DecidableEq, Repr

structure LogConfig where
  level : String
  output : String
  file : String
  maxSizeMb : ℕ
  rotateCount : ℕ
  deriving DecidableEq, Repr

structure BootstrapConfig where
  useDefaults : Bool
  deriving DecidableEq, Repr

structure DsearchConfig where
  node : NodeConfig
  api : ApiConfig
  gateway : GatewayConfig
  storage : StorageSection
  relay : RelayConfig
  scraper : ScraperConfig
  log : LogConfig
  bootstrap : BootstrapConfig
  deriving DecidableEq, Repr

def DsearchConfig.default : DsearchConfig where
  node := ⟨"light", 200, 1, true, true, 50⟩
  api := ⟨7743⟩
  gateway := ⟨false, "0.0.0.0:7744", 60, false⟩
  storage := ⟨⟨0, "evict_oldest"⟩, 512⟩
  relay := ⟨100⟩
  scraper := ⟨3600, 0, "ephemeral", []⟩
  log := ⟨"info", "stderr", "{data_dir}/dsearch.log", 50, 3⟩
  bootstrap := ⟨true⟩

/-! ## The keys -/

/-- The type of a setting. -/
inductive Kind where
  | text
  | bool
  | unsigned (bits : ℕ)
  deriving DecidableEq, Repr

namespace Kind

def Value : Kind → Type
  | text => String
  | bool => Bool
  | unsigned _ => ℕ

def name : Kind → String
  | text => "String"
  | bool => "bool"
  | unsigned bits => "u" ++ toString bits

/-- `str::parse`. -/
def parse : (kind : Kind) → String → Option kind.Value
  | text, value => some value
  | bool, value => if value = "true" then some true else if value = "false" then some false else none
  | unsigned bits, value => parseUnsigned (2 ^ bits) value.toList

end Kind

structure Setting where
  kind : Kind
  field : Field DsearchConfig kind.Value

namespace Setting

def text (get : DsearchConfig → String) (put : String → DsearchConfig → DsearchConfig)
    (h : ∀ a c, get (put a c) = a := by intros; rfl) : Setting := ⟨.text, ⟨get, put, h⟩⟩

def bool (get : DsearchConfig → Bool) (put : Bool → DsearchConfig → DsearchConfig)
    (h : ∀ a c, get (put a c) = a := by intros; rfl) : Setting := ⟨.bool, ⟨get, put, h⟩⟩

def unsigned (bits : ℕ) (get : DsearchConfig → ℕ) (put : ℕ → DsearchConfig → DsearchConfig)
    (h : ∀ a c, get (put a c) = a := by intros; rfl) : Setting := ⟨.unsigned bits, ⟨get, put, h⟩⟩

end Setting

/-- The arms of `set_config_value`. -/
def settings : List (String × Setting) := [
  ("node.role", .text (·.node.role) fun v c => { c with node.role := v }),
  ("node.max_connections",
    .unsigned 32 (·.node.maxConnections) fun v c => { c with node.maxConnections := v }),
  ("node.max_concurrent_queries",
    .unsigned 32 (·.node.maxConcurrentQueries) fun v c => { c with node.maxConcurrentQueries := v }),
  ("node.min_protocol_version",
    .unsigned 8 (·.node.minProtocolVersion) fun v c => { c with node.minProtocolVersion := v }),
  ("node.ipv4", .bool (·.node.ipv4) fun v c => { c with node.ipv4 := v }),
  ("node.ipv6", .bool (·.node.ipv6) fun v c => { c with node.ipv6 := v }),
  ("api.port", .unsigned 16 (·.api.port) fun v c => { c with api.port := v }),
  ("gateway.enabled", .bool (·.gateway.enabled) fun v c => { c with gateway.enabled := v }),
  ("gateway.bind", .text (·.gateway.bind) fun v c => { c with gateway.bind := v }),
  ("gateway.rate_limit_per_min",
    .unsigned 32 (·.gateway.rateLimitPerMin) fun v c => { c with gateway.rateLimitPerMin := v }),
  ("gateway.require_api_key",
    .bool (·.gateway.requireApiKey) fun v c => { c with gateway.requireApiKey := v }),
  ("storage.quota_mb", .unsigned 32 (·.storage.quotaMb) fun v c => { c with storage.quotaMb := v }),
  ("storage.quota_action",
    .text (·.storage.quotaAction) fun v c => { c with storage.quotaAction := v }),
  ("storage.tier2_max_mb",
    .unsigned 32 (·.storage.tier2MaxMb) fun v c => { c with storage.tier2MaxMb := v }),
  ("relay.bandwidth_limit_mbps",
    .unsigned 32 (·.relay.bandwidthLimitMbps) fun v c => { c with relay.bandwidthLimitMbps := v }),
  ("scraper.default_interval_secs",
    .unsigned 64 (·.scraper.defaultIntervalSecs)
      fun v c => { c with scraper.defaultIntervalSecs := v }),
  ("scraper.default_replicate",
    .unsigned 32 (·.scraper.defaultReplicate) fun v c => { c with scraper.defaultReplicate := v }),
  ("scraper.default_lifecycle",
    .text (·.scraper.defaultLifecycle) fun v c => { c with scraper.defaultLifecycle := v }),
  ("log.level", .text (·.log.level) fun v c => { c with log.level := v }),
  ("log.output", .text (·.log.output) fun v c => { c with log.output := v }),
  ("log.file", .text (·.log.file) fun v c => { c with log.file := v }),
  ("log.max_size_mb", .unsigned 32 (·.log.maxSizeMb) fun v c => { c with log.maxSizeMb := v }),
  ("log.rotate_count", .unsigned 32 (·.log.rotateCount) fun v c => { c with log.rotateCount := v }),
  ("bootstrap.use_defaults",
    .bool (·.bootstrap.useDefaults) fun v c => { c with bootstrap.useDefaults := v })]

def setConfigValue (config : DsearchConfig) (key value : String) : Except String DsearchConfig :=
  match settings.lookup key with
  | none => .error ("Unknown config key: " ++ key)
  | some setting =>
    match setting.kind.parse value with
    | none => .error ("Invalid value for " ++ key ++ ": expected " ++ setting.kind.name)
    | some v => .ok (setting.field.put v config)

example : setConfigValue .default "api.port" "8888" =
    .ok { DsearchConfig.default with api.port := 8888 } := by decide +kernel

theorem mem_of_lookup {key : String} {setting : Setting} (h : settings.lookup key = some setting) :
    (key, setting) ∈ settings := by
  obtain ⟨before, after, hsplit, -⟩ := List.lookup_eq_some_iff.mp h
  rw [hsplit]
  exact List.mem_append_right before List.mem_cons_self

theorem keys_nodup : (settings.map Prod.fst).Nodup := by simp [settings]

/-- No setting is seen in another. -/
theorem settings_apart : settings.Pairwise fun a b => a.2.field.Apart b.2.field := by
  unfold settings Field.Apart
  simp only [List.pairwise_cons, List.forall_mem_cons, List.not_mem_nil, IsEmpty.forall_iff,
    implies_true, List.Pairwise.nil, and_true]
  repeat' apply And.intro
  all_goals intro v c; rfl

theorem setConfigValue_eq_ok {config config' : DsearchConfig} {key value : String}
    (h : setConfigValue config key value = .ok config') :
    ∃ setting v, settings.lookup key = some setting ∧ setting.kind.parse value = some v ∧
      config' = setting.field.put v config := by
  unfold setConfigValue at h
  split at h
  · cases h
  · next setting hsetting =>
    split at h
    · cases h
    · next v hv => exact ⟨setting, v, hsetting, hv, (Except.ok.inj h).symm⟩

theorem apart_of_lookup {key key' : String} {a b : Setting} (ha : settings.lookup key = some a)
    (hb : settings.lookup key' = some b) (hne : key ≠ key') : a.field.Apart b.field := by
  have hsymm : Std.Symm fun x y : String × Setting => x.1 ≠ y.1 → x.2.field.Apart y.2.field :=
    ⟨fun x y h hne' => (h (Ne.symm hne')).symm⟩
  have hpairwise := settings_apart.imp fun {x y} h (_ : x.1 ≠ y.1) => h
  exact hpairwise.forall_of_forall (fun x _ hself => absurd rfl hself) (mem_of_lookup ha)
    (mem_of_lookup hb) hne

/-- What a request writes into the setting of a key. -/
def Setting.written (setting : Setting) (key : String) (request : String × String) :
    Option setting.kind.Value :=
  if request.1 = key then setting.kind.parse request.2 else none

/-- A setting is as it was, unless the request was for its key. -/
theorem get_setConfigValue {config config' : DsearchConfig} {request : String × String}
    (h : setConfigValue config request.1 request.2 = .ok config') {key : String} {setting : Setting}
    (hsetting : settings.lookup key = some setting) :
    setting.field.get config' = (setting.written key request).getD (setting.field.get config) := by
  obtain ⟨set, v, hset, hv, rfl⟩ := setConfigValue_eq_ok h
  unfold Setting.written
  by_cases hkey : request.1 = key
  · subst hkey
    obtain rfl := Option.some.inj (hset.symm.trans hsetting)
    rw [if_pos rfl, hv, Field.get_put]
    rfl
  · rw [if_neg hkey, (apart_of_lookup hset hsetting hkey).1]
    rfl

end DSearch
