import DSearch.Api.Handlers
import DSearch.Api.RequestBody
import DSearch.Config.Settings
import DSearch.Scraper.FeedRoundTrip

/-! # `save_config` and runs of `handle_set_config`

A request loads `config.toml`, sets one value and writes the file back with the version that it had.
`toml` is a parameter: what it prints is read back with the section `[meta]` after it, and a
configuration whose texts have no line feed is printed without a line that looks like that header. -/

namespace DSearch
set_option autoImplicit false
open RustText Sign Fields Files JsonText

structure ConfigCodec where
  reader : TomlReader DsearchConfig
  toStringPretty : DsearchConfig → Except String String

/-- The texts of a configuration. -/
def DsearchConfig.texts (config : DsearchConfig) : List String :=
  [config.node.role, config.gateway.bind, config.storage.quotaAction, config.scraper.defaultLifecycle,
    config.log.level, config.log.output, config.log.file] ++
  config.scraper.jobs.flatMap fun job => job.name :: job.target :: job.transform.toList

def DsearchConfig.SingleLine (config : DsearchConfig) : Prop :=
  ∀ text ∈ config.texts, '\n' ∉ text.toList

instance (config : DsearchConfig) : Decidable config.SingleLine :=
  inferInstanceAs (Decidable (∀ _ ∈ _, _))

namespace ConfigVersion

/-- `trim_end`. -/
def trimEnd (cs : List Char) : List Char := (cs.reverse.dropWhile isWhiteSpace).reverse

/-- What is written: the configuration and its version. -/
def versionedText (text : String) (version : ℕ) : String :=
  String.ofList (trimEnd text.toList ++ "\n[meta]\nconfig_version = ".toList ++
    (toString version).toList ++ "\n".toList)

def existingVersion : ConfigFile → Except String (Option ℕ)
  | .missing => .ok none
  | .unreadable e => .error ("Failed to read config.toml: " ++ e)
  | .text contents => .ok (extractConfigVersion contents)

def saveConfig (codec : ConfigCodec) (w : FileWrite ConfigFile) (config : DsearchConfig)
    (file : ConfigFile) : ConfigFile × Except String Unit :=
  match existingVersion file with
  | .error e => (file, .error e)
  | .ok existing =>
    match codec.toStringPretty config with
    | .error e => (file, .error ("Failed to serialize config: " ++ e))
    | .ok text =>
      match w with
      | .written =>
        (.text (versionedText text (existing.getD CURRENT_CONFIG_VERSION)), .ok ())
      | .failed reason left => (left, .error ("Failed to write config.toml: " ++ reason))

end ConfigVersion

/-! ## One request -/

namespace LocalApi
open ConfigVersion
variable {ed : Ed25519} (api : LocalApi ed) (codec : ConfigCodec)

/-- The key and the value of a request. -/
def setRequest (req : HttpRequest) : Except HttpResponse (String × String) :=
  match api.bodyField req.body "key", api.bodyField req.body "value" with
  | .error e, _ => .error (.badRequest ("invalid JSON: " ++ e))
  | .ok none, _ => .error (.badRequest "missing field: key")
  | .ok (some _), .error e => .error (.badRequest ("invalid JSON: " ++ e))
  | .ok (some _), .ok none => .error (.badRequest "missing field: value")
  | .ok (some key), .ok (some value) => .ok (key, value)

def handleSetConfig (w : FileWrite ConfigFile) (req : HttpRequest) (file : ConfigFile) :
    ConfigFile × HttpResponse :=
  match api.setRequest req with
  | .error resp => (file, resp)
  | .ok (key, value) =>
    match loadConfig codec.reader .default file with
    | .error e => (file, .internalError e)
    | .ok config =>
      match setConfigValue config key value with
      | .error e => (file, .badRequest e)
      | .ok config =>
        match saveConfig codec w config file with
        | (file', .error e) => (file', .internalError e)
        | (file', .ok _) => (file', api.reply [
            ("key", ofString key),
            ("ok", ofBool true),
            ("value", ofString value)])

/-- The key and the value of a request that was answered with success. -/
def answered (req : HttpRequest) (resp : HttpResponse) : List (String × String) :=
  if resp.status = 200 then (api.setRequest req).toOption.toList else []

/-- A run of requests whose writes all succeed: the file, and what was answered with success. -/
def setAll : List HttpRequest → ConfigFile → ConfigFile × List (String × String)
  | [], file => (file, [])
  | req :: reqs, file =>
    let (file', resp) := api.handleSetConfig codec .written req file
    let (final, done) := setAll reqs file'
    (final, api.answered req resp ++ done)

/-- The version of a file after a run. -/
def versionAfter (existing : Option ℕ) : List (String × String) → Option ℕ
  | [] => existing
  | _ :: _ => some (existing.getD CURRENT_CONFIG_VERSION)

end LocalApi

/-! ## What is written is read back -/

namespace ConfigVersion

structure ConfigCodec.Lawful (codec : ConfigCodec) : Prop where
  reads : ∀ config text version, codec.toStringPretty config = .ok text →
    codec.reader.fromStr (versionedText text version) = .ok config
  headers : ∀ config text, config.SingleLine → codec.toStringPretty config = .ok text →
    ∀ line ∈ lines (trimEnd text.toList ++ ['\n']), ¬ MetaHeader line

theorem scanVersion_append {before : List (List Char)} (h : ∀ line ∈ before, ¬ MetaHeader line)
    (rest : List (List Char)) : scanVersion false (before ++ rest) = scanVersion false rest := by
  induction before with
  | nil => rfl
  | cons line before ih =>
    have hline : trim line ≠ "[meta]".toList := h line List.mem_cons_self
    have hrest := ih fun l hl => h l (List.mem_cons_of_mem line hl)
    rw [List.cons_append, scanVersion, if_neg hline]
    split
    · exact hrest
    · rw [Bool.false_and, if_neg Bool.false_ne_true, hrest]

theorem digits_not_space {n : ℕ} {c : Char} (hc : c ∈ (toString n).toList) :
    isWhiteSpace c = false := by
  obtain ⟨hlow, hhigh⟩ := digit_of_mem_toString hc
  simp only [isWhiteSpace, Bool.or_eq_false_iff, Bool.and_eq_false_iff, decide_eq_false_iff_not]
  omega

/-- The entry of the version, as it is written. -/
theorem trim_entry (version : ℕ) : trim ("config_version = ".toList ++ (toString version).toList) =
    "config_version = ".toList ++ (toString version).toList := by
  have hne : (toString version).toList ≠ [] := by
    rw [Nat.toString_eq_repr, Nat.toList_repr]
    exact Nat.toDigits_ne_nil
  obtain ⟨last, hlast⟩ := Option.ne_none_iff_exists'.mp (mt List.getLast?_eq_none_iff.mp hne)
  refine Feed.Bordered.trim_eq (Feed.bordered_of_ends (c := 'c') (d := last) rfl ?_ (by decide)
    (digits_not_space (List.mem_of_getLast? hlast)))
  rw [List.getLast?_append_of_ne_nil _ hne, hlast]

theorem scanVersion_meta {version : ℕ} (hversion : version < 2 ^ 32) :
    scanVersion false ["[meta]".toList, "config_version = ".toList ++ (toString version).toList] =
      some version := by
  have hheader : trim "[meta]".toList = "[meta]".toList := by decide
  have hval : (splitFirst '=' ("config_version = ".toList ++ (toString version).toList)).2 =
      some (' ' :: (toString version).toList) :=
    congrArg Prod.snd (splitFirst_append (a := "config_version ".toList) (by decide)
      (' ' :: (toString version).toList))
  have hprefix : "config_version".toList.isPrefixOf
      ("config_version = ".toList ++ (toString version).toList) = true :=
    List.isPrefixOf_iff_prefix.mpr ⟨" = ".toList ++ (toString version).toList, rfl⟩
  rw [scanVersion, if_pos hheader, scanVersion, trim_entry, if_neg (by simp), if_neg (by simp), hprefix, Bool.and_true, if_pos rfl, hval]
  dsimp only
  rw [Request.trim_space fun c hc => digits_not_space hc, parseUnsigned_toString hversion]

theorem extract_versionedText {text : String} {version : ℕ} (hversion : version < 2 ^ 32)
    (h : ∀ line ∈ lines (trimEnd text.toList ++ ['\n']), ¬ MetaHeader line) :
    extractConfigVersion (versionedText text version) = some version := by
  have hdigits : '\n' ∉ "config_version = ".toList ++ (toString version).toList := by
    intro hmem
    rcases List.mem_append.mp hmem with hfixed | hdigit
    · exact absurd hfixed (by decide)
    · exact absurd (digits_not_space hdigit) (by decide)
  have hentry : stripCarriageReturn ("config_version = ".toList ++ (toString version).toList) =
      "config_version = ".toList ++ (toString version).toList := by
    refine if_neg fun hlast => ?_
    have hmem := List.mem_of_getLast? hlast
    rcases List.mem_append.mp hmem with hfixed | hdigit
    · exact absurd hfixed (by decide)
    · exact absurd (digits_not_space hdigit) (by decide)
  have hlines : lines (versionedText text version).toList =
      lines (trimEnd text.toList ++ ['\n']) ++
        ["[meta]".toList, "config_version = ".toList ++ (toString version).toList] := by
    have hsplit : (versionedText text version).toList = trimEnd text.toList ++ '\n' ::
        ("[meta]".toList ++ '\n' ::
          (("config_version = ".toList ++ (toString version).toList) ++ ['\n'])) := by
      rw [versionedText, String.toList_ofList]
      simp
    have hnone : lines [] = [] := rfl
    have hheader : lines ("[meta]".toList ++ '\n' ::
        (("config_version = ".toList ++ (toString version).toList) ++ ['\n'])) =
          ["[meta]".toList, "config_version = ".toList ++ (toString version).toList] := by
      rw [lines_cons (a := "[meta]".toList) (by decide), lines_cons hdigits, hentry, hnone]
      rfl
    rw [hsplit, lines_append, hheader, lines_append (trimEnd text.toList) [], hnone, List.append_nil]
  rw [extractConfigVersion, hlines, scanVersion_append h, scanVersion_meta hversion]

variable {codec : ConfigCodec}

def Loads (codec : ConfigCodec) (file : ConfigFile) (config : DsearchConfig) : Prop :=
  loadConfig codec.reader .default file = .ok config

/-- A file that loads has no later version. -/
theorem Loads.version {file : ConfigFile} {config : DsearchConfig} (h : Loads codec file config) :
    ∃ existing, existingVersion file = .ok existing ∧
      existing.getD CURRENT_CONFIG_VERSION ≤ CURRENT_CONFIG_VERSION := by
  unfold Loads loadConfig at h
  cases file with
  | missing => exact ⟨none, rfl, le_rfl⟩
  | unreadable e => cases h
  | text contents =>
    refine ⟨extractConfigVersion contents, rfl, ?_⟩
    dsimp only at h
    split at h
    · cases h
    · split at h
      · next version hversion =>
        rw [hversion, Option.getD_some]
        split at h
        · cases h
        · next hcurrent => exact Nat.not_lt.mp hcurrent
      · next hnone =>
        rw [hnone]
        exact le_rfl

/-- What is saved loads, with the version that the file had. -/
theorem loads_versionedText (hlawful : ConfigCodec.Lawful codec) {config : DsearchConfig}
    (hsingle : config.SingleLine) {text : String} (htext : codec.toStringPretty config = .ok text)
    {version : ℕ} (hversion : version ≤ CURRENT_CONFIG_VERSION) :
    Loads codec (.text (versionedText text version)) config ∧
      existingVersion (.text (versionedText text version)) = .ok (some version) := by
  have hextract := extract_versionedText (hversion.trans_lt (by decide))
    (hlawful.headers config text hsingle htext)
  constructor
  · unfold Loads loadConfig
    dsimp only
    rw [hlawful.reads config text version htext]
    dsimp only
    rw [hextract]
    exact if_neg (Nat.not_lt.mpr hversion)
  · rw [existingVersion, hextract]

end ConfigVersion

/-- A set brings no text into the configuration but its value. -/
theorem texts_put : ∀ entry ∈ settings, ∀ (value : String) (v : entry.2.kind.Value)
    (config : DsearchConfig), entry.2.kind.parse value = some v →
      ∀ text ∈ (entry.2.field.put v config).texts, text = value ∨ text ∈ config.texts := by
  unfold settings
  simp only [List.forall_mem_cons, List.not_mem_nil, IsEmpty.forall_iff, implies_true, and_true]
  repeat' apply And.intro
  all_goals intro value v config hparse text htext
  all_goals first
    | exact .inr htext
    | obtain rfl := Option.some.inj hparse
      simp only [DsearchConfig.texts, Setting.text, List.cons_append, List.nil_append,
        List.mem_cons] at htext ⊢
      tauto

theorem singleLine_set {config config' : DsearchConfig} {key value : String}
    (h : setConfigValue config key value = .ok config') (hvalue : '\n' ∉ value.toList)
    (hsingle : config.SingleLine) : config'.SingleLine := by
  obtain ⟨setting, v, hsetting, hparse, rfl⟩ := setConfigValue_eq_ok h
  intro text htext
  rcases texts_put (key, setting) (mem_of_lookup hsetting) value v config hparse text htext with
    rfl | hold
  · exact hvalue
  · exact hsingle text hold

/-- A set that is refused changes nothing. -/
def applySet (config : DsearchConfig) (request : String × String) : DsearchConfig :=
  (setConfigValue config request.1 request.2).toOption.getD config

theorem get_applySet {key : String} {setting : Setting} (h : settings.lookup key = some setting)
    (config : DsearchConfig) (request : String × String) :
    setting.field.get (applySet config request) =
      (setting.written key request).getD (setting.field.get config) := by
  unfold applySet
  cases hset : setConfigValue config request.1 request.2 with
  | ok config' => exact get_setConfigValue hset h
  | error e =>
    have hnone : setting.written key request = none := by
      unfold Setting.written
      split
      · next hkey =>
        rw [setConfigValue, hkey, h] at hset
        dsimp only at hset
        split at hset
        · assumption
        · cases hset
      · rfl
    rw [hnone]
    rfl

theorem jobs_put : ∀ entry ∈ settings, ∀ (v : entry.2.kind.Value) (config : DsearchConfig),
    (entry.2.field.put v config).scraper.jobs = config.scraper.jobs := by
  unfold settings
  simp only [List.forall_mem_cons, List.not_mem_nil, IsEmpty.forall_iff, implies_true, and_true]
  repeat' apply And.intro
  all_goals intro v config; rfl

theorem jobs_applySet (config : DsearchConfig) (request : String × String) :
    (applySet config request).scraper.jobs = config.scraper.jobs := by
  unfold applySet
  cases hset : setConfigValue config request.1 request.2 with
  | error e => rfl
  | ok config' =>
    obtain ⟨setting, v, hsetting, -, rfl⟩ := setConfigValue_eq_ok hset
    exact jobs_put _ (mem_of_lookup hsetting) v config

theorem jobs_foldl (config : DsearchConfig) (requests : List (String × String)) :
    (requests.foldl applySet config).scraper.jobs = config.scraper.jobs := by
  induction requests generalizing config with
  | nil => rfl
  | cons request requests ih => rw [List.foldl_cons, ih, jobs_applySet]

/-! ## Runs -/

namespace LocalApi
open ConfigVersion
variable {ed : Ed25519} {api : LocalApi ed} {codec : ConfigCodec}

theorem setRequest_error {req : HttpRequest} {resp : HttpResponse}
    (h : api.setRequest req = .error resp) : resp.status = 400 := by
  unfold setRequest at h
  split at h
  · exact congrArg HttpResponse.status (Except.error.inj h).symm
  · exact congrArg HttpResponse.status (Except.error.inj h).symm
  · exact congrArg HttpResponse.status (Except.error.inj h).symm
  · exact congrArg HttpResponse.status (Except.error.inj h).symm
  · cases h

theorem status_badRequest (e : String) : (HttpResponse.badRequest e).status ≠ 200 := by
  change 400 ≠ 200
  decide

theorem status_internalError (e : String) : (HttpResponse.internalError e).status ≠ 200 := by
  change 500 ≠ 200
  decide

/-- A request is answered with success and its value is in the file, or nothing has changed. -/
theorem handleSetConfig_cases (hlawful : ConfigCodec.Lawful codec) {file : ConfigFile}
    {config : DsearchConfig} (hloads : Loads codec file config) (hsingle : config.SingleLine)
    (req : HttpRequest) (hvalue : ∀ key value, api.setRequest req = .ok (key, value) →
      '\n' ∉ value.toList) :
    (∃ request config', api.setRequest req = .ok request ∧
      setConfigValue config request.1 request.2 = .ok config' ∧
      (api.handleSetConfig codec .written req file).2.status = 200 ∧
      Loads codec (api.handleSetConfig codec .written req file).1 config' ∧ config'.SingleLine ∧
      ∀ existing, existingVersion file = .ok existing →
        existingVersion (api.handleSetConfig codec .written req file).1 =
          .ok (some (existing.getD CURRENT_CONFIG_VERSION))) ∨
    ((api.handleSetConfig codec .written req file).2.status ≠ 200 ∧
      (api.handleSetConfig codec .written req file).1 = file) := by
  obtain ⟨existing, hexisting, hversion⟩ := hloads.version
  have hloaded : loadConfig codec.reader .default file = .ok config := hloads
  unfold handleSetConfig
  cases hrequest : api.setRequest req with
  | error resp =>
    refine .inr ⟨?_, rfl⟩
    dsimp only
    rw [setRequest_error hrequest]
    decide
  | ok request =>
    obtain ⟨key, value⟩ := request
    dsimp only
    rw [hloaded]
    dsimp only
    cases hset : setConfigValue config key value with
    | error e => exact .inr ⟨status_badRequest e, rfl⟩
    | ok config' =>
      have hsingle' := singleLine_set hset (hvalue key value hrequest) hsingle
      dsimp only
      rw [saveConfig, hexisting]
      dsimp only
      cases htext : codec.toStringPretty config' with
      | error e => exact .inr ⟨status_internalError _, rfl⟩
      | ok text =>
        obtain ⟨hback, hkept⟩ := loads_versionedText hlawful hsingle' htext hversion
        refine .inl ⟨(key, value), config', rfl, hset, rfl, hback, hsingle', ?_⟩
        intro existing' hexisting'
        obtain rfl := Except.ok.inj hexisting'
        exact hkept

/-- After a run of requests the file holds the settings that the answered ones made, one after the
other. -/
theorem setAll_loads (hlawful : ConfigCodec.Lawful codec) {reqs : List HttpRequest}
    (hvalues : ∀ req ∈ reqs, ∀ key value, api.setRequest req = .ok (key, value) →
      '\n' ∉ value.toList) {file : ConfigFile} {config : DsearchConfig}
    (hloads : Loads codec file config) (hsingle : config.SingleLine) {existing : Option ℕ}
    (hexisting : existingVersion file = .ok existing) :
    Loads codec (api.setAll codec reqs file).1
      ((api.setAll codec reqs file).2.foldl applySet config) ∧
    existingVersion (api.setAll codec reqs file).1 =
      .ok (versionAfter existing (api.setAll codec reqs file).2) := by
  induction reqs generalizing file config existing with
  | nil => exact ⟨hloads, hexisting⟩
  | cons req reqs ih =>
    have hlater : ∀ req' ∈ reqs, ∀ key value, api.setRequest req' = .ok (key, value) →
        '\n' ∉ value.toList := fun req' hreq' => hvalues req' (List.mem_cons_of_mem req hreq')
    rw [setAll]
    dsimp only
    rcases handleSetConfig_cases hlawful hloads hsingle req (hvalues req List.mem_cons_self) with
      ⟨request, config', hrequest, hset, hstatus, hback, hsingle', hversion⟩ | ⟨hstatus, hsame⟩
    · obtain ⟨hfinal, hkept⟩ := ih hlater hback hsingle' (hversion existing hexisting)
      have happly : applySet config request = config' := by
        rw [applySet, hset]
        rfl
      have hanswered : api.answered req (api.handleSetConfig codec .written req file).2 =
          [request] := by
        rw [answered, if_pos hstatus, hrequest]
        rfl
      rw [hanswered, List.singleton_append, List.foldl_cons, happly, hkept]
      refine ⟨hfinal, congrArg Except.ok ?_⟩
      cases (api.setAll codec reqs (api.handleSetConfig codec .written req file).1).2 <;> rfl
    · rw [answered, if_neg hstatus, List.nil_append, hsame]
      exact ih hlater hloads hsingle hexisting

/-- After a run of requests each setting is what the last answered request for its key says, the jobs
are what they were, and so is the version of the file. -/
theorem setAll_last (hlawful : ConfigCodec.Lawful codec) {reqs : List HttpRequest}
    (hvalues : ∀ req ∈ reqs, ∀ key value, api.setRequest req = .ok (key, value) →
      '\n' ∉ value.toList) {file : ConfigFile} {config : DsearchConfig}
    (hloads : Loads codec file config) (hsingle : config.SingleLine) {existing : Option ℕ}
    (hexisting : existingVersion file = .ok existing) :
    ∃ final, Loads codec (api.setAll codec reqs file).1 final ∧
      (∀ key setting, DSearch.settings.lookup key = some setting → setting.field.get final =
        ((api.setAll codec reqs file).2.filterMap (setting.written key)).getLast?.getD
          (setting.field.get config)) ∧
      final.scraper.jobs = config.scraper.jobs ∧
      existingVersion (api.setAll codec reqs file).1 =
        .ok (versionAfter existing (api.setAll codec reqs file).2) := by
  obtain ⟨hfinal, hversion⟩ := setAll_loads hlawful hvalues hloads hsingle hexisting
  refine ⟨_, hfinal, fun key setting hsetting => ?_, ?_, hversion⟩
  · exact get_foldl (fun request _ config => get_applySet hsetting config request) config
  · generalize (api.setAll codec reqs file).2 = done
    exact jobs_foldl config done

/-! ## One request for a port, and one that is no JSON -/

def portConfig : DsearchConfig := { DsearchConfig.default with api.port := 8888 }

def portLines : List String := [
  "[node]", "role = \"light\"", "max_connections = 200", "min_protocol_version = 1", "ipv4 = true",
  "ipv6 = true", "max_concurrent_queries = 50", "",
  "[api]", "port = 8888", "",
  "[gateway]", "enabled = false", "bind = \"0.0.0.0:7744\"", "rate_limit_per_min = 60",
  "require_api_key = false", "",
  "[storage]", "quota_mb = 0", "quota_action = \"evict_oldest\"", "tier2_max_mb = 512", "",
  "[relay]", "bandwidth_limit_mbps = 100", "",
  "[scraper]", "default_interval_secs = 3600", "default_replicate = 0",
  "default_lifecycle = \"ephemeral\"", "jobs = []", "",
  "[log]", "level = \"info\"", "output = \"stderr\"", "file = \"\x7bdata_dir\x7d/dsearch.log\"",
  "max_size_mb = 50", "rotate_count = 3", "",
  "[bootstrap]", "use_defaults = true"]

def portToml : String := String.ofList (portLines.flatMap fun line => line.toList ++ ['\n'])

theorem lines_flatMap {texts : List String}
    (h : ∀ text ∈ texts, '\n' ∉ text.toList ∧ '\r' ∉ text.toList) :
    lines (texts.flatMap fun text => text.toList ++ ['\n']) = texts.map String.toList := by
  induction texts with
  | nil => rfl
  | cons text texts ih =>
    obtain ⟨hfeed, hreturn⟩ := h text List.mem_cons_self
    have hstrip : stripCarriageReturn text.toList = text.toList := by
      rcases stripCarriageReturn_cases text.toList with hsame | hends
      · exact hsame
      · rw [hends] at hreturn
        exact absurd (List.mem_append_right _ (List.mem_singleton_self _)) hreturn
    rw [List.flatMap_cons, List.append_assoc, List.singleton_append, lines_cons hfeed, hstrip,
      ih fun text' htext' => h text' (List.mem_cons_of_mem text htext'), List.map_cons]

theorem trimEnd_line {cs : List Char} {c : Char} (h : isWhiteSpace c = false) :
    trimEnd (cs ++ [c] ++ ['\n']) = cs ++ [c] := by
  have hfeed : isWhiteSpace '\n' = true := by decide
  simp [trimEnd, hfeed, h]

theorem mem_of_metaHeader {line : List Char} (h : MetaHeader line) : '[' ∈ line ∧ 'm' ∈ line := by
  have hsubset := (Request.trim_sublist line).subset
  rw [show trim line = "[meta]".toList from h] at hsubset
  exact ⟨hsubset (by decide), hsubset (by decide)⟩

/-- A line without a line end, and without a bracket or a letter of `[meta]`. -/
def PlainLine (line : List Char) : Prop :=
  '\n' ∉ line ∧ '\r' ∉ line ∧ ('[' ∉ line ∨ 'm' ∉ line)

instance (line : List Char) : Decidable (PlainLine line) := inferInstanceAs (Decidable (_ ∧ _))

/-- The characters of a literal are taken as they are written: to decode its bytes takes long. -/
theorem plainLine_ofList {line : List Char} (h : PlainLine line) :
    PlainLine (String.ofList line).toList := by
  rwa [String.toList_ofList]

theorem portLines_plain : ∀ line ∈ portLines, PlainLine line.toList := by
  simp only [portLines, List.forall_mem_cons, -String.reduceToList]
  repeat refine ⟨plainLine_ofList (by decide), ?_⟩
  exact List.forall_mem_nil _

theorem portLines_last : portLines = portLines.dropLast ++ ["use_defaults = true"] := rfl

theorem portToml_headers :
    ∀ line ∈ lines (trimEnd portToml.toList ++ ['\n']), ¬ MetaHeader line := by
  have htrue : "use_defaults = true".toList = "use_defaults = tru".toList ++ ['e'] := by decide
  have hlast : portLines.flatMap (fun line => line.toList ++ ['\n']) =
      (portLines.dropLast.flatMap fun line => line.toList ++ ['\n']) ++ "use_defaults = tru".toList ++
        ['e'] ++ ['\n'] := by
    rw [portLines_last, List.flatMap_append, List.flatMap_singleton, htrue, ← portLines_last]
    simp only [List.append_assoc]
  have hwhole : trimEnd portToml.toList ++ ['\n'] =
      portLines.flatMap fun line => line.toList ++ ['\n'] := by
    rw [portToml, String.toList_ofList, hlast, trimEnd_line (by decide)]
  rw [hwhole, lines_flatMap fun line hline => ⟨(portLines_plain line hline).1,
    (portLines_plain line hline).2.1⟩]
  intro line hline hheader
  obtain ⟨text, htext, rfl⟩ := List.mem_map.mp hline
  obtain ⟨hbracket, hletter⟩ := mem_of_metaHeader hheader
  exact (portLines_plain text htext).2.2.elim (absurd hbracket) (absurd hletter)

/-- `toml` on one configuration and on its text. -/
def codecOf (config : DsearchConfig) (text : String) : ConfigCodec where
  reader :=
    { fromStr := fun contents =>
        if (trimEnd text.toList).isPrefixOf contents.toList then .ok config
        else .error "expected a table"
      document := fun _ => .other }
  toStringPretty printed := if printed = config then .ok text else .error "out of range"

theorem codecOf_lawful {config : DsearchConfig} {text : String}
    (h : ∀ line ∈ lines (trimEnd text.toList ++ ['\n']), ¬ MetaHeader line) :
    ConfigCodec.Lawful (codecOf config text) := by
  have hprinted : ∀ printed written, (codecOf config text).toStringPretty printed = .ok written →
      printed = config ∧ written = text := by
    intro printed written hok
    change (if printed = config then Except.ok text else .error "out of range") = .ok written at hok
    split at hok
    · next hsame => exact ⟨hsame, (Except.ok.inj hok).symm⟩
    · cases hok
  constructor
  · intro printed written version hok
    obtain ⟨rfl, rfl⟩ := hprinted printed written hok
    refine if_pos (List.isPrefixOf_iff_prefix.mpr ?_)
    rw [versionedText, String.toList_ofList, List.append_assoc, List.append_assoc]
    exact List.prefix_append _ _
  · intro printed written _ hok
    obtain ⟨rfl, rfl⟩ := hprinted printed written hok
    exact h

def portApi : LocalApi .checksum where
  store := plainStore
  nodeId := "n"
  settings := ⟨"light", 1, 100, [], 3600, "ephemeral"⟩
  files := ⟨[], .ok [], false, []⟩
  env := ⟨0, 0, .sorted, id⟩
  openapiJson _ := []
  blake3 _ := ""
  zeroKey := none
  recordFromStr _ := .error "expected value"
  recordsFromStr _ := .error "expected value"
  bodyField body name :=
    if body = "\x7b\"key\":\"api.port\",\"value\":\"8888\"\x7d" then
      .ok ([("key", "api.port"), ("value", "8888")].lookup name)
    else .error "expected value"
  readToString _ := .error "No such file or directory"
  otherPost _ := LocalApi.respond (.notFound "unknown route")

def portRequests : List HttpRequest :=
  [⟨"POST", "/config/set", ∅, ∅, "\x7b\"key\":\"api.port\",\"value\":\"8888\"\x7d"⟩,
    ⟨"POST", "/config/set", ∅, ∅, "api.port"⟩]

theorem setAll_last_port :
    ∃ final, Loads (codecOf portConfig portToml)
        (portApi.setAll (codecOf portConfig portToml) portRequests .missing).1 final ∧
      (∀ key setting, DSearch.settings.lookup key = some setting → setting.field.get final =
        ((portApi.setAll (codecOf portConfig portToml) portRequests .missing).2.filterMap
          (setting.written key)).getLast?.getD (setting.field.get .default)) ∧
      final.scraper.jobs = DsearchConfig.default.scraper.jobs ∧
      existingVersion (portApi.setAll (codecOf portConfig portToml) portRequests .missing).1 =
        .ok (versionAfter none
          (portApi.setAll (codecOf portConfig portToml) portRequests .missing).2) := by
  have hmissing : Loads (codecOf portConfig portToml) .missing .default := rfl
  refine setAll_last (codecOf_lawful portToml_headers) (fun req hreq key value hset => ?_)
    hmissing (by decide) rfl
  rcases List.mem_cons.mp hreq with rfl | hlast
  · obtain ⟨-, rfl⟩ := Prod.mk.inj (Except.ok.inj hset)
    decide
  · rw [List.mem_singleton.mp hlast] at hset
    cases hset

end LocalApi

end DSearch
