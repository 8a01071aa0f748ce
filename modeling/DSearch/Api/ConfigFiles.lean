import DSearch.Api.Handlers
import DSearch.Api.KeyStore
import DSearch.Scraper.Job

/-! # Files that are loaded, added to and written back

`create_key`, `write_bootstrap_peer` of `bootstrap/resolver.rs`, `add_provider` of
`scraper/discovery/providers.rs` and `handle_ban_peer` of `api/handlers.rs`. `serde_json` and `toml` are
parameters. What a file holds is a parameter too, as a file that does not parse holds something. -/

namespace DSearch
set_option autoImplicit false
open Files JsonText

/-- A failed read ends the call here. -/
def ConfigFile.loadOrFail {ν ρ : Type} (parse : String → Except String ν) (fallback : ν)
    (unreadable : String → ρ) : ConfigFile → Except ρ ν
  | .missing => .ok fallback
  | .unreadable e => .error (unreadable e)
  | .text contents => .ok ((parse contents).toOption.getD fallback)

structure TomlCodec (ν : Type) where
  fromStr : String → Except String ν
  toStringPretty : ν → Except String String

def TomlCodec.RoundTrips {ν : Type} (toml : TomlCodec ν) : Prop :=
  ∀ v, ∃ text, toml.toStringPretty v = .ok text ∧ toml.fromStr text = .ok v

structure BootstrapToml where
  useDefaults : Bool
  peers : List BootstrapPeer
  deriving DecidableEq, Repr

structure SearchProvidersToml where
  providers : List SearchProvider
  deriving DecidableEq, Repr

/-- `serde_json`: values, of which only text fields are looked at, and arrays of them. -/
structure JsonCodec where
  Value : Type
  fromStr : String → Except String Value
  arrayFromStr : String → Except String (List Value)
  toStringPretty : List Value → Except String String
  textField : String → Value → Option String
  textObject : String → String → Value

structure JsonCodec.Lawful (json : JsonCodec) : Prop where
  roundTrips : ∀ values, ∃ text,
    json.toStringPretty values = .ok text ∧ json.arrayFromStr text = .ok values
  textField_textObject : ∀ name text, json.textField name (json.textObject name text) = some text
  not_empty : ∃ e, json.arrayFromStr "" = .error e

namespace ConfigFiles

def writeBootstrapPeer (toml : TomlCodec BootstrapToml) (id addr note : String) :
    Update ConfigFile BootstrapToml (Except String Unit) where
  load := ConfigFile.loadOrFail toml.fromStr ⟨true, []⟩ fun e => .error e
  ends _ := none
  change config := { config with peers := config.peers ++ [⟨id, addr, note⟩] }
  serialize config := .ok (.text ((toml.toStringPretty config).toOption.getD ""))
  written := .ok ()
  notWritten e := .error e

def addProvider (toml : TomlCodec SearchProvidersToml) (name endpoint : String) :
    Update ConfigFile SearchProvidersToml (Except String Unit) where
  load := ConfigFile.loadOrFail toml.fromStr ⟨[]⟩ fun e => .error ("read: " ++ e)
  ends config :=
    if config.providers.any fun p => p.name = name then
      some (.error ("provider '" ++ name ++ "' already exists"))
    else none
  change config := ⟨config.providers ++ [⟨name, true, endpoint⟩]⟩
  serialize config :=
    match toml.toStringPretty config with
    | .ok text => .ok (.text text)
    | .error e => .error (.error ("serialize: " ++ e))
  written := .ok ()
  notWritten e := .error ("write: " ++ e)

section
variable (json : JsonCodec) (nodeId : String)

/-- `json!({"ok": true, ..})`, as a response of the node; the other fields come before `ok`. -/
def okReply (fields : List (String × Bytes)) : HttpResponse :=
  (HttpResponse.json (ofFields (fields ++ [("ok", ofBool true)]))).withNodeHeaders nodeId

/-- A text field of the body of a request. -/
def bodyField (name body : String) : Except HttpResponse String :=
  match json.fromStr body with
  | .error e => .error (.badRequest ("invalid JSON: " ++ e))
  | .ok value =>
    match json.textField name value with
    | some text => .ok text
    | none => .error (.badRequest ("missing field: " ++ name))

def banned (peerId : String) (value : json.Value) : Bool := json.textField "peer_id" value = some peerId

/-- `handle_ban_peer` from where it has the id of the peer. The write is not looked at. -/
def banPeer (peerId : String) : Update ConfigFile (List json.Value) HttpResponse where
  load file := .ok (ConfigFile.loadOr json.arrayFromStr [] file)
  ends values :=
    if values.any (banned json peerId) then
      some (okReply nodeId [("already_banned", ofBool true), ("banned", ofString peerId)])
    else none
  change values := values ++ [json.textObject "peer_id" peerId]
  serialize values :=
    match json.toStringPretty values with
    | .ok text => .ok (.text text)
    | .error _ => .error (okReply nodeId [("banned", ofString peerId)])
  written := okReply nodeId [("banned", ofString peerId)]
  notWritten _ := okReply nodeId [("banned", ofString peerId)]

def handleBanPeer (body : String) (w : FileWrite ConfigFile) (file : ConfigFile) :
    ConfigFile × HttpResponse :=
  match bodyField json "peer_id" body with
  | .error resp => (file, resp)
  | .ok peerId => (banPeer json nodeId peerId).run w file

end

/-! ## What the files hold -/

section
variable {ι : Type}

def listItems {α : Type} (item : α → ι) (list : List α) : Set ι := Set.image item {a | a ∈ list}

theorem listItems_append {α : Type} (item : α → ι) (list : List α) (a : α) :
    listItems item (list ++ [a]) = listItems item list ∪ {item a} := by
  have hset : {b | b ∈ list ++ [a]} = {b | b ∈ list} ∪ {a} := by
    ext b
    simp [or_comm]
  rw [listItems, hset, Set.image_union, Set.image_singleton]
  rfl

def bootstrapItems (ofUseDefaults : Bool → ι) (ofPeer : BootstrapPeer → ι) (config : BootstrapToml) :
    Set ι :=
  {ofUseDefaults config.useDefaults} ∪ listItems ofPeer config.peers

/-- The entries of the list, and the ids that they ban. -/
def bannedItems (json : JsonCodec) (ofValue : json.Value → ι) (ofBan : String → ι)
    (values : List json.Value) : Set ι :=
  listItems ofValue values ∪
    {x | ∃ v ∈ values, ∃ id, json.textField "peer_id" v = some id ∧ ofBan id = x}

end

/-- What each file holds, whether or not it can be read and parsed. A text that was serialized from a
value holds what the value does; a list that is parsed is held. -/
structure Contents (keys : KeyStoreCodec) (boot : TomlCodec BootstrapToml)
    (prov : TomlCodec SearchProvidersToml) (json : JsonCodec) (ι : Type) where
  ofKey : GatewayKeyInfo → ι
  ofUseDefaults : Bool → ι
  ofPeer : BootstrapPeer → ι
  ofProvider : SearchProvider → ι
  ofValue : json.Value → ι
  ofBan : String → ι
  keyFile : ConfigFile → Set ι
  bootstrapFile : ConfigFile → Set ι
  providersFile : ConfigFile → Set ι
  bannedFile : ConfigFile → Set ι
  keyFile_text : ∀ list text, keys.toStringPretty list = .ok text →
    keyFile (.text text) = listItems ofKey list
  bootstrapFile_text : ∀ config text, boot.toStringPretty config = .ok text →
    bootstrapFile (.text text) = bootstrapItems ofUseDefaults ofPeer config
  providersFile_text : ∀ config text, prov.toStringPretty config = .ok text →
    providersFile (.text text) = listItems ofProvider config.providers
  bannedFile_text : ∀ values text, json.toStringPretty values = .ok text →
    bannedFile (.text text) = bannedItems json ofValue ofBan values
  bannedFile_parsed : ∀ values text, json.arrayFromStr text = .ok values →
    bannedItems json ofValue ofBan values ⊆ bannedFile (.text text)

def Failed {α : Type} (result : Except String α) : Prop := ∃ e, result = .error e

/-- The file as a value, where the read succeeds. -/
def parsedOr {ν : Type} (parse : String → Except String ν) (fallback : ν) : ConfigFile → ν
  | .text contents => (parse contents).toOption.getD fallback
  | _ => fallback

theorem loadOrFail_eq {ν ρ : Type} {parse : String → Except String ν} {fallback : ν}
    {unreadable : String → ρ} {file : ConfigFile} (h : ¬ ∃ e, file = .unreadable e) :
    ConfigFile.loadOrFail parse fallback unreadable file = .ok (parsedOr parse fallback file) := by
  cases file with
  | missing => rfl
  | unreadable e => exact absurd ⟨e, rfl⟩ h
  | text contents => rfl

section
variable {keys : KeyStoreCodec} {boot : TomlCodec BootstrapToml}
  {prov : TomlCodec SearchProvidersToml} {json : JsonCodec} {ι : Type}
  (c : Contents keys boot prov json ι)

theorem failed_error {α : Type} (e : String) : Failed (α := α) (.error e) := ⟨e, rfl⟩

theorem not_failed_ok {α : Type} (a : α) : ¬ Failed (.ok a : Except String α) := by
  rintro ⟨e, he⟩
  cases he

theorem createKey_keeps_iff (hserde : keys.RoundTrips) (nickname : String) (secret : Secret) (now : ℕ)
    (w : FileWrite ConfigFile) (file : ConfigFile) :
    Keeps c.keyFile {c.ofKey (KeyStore.keyInfo keys nickname secret now)} Failed file
        ((KeyStore.createKey keys nickname secret now).run w file) ↔
      ((KeyStore.loadKeys keys file).any fun k => k.nickname = nickname) = true ∨
        Retains c.keyFile {c.ofKey (KeyStore.keyInfo keys nickname secret now)}
          {c.ofKey (KeyStore.keyInfo keys nickname secret now)}
          (listItems c.ofKey (KeyStore.loadKeys keys file)) True w file := by
  have hholds : Holds (KeyStore.createKey keys nickname secret now) c.keyFile (listItems c.ofKey)
      {c.ofKey (KeyStore.keyInfo keys nickname secret now)}
      {c.ofKey (KeyStore.keyInfo keys nickname secret now)} := by
    refine ⟨fun list text htext => ?_, fun list => listItems_append c.ofKey list _, subset_rfl⟩
    obtain ⟨json, hjson, -⟩ := hserde list
    have hser : KeyStore.serializeKeys (α := String × GatewayKeyInfo) keys list = .ok (.text json) := by
      unfold KeyStore.serializeKeys
      rw [hjson]
    obtain rfl := Except.ok.inj (hser.symm.trans htext)
    exact c.keyFile_text list json hjson
  have hserialize : ∀ list, ∃ text,
      (KeyStore.createKey keys nickname secret now).serialize list = .ok text := by
    intro list
    obtain ⟨text, htext, -⟩ := KeyStore.serializeKeys_ok (α := String × GatewayKeyInfo) hserde list
    exact ⟨text, htext⟩
  rw [keeps_of_load hholds (not_failed_ok _) (fun reason => iff_true_intro (failed_error _))
    hserialize w (v := KeyStore.loadKeys keys file) rfl]
  by_cases hdup : ((KeyStore.loadKeys keys file).any fun k => k.nickname = nickname) = true
  · have hends : (KeyStore.createKey keys nickname secret now).ends (KeyStore.loadKeys keys file) =
        some (.error ("key with nickname '" ++ nickname ++ "' already exists")) := if_pos hdup
    rw [hends]
    simp [hdup, failed_error]
  · have hends : (KeyStore.createKey keys nickname secret now).ends (KeyStore.loadKeys keys file) =
        none := if_neg hdup
    rw [hends]
    simp [hdup]

theorem writeBootstrapPeer_keeps_iff (hserde : boot.RoundTrips) (id addr note : String)
    (w : FileWrite ConfigFile) (file : ConfigFile) :
    Keeps c.bootstrapFile {c.ofPeer ⟨id, addr, note⟩} Failed file
        ((writeBootstrapPeer boot id addr note).run w file) ↔
      (∃ e, file = .unreadable e) ∨
        Retains c.bootstrapFile {c.ofPeer ⟨id, addr, note⟩} {c.ofPeer ⟨id, addr, note⟩}
          (bootstrapItems c.ofUseDefaults c.ofPeer (parsedOr boot.fromStr ⟨true, []⟩ file)) True w
          file := by
  have hserialized : ∀ config, ∃ text, boot.toStringPretty config = .ok text ∧
      (writeBootstrapPeer boot id addr note).serialize config = .ok (.text text) := by
    intro config
    obtain ⟨text, htext, -⟩ := hserde config
    refine ⟨text, htext, ?_⟩
    unfold writeBootstrapPeer
    dsimp only
    rw [htext]
    rfl
  have hholds : Holds (writeBootstrapPeer boot id addr note) c.bootstrapFile
      (bootstrapItems c.ofUseDefaults c.ofPeer) {c.ofPeer ⟨id, addr, note⟩}
      {c.ofPeer ⟨id, addr, note⟩} := by
    refine ⟨fun config file htext => ?_, fun config => ?_, subset_rfl⟩
    · obtain ⟨text, hpretty, hser⟩ := hserialized config
      obtain rfl := Except.ok.inj (hser.symm.trans htext)
      exact c.bootstrapFile_text config text hpretty
    · unfold bootstrapItems writeBootstrapPeer
      dsimp only
      rw [listItems_append, Set.union_assoc]
  by_cases hread : ∃ e, file = .unreadable e
  · obtain ⟨e, rfl⟩ := hread
    have hfails : (writeBootstrapPeer boot id addr note).read (.unreadable e) = .error (.error e) := rfl
    rw [keeps_of_read_error hfails]
    simp [failed_error]
  · rw [keeps_of_load hholds (not_failed_ok _) (fun reason => iff_true_intro (failed_error _))
      (fun config => (hserialized config).imp' _ fun _ h => h.2) w (loadOrFail_eq hread)]
    simp only [hread, false_or]
    rfl

theorem addProvider_keeps_iff (hserde : prov.RoundTrips) (name endpoint : String)
    (w : FileWrite ConfigFile) (file : ConfigFile) :
    Keeps c.providersFile {c.ofProvider ⟨name, true, endpoint⟩} Failed file
        ((addProvider prov name endpoint).run w file) ↔
      (∃ e, file = .unreadable e) ∨
        ((parsedOr prov.fromStr ⟨[]⟩ file).providers.any fun p => p.name = name) = true ∨
        Retains c.providersFile {c.ofProvider ⟨name, true, endpoint⟩}
          {c.ofProvider ⟨name, true, endpoint⟩}
          (listItems c.ofProvider (parsedOr prov.fromStr ⟨[]⟩ file).providers) True w file := by
  have hserialized : ∀ config, ∃ text, prov.toStringPretty config = .ok text ∧
      (addProvider prov name endpoint).serialize config = .ok (.text text) := by
    intro config
    obtain ⟨text, htext, -⟩ := hserde config
    refine ⟨text, htext, ?_⟩
    unfold addProvider
    dsimp only
    rw [htext]
  have hholds : Holds (addProvider prov name endpoint) c.providersFile
      (fun config => listItems c.ofProvider config.providers) {c.ofProvider ⟨name, true, endpoint⟩}
      {c.ofProvider ⟨name, true, endpoint⟩} := by
    refine ⟨fun config file htext => ?_, fun config => ?_, subset_rfl⟩
    · obtain ⟨text, hpretty, hser⟩ := hserialized config
      obtain rfl := Except.ok.inj (hser.symm.trans htext)
      exact c.providersFile_text config text hpretty
    · exact listItems_append c.ofProvider config.providers _
  by_cases hread : ∃ e, file = .unreadable e
  · obtain ⟨e, rfl⟩ := hread
    have hfails : (addProvider prov name endpoint).read (.unreadable e) =
        .error (.error ("read: " ++ e)) := rfl
    rw [keeps_of_read_error hfails]
    simp [failed_error]
  · rw [keeps_of_load hholds (not_failed_ok _) (fun reason => iff_true_intro (failed_error _))
      (fun config => (hserialized config).imp' _ fun _ h => h.2) w (loadOrFail_eq hread)]
    simp only [hread, false_or]
    by_cases hdup : ((parsedOr prov.fromStr ⟨[]⟩ file).providers.any fun p => p.name = name) = true
    · have hends : (addProvider prov name endpoint).ends (parsedOr prov.fromStr ⟨[]⟩ file) =
          some (.error ("provider '" ++ name ++ "' already exists")) := if_pos hdup
      rw [hends]
      simp [hdup, failed_error]
    · have hends : (addProvider prov name endpoint).ends (parsedOr prov.fromStr ⟨[]⟩ file) =
          none := if_neg hdup
      rw [hends]
      simp [hdup]

theorem bannedItems_append (hjson : json.Lawful) (ofValue : json.Value → ι) (ofBan : String → ι)
    (values : List json.Value) (peerId : String) :
    bannedItems json ofValue ofBan (values ++ [json.textObject "peer_id" peerId]) =
      bannedItems json ofValue ofBan values ∪
        {ofBan peerId, ofValue (json.textObject "peer_id" peerId)} := by
  have hfield := hjson.textField_textObject "peer_id" peerId
  ext x
  unfold bannedItems
  rw [listItems_append]
  simp only [Set.mem_union, Set.mem_singleton_iff, Set.mem_ofPred_eq, Set.mem_insert_iff,
    List.mem_append, List.mem_singleton]
  constructor
  · rintro ((hx | hx) | ⟨v, hv | rfl, id, hid, rfl⟩)
    · exact .inl (.inl hx)
    · exact .inr (.inr hx)
    · exact .inl (.inr ⟨v, hv, id, hid, rfl⟩)
    · obtain rfl := Option.some.inj (hfield.symm.trans hid)
      exact .inr (.inl rfl)
  · rintro ((hx | ⟨v, hv, id, hid, rfl⟩) | rfl | hx)
    · exact .inl (.inl hx)
    · exact .inr ⟨v, .inl hv, id, hid, rfl⟩
    · exact .inr ⟨_, .inr rfl, peerId, hfield, rfl⟩
    · exact .inl (.inr hx)

/-- Only a file that parses lists anything. -/
theorem text_of_mem_loadOr (hjson : json.Lawful) {file : ConfigFile} {v : json.Value}
    (h : v ∈ ConfigFile.loadOr json.arrayFromStr [] file) :
    ∃ contents values, file = .text contents ∧ json.arrayFromStr contents = .ok values ∧
      v ∈ values := by
  cases file with
  | missing => exact absurd h List.not_mem_nil
  | unreadable reason =>
    obtain ⟨e, he⟩ := hjson.not_empty
    rw [ConfigFile.loadOr, he] at h
    exact absurd h List.not_mem_nil
  | text contents =>
    rw [ConfigFile.loadOr] at h
    cases hparse : json.arrayFromStr contents with
    | error e =>
      rw [hparse] at h
      exact absurd h List.not_mem_nil
    | ok values =>
      rw [hparse] at h
      exact ⟨contents, values, rfl, hparse, h⟩

def BadStatus (resp : HttpResponse) : Prop := resp.status ≠ 200

theorem banPeer_keeps_iff (hjson : json.Lawful) (nodeId peerId : String) (w : FileWrite ConfigFile)
    (file : ConfigFile) :
    Keeps c.bannedFile {c.ofBan peerId} BadStatus file ((banPeer json nodeId peerId).run w file) ↔
      ((ConfigFile.loadOr json.arrayFromStr [] file).any (banned json peerId)) = true ∨
        Retains c.bannedFile {c.ofBan peerId}
          {c.ofBan peerId, c.ofValue (json.textObject "peer_id" peerId)}
          (bannedItems json c.ofValue c.ofBan (ConfigFile.loadOr json.arrayFromStr [] file)) False w
          file := by
  have hserialized : ∀ values, ∃ text, json.toStringPretty values = .ok text ∧
      (banPeer json nodeId peerId).serialize values = .ok (.text text) := by
    intro values
    obtain ⟨text, htext, -⟩ := hjson.roundTrips values
    refine ⟨text, htext, ?_⟩
    unfold banPeer
    dsimp only
    rw [htext]
  have hholds : Holds (banPeer json nodeId peerId) c.bannedFile
      (bannedItems json c.ofValue c.ofBan) {c.ofBan peerId}
      {c.ofBan peerId, c.ofValue (json.textObject "peer_id" peerId)} := by
    refine ⟨fun values file htext => ?_, fun values => ?_, by simp⟩
    · obtain ⟨text, hpretty, hser⟩ := hserialized values
      obtain rfl := Except.ok.inj (hser.symm.trans htext)
      exact c.bannedFile_text values text hpretty
    · exact bannedItems_append hjson c.ofValue c.ofBan values peerId
  have hgood : ∀ fields, ¬ BadStatus (okReply nodeId fields) := fun _ h => h rfl
  rw [keeps_of_load hholds (hgood _) (fun reason => iff_false_intro (hgood _))
    (fun values => (hserialized values).imp' _ fun _ h => h.2) w rfl]
  by_cases hdup : ((ConfigFile.loadOr json.arrayFromStr [] file).any (banned json peerId)) = true
  · have hends : (banPeer json nodeId peerId).ends (ConfigFile.loadOr json.arrayFromStr [] file) =
        some (okReply nodeId [("already_banned", ofBool true), ("banned", ofString peerId)]) :=
      if_pos hdup
    rw [hends]
    simp only [hdup, true_or, iff_true]
    obtain ⟨v, hv, hban⟩ := List.any_eq_true.mp hdup
    obtain ⟨contents, values, rfl, hparse, hmem⟩ := text_of_mem_loadOr hjson hv
    refine .inr (Set.singleton_subset_iff.mpr (c.bannedFile_parsed values contents hparse ?_))
    exact .inr ⟨v, hmem, peerId, of_decide_eq_true hban, rfl⟩
  · have hends : (banPeer json nodeId peerId).ends (ConfigFile.loadOr json.arrayFromStr [] file) =
        none := if_neg hdup
    rw [hends]
    simp [hdup]

end

/-- For any prior content of the file and any end of the write: each of the four calls fails and leaves
the file alone, or leaves everything in it, exactly when it ends early with that or what the file holds
is in the value that the call goes on with. -/
theorem config_updates_keep_iff {keys : KeyStoreCodec} {boot : TomlCodec BootstrapToml}
    {prov : TomlCodec SearchProvidersToml} {json : JsonCodec} {ι : Type}
    (c : Contents keys boot prov json ι) (hkeys : keys.RoundTrips) (hboot : boot.RoundTrips)
    (hprov : prov.RoundTrips) (hjson : json.Lawful) (w : FileWrite ConfigFile) (file : ConfigFile) :
    (∀ nickname secret now,
      Keeps c.keyFile {c.ofKey (KeyStore.keyInfo keys nickname secret now)} Failed file
          ((KeyStore.createKey keys nickname secret now).run w file) ↔
        ((KeyStore.loadKeys keys file).any fun k => k.nickname = nickname) = true ∨
          Retains c.keyFile {c.ofKey (KeyStore.keyInfo keys nickname secret now)}
            {c.ofKey (KeyStore.keyInfo keys nickname secret now)}
            (listItems c.ofKey (KeyStore.loadKeys keys file)) True w file) ∧
    (∀ id addr note,
      Keeps c.bootstrapFile {c.ofPeer ⟨id, addr, note⟩} Failed file
          ((writeBootstrapPeer boot id addr note).run w file) ↔
        (∃ e, file = .unreadable e) ∨
          Retains c.bootstrapFile {c.ofPeer ⟨id, addr, note⟩} {c.ofPeer ⟨id, addr, note⟩}
            (bootstrapItems c.ofUseDefaults c.ofPeer (parsedOr boot.fromStr ⟨true, []⟩ file)) True w
            file) ∧
    (∀ name endpoint,
      Keeps c.providersFile {c.ofProvider ⟨name, true, endpoint⟩} Failed file
          ((addProvider prov name endpoint).run w file) ↔
        (∃ e, file = .unreadable e) ∨
          ((parsedOr prov.fromStr ⟨[]⟩ file).providers.any fun p => p.name = name) = true ∨
          Retains c.providersFile {c.ofProvider ⟨name, true, endpoint⟩}
            {c.ofProvider ⟨name, true, endpoint⟩}
            (listItems c.ofProvider (parsedOr prov.fromStr ⟨[]⟩ file).providers) True w file) ∧
    ∀ nodeId body,
      (∀ resp, bodyField json "peer_id" body = .error resp →
        handleBanPeer json nodeId body w file = (file, resp) ∧ BadStatus resp) ∧
      ∀ peerId, bodyField json "peer_id" body = .ok peerId →
        (Keeps c.bannedFile {c.ofBan peerId} BadStatus file (handleBanPeer json nodeId body w file) ↔
          ((ConfigFile.loadOr json.arrayFromStr [] file).any (banned json peerId)) = true ∨
            Retains c.bannedFile {c.ofBan peerId}
              {c.ofBan peerId, c.ofValue (json.textObject "peer_id" peerId)}
              (bannedItems json c.ofValue c.ofBan (ConfigFile.loadOr json.arrayFromStr [] file)) False
              w file) := by
  refine ⟨fun nickname secret now => createKey_keeps_iff c hkeys nickname secret now w file,
    fun id addr note => writeBootstrapPeer_keeps_iff c hboot id addr note w file,
    fun name endpoint => addProvider_keeps_iff c hprov name endpoint w file,
    fun nodeId body => ⟨fun resp hfield => ⟨?_, ?_⟩, fun peerId hfield => ?_⟩⟩
  · rw [handleBanPeer, hfield]
  · unfold bodyField at hfield
    split at hfield
    · obtain rfl := Except.error.inj hfield
      exact (by decide : (400 : ℕ) ≠ 200)
    · split at hfield
      · cases hfield
      · obtain rfl := Except.error.inj hfield
        exact (by decide : (400 : ℕ) ≠ 200)
  · rw [handleBanPeer, hfield]
    exact banPeer_keeps_iff c hjson nodeId peerId w file

/-! ## Files that do not parse -/

section
open KeyStore

def bootstrapCode (config : BootstrapToml) : Bool × List (List ℕ × List ℕ × List ℕ) :=
  (config.useDefaults, config.peers.map fun p => (textCode p.id, textCode p.addr, textCode p.note))

def ofBootstrapCode (code : Bool × List (List ℕ × List ℕ × List ℕ)) : BootstrapToml where
  useDefaults := code.1
  peers := code.2.map fun p => ⟨ofTextCode p.1, ofTextCode p.2.1, ofTextCode p.2.2⟩

def numberBootstrap : TomlCodec BootstrapToml :=
  ⟨parseNumber ofBootstrapCode, numberText bootstrapCode⟩

theorem numberBootstrap_roundTrips : numberBootstrap.RoundTrips := by
  refine parseNumber_numberText fun config => ?_
  unfold ofBootstrapCode bootstrapCode
  rw [map_uncode fun p => by simp]

def providersCode (config : SearchProvidersToml) : List (List ℕ × Bool × List ℕ) :=
  config.providers.map fun p => (textCode p.name, p.enabled, textCode p.endpoint)

def ofProvidersCode (code : List (List ℕ × Bool × List ℕ)) : SearchProvidersToml where
  providers := code.map fun p => ⟨ofTextCode p.1, p.2.1, ofTextCode p.2.2⟩

def numberProviders : TomlCodec SearchProvidersToml :=
  ⟨parseNumber ofProvidersCode, numberText providersCode⟩

theorem numberProviders_roundTrips : numberProviders.RoundTrips := by
  refine parseNumber_numberText fun config => ?_
  unfold ofProvidersCode providersCode
  rw [map_uncode fun p => by simp]

/-- Values are objects of text fields. -/
def numberJson : JsonCodec where
  Value := List (List ℕ × List ℕ)
  fromStr := parseNumber id
  arrayFromStr := parseNumber id
  toStringPretty := numberText id
  textField name value := (value.find? fun field => field.1 = textCode name).map fun field =>
    ofTextCode field.2
  textObject name text := [(textCode name, textCode text)]

theorem numberJson_lawful : numberJson.Lawful where
  roundTrips := parseNumber_numberText fun _ => rfl
  textField_textObject name text := by simp [numberJson]
  not_empty := by
    refine ⟨"no number of a value", ?_⟩
    unfold numberJson
    dsimp only
    apply parseNumber_error
    decide

/-- A file that parses holds what it parses to; what others hold is given. -/
def heldBy {ν : Type} (parse : String → Except String ν) (items : ν → Set String)
    (malformed : ConfigFile → Set String) (file : ConfigFile) : Set String :=
  match file with
  | .text contents =>
    match parse contents with
    | .ok v => items v
    | .error _ => malformed file
  | _ => malformed file

theorem heldBy_text {ν : Type} {parse : String → Except String ν} {text : String} {v : ν}
    (h : parse text = .ok v) (items : ν → Set String) (malformed : ConfigFile → Set String) :
    heldBy parse items malformed (.text text) = items v := by
  rw [heldBy, h]

theorem heldBy_pretty {ν : Type} {parse : String → Except String ν}
    {pretty : ν → Except String String}
    (hserde : ∀ v, ∃ text, pretty v = .ok text ∧ parse text = .ok v) (items : ν → Set String)
    (malformed : ConfigFile → Set String) (v : ν) (text : String) (h : pretty v = .ok text) :
    heldBy parse items malformed (.text text) = items v := by
  obtain ⟨text', hpretty, hparse⟩ := hserde v
  obtain rfl := Except.ok.inj (h.symm.trans hpretty)
  exact heldBy_text hparse items malformed

def textContents (malformed : ConfigFile → Set String) :
    Contents numberCodec numberBootstrap numberProviders numberJson String where
  ofKey := GatewayKeyInfo.nickname
  ofUseDefaults := toString
  ofPeer := BootstrapPeer.id
  ofProvider := SearchProvider.name
  ofValue _ := "an entry"
  ofBan := id
  keyFile := heldBy numberCodec.keysFromStr (listItems GatewayKeyInfo.nickname) malformed
  bootstrapFile := heldBy numberBootstrap.fromStr (bootstrapItems toString BootstrapPeer.id) malformed
  providersFile := heldBy numberProviders.fromStr
    (fun config => listItems SearchProvider.name config.providers) malformed
  bannedFile := heldBy numberJson.arrayFromStr (bannedItems numberJson (fun _ => "an entry") id) malformed
  keyFile_text := heldBy_pretty numberCodec_roundTrips _ malformed
  bootstrapFile_text := heldBy_pretty numberBootstrap_roundTrips _ malformed
  providersFile_text := heldBy_pretty numberProviders_roundTrips _ malformed
  bannedFile_text := heldBy_pretty numberJson_lawful.roundTrips _ malformed
  bannedFile_parsed _ _ h := (heldBy_text h _ malformed).ge

theorem config_updates_keep_iff_missing :
    Keeps (textContents fun _ => ∅).providersFile {"p"} Failed .missing
      ((addProvider numberProviders "p" "https://p").run .written .missing) := by
  refine ((config_updates_keep_iff (textContents fun _ => ∅) numberCodec_roundTrips
    numberBootstrap_roundTrips numberProviders_roundTrips numberJson_lawful .written .missing).2.2.1
      "p" "https://p").mpr (.inr (.inr ?_))
  exact Set.empty_subset _

/-- It has a slip in it, and turns the defaults off. -/
def malformedBootstrap : ConfigFile := .text "use_defaults = false\n[[peers]]\nid ="

/-- The settings that it holds are replaced by others. -/
theorem malformed_settings_lost :
    ¬ ∀ (keys : KeyStoreCodec) (boot : TomlCodec BootstrapToml) (prov : TomlCodec SearchProvidersToml)
      (json : JsonCodec) (c : Contents keys boot prov json String) (file : ConfigFile)
      (id addr note : String), boot.RoundTrips →
        Keeps c.bootstrapFile {c.ofPeer ⟨id, addr, note⟩} Failed file
          ((writeBootstrapPeer boot id addr note).run .written file) := by
  intro h
  have hparse : numberBootstrap.fromStr "use_defaults = false\n[[peers]]\nid =" =
      .error "no number of a value" := by
    unfold numberBootstrap
    dsimp only
    apply parseNumber_error
    decide
  have hkeeps := h numberCodec numberBootstrap numberProviders numberJson
    (textContents fun _ => {"false"}) malformedBootstrap "n" "1.2.3.4:9000" ""
    numberBootstrap_roundTrips
  rw [writeBootstrapPeer_keeps_iff _ numberBootstrap_roundTrips] at hkeeps
  rcases hkeeps with ⟨e, he⟩ | hsubset
  · cases he
  · have hheld : "false" ∈ (textContents fun _ => {"false"}).bootstrapFile malformedBootstrap := by
      unfold textContents malformedBootstrap heldBy
      dsimp only
      rw [hparse]
      exact Set.mem_singleton _
    have hmem := hsubset hheld
    unfold malformedBootstrap parsedOr at hmem
    dsimp only at hmem
    rw [hparse] at hmem
    simp [bootstrapItems, textContents, listItems, Except.toOption] at hmem
    exact absurd hmem (by decide)

end

end ConfigFiles

end DSearch
