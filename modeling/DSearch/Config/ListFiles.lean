import DSearch.Api.ConfigFiles
import DSearch.Foundations.Rosters

/-! # The lists that calls add to and remove from

`write_bootstrap_peer` and `remove_bootstrap_peer` of `bootstrap/resolver.rs`, `add_provider`,
`remove_provider` and `load_providers` of `scraper/discovery/providers.rs`, `handle_ban_peer` and
`handle_unban_peer` of `api/handlers.rs`, in runs of calls whose writes succeed. -/

namespace DSearch.ConfigFiles
set_option autoImplicit false
open Files JsonText Rosters Runs

/-! ## Removals -/

def removeBootstrapPeer (toml : TomlCodec BootstrapToml) (id : String) :
    Update ConfigFile BootstrapToml (Except String Bool) where
  load
    | .missing => .error (.ok false)
    | .unreadable e => .error (.error e)
    | .text contents => .ok ((toml.fromStr contents).toOption.getD ⟨true, []⟩)
  ends config :=
    if (without BootstrapPeer.id id config.peers).length = config.peers.length then some (.ok false)
    else none
  change config := { config with peers := without BootstrapPeer.id id config.peers }
  serialize config := .ok (.text ((toml.toStringPretty config).toOption.getD ""))
  written := .ok true
  notWritten e := .error e

def removeProvider (toml : TomlCodec SearchProvidersToml) (name : String) :
    Update ConfigFile SearchProvidersToml (Except String Bool) where
  load
    | .missing => .error (.ok false)
    | .unreadable e => .error (.error ("read: " ++ e))
    | .text contents => (toml.fromStr contents).mapError fun e => .error ("parse: " ++ e)
  ends config :=
    if (without SearchProvider.name name config.providers).length = config.providers.length then
      some (.ok false)
    else none
  change config := ⟨without SearchProvider.name name config.providers⟩
  serialize config :=
    match toml.toStringPretty config with
    | .ok text => .ok (.text text)
    | .error e => .error (.error ("serialize: " ++ e))
  written := .ok true
  notWritten e := .error ("write: " ++ e)

def loadProviders (toml : TomlCodec SearchProvidersToml) : ConfigFile → List SearchProvider
  | .text contents =>
    match toml.fromStr contents with
    | .ok config => config.providers.filter fun p => p.enabled
    | .error _ => []
  | _ => []

section
variable (json : JsonCodec) (nodeId : String)

def unbannedReply (peerId : String) (wasBanned : Bool) : HttpResponse :=
  (HttpResponse.json (ofFields [("ok", ofBool true), ("unbanned", ofString peerId),
    ("was_banned", ofBool wasBanned)])).withNodeHeaders nodeId

/-- `handle_unban_peer` from where it has the id of the peer. -/
def unbanPeer (peerId : String) (w : FileWrite ConfigFile) (file : ConfigFile) :
    ConfigFile × HttpResponse :=
  match file with
  | .missing => (file, unbannedReply nodeId peerId false)
  | _ =>
    let values := ConfigFile.loadOr json.arrayFromStr [] file
    let kept := values.filter fun v => ¬ banned json peerId v
    let left :=
      match json.toStringPretty kept, w with
      | .ok text, .written => .text text
      | .ok _, .failed _ left => left
      | .error _, _ => file
    (left, unbannedReply nodeId peerId (kept.length < values.length))

def handleUnbanPeer (body : String) (w : FileWrite ConfigFile) (file : ConfigFile) :
    ConfigFile × HttpResponse :=
  match bodyField json "peer_id" body with
  | .error resp => (file, resp)
  | .ok peerId => unbanPeer json nodeId peerId w file

end

/-! ## Bans -/

/-- A POST request to `/peers/ban` or `/peers/unban`, by its body. -/
inductive BanRequest where
  | ban (body : String)
  | unban (body : String)
  deriving DecidableEq, Repr

section
variable (json : JsonCodec) (nodeId : String)

def handleBans : BanRequest → ConfigFile → ConfigFile × HttpResponse
  | .ban body => handleBanPeer json nodeId body .written
  | .unban body => handleUnbanPeer json nodeId body .written

/-- Who is banned, as a set of ids, and the same requests on it. -/
def Bans.step : BanRequest → (String → Bool) → (String → Bool) × HttpResponse
  | .ban body, bans =>
    match bodyField json "peer_id" body with
    | .error resp => (bans, resp)
    | .ok peerId =>
      (Function.update bans peerId true,
        if bans peerId then okReply nodeId [("already_banned", ofBool true), ("banned", ofString peerId)]
        else okReply nodeId [("banned", ofString peerId)])
  | .unban body, bans =>
    match bodyField json "peer_id" body with
    | .error resp => (bans, resp)
    | .ok peerId => (Function.update bans peerId false, unbannedReply nodeId peerId (bans peerId))

def entries (file : ConfigFile) : List json.Value := ConfigFile.loadOr json.arrayFromStr [] file

def bannedIn (file : ConfigFile) (peerId : String) : Bool := (entries json file).any (banned json peerId)

/-- What a request asks for of a peer. -/
def asks (peerId : String) (req : BanRequest) : Option Bool :=
  match req with
  | .ban body => if (bodyField json "peer_id" body).toOption = some peerId then some true else none
  | .unban body => if (bodyField json "peer_id" body).toOption = some peerId then some false else none

end

section
variable {json : JsonCodec} (nodeId : String)

theorem entries_text {values : List json.Value} {text : String}
    (h : json.arrayFromStr text = .ok values) : entries json (.text text) = values := by
  rw [entries, ConfigFile.loadOr, h]
  rfl

theorem banPeer_entries (hjson : json.Lawful) (peerId : String) (file : ConfigFile) :
    entries json ((banPeer json nodeId peerId).run .written file).1 =
      apply (json.textField "peer_id") false (entries json file) (.add (json.textObject "peer_id" peerId)) ∧
    ((banPeer json nodeId peerId).run .written file).2 =
      (if bannedIn json file peerId then
        okReply nodeId [("already_banned", ofBool true), ("banned", ofString peerId)]
      else okReply nodeId [("banned", ofString peerId)]) := by
  have hfield := hjson.textField_textObject "peer_id" peerId
  have hhas : has (json.textField "peer_id") (some peerId) (entries json file) =
      bannedIn json file peerId := rfl
  unfold apply
  dsimp only
  rw [hfield, hhas]
  by_cases hin : bannedIn json file peerId = true
  · have hread : (banPeer json nodeId peerId).read file = .error
        (okReply nodeId [("already_banned", ofBool true), ("banned", ofString peerId)]) := by
      have hany : (ConfigFile.loadOr json.arrayFromStr [] file).any (banned json peerId) = true := hin
      unfold Update.read banPeer
      dsimp only
      rw [if_pos hany]
    rw [Update.run_of_read_error hread, if_pos ⟨rfl, hin⟩, if_pos hin]
    exact ⟨rfl, rfl⟩
  · have hread : (banPeer json nodeId peerId).read file = .ok (entries json file) :=
      Update.read_eq_ok_iff.mpr ⟨rfl, if_neg hin⟩
    obtain ⟨text, htext, hparse⟩ :=
      hjson.roundTrips (entries json file ++ [json.textObject "peer_id" peerId])
    have hserialize : (banPeer json nodeId peerId).serialize
        ((banPeer json nodeId peerId).change (entries json file)) = .ok (.text text) := by
      unfold banPeer
      dsimp only
      rw [htext]
    rw [Update.run_of_read_ok hread, Update.write_written hserialize, if_neg (fun h => hin h.2),
      if_neg hin]
    exact ⟨entries_text hparse, rfl⟩

theorem length_filter_lt_iff {α : Type} (p : α → Bool) (l : List α) :
    (l.filter fun a => ¬ p a).length < l.length ↔ l.any p = true := by
  rw [List.length_filter_lt_length_iff_exists, List.any_eq_true]
  simp

theorem unbanPeer_entries (hjson : json.Lawful) (peerId : String) (file : ConfigFile) :
    entries json (unbanPeer json nodeId peerId .written file).1 =
      apply (json.textField "peer_id") false (entries json file) (.remove (some peerId)) ∧
    (unbanPeer json nodeId peerId .written file).2 =
      unbannedReply nodeId peerId (bannedIn json file peerId) := by
  have hwas : ∀ values : List json.Value,
      decide ((values.filter fun v => ¬ banned json peerId v).length < values.length) =
        values.any (banned json peerId) := by
    intro values
    rw [Bool.eq_iff_iff, decide_eq_true_eq]
    exact length_filter_lt_iff (banned json peerId) values
  have hwithout : ∀ values : List json.Value,
      (values.filter fun v => ¬ banned json peerId v) =
        without (json.textField "peer_id") (some peerId) values := by
    intro values
    unfold without banned
    simp
  cases file with
  | missing => exact ⟨rfl, rfl⟩
  | unreadable e =>
    obtain ⟨text, htext, hparse⟩ := hjson.roundTrips
      ((entries json (.unreadable e)).filter fun v => ¬ banned json peerId v)
    unfold unbanPeer
    dsimp only
    unfold entries at htext
    rw [htext, hwas]
    exact ⟨(entries_text hparse).trans (hwithout _), rfl⟩
  | text contents =>
    obtain ⟨text, htext, hparse⟩ := hjson.roundTrips
      ((entries json (.text contents)).filter fun v => ¬ banned json peerId v)
    unfold unbanPeer
    dsimp only
    unfold entries at htext
    rw [htext, hwas]
    exact ⟨(entries_text hparse).trans (hwithout _), rfl⟩

/-- What a request is to the entries of the file. -/
def BanRequest.call (json : JsonCodec) : BanRequest → Option (Call json.Value (Option String))
  | .ban body => (bodyField json "peer_id" body).toOption.map fun peerId =>
    .add (json.textObject "peer_id" peerId)
  | .unban body => (bodyField json "peer_id" body).toOption.map fun peerId => .remove (some peerId)

theorem handleBans_entries (hjson : json.Lawful) (req : BanRequest) (file : ConfigFile) :
    entries json (handleBans json nodeId req file).1 =
      (req.call json).elim (entries json file)
        (apply (json.textField "peer_id") false (entries json file)) := by
  cases req with
  | ban body =>
    unfold handleBans handleBanPeer BanRequest.call
    dsimp only
    cases bodyField json "peer_id" body with
    | error resp => rfl
    | ok peerId => exact (banPeer_entries nodeId hjson peerId file).1
  | unban body =>
    unfold handleBans handleUnbanPeer BanRequest.call
    dsimp only
    cases bodyField json "peer_id" body with
    | error resp => rfl
    | ok peerId => exact (unbanPeer_entries nodeId hjson peerId file).1

/-- The file is the set. -/
theorem handleBans_step (hjson : json.Lawful) (req : BanRequest) (file : ConfigFile) :
    bannedIn json (handleBans json nodeId req file).1 =
        (Bans.step json nodeId req (bannedIn json file)).1 ∧
      (handleBans json nodeId req file).2 = (Bans.step json nodeId req (bannedIn json file)).2 := by
  have hhas : ∀ file peerId, bannedIn json file peerId =
      has (json.textField "peer_id") (some peerId) (entries json file) := fun _ _ => rfl
  cases req with
  | ban body =>
    unfold handleBans handleBanPeer Bans.step
    dsimp only
    cases bodyField json "peer_id" body with
    | error resp => exact ⟨rfl, rfl⟩
    | ok peerId =>
      obtain ⟨hentries, hanswer⟩ := banPeer_entries nodeId hjson peerId file
      refine ⟨?_, hanswer⟩
      funext q
      dsimp only
      rw [hhas, hentries, has_apply, tells, hjson.textField_textObject, Function.update_apply, ← hhas]
      by_cases hq : q = peerId
      · simp [hq]
      · simp [hq, Ne.symm hq]
  | unban body =>
    unfold handleBans handleUnbanPeer Bans.step
    dsimp only
    cases bodyField json "peer_id" body with
    | error resp => exact ⟨rfl, rfl⟩
    | ok peerId =>
      obtain ⟨hentries, hanswer⟩ := unbanPeer_entries nodeId hjson peerId file
      refine ⟨?_, hanswer⟩
      funext q
      dsimp only
      rw [hhas, hentries, has_apply, tells, Function.update_apply, ← hhas]
      by_cases hq : q = peerId
      · simp [hq]
      · simp [hq, Ne.symm hq]

/-- The last request for a peer decides. -/
theorem bans_last (reqs : List BanRequest) (bans : String → Bool) (peerId : String) :
    (runAll (Bans.step json nodeId) reqs bans).1 peerId =
      (reqs.filterMap (asks json peerId)).getLast?.getD (bans peerId) := by
  have hstep : ∀ req bans, (Bans.step json nodeId req bans).1 peerId =
      (asks json peerId req).getD (bans peerId) := by
    intro req bans
    cases req with
    | ban body =>
      unfold Bans.step asks
      dsimp only
      cases bodyField json "peer_id" body with
      | error resp => rfl
      | ok q =>
        dsimp only
        rw [Function.update_apply]
        by_cases hq : peerId = q
        · simp [Except.toOption, hq]
        · simp [Except.toOption, hq, Ne.symm hq]
    | unban body =>
      unfold Bans.step asks
      dsimp only
      cases bodyField json "peer_id" body with
      | error resp => rfl
      | ok q =>
        dsimp only
        rw [Function.update_apply]
        by_cases hq : peerId = q
        · simp [Except.toOption, hq]
        · simp [Except.toOption, hq, Ne.symm hq]
  have hfold : ∀ reqs bans, (runAll (Bans.step json nodeId) reqs bans).1 =
      reqs.foldl (fun bans req => (Bans.step json nodeId req bans).1) bans := by
    intro reqs
    induction reqs with
    | nil => exact fun _ => rfl
    | cons req reqs ih => exact fun bans => ih _
  rw [hfold]
  exact @Fields.get_foldl (String → Bool) Bool BanRequest (fun bans => bans peerId)
    (fun bans req => (Bans.step json nodeId req bans).1) (asks json peerId) reqs
    (fun req _ bans => hstep req bans) bans

/-- In every run of requests the file is the set of the peers that are banned: each request is answered
from it, the last request for a peer decides, and entries without an id stay. -/
theorem bans_follow (hjson : json.Lawful) (reqs : List BanRequest) (file : ConfigFile) :
    (runAll (handleBans json nodeId) reqs file).2 =
        (runAll (Bans.step json nodeId) reqs (bannedIn json file)).2 ∧
      (∀ peerId, bannedIn json (runAll (handleBans json nodeId) reqs file).1 peerId =
        (reqs.filterMap (asks json peerId)).getLast?.getD (bannedIn json file peerId)) ∧
      under (json.textField "peer_id") none (entries json (runAll (handleBans json nodeId) reqs file).1) =
        under (json.textField "peer_id") none (entries json file) := by
  have hstep : ∀ req ∈ reqs, ∀ file bans, bannedIn json file = bans →
      bannedIn json (handleBans json nodeId req file).1 = (Bans.step json nodeId req bans).1 ∧
        (handleBans json nodeId req file).2 = (Bans.step json nodeId req bans).2 := by
    rintro req - file bans rfl
    exact handleBans_step nodeId hjson req file
  obtain ⟨hset, hanswers⟩ := runAll_simulates hstep (Eq.refl (bannedIn json file))
  refine ⟨hanswers, fun peerId => ?_, ?_⟩
  · rw [hset]
    exact bans_last nodeId reqs (bannedIn json file) peerId
  · have hview := view_runAll (fun _ : ConfigFile => True) (fun req file _ =>
      ⟨trivial, handleBans_entries nodeId hjson req file⟩) reqs (s := file) trivial
    rw [hview.2]
    refine under_foldl false fun call hcall => ?_
    obtain ⟨req, -, hreq⟩ := List.mem_filterMap.mp hcall
    cases req with
    | ban body =>
      obtain ⟨peerId, -, rfl⟩ := Option.map_eq_some_iff.mp hreq
      simp [tells, hjson.textField_textObject]
    | unban body =>
      obtain ⟨peerId, -, rfl⟩ := Option.map_eq_some_iff.mp hreq
      simp [tells]

end

/-- The body of a request for a peer. -/
def banBody (peerId : String) : String :=
  ((KeyStore.numberText id [(KeyStore.textCode "peer_id", KeyStore.textCode peerId)]).toOption).getD ""

/-- Banned twice and unbanned, with another peer banned in between. -/
def banRequests : List BanRequest :=
  [.ban (banBody "ab12"), .ban (banBody "ef56"), .ban (banBody "ab12"), .unban (banBody "ab12"), .ban ""]

theorem bans_follow_unbanned :
    (runAll (handleBans numberJson "cd34") banRequests .missing).2 =
        (runAll (Bans.step numberJson "cd34") banRequests (bannedIn numberJson .missing)).2 ∧
      (∀ peerId,
        bannedIn numberJson (runAll (handleBans numberJson "cd34") banRequests .missing).1 peerId =
          (banRequests.filterMap (asks numberJson peerId)).getLast?.getD
            (bannedIn numberJson .missing peerId)) ∧
      under (numberJson.textField "peer_id") none
          (entries numberJson (runAll (handleBans numberJson "cd34") banRequests .missing).1) =
        under (numberJson.textField "peer_id") none (entries numberJson .missing) :=
  bans_follow "cd34" numberJson_lawful banRequests .missing

/-! ## Search providers -/

inductive ProviderCall where
  | add (name endpoint : String)
  | remove (name : String)
  deriving DecidableEq, Repr

inductive ProviderAnswer where
  | added (result : Except String Unit)
  | removed (result : Except String Bool)

section
variable (toml : TomlCodec SearchProvidersToml)

def callProviders : ProviderCall → ConfigFile → ConfigFile × ProviderAnswer
  | .add name endpoint, file =>
    let ran := (addProvider toml name endpoint).run .written file
    (ran.1, .added ran.2)
  | .remove name, file =>
    let ran := (removeProvider toml name).run .written file
    (ran.1, .removed ran.2)

/-- The provider under each name, and the same calls on it. -/
def Providers.step : ProviderCall → (String → Option SearchProvider) →
    (String → Option SearchProvider) × ProviderAnswer
  | .add name endpoint, held =>
    if (held name).isSome then (held, .added (.error ("provider '" ++ name ++ "' already exists")))
    else (Function.update held name (some ⟨name, true, endpoint⟩), .added (.ok ()))
  | .remove name, held =>
    (Function.update held name none, .removed (.ok (held name).isSome))

def ProviderCall.call : ProviderCall → Call SearchProvider String
  | .add name endpoint => .add ⟨name, true, endpoint⟩
  | .remove name => .remove name

def providersIn (file : ConfigFile) : List SearchProvider := (parsedOr toml.fromStr ⟨[]⟩ file).providers

/-- There is no file, or one that parses. -/
def Parses {ν : Type} (toml : TomlCodec ν) (file : ConfigFile) : Prop :=
  file = .missing ∨ ∃ text v, file = .text text ∧ toml.fromStr text = .ok v

end

section
variable {toml : TomlCodec SearchProvidersToml}

theorem providersIn_text {text : String} {config : SearchProvidersToml}
    (h : toml.fromStr text = .ok config) : providersIn toml (.text text) = config.providers := by
  rw [providersIn, parsedOr, h]
  rfl

theorem without_eq_self_iff {α κ : Type} [DecidableEq κ] {key : α → κ} {k : κ} {roster : List α} :
    (without key k roster).length = roster.length ↔ has key k roster = false := by
  unfold without has
  rw [List.length_filter_eq_length_iff, List.any_eq_false]
  simp

theorem addProvider_step (htoml : toml.RoundTrips) (name endpoint : String) {file : ConfigFile}
    (hparses : Parses toml file) :
    Parses toml (callProviders toml (.add name endpoint) file).1 ∧
      providersIn toml (callProviders toml (.add name endpoint) file).1 =
        apply SearchProvider.name false (providersIn toml file) (.add ⟨name, true, endpoint⟩) ∧
      (callProviders toml (.add name endpoint) file).2 =
        if has SearchProvider.name name (providersIn toml file) then
          .added (.error ("provider '" ++ name ++ "' already exists"))
        else .added (.ok ()) := by
  have hreadable : ¬ ∃ e, file = .unreadable e := by
    rintro ⟨e, rfl⟩
    obtain h | ⟨text, v, h, -⟩ := hparses <;> cases h
  have hload : (addProvider toml name endpoint).load file =
      .ok (parsedOr toml.fromStr ⟨[]⟩ file) := loadOrFail_eq hreadable
  unfold callProviders apply
  dsimp only
  by_cases hin : has SearchProvider.name name (providersIn toml file) = true
  · have hread : (addProvider toml name endpoint).read file =
        .error (.error ("provider '" ++ name ++ "' already exists")) := by
      have hends : (addProvider toml name endpoint).ends (parsedOr toml.fromStr ⟨[]⟩ file) =
          some (.error ("provider '" ++ name ++ "' already exists")) := if_pos hin
      rw [Update.read, hload]
      dsimp only
      rw [hends]
    rw [Update.run_of_read_error hread, if_pos ⟨rfl, hin⟩, if_pos hin]
    exact ⟨hparses, rfl, rfl⟩
  · have hread : (addProvider toml name endpoint).read file =
        .ok (parsedOr toml.fromStr ⟨[]⟩ file) :=
      Update.read_eq_ok_iff.mpr ⟨hload, if_neg hin⟩
    obtain ⟨text, htext, hparse⟩ := htoml ⟨providersIn toml file ++ [⟨name, true, endpoint⟩]⟩
    have hserialize : (addProvider toml name endpoint).serialize
        ((addProvider toml name endpoint).change (parsedOr toml.fromStr ⟨[]⟩ file)) =
          .ok (.text text) := by
      unfold providersIn at htext
      unfold addProvider
      dsimp only
      rw [htext]
    rw [Update.run_of_read_ok hread, Update.write_written hserialize, if_neg (fun h => hin h.2),
      if_neg hin]
    exact ⟨.inr ⟨text, _, rfl, hparse⟩, providersIn_text hparse, rfl⟩

theorem removeProvider_step (htoml : toml.RoundTrips) (name : String) {file : ConfigFile}
    (hparses : Parses toml file) :
    Parses toml (callProviders toml (.remove name) file).1 ∧
      providersIn toml (callProviders toml (.remove name) file).1 =
        apply SearchProvider.name false (providersIn toml file) (.remove name) ∧
      (callProviders toml (.remove name) file).2 =
        .removed (.ok (has SearchProvider.name name (providersIn toml file))) := by
  unfold callProviders apply
  dsimp only
  obtain rfl | ⟨text, config, rfl, hparse⟩ := hparses
  · exact ⟨.inl rfl, rfl, rfl⟩
  · have hload : (removeProvider toml name).load (.text text) = .ok config := by
      unfold removeProvider
      dsimp only
      rw [hparse]
      rfl
    rw [providersIn_text hparse]
    by_cases hin : has SearchProvider.name name config.providers = true
    · have hread : (removeProvider toml name).read (.text text) = .ok config := by
        refine Update.read_eq_ok_iff.mpr ⟨hload, if_neg ?_⟩
        rw [without_eq_self_iff, hin]
        exact Bool.noConfusion
      obtain ⟨written, hwritten, hparse'⟩ :=
        htoml ⟨without SearchProvider.name name config.providers⟩
      have hserialize : (removeProvider toml name).serialize ((removeProvider toml name).change config) =
          .ok (.text written) := by
        unfold removeProvider
        dsimp only
        rw [hwritten]
      rw [Update.run_of_read_ok hread, Update.write_written hserialize, hin]
      exact ⟨.inr ⟨written, _, rfl, hparse'⟩, providersIn_text hparse', rfl⟩
    · have hout : has SearchProvider.name name config.providers = false := Bool.eq_false_iff.mpr hin
      have hsame := without_eq_self_iff.mpr hout
      have hread : (removeProvider toml name).read (.text text) = .error (.ok false) := by
        have hends : (removeProvider toml name).ends config = some (.ok false) := if_pos hsame
        rw [Update.read, hload]
        dsimp only
        rw [hends]
      rw [Update.run_of_read_error hread, hout]
      refine ⟨.inr ⟨text, config, rfl, hparse⟩, ?_, rfl⟩
      rw [providersIn_text hparse]
      exact (List.filter_sublist.eq_of_length hsame).symm

/-- The file is the table of the providers. -/
theorem callProviders_step (htoml : toml.RoundTrips) (call : ProviderCall) {file : ConfigFile}
    (hparses : Parses toml file) :
    Parses toml (callProviders toml call file).1 ∧
      providersIn toml (callProviders toml call file).1 =
        apply SearchProvider.name false (providersIn toml file) call.call ∧
      (callProviders toml call file).2 =
        (Providers.step call fun name =>
          first SearchProvider.name name (providersIn toml file)).2 := by
  cases call with
  | add name endpoint =>
    obtain ⟨hafter, hview, hanswer⟩ := addProvider_step htoml name endpoint hparses
    refine ⟨hafter, hview, hanswer.trans ?_⟩
    unfold Providers.step
    dsimp only
    rw [first_isSome]
    split <;> rfl
  | remove name =>
    obtain ⟨hafter, hview, hanswer⟩ := removeProvider_step htoml name hparses
    refine ⟨hafter, hview, hanswer.trans ?_⟩
    unfold Providers.step
    dsimp only
    rw [first_isSome]

/-- What a call does to the provider under a name. -/
theorem first_call (call : ProviderCall) (held : String → Option SearchProvider) (name : String) :
    hear SearchProvider.name name (held name) call.call = (Providers.step call held).1 name := by
  cases call with
  | add added endpoint =>
    unfold hear ProviderCall.call Providers.step
    dsimp only
    by_cases hname : added = name
    · subst hname
      cases hheld : held added <;> simp [hheld]
    · rw [if_neg hname]
      split
      · rfl
      · exact (Function.update_of_ne (Ne.symm hname) _ _).symm
  | remove removed =>
    unfold hear ProviderCall.call Providers.step
    dsimp only
    rw [Function.update_apply]
    by_cases hname : removed = name
    · simp [hname]
    · simp [hname, Ne.symm hname]

theorem loadProviders_eq (file : ConfigFile) :
    loadProviders toml file = (providersIn toml file).filter fun p => p.enabled := by
  cases file with
  | missing => rfl
  | unreadable e => rfl
  | text contents =>
    unfold loadProviders providersIn parsedOr
    dsimp only
    cases toml.fromStr contents <;> rfl

/-- The request of a keyword job to a provider. -/
def providerUrl (keyword : String) (p : SearchProvider) : String × String :=
  (p.name, p.endpoint ++ (if '?' ∈ p.endpoint.toList then "&" else "?") ++ "q=" ++
    String.ofList (keyword.toList.map fun c => if c = ' ' then '+' else c))

/-- In every run of calls on a file that parses and names no provider twice, each call is answered from
the table of the providers, and then a keyword is looked up once at each provider of that table that is
enabled, and at no other. -/
theorem providers_follow (htoml : toml.RoundTrips) (calls : List ProviderCall) {file : ConfigFile}
    (hparses : Parses toml file) (hnames : ((providersIn toml file).map SearchProvider.name).Nodup)
    (keyword : String) :
    let table := runAll Providers.step calls fun name =>
      first SearchProvider.name name (providersIn toml file)
    let after := runAll (callProviders toml) calls file
    let urls := Scraper.resolveKeywordToUrls (loadProviders toml after.1) keyword
    after.2 = table.2 ∧ (urls.map Prod.fst).Nodup ∧
      ∀ name, first Prod.fst name urls =
        ((table.1 name).filter fun p => p.enabled).map (providerUrl keyword) := by
  have hstep : ∀ call ∈ calls, ∀ file held,
      (Parses toml file ∧ ((providersIn toml file).map SearchProvider.name).Nodup ∧
        held = fun name => first SearchProvider.name name (providersIn toml file)) →
      (Parses toml (callProviders toml call file).1 ∧
        ((providersIn toml (callProviders toml call file).1).map SearchProvider.name).Nodup ∧
        (Providers.step call held).1 = fun name =>
          first SearchProvider.name name (providersIn toml (callProviders toml call file).1)) ∧
      (callProviders toml call file).2 = (Providers.step call held).2 := by
    rintro call - file held ⟨hparses, hnames, rfl⟩
    obtain ⟨hafter, hview, hanswer⟩ := callProviders_step htoml call hparses
    refine ⟨⟨hafter, ?_, ?_⟩, hanswer⟩
    · rw [hview]
      exact nodup_apply call.call hnames
    · funext name
      rw [hview, first_apply]
      exact (first_call call _ name).symm
  obtain ⟨⟨-, hdistinct, htable⟩, hanswers⟩ := runAll_simulates hstep ⟨hparses, hnames, rfl⟩
  dsimp only
  generalize (runAll (callProviders toml) calls file).1 = after at hdistinct htable ⊢
  have hurls : Scraper.resolveKeywordToUrls (loadProviders toml after) keyword =
      ((providersIn toml after).filter fun p => p.enabled).map (providerUrl keyword) := by
    rw [loadProviders_eq, Scraper.resolveKeywordToUrls, List.filter_filter]
    simp only [Bool.and_self]
    rfl
  refine ⟨hanswers, ?_, fun name => ?_⟩
  · rw [hurls, List.map_map]
    exact hdistinct.sublist (List.filter_sublist.map SearchProvider.name)
  · have hkey : ∀ p, (providerUrl keyword p).1 = p.name := fun _ => rfl
    rw [hurls, first_map hkey, first_filter hdistinct, htable]

end

/-- A name that is taken, and given free. -/
def providerCalls : List ProviderCall :=
  [.add "wiki" "https://a/s", .add "wiki" "https://b/s?lang=en", .remove "wiki",
    .add "wiki" "https://b/s?lang=en", .remove "none"]

theorem providers_follow_replaced :
    let table := runAll Providers.step providerCalls fun name =>
      first SearchProvider.name name (providersIn numberProviders .missing)
    let after := runAll (callProviders numberProviders) providerCalls .missing
    let urls := Scraper.resolveKeywordToUrls (loadProviders numberProviders after.1) "rust lang"
    after.2 = table.2 ∧ (urls.map Prod.fst).Nodup ∧
      ∀ name, first Prod.fst name urls =
        ((table.1 name).filter fun p => p.enabled).map (providerUrl "rust lang") :=
  providers_follow numberProviders_roundTrips providerCalls (.inl rfl) List.nodup_nil "rust lang"

/-! ## Bootstrap peers -/

inductive BootstrapCall where
  | add (id addr note : String)
  | remove (id : String)
  deriving DecidableEq, Repr

def BootstrapCall.call : BootstrapCall → Call BootstrapPeer String
  | .add id addr note => .add ⟨id, addr, note⟩
  | .remove id => .remove id

section
variable (toml : TomlCodec BootstrapToml)

/-- The answer to an addition is `true` where it is answered with success. -/
def callBootstrap : BootstrapCall → ConfigFile → ConfigFile × Except String Bool
  | .add id addr note, file =>
    let ran := (writeBootstrapPeer toml id addr note).run .written file
    (ran.1, ran.2.map fun _ => true)
  | .remove id, file => (removeBootstrapPeer toml id).run .written file

def bootstrapIn (file : ConfigFile) : BootstrapToml := parsedOr toml.fromStr ⟨true, []⟩ file

end

section
variable {toml : TomlCodec BootstrapToml}

theorem bootstrapIn_text {text : String} {config : BootstrapToml}
    (h : toml.fromStr text = .ok config) : bootstrapIn toml (.text text) = config := by
  rw [bootstrapIn, parsedOr, h]
  rfl

theorem text_readable (text : String) : ¬ ∃ e, KeyFile.text text = .unreadable e := by
  rintro ⟨e, he⟩
  cases he

theorem callBootstrap_step (htoml : toml.RoundTrips) (call : BootstrapCall) {file : ConfigFile}
    (hreadable : ¬ ∃ e, file = .unreadable e) :
    (¬ ∃ e, (callBootstrap toml call file).1 = .unreadable e) ∧
      bootstrapIn toml (callBootstrap toml call file).1 =
        { bootstrapIn toml file with
          peers := apply BootstrapPeer.id true (bootstrapIn toml file).peers call.call } := by
  cases call with
  | add id addr note =>
    have hread : (writeBootstrapPeer toml id addr note).read file = .ok (bootstrapIn toml file) :=
      Update.read_eq_ok_iff.mpr ⟨loadOrFail_eq hreadable, rfl⟩
    obtain ⟨text, htext, hparse⟩ := htoml
      { bootstrapIn toml file with peers := (bootstrapIn toml file).peers ++ [⟨id, addr, note⟩] }
    have hserialize : (writeBootstrapPeer toml id addr note).serialize
        ((writeBootstrapPeer toml id addr note).change (bootstrapIn toml file)) = .ok (.text text) := by
      unfold writeBootstrapPeer
      dsimp only
      rw [htext]
      rfl
    unfold callBootstrap
    dsimp only
    rw [Update.run_of_read_ok hread, Update.write_written hserialize]
    refine ⟨text_readable text, ?_⟩
    rw [bootstrapIn_text hparse]
    unfold apply BootstrapCall.call
    simp
  | remove id =>
    unfold callBootstrap
    dsimp only
    cases file with
    | unreadable e => exact absurd ⟨e, rfl⟩ hreadable
    | missing => exact ⟨hreadable, rfl⟩
    | text contents =>
      have hload : (removeBootstrapPeer toml id).load (.text contents) =
          .ok (bootstrapIn toml (.text contents)) := rfl
      by_cases hsame : (without BootstrapPeer.id id (bootstrapIn toml (.text contents)).peers).length =
          (bootstrapIn toml (.text contents)).peers.length
      · have hends : (removeBootstrapPeer toml id).ends (bootstrapIn toml (.text contents)) =
            some (.ok false) := if_pos hsame
        have hread : (removeBootstrapPeer toml id).read (.text contents) = .error (.ok false) := by
          rw [Update.read, hload]
          dsimp only
          rw [hends]
        rw [Update.run_of_read_error hread]
        refine ⟨hreadable, ?_⟩
        have hall := List.filter_sublist.eq_of_length hsame
        unfold apply BootstrapCall.call
        dsimp only
        rw [show without BootstrapPeer.id id (bootstrapIn toml (.text contents)).peers =
          (bootstrapIn toml (.text contents)).peers from hall]
      · have hread : (removeBootstrapPeer toml id).read (.text contents) =
            .ok (bootstrapIn toml (.text contents)) :=
          Update.read_eq_ok_iff.mpr ⟨hload, if_neg hsame⟩
        obtain ⟨text, htext, hparse⟩ := htoml
          { bootstrapIn toml (.text contents) with
            peers := without BootstrapPeer.id id (bootstrapIn toml (.text contents)).peers }
        have hserialize : (removeBootstrapPeer toml id).serialize
            ((removeBootstrapPeer toml id).change (bootstrapIn toml (.text contents))) =
              .ok (.text text) := by
          unfold removeBootstrapPeer
          dsimp only
          rw [htext]
          rfl
        rw [Update.run_of_read_ok hread, Update.write_written hserialize]
        exact ⟨text_readable text, bootstrapIn_text hparse⟩

/-- The peers that a run of calls leaves, and whether the defaults are used. -/
theorem bootstrapIn_runAll (htoml : toml.RoundTrips) (calls : List BootstrapCall) {file : ConfigFile}
    (hreadable : ¬ ∃ e, file = .unreadable e) :
    (¬ ∃ e, (runAll (callBootstrap toml) calls file).1 = .unreadable e) ∧
      bootstrapIn toml (runAll (callBootstrap toml) calls file).1 =
        ⟨(bootstrapIn toml file).useDefaults,
          (calls.map BootstrapCall.call).foldl (apply BootstrapPeer.id true)
            (bootstrapIn toml file).peers⟩ := by
  induction calls generalizing file with
  | nil => exact ⟨hreadable, rfl⟩
  | cons call calls ih =>
    obtain ⟨hafter, hconfig⟩ := callBootstrap_step htoml call hreadable
    obtain ⟨hend, hlast⟩ := ih hafter
    refine ⟨hend, ?_⟩
    rw [runAll_cons, hlast, hconfig]
    rfl

end

end DSearch.ConfigFiles
