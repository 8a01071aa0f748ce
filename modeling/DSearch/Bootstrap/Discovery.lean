import DSearch.Bootstrap.Answers
import DSearch.Config.ListFiles
import DSearch.Node.Handshake

/-! # How a node finds its first peers

`resolve_bootstrap_peers`, `resolve_dns_srv`, `query_dns_srv` and `build_dns_query` of
`bootstrap/resolver.rs`, `default_bootstrap_peers` of `bootstrap/defaults.rs`, and the loop of `cmd_node`
in `main.rs` that connects to them. Sockets and `SocketAddr::from_str` are parameters. -/

namespace DSearch
set_option autoImplicit false
open Datagrams Rosters Runs Transaction

def defaultBootstrapPeers : List BootstrapPeer := [
  ⟨"dsearch_bootstrap_us_east_1", "bootstrap-us-east.dsearch.network:7744",
    "official bootstrap US-East"⟩,
  ⟨"dsearch_bootstrap_eu_west_1", "bootstrap-eu-west.dsearch.network:7744",
    "official bootstrap EU-West"⟩,
  ⟨"dsearch_bootstrap_ap_east_1", "bootstrap-ap-east.dsearch.network:7744",
    "official bootstrap AP-East"⟩]

namespace Resolver

def buildDnsQuery (name : String) : List UInt8 :=
  [0x12, 0x34] ++ [0x01, 0x00] ++ [0x00, 0x01] ++ [0x00, 0x00] ++ [0x00, 0x00] ++ [0x00, 0x00] ++
    ((name.toList.splitOn '.').flatMap fun label =>
      UInt8.ofNat (asBytes (String.ofList label)).length :: asBytes (String.ofList label)) ++
    [0x00] ++ [0x00, 0x21] ++ [0x00, 0x01]

/-- What the calls on a UDP socket give: errors, and the datagram that comes back for a query. -/
structure DnsSocket where
  bind : Except String Unit
  setReadTimeout : Except String Unit
  sendTo : List UInt8 → Except String Unit
  recv : List UInt8 → Except String (List UInt8)

/-- `map_err` with a text before the error. -/
def orFail {α : Type} (what : String) (result : Except String α) : Run α :=
  result.mapError fun e => .err (what ++ ": " ++ e)

/-- The buffer has 4096 bytes, and `recv` drops what does not fit. -/
def queryDnsSrv (turns : ℕ) (name : String) (socket : DnsSocket) : Run (List BootstrapPeer) := do
  orFail "bind" socket.bind
  orFail "set timeout" socket.setReadTimeout
  let query := buildDnsQuery name
  orFail "send" (socket.sendTo query)
  let datagram ← orFail "recv" (socket.recv query)
  let response := datagram.take 4096
  if response.length < 12 then .error (.err "DNS response too short")
  else parseDnsSrvResponse turns response

def dnsServers : List String := ["8.8.8.8:53", "1.1.1.1:53", "9.9.9.9:53"]

/-- The first server that answers without an error is believed. -/
def firstAnswer (query : String → Run (List BootstrapPeer)) : List String → Run (List BootstrapPeer)
  | [] => return []
  | server :: servers =>
    match query server with
    | .ok records => return records
    | .error (.err _) => firstAnswer query servers
    | .error stop => .error stop

def resolveDnsSrv (turns : ℕ) (sockets : String → DnsSocket) (srvName : String) :
    Run (List BootstrapPeer) :=
  firstAnswer (fun server => queryDnsSrv turns srvName (sockets server)) dnsServers

def srvName : String := "_dsearch._udp.dsearch.network"

def resolveBootstrapPeers (turns : ℕ) (sockets : String → DnsSocket) (toml : TomlCodec BootstrapToml)
    (file : ConfigFile) : Run (List BootstrapPeer) :=
  let andFurther (peers : List BootstrapPeer) : Run (List BootstrapPeer) := do
    let srvPeers ← resolveDnsSrv turns sockets srvName
    return merge BootstrapPeer.id (merge BootstrapPeer.id peers srvPeers) defaultBootstrapPeers
  match file with
  | .text contents =>
    match toml.fromStr contents with
    | .ok config => if ¬ config.useDefaults then return config.peers else andFurther config.peers
    | .error _ => andFurther []
  | _ => andFurther []

theorem resolveBootstrapPeers_eq (turns : ℕ) (sockets : String → DnsSocket)
    (toml : TomlCodec BootstrapToml) (file : ConfigFile) :
    resolveBootstrapPeers turns sockets toml file =
      if (ConfigFiles.bootstrapIn toml file).useDefaults then
        (resolveDnsSrv turns sockets srvName).map fun srvPeers =>
          merge BootstrapPeer.id (merge BootstrapPeer.id (ConfigFiles.bootstrapIn toml file).peers srvPeers)
            defaultBootstrapPeers
      else .ok (ConfigFiles.bootstrapIn toml file).peers := by
  unfold resolveBootstrapPeers ConfigFiles.bootstrapIn ConfigFiles.parsedOr
  have hmap : ∀ peers : List BootstrapPeer,
      (do
        let srvPeers ← resolveDnsSrv turns sockets srvName
        return merge BootstrapPeer.id (merge BootstrapPeer.id peers srvPeers) defaultBootstrapPeers) =
      (resolveDnsSrv turns sockets srvName).map fun srvPeers =>
        merge BootstrapPeer.id (merge BootstrapPeer.id peers srvPeers) defaultBootstrapPeers := by
    intro peers
    cases resolveDnsSrv turns sockets srvName <;> rfl
  cases file with
  | missing => exact hmap []
  | unreadable e => exact hmap []
  | text contents =>
    cases hparse : toml.fromStr contents with
    | error e =>
      simp only [hparse]
      exact hmap []
    | ok config =>
      simp only [hparse]
      cases huse : config.useDefaults with
      | false => simp [Except.toOption, huse, pure, Except.pure]
      | true =>
        simp only [Except.toOption, Option.getD_some, huse, not_true_eq_false, if_false, if_true]
        exact hmap config.peers

/-! ## The query -/

/-- A message that asks for a name's SRV records. -/
def question (labels : List Label) : Response where
  id := 0x1234
  flags := 0x0100
  questions := [⟨⟨labels, none⟩, 33, 1⟩]
  answers := []
  nscount := 0
  arcount := 0
  more := []
  fewQuestions := by simp
  fewAnswers := by simp

theorem label_bytes (label : Label) : asBytes (String.ofList label.chars) = label.bytes := by
  have hascii : ∀ n < 128, String.utf8EncodeChar (Char.ofNat n) = [UInt8.ofNat n] := by decide
  rw [asBytes_eq, String.toList_ofList, Label.chars, List.flatMap_map]
  have hbytes : ∀ bytes : List UInt8, (∀ b ∈ bytes, b.toNat < 0x80) →
      (bytes.flatMap fun b => String.utf8EncodeChar (Char.ofNat b.toNat)) = bytes := by
    intro bytes hall
    induction bytes with
    | nil => rfl
    | cons b bytes ih =>
      rw [List.flatMap_cons, hascii b.toNat (hall b List.mem_cons_self),
        ih fun c hc => hall c (List.mem_cons_of_mem b hc), UInt8.ofNat_toNat]
      rfl
  exact hbytes label.bytes label.ascii

theorem splitOn_dotted {labels : List Label} (hne : labels ≠ [])
    (hdots : ∀ label ∈ labels, 46 ∉ label.bytes) :
    (dotted labels).splitOn '.' = labels.map Label.chars := by
  have hchars : ∀ chars ∈ labels.map Label.chars, '.' ∉ chars := by
    intro chars hchars hdot
    obtain ⟨label, hlabel, rfl⟩ := List.mem_map.mp hchars
    obtain ⟨b, hb, hchar⟩ := List.mem_map.mp hdot
    have hascii := label.ascii b hb
    have hall : ∀ n < 128, Char.ofNat n = '.' → n = 46 := by decide
    have hbyte : b = 46 := UInt8.toNat.inj (hall b.toNat hascii hchar)
    exact hdots label hlabel (hbyte ▸ hb)
  exact List.splitOn_intercalate '.' hchars (by simpa using hne)

/-- The query for a name is the question for its labels. -/
theorem buildDnsQuery_dotted {labels : List Label} (hne : labels ≠ [])
    (hdots : ∀ label ∈ labels, 46 ∉ label.bytes) :
    buildDnsQuery (String.ofList (dotted labels)) = (question labels).encode := by
  have hlabels : ((labels.map Label.chars).flatMap fun label =>
      UInt8.ofNat (asBytes (String.ofList label)).length :: asBytes (String.ofList label)) =
        encodeLabels labels := by
    rw [List.flatMap_map, encodeLabels]
    refine List.flatMap_congr fun label _ => ?_
    rw [label_bytes]
    rfl
  unfold buildDnsQuery
  rw [String.toList_ofList, splitOn_dotted hne hdots, hlabels]
  simp [question, Response.encode, Response.head, Question.encode, Name.encode, Name.ending, be16]

/-! ## Servers -/

/-- One of the calls on the socket fails, or too little comes back. -/
def DnsSocket.Fails (socket : DnsSocket) (query : List UInt8) : Prop :=
  (∃ e, socket.bind = .error e) ∨ (∃ e, socket.setReadTimeout = .error e) ∨
    (∃ e, socket.sendTo query = .error e) ∨ (∃ e, socket.recv query = .error e) ∨
    ∃ datagram, socket.recv query = .ok datagram ∧ datagram.length < 12

/-- The server answers a query with a response that fits the buffer. -/
structure DnsSocket.Sends (socket : DnsSocket) (query : List UInt8) (response : Response) : Prop where
  bind : socket.bind = .ok ()
  setReadTimeout : socket.setReadTimeout = .ok ()
  sendTo : socket.sendTo query = .ok ()
  recv : socket.recv query = .ok response.encode
  points : response.Points
  fits : response.encode.length ≤ 4096

/-- What the servers say, of which the first ones fail. -/
inductive Answered (sockets : String → DnsSocket) (query : List UInt8) :
    List String → List BootstrapPeer → Prop
  | silent : Answered sockets query [] []
  | next {server : String} {servers : List String} {srvPeers : List BootstrapPeer}
      (hfails : (sockets server).Fails query) (hrest : Answered sockets query servers srvPeers) :
      Answered sockets query (server :: servers) srvPeers
  | first {server : String} (servers : List String) {response : Response}
      (hsends : (sockets server).Sends query response) :
      Answered sockets query (server :: servers) (response.answers.filterMap Answer.peer)

/-- As many turns as the buffer has bytes, and 23 more. -/
def enoughTurns : ℕ := 4096 + 23

theorem queryDnsSrv_of_fails {name : String} {socket : DnsSocket} (turns : ℕ)
    (h : socket.Fails (buildDnsQuery name)) : ∃ e, queryDnsSrv turns name socket = .error (.err e) := by
  unfold queryDnsSrv orFail
  dsimp only
  cases hbind : socket.bind with
  | error e => exact ⟨_, rfl⟩
  | ok _ =>
    cases htimeout : socket.setReadTimeout with
    | error e => exact ⟨_, rfl⟩
    | ok _ =>
      cases hsend : socket.sendTo (buildDnsQuery name) with
      | error e => exact ⟨_, rfl⟩
      | ok _ =>
        cases hrecv : socket.recv (buildDnsQuery name) with
        | error e => exact ⟨_, rfl⟩
        | ok datagram =>
          have hshort : (datagram.take 4096).length < 12 := by
            obtain ⟨e, h⟩ | ⟨e, h⟩ | ⟨e, h⟩ | ⟨e, h⟩ | ⟨d, h, hd⟩ := h
            · simp [h] at hbind
            · simp [h] at htimeout
            · simp [h] at hsend
            · simp [h] at hrecv
            · rw [hrecv] at h
              obtain rfl := Except.ok.inj h
              rw [List.length_take]
              omega
          refine ⟨"DNS response too short", ?_⟩
          show (if (datagram.take 4096).length < 12 then _ else _ : Run _) = _
          rw [if_pos hshort]

theorem queryDnsSrv_of_sends {name : String} {socket : DnsSocket} {response : Response}
    (h : socket.Sends (buildDnsQuery name) response) :
    queryDnsSrv enoughTurns name socket = .ok (response.answers.filterMap Answer.peer) := by
  have hlong : ¬ response.encode.length < 12 := by
    simp only [Response.encode, Response.head, List.length_append, be16, List.length_cons,
      List.length_nil]
    omega
  have hturns : response.encode.length + 23 ≤ enoughTurns := by
    have hfits := h.fits
    unfold enoughTurns
    omega
  unfold queryDnsSrv orFail
  dsimp only
  rw [h.bind, h.setReadTimeout, h.sendTo, h.recv]
  show (if (response.encode.take 4096).length < 12 then
      (.error (.err "DNS response too short") : Run (List BootstrapPeer))
    else parseDnsSrvResponse enoughTurns (response.encode.take 4096)) = _
  rw [List.take_of_length_le h.fits, if_neg hlong]
  exact parseDnsSrvResponse_encode response h.points hturns

theorem firstAnswer_of_answered {name : String} {sockets : String → DnsSocket} {servers : List String}
    {srvPeers : List BootstrapPeer} (h : Answered sockets (buildDnsQuery name) servers srvPeers) :
    firstAnswer (fun server => queryDnsSrv enoughTurns name (sockets server)) servers =
      .ok srvPeers := by
  induction h with
  | silent => rfl
  | next hfails hrest ih =>
    obtain ⟨e, he⟩ := queryDnsSrv_of_fails enoughTurns hfails
    rw [firstAnswer, he]
    exact ih
  | first servers hsends =>
    rw [firstAnswer, queryDnsSrv_of_sends hsends]
    rfl

/-! ## The peers of a node -/

variable {toml : TomlCodec BootstrapToml}

/-- After every run of calls on a `bootstrap.toml` that can be read, with name servers of which the first
ones fail, the peer of an id is the one first added since its last removal; else, where the defaults are
used, the first of the SRV records that the first server to answer has sent, which was asked for just
them; else the default. No id is there twice unless the file has it twice. -/
theorem resolveBootstrapPeers_first (htoml : toml.RoundTrips) (calls : List ConfigFiles.BootstrapCall)
    {file : ConfigFile} (hreadable : ¬ ∃ e, file = .unreadable e) {sockets : String → DnsSocket}
    {srvPeers : List BootstrapPeer}
    (hdns : Answered sockets (buildDnsQuery srvName) dnsServers srvPeers) :
    let config := ConfigFiles.bootstrapIn toml file
    let left := (runAll (ConfigFiles.callBootstrap toml) calls file).1
    ∃ peers, resolveBootstrapPeers enoughTurns sockets toml left = .ok peers ∧
      (∀ id, first BootstrapPeer.id id peers =
        ((calls.map ConfigFiles.BootstrapCall.call).foldl (hear BootstrapPeer.id id)
          (first BootstrapPeer.id id config.peers)).or
          (if config.useDefaults then
            (first BootstrapPeer.id id srvPeers).or (first BootstrapPeer.id id defaultBootstrapPeers)
          else none)) ∧
      ((((ConfigFiles.bootstrapIn toml left).peers).map BootstrapPeer.id).Nodup →
        (peers.map BootstrapPeer.id).Nodup) := by
  intro config left
  obtain ⟨-, hleft⟩ := ConfigFiles.bootstrapIn_runAll htoml calls hreadable
  have hpeers : (ConfigFiles.bootstrapIn toml left).peers =
      (calls.map ConfigFiles.BootstrapCall.call).foldl (apply BootstrapPeer.id true) config.peers := by
    rw [show ConfigFiles.bootstrapIn toml left = _ from hleft]
  have hdefaults : (ConfigFiles.bootstrapIn toml left).useDefaults = config.useDefaults := by
    rw [show ConfigFiles.bootstrapIn toml left = _ from hleft]
  have hsrv : resolveDnsSrv enoughTurns sockets srvName = .ok srvPeers := firstAnswer_of_answered hdns
  rw [resolveBootstrapPeers_eq, hdefaults, hsrv]
  cases huse : config.useDefaults with
  | false =>
    refine ⟨_, if_neg Bool.false_ne_true, fun id => ?_, fun h => h⟩
    rw [hpeers, first_foldl, if_neg Bool.false_ne_true, Option.or_none]
  | true =>
    refine ⟨_, if_pos rfl, fun id => ?_, fun h => nodup_merge (nodup_merge h)⟩
    rw [first_merge, first_merge, hpeers, first_foldl, if_pos rfl, Option.or_assoc]

/-- The first server is silent, the second one sends the records of `mixed`. -/
def mixedSockets (server : String) : DnsSocket where
  bind := .ok ()
  setReadTimeout := .ok ()
  sendTo _ := .ok ()
  recv _ := if server = "8.8.8.8:53" then .error "timed out" else .ok mixed.encode

theorem mixed_answered : Answered mixedSockets (buildDnsQuery srvName) dnsServers
    (mixed.answers.filterMap Answer.peer) := by
  have hsilent : (mixedSockets "8.8.8.8:53").recv (buildDnsQuery srvName) = .error "timed out" := by
    simp [mixedSockets]
  have hsends : (mixedSockets "1.1.1.1:53").recv (buildDnsQuery srvName) = .ok mixed.encode := by
    simp [mixedSockets]
  exact .next (.inr (.inr (.inr (.inl ⟨"timed out", hsilent⟩))))
    (.first _ ⟨rfl, rfl, rfl, hsends, mixed_points, by decide⟩)

/-- A peer that is removed, one that takes the id of an SRV record, and one that stays. -/
def bootstrapCalls : List ConfigFiles.BootstrapCall :=
  [.add "a" "[2001:db8::7]:9000" "", .add "srv:b.x:443" "5.6.7.8:443" "", .remove "a",
    .add "c" "9.9.9.9:7744" ""]

theorem resolveBootstrapPeers_first_mixed :
    let config := ConfigFiles.bootstrapIn ConfigFiles.numberBootstrap .missing
    let left := (runAll (ConfigFiles.callBootstrap ConfigFiles.numberBootstrap) bootstrapCalls .missing).1
    ∃ peers, resolveBootstrapPeers enoughTurns mixedSockets ConfigFiles.numberBootstrap left =
        .ok peers ∧
      (∀ id, first BootstrapPeer.id id peers =
        ((bootstrapCalls.map ConfigFiles.BootstrapCall.call).foldl (hear BootstrapPeer.id id)
          (first BootstrapPeer.id id config.peers)).or
          (if config.useDefaults then
            (first BootstrapPeer.id id (mixed.answers.filterMap Answer.peer)).or
              (first BootstrapPeer.id id defaultBootstrapPeers)
          else none)) ∧
      ((((ConfigFiles.bootstrapIn ConfigFiles.numberBootstrap left).peers).map BootstrapPeer.id).Nodup →
        (peers.map BootstrapPeer.id).Nodup) :=
  resolveBootstrapPeers_first ConfigFiles.numberBootstrap_roundTrips bootstrapCalls
    (fun ⟨_, h⟩ => nomatch h) mixed_answered

end Resolver

/-! ## Who is dialed -/

/-- What `cmd_node` finds when it connects to the peers: how an address parses, how a connection ends,
and which levels of the log are on. -/
structure Dialing (σ : Type) where
  parse : String → Except String σ
  connect : σ → Except String Unit
  info : Bool
  warn : Bool

namespace Dialing
variable {σ : Type} (env : Dialing σ)

/-- Whether the line after a connection is logged. -/
def logsAfter (addr : σ) : Bool :=
  match env.connect addr with
  | .ok _ => env.info
  | .error _ => env.warn

/-- The loop over the peers: whom it has connected to or tried to, and how it ends. -/
def connectAll (nodeId : String) : List BootstrapPeer → List (BootstrapPeer × σ) × Outcome Unit
  | [] => ([], .ok ())
  | peer :: peers =>
    if peer.id = nodeId then connectAll nodeId peers
    else
      match env.parse peer.addr with
      | .error _ => connectAll nodeId peers
      | .ok addr =>
        if LogPanics env.info peer.id then ([], .panic)
        else if LogPanics (env.logsAfter addr) peer.id then ([(peer, addr)], .panic)
        else
          let rest := connectAll nodeId peers
          ((peer, addr) :: rest.1, rest.2)

/-- Those of the peers that can be dialed. -/
def dialable (nodeId : String) (peers : List BootstrapPeer) : List (BootstrapPeer × σ) :=
  peers.filterMap fun peer =>
    if peer.id = nodeId then none
    else (env.parse peer.addr).toOption.map fun addr => (peer, addr)

/-- The loop goes through them in order, and stops early only where a line of the log panics. -/
theorem connectAll_prefix (nodeId : String) (peers : List BootstrapPeer) :
    (env.connectAll nodeId peers).1 <+: env.dialable nodeId peers ∧
      ((env.connectAll nodeId peers).2 = .ok () →
        (env.connectAll nodeId peers).1 = env.dialable nodeId peers) := by
  induction peers with
  | nil => exact ⟨List.prefix_refl _, fun _ => rfl⟩
  | cons peer peers ih =>
    unfold connectAll dialable
    rw [List.filterMap_cons]
    by_cases hself : peer.id = nodeId
    · rw [if_pos hself, if_pos hself]
      exact ih
    · rw [if_neg hself, if_neg hself]
      cases hparse : env.parse peer.addr with
      | error e => exact ih
      | ok addr =>
        dsimp only [Except.toOption, Option.map_some]
        split
        · exact ⟨List.nil_prefix, fun h => nomatch h⟩
        · split
          · refine ⟨?_, fun h => nomatch h⟩
            exact List.prefix_append [(peer, addr)] _
          · refine ⟨List.cons_prefix_cons.mpr ⟨rfl, ih.1⟩, fun h => ?_⟩
            exact congrArg ((peer, addr) :: ·) (ih.2 h)

variable {env}

theorem mem_dialable {nodeId : String} {peers : List BootstrapPeer} {peer : BootstrapPeer} {addr : σ} :
    (peer, addr) ∈ env.dialable nodeId peers ↔
      peer ∈ peers ∧ peer.id ≠ nodeId ∧ env.parse peer.addr = .ok addr := by
  unfold dialable
  rw [List.mem_filterMap]
  constructor
  · rintro ⟨p, hp, hdial⟩
    split at hdial
    · cases hdial
    · next hself =>
      obtain ⟨a, ha, hpair⟩ := Option.map_eq_some_iff.mp hdial
      obtain ⟨rfl, rfl⟩ := Prod.mk.inj hpair
      refine ⟨hp, hself, ?_⟩
      cases hparse : env.parse p.addr with
      | error e => simp [hparse, Except.toOption] at ha
      | ok b => simpa [hparse, Except.toOption] using ha
  · rintro ⟨hp, hself, hparse⟩
    refine ⟨peer, hp, ?_⟩
    rw [if_neg hself, hparse]
    rfl

/-- An address of a socket is in brackets, or made of digits, dots and colons. -/
def ParsesSockets (env : Dialing σ) : Prop :=
  ∀ text addr, env.parse text = .ok addr →
    text.toList.head? = some '[' ∨ ∀ c ∈ text.toList, c.isDigit = true ∨ c = '.' ∨ c = ':'

theorem default_not_dialable (hparse : env.ParsesSockets) {peer : BootstrapPeer}
    (hdefault : peer ∈ defaultBootstrapPeers) (addr : σ) : env.parse peer.addr ≠ .ok addr := by
  intro hok
  have hname : ∀ {cs : List Char}, cs.head? = some 'b' →
      (String.ofList cs).toList.head? = some 'b' := by
    intro cs hcs
    rwa [String.toList_ofList]
  have hall : ∀ p ∈ defaultBootstrapPeers, p.addr.toList.head? = some 'b' := by
    simp only [defaultBootstrapPeers, List.forall_mem_cons]
    exact ⟨hname rfl, hname rfl, hname rfl, List.forall_mem_nil _⟩
  have hhead := hall peer hdefault
  obtain hbracket | hchars := hparse peer.addr addr hok
  · rw [hhead] at hbracket
    exact absurd hbracket (by decide)
  · exact absurd (hchars 'b' (List.mem_of_head? hhead)) (by decide)

def oneAddress : Dialing String where
  parse text := if text = "[2001:db8::7]:9000" then .ok text else .error "invalid socket address syntax"
  connect _ := .ok ()
  info := true
  warn := true

def onePeerToml : TomlCodec BootstrapToml where
  fromStr _ := .ok ⟨true, [⟨"ab12cd34", "[2001:db8::7]:9000", ""⟩]⟩
  toStringPretty _ := .ok ""

def onePeerResolved : List BootstrapPeer :=
  merge BootstrapPeer.id
    (merge BootstrapPeer.id [⟨"ab12cd34", "[2001:db8::7]:9000", ""⟩]
      (Resolver.mixed.answers.filterMap Resolver.Answer.peer))
    defaultBootstrapPeers

theorem onePeer_resolved :
    Resolver.resolveBootstrapPeers Resolver.enoughTurns Resolver.mixedSockets onePeerToml (.text "") =
      .ok onePeerResolved := by
  have hsrv : Resolver.resolveDnsSrv Resolver.enoughTurns Resolver.mixedSockets Resolver.srvName =
      .ok (Resolver.mixed.answers.filterMap Resolver.Answer.peer) :=
    Resolver.firstAnswer_of_answered Resolver.mixed_answered
  rw [Resolver.resolveBootstrapPeers_eq, hsrv]
  rfl

theorem oneAddress_parses : oneAddress.ParsesSockets := by
  intro text addr hparse
  unfold oneAddress at hparse
  dsimp only at hparse
  split at hparse
  · next htext =>
    subst htext
    exact .inl (by decide +kernel)
  · cases hparse

end Dialing

end DSearch
