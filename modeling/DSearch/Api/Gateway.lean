import DSearch.Api.Content
import DSearch.Api.GatewayKeys
import DSearch.Storage.Capacity

/-! # The gateway: `api/gateway.rs`

One connection: a single read of at most 65536 bytes, and at most one response. The state is the
counts of the limiter and the node's store; a failed read or write of the socket is not modelled. -/

namespace DSearch
set_option autoImplicit false
open Transaction

structure GatewayContext where
  nodeId : String
  rateLimit : ℕ
  requireKey : Bool

/-- What a connection finds: the clocks, the key file, and its peer's address. -/
structure GatewayEnv where
  nodeEnv : NodeEnv
  now : ℕ
  keyFile : KeyFile
  peerIp : String

structure GatewayState where
  limits : Table RateLimitEntry
  node : NodeState

namespace Gateway

def nodePart : Part GatewayState NodeState where
  get s := s.node
  put node s := { s with node := node }
  get_put _ _ := rfl
  put_put _ _ _ := rfl
  put_get _ := rfl

def extractApiKey (req : HttpRequest) : Option String :=
  let bearer := req.headers["authorization"]?.bind fun auth =>
    RustText.stripPrefix "Bearer ".toList auth.toList
  match bearer with
  | some key => some (String.ofList (Sign.trim key))
  | none => req.query["api_key"]?

def tooManyRequests : HttpResponse :=
  .new 429 "Too Many Requests" (asBytes "\x7b\"error\":\"rate limit exceeded\",\"code\":429\x7d")

def keyRequired : HttpResponse :=
  .new 401 "Unauthorized" (asBytes "\x7b\"error\":\"API key required\",\"code\":401\x7d")

def invalidKey : HttpResponse :=
  .new 401 "Unauthorized" (asBytes "\x7b\"error\":\"invalid API key\",\"code\":401\x7d")

section
variable (codec : KeyCodec) (ctx : GatewayContext) (env : GatewayEnv)

def gatewayRoute (req : HttpRequest) : Client NodeState HttpResponse :=
  if req.path = "/health" then .done (Content.health ctx.nodeId)
  else if req.path = "/search" then Content.search env.nodeEnv ctx.nodeId req
  else if req.path = "/records" then Content.list ctx.nodeId req
  else
    match Content.idAfter "/record/" req.path with
    | some id => Content.getRecord ctx.nodeId id
    | none =>
      if req.path = "/node" then
        .read fun s => .done (Content.jsonReply ctx.nodeId [
          ("node_id", JsonText.ofString ctx.nodeId),
          ("records", JsonText.ofNat (Records.recordCount s.db))])
      else .done (.notFound "unknown route")

/-- The request in the bytes that were received. -/
def request (received : Bytes) : Except String HttpRequest :=
  Request.parseHttpRequest env.nodeEnv.toLowercase (RustText.fromUtf8Lossy (received.take 65536))

/-- The response that is written, if there is one. -/
def handleGatewayConnection (received : Bytes) : Client GatewayState (Option HttpResponse) :=
  if received = [] then .done none
  else
    match request env received with
    | .error _ => .done none
    | .ok req =>
      let apiKey := extractApiKey req
      let identifier := apiKey.getD env.peerIp
      .atomically (fun s =>
          let checked := GatewayKeys.checkRateLimit s.limits identifier ctx.rateLimit env.now
          ({ s with limits := checked.1 }, checked.2)) fun allowed =>
        if ¬ allowed then .done (some tooManyRequests)
        else if ctx.requireKey ∧ apiKey = none then .done (some keyRequired)
        else if apiKey.any fun key => !GatewayKeys.validateKey codec env.keyFile key then
          .done (some invalidKey)
        else if req.method ≠ "GET" then
          .done (some (.methodNotAllowed "gateway is read-only, only GET is allowed"))
        else ((gatewayRoute ctx env req).onPart nodePart).bind fun resp => .done (some resp)

/-! ## The routes write no table -/

theorem gatewayRoute_readsDb (req : HttpRequest) : NodeState.ReadsDb (gatewayRoute ctx env req) := by
  unfold gatewayRoute
  split
  · exact NodeState.ReadsDb.done _
  split
  · exact Content.search_readsDb _ _ req
  split
  · exact Content.list_readsDb _ req
  split
  · exact Content.getRecord_readsDb _ _
  split
  · exact NodeState.ReadsDb.read fun s => NodeState.ReadsDb.done _
  · exact NodeState.ReadsDb.done _

/-! ## What a response can depend on -/

/-- A GET request with a listed key that is within its limit. -/
def Admitted (limits : Table RateLimitEntry) (received : Bytes) : Prop :=
  ∃ req key, request env received = .ok req ∧ req.method = "GET" ∧ extractApiKey req = some key ∧
    GatewayKeys.Listed codec env.keyFile key ∧
    (GatewayKeys.checkRateLimit limits key ctx.rateLimit env.now).2 = true

/-- The answers that are given before the store is asked, and the counts they leave. -/
def refusal (limits : Table RateLimitEntry) (received : Bytes) :
    Option (Table RateLimitEntry × Option HttpResponse) :=
  if received = [] then some (limits, none)
  else
    match request env received with
    | .error _ => some (limits, none)
    | .ok req =>
      let apiKey := extractApiKey req
      let checked := GatewayKeys.checkRateLimit limits (apiKey.getD env.peerIp) ctx.rateLimit env.now
      if ¬ checked.2 then some (checked.1, some tooManyRequests)
      else if ctx.requireKey ∧ apiKey = none then some (checked.1, some keyRequired)
      else if apiKey.any fun key => !GatewayKeys.validateKey codec env.keyFile key then
        some (checked.1, some invalidKey)
      else if req.method ≠ "GET" then
        some (checked.1, some (.methodNotAllowed "gateway is read-only, only GET is allowed"))
      else none

/-- A connection is refused without the store, or served by a route. -/
theorem handleGatewayConnection_cases (received : Bytes) (s : GatewayState) :
    (∃ limits answer, refusal codec ctx env s.limits received = some (limits, answer) ∧
      (handleGatewayConnection codec ctx env received).run s = (⟨limits, s.node⟩, answer)) ∨
    (refusal codec ctx env s.limits received = none ∧ ∃ limits req, request env received = .ok req ∧
      (handleGatewayConnection codec ctx env received).run s =
        (⟨limits, ((gatewayRoute ctx env req).run s.node).1⟩,
          some ((gatewayRoute ctx env req).run s.node).2)) := by
  unfold refusal handleGatewayConnection
  by_cases hempty : received = []
  · exact .inl ⟨s.limits, none, by simp [hempty], by simp [hempty]⟩
  simp only [hempty, if_false]
  cases hrequest : request env received with
  | error e => exact .inl ⟨s.limits, none, rfl, rfl⟩
  | ok req =>
    simp only [Client.run_atomically]
    generalize GatewayKeys.checkRateLimit s.limits ((extractApiKey req).getD env.peerIp)
      ctx.rateLimit env.now = checked
    split
    · exact .inl ⟨_, _, rfl, rfl⟩
    split
    · exact .inl ⟨_, _, rfl, rfl⟩
    split
    · exact .inl ⟨_, _, rfl, rfl⟩
    split
    · exact .inl ⟨_, _, rfl, rfl⟩
    · refine .inr ⟨rfl, checked.1, req, rfl, ?_⟩
      rw [Client.run_bind, Client.run_onPart]
      rfl

/-- With `require_api_key`, only an admitted request reaches the store. -/
theorem admitted_of_not_refused (hkey : ctx.requireKey = true) {limits : Table RateLimitEntry}
    {received : Bytes} (h : refusal codec ctx env limits received = none) :
    Admitted codec ctx env limits received := by
  unfold refusal at h
  by_cases hempty : received = []
  · simp [hempty] at h
  simp only [hempty, if_false] at h
  cases hrequest : request env received with
  | error e => simp [hrequest] at h
  | ok req =>
    cases hpresented : extractApiKey req with
    | none =>
      exfalso
      simp only [hrequest, hpresented, hkey] at h
      split at h <;> simp at h
    | some key =>
      simp only [hrequest, hpresented, Option.getD_some, Option.any_some, reduceCtorEq, and_false,
        if_false] at h
      split at h
      · cases h
      next hallowed =>
      split at h
      · cases h
      next hlisted =>
      split at h
      · cases h
      next hget =>
      refine ⟨req, key, hrequest, not_not.mp hget, hpresented, ?_, not_not.mp hallowed⟩
      rw [← GatewayKeys.validateKey_iff]
      simpa using hlisted

end

end Gateway

open Gateway in
/-- A connection leaves the tables as they are, and if a key is required, then what is answered to a
request that is not an admitted one is the same whatever is stored. -/
theorem handleGatewayConnection_gated (codec : KeyCodec) (ctx : GatewayContext) (env : GatewayEnv)
    (received : Bytes) (limits : Table RateLimitEntry) (node : NodeState) :
    ((handleGatewayConnection codec ctx env received).run ⟨limits, node⟩).1.node.db = node.db ∧
      (ctx.requireKey = true → ¬ Admitted codec ctx env limits received → ∀ node',
        ((handleGatewayConnection codec ctx env received).run ⟨limits, node'⟩).2 =
          ((handleGatewayConnection codec ctx env received).run ⟨limits, node⟩).2) := by
  constructor
  · rcases handleGatewayConnection_cases codec ctx env received ⟨limits, node⟩ with
      ⟨limits', answer, -, hrun⟩ | ⟨-, limits', req, -, hrun⟩
    · rw [hrun]
    · rw [hrun]
      exact (gatewayRoute_readsDb ctx env req).run node
  · intro hkey hother node'
    have hrefused : refusal codec ctx env limits received ≠ none := fun hnone =>
      hother (admitted_of_not_refused codec ctx env hkey hnone)
    have hanswer : ∀ s : NodeState, some
        ((handleGatewayConnection codec ctx env received).run ⟨limits, s⟩).2 =
          (refusal codec ctx env limits received).map Prod.snd := by
      intro s
      rcases handleGatewayConnection_cases codec ctx env received ⟨limits, s⟩ with
        ⟨limits', answer, hrefusal, hrun⟩ | ⟨hnone, -⟩
      · rw [hrun, hrefusal]
        rfl
      · exact absurd hnone hrefused
    exact Option.some.inj ((hanswer node').trans (hanswer node).symm)

/-- A gateway without keys, for a concrete request. -/
def keylessCodec : KeyCodec := ⟨fun _ => .error "invalid", fun _ => "", fun _ => .ok []⟩

def keylessEnv : GatewayEnv := ⟨⟨0, 0, .sorted, id⟩, 0, .missing, "127.0.0.1"⟩

def getRecords : Bytes := asBytes "GET /records HTTP/1.1\r\n\r\n"

theorem getRecords_not_admitted :
    ¬ Gateway.Admitted keylessCodec ⟨"n", 60, true⟩ keylessEnv ∅ getRecords := by
  have hnoKey : (Gateway.request keylessEnv getRecords).toOption.bind Gateway.extractApiKey = none := by
    decide +kernel
  rintro ⟨req, key, hrequest, -, hkey, -⟩
  rw [hrequest] at hnoKey
  exact Option.some_ne_none key (hkey.symm.trans hnoKey)

theorem handleGatewayConnection_gated_getRecords :
    ((Gateway.handleGatewayConnection keylessCodec ⟨"n", 60, true⟩ keylessEnv getRecords).run
        ⟨∅, .new .empty⟩).1.node.db = .empty ∧
      ((Gateway.handleGatewayConnection keylessCodec ⟨"n", 60, true⟩ keylessEnv getRecords).run
          ⟨∅, .new (onlyRecord (makeRecord "r1" "sh1" 1000 5000))⟩).2 =
        ((Gateway.handleGatewayConnection keylessCodec ⟨"n", 60, true⟩ keylessEnv getRecords).run
          ⟨∅, .new .empty⟩).2 := by
  obtain ⟨htables, hsame⟩ := handleGatewayConnection_gated keylessCodec ⟨"n", 60, true⟩ keylessEnv
    getRecords ∅ (.new .empty)
  exact ⟨htables, hsame rfl getRecords_not_admitted _⟩

end DSearch
