import DSearch.Api.GatewayLimits
import DSearch.Foundations.Isolation
import DSearch.Node.SearchCaching

/-! # What the clients of the gateway see of each other

Addresses and keys are counted in one table, and a key is counted before it is validated. Beside that
table, clients share the tables of the node, which no request changes, and the cached answers. -/

namespace DSearch
set_option autoImplicit false
open Transaction Isolation

namespace Gateway

section
variable (codec : KeyCodec) (ctx : GatewayContext)

/-! ## One connection -/

theorem serve_cases (c : Connection) (limits : Table RateLimitEntry) (node : NodeState) :
    (∃ counted answer, refusal codec ctx c.env limits c.received = some (counted, answer) ∧
      serve codec ctx c ⟨limits, node⟩ = (⟨counted, node⟩, answer)) ∨
    (refusal codec ctx c.env limits c.received = none ∧ ∃ counted req, c.parsed = some req ∧
      serve codec ctx c ⟨limits, node⟩ = (⟨counted, ((gatewayRoute ctx c.env req).run node).1⟩,
        some ((gatewayRoute ctx c.env req).run node).2)) := by
  rcases handleGatewayConnection_cases codec ctx c.env c.received ⟨limits, node⟩ with
    hrefused | ⟨hnone, counted, req, hreq, hrun⟩
  · exact .inl hrefused
  · have hreceived : c.received ≠ [] := by
      intro hempty
      rw [refusal, if_pos hempty] at hnone
      cases hnone
    refine .inr ⟨hnone, counted, req, ?_, hrun⟩
    rw [Connection.parsed, if_neg hreceived, hreq]
    rfl

theorem serve_db (c : Connection) (s : GatewayState) :
    (serve codec ctx c s).1.node.db = s.node.db :=
  (handleGatewayConnection_gated codec ctx c.env c.received s.limits s.node).1

/-- Whether a request is refused, and how, depends on its entry in the limiter only. -/
theorem refusal_congr {c : Connection} {limits limits' : Table RateLimitEntry}
    (h : ∀ identifier, c.identifier = some identifier → limits[identifier]? = limits'[identifier]?) :
    (refusal codec ctx c.env limits c.received).map Prod.snd =
      (refusal codec ctx c.env limits' c.received).map Prod.snd := by
  unfold Connection.identifier Connection.parsed at h
  unfold refusal
  by_cases hempty : c.received = []
  · simp [hempty]
  simp only [hempty, if_false] at h ⊢
  cases hrequest : request c.env c.received with
  | error e => rfl
  | ok req =>
    rw [hrequest] at h
    have hcheck := (GatewayKeys.checkRateLimit_congr (h _ rfl) ctx.rateLimit c.env.now).1
    dsimp only
    rw [hcheck]
    split
    · rfl
    split
    · rfl
    split
    · rfl
    split
    · rfl
    · rfl

/-- The routes but the search answer from the tables. -/
theorem gatewayRoute_reads (env : GatewayEnv) {req : HttpRequest} (hpath : req.path ≠ "/search") :
    ∃ reply : Db → HttpResponse, ∀ s, (gatewayRoute ctx env req).run s = (s, reply s.db) := by
  refine ⟨fun db => ((gatewayRoute ctx env req).run (.new db)).2, fun s => ?_⟩
  unfold gatewayRoute
  simp only [if_neg hpath]
  split
  · rfl
  split
  · rfl
  split
  next id _ =>
    unfold Content.getRecord
    simp only [Client.run_read, NodeState.new]
    cases Records.getRecord s.db id with
    | some record => rfl
    | none => rfl
  split
  · rfl
  · rfl

/-- What a request for `/search` asks for. -/
def searchOf (req : HttpRequest) : Option (String × ℕ) :=
  if req.path = "/search" then
    some (Content.effectiveQuery req (req.query["q"]?.getD ""), Content.queryLimit req 20)
  else none

theorem path_ne_search {req : HttpRequest} (h : searchOf req = none) : req.path ≠ "/search" := by
  intro hpath
  rw [searchOf, if_pos hpath] at h
  cases h

theorem gatewayRoute_search (env : GatewayEnv) {req : HttpRequest} {queryStr : String} {limit : ℕ}
    (h : searchOf req = some (queryStr, limit)) :
    ∃ reply : List ContentRecord → HttpResponse, ∀ s, (gatewayRoute ctx env req).run s =
      (((NodeState.searchRecords env.nodeEnv queryStr limit).run s).1,
        reply ((NodeState.searchRecords env.nodeEnv queryStr limit).run s).2) := by
  unfold searchOf at h
  split at h
  next hpath =>
    obtain ⟨rfl, rfl⟩ := Prod.mk.inj (Option.some.inj h)
    refine ⟨fun results => (Content.jsonReply ctx.nodeId [
      ("count", JsonText.ofNat results.length),
      ("query", JsonText.ofString (req.query["q"]?.getD "")),
      ("results", JsonText.ofArray (results.map ContentRecord.valueJson))]).withRecordCount
        results.length, fun s => ?_⟩
    unfold gatewayRoute
    rw [if_neg (by rw [hpath]; decide), if_pos hpath, Content.search, Client.run_bind]
    rfl
  next => cases h

theorem gatewayRoute_status (env : GatewayEnv) (req : HttpRequest) (s : NodeState) :
    ((gatewayRoute ctx env req).run s).2.status ≠ 429 := by
  unfold gatewayRoute
  split
  · exact (by decide : (200 : ℕ) ≠ 429)
  split
  · rw [Content.search, Client.run_bind]
    exact (by decide : (200 : ℕ) ≠ 429)
  split
  · exact (by decide : (200 : ℕ) ≠ 429)
  split
  next id _ =>
    unfold Content.getRecord
    rw [Client.run_read]
    cases Records.getRecord s.db id with
    | some record => exact (by decide : (200 : ℕ) ≠ 429)
    | none => exact (by decide : (404 : ℕ) ≠ 429)
  split
  · exact (by decide : (200 : ℕ) ≠ 429)
  · exact (by decide : (404 : ℕ) ≠ 429)

/-! ## Runs -/

structure Visit where
  moment : Moment
  now : ℕ
  keyFile : KeyFile
  peerIp : String
  received : Bytes

inductive Event where
  | visit (v : Visit)
  | store (op : StoreOp)

/-- The counts of the limiter, and the node with what its cached answers were made from. -/
structure WatchedGateway where
  limits : Table RateLimitEntry
  watched : Watched

end

section
variable {ed : Ed25519} (codec : KeyCodec) (ctx : GatewayContext) (store : Store ed)
  (toLowercase : String → String)

def Visit.connection (v : Visit) : Connection where
  env := ⟨v.moment.env toLowercase, v.now, v.keyFile, v.peerIp⟩
  received := v.received

/-- The search that a request is served by, if it is not refused. -/
def searched (v : Visit) (limits : Table RateLimitEntry) : Option (String × ℕ) :=
  let c := v.connection toLowercase
  match refusal codec ctx c.env limits c.received with
  | some _ => none
  | none => c.parsed.bind searchOf

def gatewayStep : Event → WatchedGateway → WatchedGateway × Option HttpResponse
  | .visit v, w =>
    let served := serve codec ctx (v.connection toLowercase) ⟨w.limits, w.watched.node⟩
    let born := match searched codec ctx toLowercase v w.limits with
      | some (queryStr, limit) =>
        (w.watched.after store toLowercase (.search v.moment queryStr limit)).born
      | none => w.watched.born
    (⟨served.1.limits, served.1.node, born⟩, served.2)
  | .store op, w => ({ w with watched := w.watched.after store toLowercase (.store op) }, none)

/-- Somebody else, who presents no valid key. -/
def foreign (ip : String) : Event → Bool
  | .visit v => v.peerIp ≠ ip &&
      !(v.connection toLowercase).presented.any fun key => GatewayKeys.validateKey codec v.keyFile key
  | .store _ => false

/-- A request from the address, without a key. -/
def keyless (ip : String) : Event → Bool
  | .visit v => v.peerIp = ip && (v.connection toLowercase).presented.isNone
  | .store _ => false

/-- Others do not present the address as a key. -/
def KeyElsewhere (ip : String) : Event → Prop
  | .visit v => foreign codec toLowercase ip (.visit v) = true →
      (v.connection toLowercase).presented ≠ some ip
  | .store _ => True

/-- The cached answer that the client finds, if any, is the one that a search would now make. -/
def AnswerHolds (ip : String) (w : WatchedGateway) : Event → Prop
  | .visit v => keyless toLowercase ip (.visit v) = true → ∀ queryStr limit,
      searched codec ctx toLowercase v w.limits = some (queryStr, limit) →
        w.watched.AnswerHolds toLowercase (.search v.moment queryStr limit)
  | .store _ => True

theorem gatewayStep_watched (v : Visit) (w : WatchedGateway) :
    (gatewayStep codec ctx store toLowercase (.visit v) w).1.watched =
      match searched codec ctx toLowercase v w.limits with
      | some (queryStr, limit) =>
        w.watched.after store toLowercase (.search v.moment queryStr limit)
      | none => w.watched := by
  unfold gatewayStep searched
  dsimp only
  rcases serve_cases codec ctx (v.connection toLowercase) w.limits w.watched.node with
    ⟨counted, answer, hrefused, hserve⟩ | ⟨hnone, counted, req, hreq, hserve⟩
  · rw [hserve, hrefused]
  · rw [hserve, hreq, hnone]
    dsimp only [Option.bind_some]
    cases hsearch : searchOf req with
    | some q =>
      obtain ⟨reply, hrun⟩ := gatewayRoute_search ctx (v.connection toLowercase).env hsearch
      rw [hrun]
      rfl
    | none =>
      obtain ⟨reply, hrun⟩ :=
        gatewayRoute_reads ctx (v.connection toLowercase).env (path_ne_search hsearch)
      rw [hrun]

/-! ## The view of one address -/

/-- What the keyless clients of an address depend on. -/
def view (ip : String) (w : WatchedGateway) : Option RateLimitEntry × Db :=
  (w.limits[ip]?, w.watched.node.db)

def is429 (answer : Option HttpResponse) : Bool := answer.any fun resp => resp.status = 429

variable {codec ctx store toLowercase}

theorem serve_entry_congr {c : Connection} {s s' : GatewayState} {ip : String}
    (h : s.limits[ip]? = s'.limits[ip]?) :
    (serve codec ctx c s).1.limits[ip]? = (serve codec ctx c s').1.limits[ip]? := by
  rw [serve_limits, serve_limits]
  cases c.identifier with
  | none => exact h
  | some identifier =>
    dsimp only
    by_cases hsame : identifier = ip
    · subst hsame
      exact (GatewayKeys.checkRateLimit_congr h _ _).2
    · rw [GatewayKeys.checkRateLimit_ne _ hsame, GatewayKeys.checkRateLimit_ne _ hsame, h]

theorem serve_entry_ne {c : Connection} {s : GatewayState} {ip : String}
    (h : c.identifier ≠ some ip) : (serve codec ctx c s).1.limits[ip]? = s.limits[ip]? := by
  rw [serve_limits]
  cases hidentifier : c.identifier with
  | none => rfl
  | some identifier =>
    refine GatewayKeys.checkRateLimit_ne _ ?_ _ _
    rintro rfl
    exact h hidentifier

theorem identifier_ne {c : Connection} {ip : String} (hpeer : c.env.peerIp ≠ ip)
    (hkey : c.presented ≠ some ip) : c.identifier ≠ some ip := by
  unfold Connection.presented at hkey
  unfold Connection.identifier
  cases hparsed : c.parsed with
  | none => simp
  | some req =>
    rw [hparsed, Option.bind_some] at hkey
    rw [Option.map_some]
    cases hextract : extractApiKey req with
    | none => simpa using hpeer
    | some key => simpa [hextract] using hkey

theorem identifier_of_keyless {c : Connection} {ip identifier : String} (hpeer : c.env.peerIp = ip)
    (hkey : c.presented = none) (h : c.identifier = some identifier) : identifier = ip := by
  unfold Connection.presented at hkey
  unfold Connection.identifier at h
  cases hparsed : c.parsed with
  | none => simp [hparsed] at h
  | some req =>
    rw [hparsed, Option.bind_some] at hkey
    rw [hparsed, Option.map_some, hkey, Option.getD_none, hpeer] at h
    exact (Option.some.inj h).symm

theorem gatewayStep_hidden {ip : String} {e : Event} (hkey : KeyElsewhere codec toLowercase ip e)
    (hforeign : foreign codec toLowercase ip e = true) (w : WatchedGateway) :
    view ip (gatewayStep codec ctx store toLowercase e w).1 = view ip w := by
  cases e with
  | store op => cases hforeign
  | visit v =>
    have hpeer : v.peerIp ≠ ip := of_decide_eq_true (Bool.and_eq_true_iff.mp hforeign).1
    exact Prod.ext (serve_entry_ne (identifier_ne hpeer (hkey hforeign))) (serve_db codec ctx _ _)

theorem gatewayStep_view {ip : String} {w w' : WatchedGateway} (h : view ip w = view ip w')
    (e : Event) :
    view ip (gatewayStep codec ctx store toLowercase e w).1 =
      view ip (gatewayStep codec ctx store toLowercase e w').1 := by
  obtain ⟨hentry, hdb⟩ := Prod.mk.inj h
  cases e with
  | store op => exact Prod.ext hentry (congrArg (fun db => (op.run store db).1) hdb)
  | visit v =>
    refine Prod.ext (serve_entry_congr hentry) ?_
    exact (serve_db codec ctx _ _).trans
      (hdb.trans (serve_db codec ctx _ ⟨w'.limits, w'.watched.node⟩).symm)

/-- A keyless request is refused alike where the entry of its address is the same; what is not refused
is served by the same route. -/
theorem keyless_cases (store : Store ed) {ip : String} {w w' : WatchedGateway}
    (h : view ip w = view ip w') {v : Visit} (hkeyless : keyless toLowercase ip (.visit v) = true) :
    (gatewayStep codec ctx store toLowercase (.visit v) w).2 =
        (gatewayStep codec ctx store toLowercase (.visit v) w').2 ∨
      ∃ req, searched codec ctx toLowercase v w.limits = searchOf req ∧
        searched codec ctx toLowercase v w'.limits = searchOf req ∧
        (∀ u ∈ [w, w'], (gatewayStep codec ctx store toLowercase (.visit v) u).2 =
          some ((gatewayRoute ctx (v.connection toLowercase).env req).run u.watched.node).2) := by
  obtain ⟨hpeer, hnone⟩ := Bool.and_eq_true_iff.mp hkeyless
  have hpresented : (v.connection toLowercase).presented = none := Option.isNone_iff_eq_none.mp hnone
  have hentry : ∀ identifier, (v.connection toLowercase).identifier = some identifier →
      w.limits[identifier]? = w'.limits[identifier]? := by
    intro identifier hidentifier
    rw [identifier_of_keyless (of_decide_eq_true hpeer) hpresented hidentifier]
    exact congrArg Prod.fst h
  have hrefusal := refusal_congr codec ctx hentry
  unfold searched
  dsimp only
  rcases serve_cases codec ctx (v.connection toLowercase) w.limits w.watched.node with
    ⟨counted, answer, hrefused, hserve⟩ | ⟨hopen, counted, req, hreq, hserve⟩
  · rcases serve_cases codec ctx (v.connection toLowercase) w'.limits w'.watched.node with
      ⟨counted', answer', hrefused', hserve'⟩ | ⟨hopen', -⟩
    · rw [hrefused, hrefused'] at hrefusal
      refine .inl ?_
      unfold gatewayStep
      dsimp only
      rw [hserve, hserve']
      exact Option.some.inj hrefusal
    · rw [hrefused, hopen'] at hrefusal
      cases hrefusal
  · rcases serve_cases codec ctx (v.connection toLowercase) w'.limits w'.watched.node with
      ⟨counted', answer', hrefused', hserve'⟩ | ⟨hopen', counted', req', hreq', hserve'⟩
    · rw [hopen, hrefused'] at hrefusal
      cases hrefusal
    · obtain rfl := Option.some.inj (hreq.symm.trans hreq')
      refine .inr ⟨req, ?_, ?_, ?_⟩
      · rw [hopen, hreq]
        rfl
      · rw [hopen', hreq]
        rfl
      · intro u hu
        unfold gatewayStep
        dsimp only
        rcases List.mem_pair.mp hu with rfl | rfl
        · rw [hserve]
        · rw [hserve']

theorem not_foreign_of_keyless {ip : String} {e : Event} (h : keyless toLowercase ip e = true) :
    (!foreign codec toLowercase ip e) = true := by
  cases e with
  | store op => rfl
  | visit v =>
    have hpeer : v.peerIp = ip := of_decide_eq_true (Bool.and_eq_true_iff.mp h).1
    simp [foreign, hpeer]

/-- Whether a keyless request is over the limit depends on the entry of its address. -/
theorem isolated_is429 (ip : String) :
    Isolated (gatewayStep codec ctx store toLowercase) (fun _ e => KeyElsewhere codec toLowercase ip e)
      (fun e => !foreign codec toLowercase ip e) (keyless toLowercase ip) (view ip) is429 where
  hidden_view e w hkey hhidden := gatewayStep_hidden hkey (by simpa using hhidden) w
  shared_view e w w' h _ := gatewayStep_view h e
  observed_shared _ hkeyless := not_foreign_of_keyless hkeyless
  same_answer e w w' _ _ h hkeyless := by
    cases e with
    | store op => cases hkeyless
    | visit v =>
      rcases keyless_cases _ h hkeyless with heq | ⟨req, -, -, hanswer⟩
      · rw [heq]
      · have h429 : ∀ u ∈ [w, w'],
            is429 (gatewayStep codec ctx store toLowercase (.visit v) u).2 = false := by
          intro u hu
          rw [hanswer u hu]
          exact decide_eq_false (gatewayRoute_status ctx _ req u.watched.node)
        rw [h429 w (by simp), h429 w' (by simp)]

/-- What a keyless request is answered, where cached answers are recorded and hold. -/
theorem keyless_answer {ip : String} {w w' : WatchedGateway} (h : view ip w = view ip w') {v : Visit}
    (hkeyless : keyless toLowercase ip (.visit v) = true)
    (hw : w.watched.Recorded toLowercase ∧ AnswerHolds codec ctx toLowercase ip w (.visit v))
    (hw' : w'.watched.Recorded toLowercase ∧ AnswerHolds codec ctx toLowercase ip w' (.visit v)) :
    (gatewayStep codec ctx store toLowercase (.visit v) w).2 =
      (gatewayStep codec ctx store toLowercase (.visit v) w').2 := by
  have hdb : w.watched.node.db = w'.watched.node.db := congrArg Prod.snd h
  rcases keyless_cases store h hkeyless with heq | ⟨req, hreq, hreq', hanswer⟩
  · exact heq
  rw [hanswer w (by simp), hanswer w' (by simp)]
  refine congrArg some ?_
  cases hsearch : searchOf req with
  | none =>
    obtain ⟨reply, hrun⟩ :=
      gatewayRoute_reads ctx (v.connection toLowercase).env (path_ne_search hsearch)
    rw [hrun, hrun, hdb]
  | some q =>
    obtain ⟨reply, hrun⟩ := gatewayRoute_search ctx (v.connection toLowercase).env hsearch
    have hfresh : ∀ u : WatchedGateway, u.watched.Recorded toLowercase →
        u.watched.AnswerHolds toLowercase (.search v.moment q.1 q.2) →
        ((NodeState.searchRecords (v.connection toLowercase).env.nodeEnv q.1 q.2).run
            u.watched.node).2 =
          rankedResults (v.moment.env toLowercase) u.watched.node.db q.1 q.2 := by
      intro u hrecorded hholds
      rw [← searchRecords_cold]
      exact hrecorded.transparent toLowercase hholds
    rw [hrun, hrun]
    dsimp only
    rw [hfresh w hw.1 (hw.2 hkeyless q.1 q.2 (hreq.trans hsearch)),
      hfresh w' hw'.1 (hw'.2 hkeyless q.1 q.2 (hreq'.trans hsearch)), hdb]

theorem isolated_answers (ip : String) :
    Isolated (gatewayStep codec ctx store toLowercase)
      (fun w e => KeyElsewhere codec toLowercase ip e ∧ w.watched.Recorded toLowercase ∧
        AnswerHolds codec ctx toLowercase ip w e)
      (fun e => !foreign codec toLowercase ip e) (keyless toLowercase ip) (view ip) id where
  hidden_view e w hstep hhidden := gatewayStep_hidden hstep.1 (by simpa using hhidden) w
  shared_view e w w' h _ := gatewayStep_view h e
  observed_shared _ hkeyless := not_foreign_of_keyless hkeyless
  same_answer e w w' hw hw' h hkeyless := by
    cases e with
    | store op => cases hkeyless
    | visit v => exact keyless_answer h hkeyless hw.2 hw'.2

theorem gatewayStep_recorded (e : Event) {w : WatchedGateway} (h : w.watched.Recorded toLowercase) :
    (gatewayStep codec ctx store toLowercase e w).1.watched.Recorded toLowercase := by
  cases e with
  | store op => exact h.after store toLowercase (.store op)
  | visit v =>
    rw [gatewayStep_watched]
    cases searched codec ctx toLowercase v w.limits with
    | none => exact h
    | some q => exact h.after store toLowercase (.search v.moment q.1 q.2)

end

/-- Two runs that differ in what others send without a valid key: a keyless client is over its limit
for the same requests if nobody presents its address as a key, and is answered the same if moreover the
cached answers that it finds hold. -/
theorem keyless_client_isolated {ed : Ed25519} (codec : KeyCodec) (ctx : GatewayContext)
    (store : Store ed) (toLowercase : String → String) (ip : String) (limits : Table RateLimitEntry)
    (db : Db) (events events' : List Event)
    (hshared : (events.filter fun e => !foreign codec toLowercase ip e) =
      events'.filter fun e => !foreign codec toLowercase ip e)
    (hkeys : ∀ e ∈ events ++ events', KeyElsewhere codec toLowercase ip e) :
    (answers (gatewayStep codec ctx store toLowercase) (keyless toLowercase ip) events
          ⟨limits, .start db⟩).map is429 =
        (answers (gatewayStep codec ctx store toLowercase) (keyless toLowercase ip) events'
          ⟨limits, .start db⟩).map is429 ∧
      ((∀ run ∈ [events, events'], Runs.Along (gatewayStep codec ctx store toLowercase)
          (AnswerHolds codec ctx toLowercase ip) run ⟨limits, .start db⟩) →
        answers (gatewayStep codec ctx store toLowercase) (keyless toLowercase ip) events
            ⟨limits, .start db⟩ =
          answers (gatewayStep codec ctx store toLowercase) (keyless toLowercase ip) events'
            ⟨limits, .start db⟩) := by
  have halong : ∀ run ∈ [events, events'], ∀ w, Runs.Along (gatewayStep codec ctx store toLowercase)
      (fun _ e => KeyElsewhere codec toLowercase ip e) run w := by
    intro run hrun w
    refine Runs.Along.of_forall (fun e he _ => hkeys e ?_) w
    rcases List.mem_pair.mp hrun with rfl | rfl
    · exact List.mem_append_left _ he
    · exact List.mem_append_right _ he
  constructor
  · exact (isolated_is429 ip).answers_eq hshared rfl (halong events (by simp) _)
      (halong events' (by simp) _)
  · intro hholds
    have hsteps : ∀ run ∈ [events, events'],
        Runs.Along (gatewayStep codec ctx store toLowercase)
          (fun w e => KeyElsewhere codec toLowercase ip e ∧ w.watched.Recorded toLowercase ∧
            AnswerHolds codec ctx toLowercase ip w e) run ⟨limits, .start db⟩ := by
      intro run hrun
      refine (halong run hrun _).and (Runs.Along.with_invariant ?_
        (Watched.recorded_start toLowercase db) (hholds run hrun))
      exact fun e w hrecorded _ => gatewayStep_recorded e hrecorded
    have hanswers := (isolated_answers ip).answers_eq hshared rfl (hsteps events (by simp))
      (hsteps events' (by simp))
    rwa [List.map_id, List.map_id] at hanswers

/-- A request at a time, from an address, that may present a key in its query. -/
def healthVisit (peerIp target : String) : Event :=
  .visit ⟨⟨0, 0, .sorted⟩, 0, .missing, peerIp, asBytes ("GET " ++ target ++ " HTTP/1.1\r\n\r\n")⟩

theorem answerHolds_of_no_search {v : Visit} (h : (v.connection id).parsed.bind searchOf = none)
    (codec : KeyCodec) (ctx : GatewayContext) (ip : String) (w : WatchedGateway) :
    AnswerHolds codec ctx id ip w (.visit v) := by
  intro _ queryStr limit hsearched
  unfold searched at hsearched
  dsimp only at hsearched
  split at hsearched
  · cases hsearched
  · rw [h] at hsearched
    cases hsearched

theorem keyless_client_isolated_health :
    answers (gatewayStep keylessCodec ⟨"n", 1, false⟩ plainStore id) (keyless id "10.0.0.1")
        [healthVisit "10.0.0.2" "/health?api_key=x", healthVisit "10.0.0.1" "/health"]
        ⟨∅, .start .empty⟩ =
      answers (gatewayStep keylessCodec ⟨"n", 1, false⟩ plainStore id) (keyless id "10.0.0.1")
        [healthVisit "10.0.0.1" "/health"] ⟨∅, .start .empty⟩ := by
  refine (keyless_client_isolated keylessCodec ⟨"n", 1, false⟩ plainStore id "10.0.0.1" ∅ .empty
    [healthVisit "10.0.0.2" "/health?api_key=x", healthVisit "10.0.0.1" "/health"]
    [healthVisit "10.0.0.1" "/health"] ?_ ?_).2 ?_
  · have hother : (!foreign keylessCodec id "10.0.0.1"
        (healthVisit "10.0.0.2" "/health?api_key=x")) = false := by decide +kernel
    exact List.filter_cons_of_neg (Bool.eq_false_iff.mp hother)
  · intro e he
    simp only [List.cons_append, List.nil_append, List.mem_cons, List.not_mem_nil, or_false] at he
    rcases he with rfl | rfl | rfl
    · exact fun _ => by decide +kernel
    · exact fun _ => by decide +kernel
    · exact fun _ => by decide +kernel
  · intro run hrun
    refine Runs.Along.of_forall (fun e he w => ?_) _
    rcases List.mem_pair.mp hrun with rfl | rfl
    · rcases List.mem_pair.mp he with rfl | rfl
      · exact answerHolds_of_no_search (by decide +kernel) _ _ _ w
      · exact answerHolds_of_no_search (by decide +kernel) _ _ _ w
    · obtain rfl := List.mem_singleton.mp he
      exact answerHolds_of_no_search (by decide +kernel) _ _ _ w

/-- An address that somebody presents as a key has its budget used up. -/
theorem address_as_key_uses_budget :
    ¬ ∀ (codec : KeyCodec) (ctx : GatewayContext) (ip : String) (events events' : List Event),
      (events.filter fun e => !foreign codec id ip e) =
          (events'.filter fun e => !foreign codec id ip e) →
        (answers (gatewayStep codec ctx plainStore id) (keyless id ip) events
            ⟨∅, .start .empty⟩).map is429 =
          (answers (gatewayStep codec ctx plainStore id) (keyless id ip) events'
            ⟨∅, .start .empty⟩).map is429 := by
  intro h
  have hother : (!foreign keylessCodec id "10.0.0.1"
      (healthVisit "10.0.0.2" "/health?api_key=10.0.0.1")) = false := by decide +kernel
  have hsame := h keylessCodec ⟨"n", 1, false⟩ "10.0.0.1"
    [healthVisit "10.0.0.2" "/health?api_key=10.0.0.1", healthVisit "10.0.0.1" "/health"]
    [healthVisit "10.0.0.1" "/health"] (List.filter_cons_of_neg (Bool.eq_false_iff.mp hother))
  revert hsame
  decide +kernel

end Gateway

end DSearch
