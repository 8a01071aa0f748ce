import DSearch.Foundations.Tasks
import DSearch.Node.Handshake

/-! # The tasks of a node: `Node::start`, `handle_messages`, `connect_to_peer` of `node/server.rs`

The accept loop with its counter, the pruning task, and the tasks of every connection, each cut where
another task may run in between. What a message loop answers is in `Node.MessageLoop`; here it runs
until it ends, at any time and with or without a panic. `outside` is the rest of the program: it dials
peers, moves the clock, stops the node and changes the store. -/

namespace DSearch
set_option autoImplicit false
open Transaction Tasks

inductive Side where
  | inbound | outbound
  deriving DecidableEq, Repr

/-- A task, by what it does next. -/
inductive Task where
  | acceptLoop
  | pruning
  | outside
  /-- Spawned by the accept loop; not counted yet. -/
  | accepted (conn : Inbound)
  /-- In `handle_connection`. -/
  | handling (conn : Inbound)
  /-- In `connect_to_peer`. -/
  | connecting (conn : Outbound)
  /-- The peer is in the routing table; its message loop is about to be spawned. -/
  | entered (side : Side) (peerNodeId : String)
  /-- `handle_connection` has returned, `fetch_sub` is next. -/
  | returning
  /-- In the loop of `handle_messages_inner`. -/
  | messages (side : Side) (peerNodeId : String)
  /-- The loop has ended, the removal from the routing table is next. -/
  | leaving (peerNodeId : String)
  | panicked
  | finished

namespace Task

/-- A connection of the accept loop that is not over: its handshake or its message loop. -/
def live : Task → Bool
  | accepted _ => true
  | handling _ => true
  | entered .inbound _ => true
  | messages .inbound _ => true
  | _ => false

def runsInbound : Task → Bool
  | messages .inbound _ => true
  | _ => false

/-- The peer in the routing table whose message loop runs or is about to be spawned. -/
def session : Task → Option String
  | entered _ p => some p
  | messages _ p => some p
  | _ => none

/-- The peer whose message loop runs. -/
def loopPeer : Task → Option String
  | messages _ p => some p
  | _ => none

theorem session_of_loopPeer {t : Task} {p : String} (h : t.loopPeer = some p) :
    t.session = some p := by
  unfold loopPeer at h
  split at h
  · exact h
  · cases h

end Task

/-- What the environment decides about a step. -/
inductive Label where
  | go
  | incoming (conn : Inbound)
  | ends (panicked : Bool)
  | dial (conn : Outbound)
  | changes (running : Bool) (now : ℕ) (node : NodeState)

abbrev Server := System Shared Task

namespace Server

def runningInbound (sys : Server) : ℕ := sys.tasks.countP Task.runsInbound

def runningPeers (sys : Server) : List String := sys.tasks.filterMap Task.loopPeer

variable (ctx : ConnectionContext) (maxConnections : UInt64)

def start (node : NodeState) : Server where
  shared := ⟨0, .new, true, 0, node⟩
  tasks := [.acceptLoop, .pruning, .outside]

/-- After `greetInbound` or `greetOutbound` has let a peer in. -/
def enter (side : Side) (peer : Peer) (s : Shared) : Acted Shared Task :=
  match logged ctx.logs.info peer.nodeId (.ok ()) with
  | .panic => ⟨s.enter peer, .panicked, []⟩
  | _ => ⟨s.enter peer, .entered side peer.nodeId, []⟩

def act : Label → Shared → Task → Option (Acted Shared Task)
  | .incoming conn, s, .acceptLoop =>
    if s.activeConnections ≥ maxConnections then some ⟨s, .acceptLoop, []⟩
    else some ⟨s, .acceptLoop, [.accepted conn]⟩
  -- the shutdown signal, or an endpoint that is closed
  | .go, s, .acceptLoop => some ⟨s, .finished, []⟩
  | .go, s, .pruning =>
    if s.running then
      some ⟨{ s with routingTable := (s.routingTable.pruneDeadPeers s.now).1 }, .pruning, []⟩
    else some ⟨s, .finished, []⟩
  | .go, s, .accepted conn => some ⟨s.fetchAdd, .handling conn, []⟩
  | .go, s, .handling conn =>
    match (greetInbound ctx conn).outcome with
    | .ok (some peer) => some (enter ctx .inbound peer s)
    | .ok none => some ⟨s, .returning, []⟩
    | .err _ => some ⟨s, .returning, []⟩
    | .panic => some ⟨s, .panicked, []⟩
  | .go, s, .connecting conn =>
    match (greetOutbound ctx conn).outcome with
    | .ok (some peer) => some (enter ctx .outbound peer s)
    | .ok none => some ⟨s, .finished, [.messages .outbound ""]⟩
    | .err _ => some ⟨s, .finished, []⟩
    | .panic => some ⟨s, .panicked, []⟩
  | .go, s, .entered .inbound p => some ⟨s, .returning, [.messages .inbound p]⟩
  | .go, s, .entered .outbound p => some ⟨s, .finished, [.messages .outbound p]⟩
  | .go, s, .returning => some ⟨s.fetchSub, .finished, []⟩
  | .ends panicked, s, .messages _ p => some ⟨s, if panicked then .panicked else .leaving p, []⟩
  | .go, s, .leaving p => some ⟨s.leave p, .finished, []⟩
  | .dial conn, s, .outside => some ⟨s, .outside, [.connecting conn]⟩
  | .changes running now node, s, .outside =>
    some ⟨{ s with running := running, now := now, node := node }, .outside, []⟩
  | _, _, _ => none

section
variable {ctx} {maxConnections}

/-! ## The calls behind two of the actions -/

/-- The task after its call of `handle_connection`. -/
def afterHandling : Outcome (Option String) → Task
  | .ok (some p) => .entered .inbound p
  | .panic => .panicked
  | _ => .returning

theorem act_handling (conn : Inbound) (s : Shared) :
    act ctx maxConnections .go s (.handling conn) =
      some ⟨((handleConnection ctx conn).run s).1,
        afterHandling ((handleConnection ctx conn).run s).2.outcome, []⟩ := by
  unfold handleConnection
  simp only [act]
  rcases (greetInbound ctx conn).outcome with (_ | peer) | e | _
  · rfl
  · by_cases hpanics : LogPanics ctx.logs.info peer.nodeId
    · simp only [enter, logged, if_pos hpanics]
      rfl
    · simp only [enter, logged, if_neg hpanics]
      rfl
  · rfl
  · rfl

/-- The sessions that a call of `connect_to_peer` leaves behind. -/
def sessionsOf : Outcome String → List String
  | .ok p => [p]
  | _ => []

theorem act_connecting {ed : Ed25519} (store : Option (Store ed)) (conn : Outbound) (s : Shared) :
    ∃ done, act ctx maxConnections .go s (.connecting conn) = some done ∧
      done.shared = ((connectToPeer ctx store conn).run s).1 ∧
      (done.task :: done.spawned).filterMap Task.session =
        sessionsOf ((connectToPeer ctx store conn).run s).2.outcome := by
  unfold connectToPeer
  simp only [act]
  rcases (greetOutbound ctx conn).outcome with (_ | peer) | e | _
  · exact ⟨_, rfl, rfl, rfl⟩
  · refine ⟨_, rfl, ?_⟩
    by_cases hpanics : LogPanics ctx.logs.info peer.nodeId
    · simp only [enter, logged, if_pos hpanics]
      exact ⟨rfl, rfl⟩
    · simp only [enter, logged, if_neg hpanics, greetNewPeer]
      cases store <;> exact ⟨rfl, rfl⟩
  · exact ⟨_, rfl, rfl, rfl⟩
  · exact ⟨_, rfl, rfl, rfl⟩

end

/-! ## The connection cap -/

/-- The accept loop admits connections only while fewer than `max_connections` of those that it has
admitted are live, counted or not. -/
def AdmitsBelowCap (sys : Server) (pick : ℕ × Label) : Prop :=
  match pick.2, sys.tasks[pick.1]? with
  | .incoming _, some .acceptLoop =>
    sys.shared.activeConnections < maxConnections →
      sys.tasks.countP Task.live < maxConnections.toNat
  | _, _ => True

instance (sys : Server) (pick : ℕ × Label) : Decidable (AdmitsBelowCap maxConnections sys pick) := by
  unfold AdmitsBelowCap
  split <;> infer_instance

variable {ctx maxConnections}

variable (ctx) in
/-- The peer that enters is live if its connection is one of the accept loop. -/
theorem live_enter (side : Side) (peer : Peer) (s : Shared) :
    ((enter ctx side peer s).task.live = true → side = .inbound) ∧
      (enter ctx side peer s).spawned = [] := by
  unfold enter
  split
  · exact ⟨fun h => absurd h Bool.false_ne_true, rfl⟩
  · refine ⟨fun h => ?_, rfl⟩
    cases side with
    | inbound => rfl
    | outbound => exact absurd h Bool.false_ne_true

theorem weight_enter (side : Side) (peer : Peer) (s : Shared) :
    (if (enter ctx side peer s).task.live then 1 else 0) +
      (enter ctx side peer s).spawned.countP Task.live ≤ if side = .inbound then 1 else 0 := by
  obtain ⟨hlive, hspawned⟩ := live_enter ctx side peer s
  rw [hspawned, List.countP_nil, Nat.add_zero]
  split
  · next h => rw [if_pos (hlive h)]
  · exact Nat.zero_le _

/-- An action makes connections live only where the accept loop admits one. -/
theorem act_live {label : Label} {s : Shared} {t : Task} {done : Acted Shared Task}
    (h : act ctx maxConnections label s t = some done) :
    (if done.task.live then 1 else 0) + done.spawned.countP Task.live ≤ (if t.live then 1 else 0) ∨
      (∃ conn, label = .incoming conn ∧ t = .acceptLoop ∧ s.activeConnections < maxConnections ∧
        done.task = .acceptLoop ∧ done.spawned.countP Task.live = 1) := by
  unfold act at h
  split at h
  case h_1 =>
    split at h
    · obtain rfl := Option.some.inj h
      exact .inl (by simp [Task.live])
    · next hbelow =>
      obtain rfl := Option.some.inj h
      exact .inr ⟨_, rfl, rfl, UInt64.not_le.mp hbelow, rfl, rfl⟩
  case h_5 conn =>
    split at h
    · obtain rfl := Option.some.inj h
      exact .inl (by simpa [Task.live] using weight_enter .inbound _ s)
    all_goals
      obtain rfl := Option.some.inj h
      exact .inl (by simp [Task.live])
  case h_6 conn =>
    split at h
    · obtain rfl := Option.some.inj h
      exact .inl (by simpa [Task.live] using weight_enter .outbound _ s)
    all_goals
      obtain rfl := Option.some.inj h
      exact .inl (by simp [Task.live])
  case h_3 =>
    split at h <;> obtain rfl := Option.some.inj h <;> exact .inl (by simp [Task.live])
  case h_10 panicked side p =>
    obtain rfl := Option.some.inj h
    cases panicked <;> exact .inl (by simp [Task.live])
  case h_14 => cases h
  all_goals
    obtain rfl := Option.some.inj h
    exact .inl (by simp [Task.live])

/-- A step that meets the condition keeps the live connections within the cap. -/
theorem step_live_le {sys : Server} {pick : ℕ × Label}
    (hlive : sys.tasks.countP Task.live ≤ maxConnections.toNat)
    (hadmits : AdmitsBelowCap maxConnections sys pick) :
    (step (act ctx maxConnections) sys pick).tasks.countP Task.live ≤ maxConnections.toNat := by
  rcases acts (act ctx maxConnections) sys pick with
    hsame | ⟨before, t, after, done, hpicked, hact, hstep⟩
  · rw [hsame]
    exact hlive
  · have hcount := hpicked.countP (p := Task.live) done.task done.spawned
    rw [hstep]
    rcases act_live hact with hweight | ⟨conn, hlabel, ht, hbelow, htask, hspawned⟩
    · dsimp only
      omega
    · have hat := hpicked.at_task
      rw [ht] at hat
      have hroom : sys.tasks.countP Task.live < maxConnections.toNat := by
        simp only [AdmitsBelowCap, hlabel, hat] at hadmits
        exact hadmits hbelow
      rw [ht, htask] at hcount
      rw [htask]
      simp only [Task.live, hspawned] at hcount ⊢
      omega

theorem runningInbound_le (sys : Server) : sys.runningInbound ≤ sys.tasks.countP Task.live := by
  apply List.countP_mono_left
  intro t _ h
  unfold Task.runsInbound at h
  split at h
  · rfl
  · cases h

variable (ctx maxConnections) in
/-- In every run whose admissions are below the cap, no more inbound message loops run than
`max_connections`. -/
theorem running_inbound_le_maxConnections (node : NodeState) (schedule : List (ℕ × Label))
    (hadmits : Meets (act ctx maxConnections) (AdmitsBelowCap maxConnections) (start node) schedule) :
    runningInbound (run (act ctx maxConnections) (start node) schedule) ≤ maxConnections.toNat := by
  have hstart : (start node).tasks.countP Task.live ≤ maxConnections.toNat := Nat.zero_le _
  have hlive := invariant_of_meets
    (I := fun sys : Server => sys.tasks.countP Task.live ≤ maxConnections.toNat)
    (fun _ _ hI hC => step_live_le hI hC) hstart hadmits
  exact le_trans (runningInbound_le _) hlive

/-! ## Peers in the routing table -/

/-- The entry of the peer of a session, if there is one, is not stale. -/
def Fresh (s : Shared) (t : Task) : Prop :=
  ∀ p ∈ t.session, ∀ entry ∈ s.routingTable.buckets[p]?, s.now - entry.lastSeen ≤ PEER_STALE_SECS

variable (ctx) in
/-- No step takes the peer of another session out of the table (at the end of a loop, or by a prune),
and no loop starts for a peer that has not sent its id. -/
def KeepsSessions (sys : Server) (pick : ℕ × Label) : Prop :=
  match pick.2, sys.tasks[pick.1]? with
  | .go, some (.leaving p) => ∀ t ∈ sys.tasks, t.session ≠ some p
  | .go, some .pruning => sys.shared.running = true → ∀ t ∈ sys.tasks, Fresh sys.shared t
  | .go, some (.connecting conn) =>
    (greetOutbound ctx conn).outcome = .ok none → sys.shared.routingTable.knows "" = true
  | _, _ => True

instance (s : Shared) (t : Task) : Decidable (Fresh s t) :=
  inferInstanceAs (Decidable (∀ p ∈ t.session, ∀ entry ∈ s.routingTable.buckets[p]?, _))

instance (sys : Server) (pick : ℕ × Label) : Decidable (KeepsSessions ctx sys pick) := by
  unfold KeepsSessions
  split <;> infer_instance

def SessionsKnown (sys : Server) : Prop :=
  ∀ t ∈ sys.tasks, ∀ p ∈ t.session, sys.shared.routingTable.knows p = true

theorem knows_enter (side : Side) (peer : Peer) (s : Shared) (p : String) :
    (enter ctx side peer s).shared.routingTable.knows p =
      (decide (peer.nodeId = p) || s.routingTable.knows p) := by
  unfold enter
  split <;> exact RoutingTable.knows_insert _ _ _

/-- What an action takes out of the table. -/
theorem act_knows {label : Label} {s : Shared} {t : Task} {done : Acted Shared Task}
    (h : act ctx maxConnections label s t = some done) {p : String}
    (hp : s.routingTable.knows p = true) :
    done.shared.routingTable.knows p = true ∨ (label = .go ∧ t = .leaving p) ∨
      (label = .go ∧ t = .pruning ∧ s.running = true ∧
        done.shared.routingTable = (s.routingTable.pruneDeadPeers s.now).1) := by
  unfold act at h
  split at h
  case h_3 =>
    split at h
    · next hrunning =>
      obtain rfl := Option.some.inj h
      exact .inr (.inr ⟨rfl, rfl, hrunning, rfl⟩)
    · obtain rfl := Option.some.inj h
      exact .inl hp
  case h_11 q =>
    obtain rfl := Option.some.inj h
    by_cases hq : q = p
    · subst hq
      exact .inr (.inl ⟨rfl, rfl⟩)
    · refine .inl ?_
      have hknows := RoutingTable.knows_remove s.routingTable q p
      rw [hp, decide_eq_true hq] at hknows
      exact hknows
  case h_14 => cases h
  case h_1 =>
    split at h <;> obtain rfl := Option.some.inj h <;> exact .inl hp
  case h_5 conn =>
    split at h <;> obtain rfl := Option.some.inj h
    · exact .inl (by rw [knows_enter, hp, Bool.or_true])
    all_goals exact .inl hp
  case h_6 conn =>
    split at h <;> obtain rfl := Option.some.inj h
    · exact .inl (by rw [knows_enter, hp, Bool.or_true])
    all_goals exact .inl hp
  all_goals
    obtain rfl := Option.some.inj h
    exact .inl hp

theorem mem_sessions_enter {side : Side} {peer : Peer} {s : Shared} {p : String}
    (hp : p ∈
      ((enter ctx side peer s).task :: (enter ctx side peer s).spawned).filterMap Task.session) :
    (enter ctx side peer s).shared.routingTable.knows p = true := by
  have hpeer : peer.nodeId = p := by
    unfold enter at hp
    split at hp <;> simp [Task.session] at hp
    exact hp.symm
  rw [knows_enter, hpeer]
  simp

/-- Where the sessions come from that an action leaves or spawns. -/
theorem act_sessions {label : Label} {s : Shared} {t : Task} {done : Acted Shared Task}
    (h : act ctx maxConnections label s t = some done) {p : String}
    (hp : p ∈ (done.task :: done.spawned).filterMap Task.session) :
    p ∈ t.session ∨ done.shared.routingTable.knows p = true ∨
      ∃ conn, label = .go ∧ t = .connecting conn ∧ (greetOutbound ctx conn).outcome = .ok none ∧
        p = "" := by
  unfold act at h
  split at h
  case h_1 =>
    split at h <;> obtain rfl := Option.some.inj h <;> simp [Task.session] at hp
  case h_3 =>
    split at h <;> obtain rfl := Option.some.inj h <;> simp [Task.session] at hp
  case h_5 conn =>
    split at h <;> obtain rfl := Option.some.inj h
    · exact .inr (.inl (mem_sessions_enter hp))
    all_goals simp [Task.session] at hp
  case h_6 conn =>
    split at h <;> obtain rfl := Option.some.inj h
    · exact .inr (.inl (mem_sessions_enter hp))
    · next hnone => exact .inr (.inr ⟨conn, rfl, rfl, hnone, by simpa [Task.session] using hp⟩)
    all_goals simp [Task.session] at hp
  case h_7 q =>
    obtain rfl := Option.some.inj h
    exact .inl (by simpa [Task.session, eq_comm] using hp)
  case h_8 q =>
    obtain rfl := Option.some.inj h
    exact .inl (by simpa [Task.session, eq_comm] using hp)
  case h_10 panicked side q =>
    obtain rfl := Option.some.inj h
    cases panicked <;> simp [Task.session] at hp
  case h_14 => cases h
  all_goals
    obtain rfl := Option.some.inj h
    simp [Task.session] at hp

/-- A peer that is known and not stale is known after a prune. -/
theorem knows_prune {s : Shared} {t : Task} (hfresh : Fresh s t) {p : String} (hp : p ∈ t.session)
    (hknown : s.routingTable.knows p = true) :
    (s.routingTable.pruneDeadPeers s.now).1.knows p = true := by
  obtain ⟨entry, hentry⟩ := Option.isSome_iff_exists.mp hknown
  have hkept := RoutingTable.get_pruneStale _ PEER_STALE_SECS s.now hentry (hfresh p hp entry hentry)
  unfold RoutingTable.knows RoutingTable.pruneDeadPeers
  rw [hkept]
  rfl

theorem step_sessionsKnown {sys : Server} {pick : ℕ × Label} (hknown : SessionsKnown sys)
    (hkeeps : KeepsSessions ctx sys pick) :
    SessionsKnown (step (act ctx maxConnections) sys pick) := by
  rcases acts (act ctx maxConnections) sys pick with
    hsame | ⟨before, t, after, done, hpicked, hact, hstep⟩
  · rw [hsame]
    exact hknown
  · rw [hstep]
    have hat := hpicked.at_task
    -- the peers of the sessions that there were
    have hold : ∀ u ∈ sys.tasks, ∀ p ∈ u.session, done.shared.routingTable.knows p = true := by
      intro u hu p hp
      rcases act_knows hact (hknown u hu p hp) with hkept | ⟨hgo, rfl⟩ | ⟨hgo, rfl, hrunning, htable⟩
      · exact hkept
      · simp only [KeepsSessions, hgo, hat] at hkeeps
        exact absurd hp (hkeeps u hu)
      · simp only [KeepsSessions, hgo, hat] at hkeeps
        rw [htable]
        exact knows_prune (hkeeps hrunning u hu) hp (hknown u hu p hp)
    have hnew : ∀ u ∈ done.task :: done.spawned, ∀ p ∈ u.session,
        done.shared.routingTable.knows p = true := by
      intro u hu p hp
      have hmem : p ∈ (done.task :: done.spawned).filterMap Task.session :=
        List.mem_filterMap.mpr ⟨u, hu, hp⟩
      rcases act_sessions hact hmem with hbefore | hentered | ⟨conn, hgo, rfl, hnone, rfl⟩
      · exact hold t hpicked.mem p hbefore
      · exact hentered
      · simp only [KeepsSessions, hgo, hat] at hkeeps
        rcases act_knows hact (hkeeps hnone) with hkept | ⟨-, ht⟩ | ⟨-, ht, -⟩
        · exact hkept
        · cases ht
        · cases ht
    exact hpicked.forall_mem hold (hnew _ List.mem_cons_self)
      fun u hu => hnew u (List.mem_cons_of_mem _ hu)

variable (ctx maxConnections) in
/-- In every run whose steps keep the peers of the sessions, the peer of every running message loop is
in the routing table. -/
theorem running_peers_known (node : NodeState) (schedule : List (ℕ × Label))
    (hkeeps : Meets (act ctx maxConnections) (KeepsSessions ctx) (start node) schedule) :
    ∀ p ∈ runningPeers (run (act ctx maxConnections) (start node) schedule),
      (run (act ctx maxConnections) (start node) schedule).shared.routingTable.knows p = true := by
  have hstart : SessionsKnown (start node) := by
    intro t ht p hp
    simp only [start, List.mem_cons, List.not_mem_nil, or_false] at ht
    rcases ht with rfl | rfl | rfl <;> cases hp
  have hknown := invariant_of_meets (fun _ _ hI hC => step_sessionsKnown hI hC) hstart hkeeps
  intro p hp
  obtain ⟨t, ht, hpeer⟩ := List.mem_filterMap.mp hp
  exact hknown t ht p (Task.session_of_loopPeer hpeer)

/-! ## Concrete runs -/

def hello : Handshake := handshakeOf "ab12cd34"

/-- A connection that becomes task `i`, up to its message loop, which becomes task `i + 1`. -/
def connects (i : ℕ) : List (ℕ × Label) :=
  [(0, .incoming (.sending hello)), (i, .go), (i, .go), (i, .go), (i, .go)]

def runOneHandshake (maxConnections : UInt64) (schedule : List (ℕ × Label)) : Server :=
  run (act (.reading hello) maxConnections) (start (.new .empty)) schedule

example : (runOneHandshake 1 (connects 3)).runningInbound = 1 := by decide +kernel

/-- `handle_connection` has returned, and the counter is back at zero, while the loop runs. -/
theorem connection_cap_exceeded :
    ¬ (runOneHandshake 1 (connects 3 ++ connects 5)).runningInbound ≤ (1 : UInt64).toNat := by
  decide +kernel

theorem removed_while_running :
    ¬ ∀ p ∈ (runOneHandshake 2 (connects 3 ++ connects 5 ++
        [(4, .ends false), (4, .go)])).runningPeers,
      (runOneHandshake 2 (connects 3 ++ connects 5 ++
        [(4, .ends false), (4, .go)])).shared.routingTable.knows p = true := by
  decide +kernel

theorem running_inbound_le_maxConnections_two :
    runningInbound (run (act (.reading hello) 2) (start (.new .empty)) (connects 3 ++ connects 5)) ≤
      (2 : UInt64).toNat :=
  running_inbound_le_maxConnections (.reading hello) 2 (.new .empty) (connects 3 ++ connects 5)
    (by decide +kernel)

theorem running_peers_known_afterPrune :
    (runningPeers (run (act (.reading hello) 2) (start (.new .empty)) (connects 3 ++ [(1, .go)]))).all
      (run (act (.reading hello) 2) (start (.new .empty))
        (connects 3 ++ [(1, .go)])).shared.routingTable.knows = true :=
  List.all_eq_true.mpr (running_peers_known (.reading hello) 2 (.new .empty)
    (connects 3 ++ [(1, .go)]) (by decide +kernel))

end Server

end DSearch
