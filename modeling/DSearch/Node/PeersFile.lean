import DSearch.Api.ConfigFiles
import DSearch.Foundations.Tasks
import DSearch.Node.Routing

/-! # The two writers of `peers.json`

The node writes its routing table after an update of it, under a mutex and from a listing that it reads
inside that lock. `POST /peers/add` reads the file, appends an entry and writes it back, with no lock.

Tasks take turns at single steps. The read guard of the table, which the source holds from the listing
to the end of the write, is left out: other tasks can update the table here in between. -/

namespace DSearch
set_option autoImplicit false
open Files Tasks ConfigFiles JsonText

structure PeersCodec extends JsonCodec where
  peerObject : RoutingEntry → Value

structure PeersCodec.Lawful (codec : PeersCodec) : Prop extends
    JsonCodec.Lawful codec.toJsonCodec where
  textField_peerObject : ∀ entry, codec.textField "addr" (codec.peerObject entry) = some entry.addr

/-- What the node does to its table before it writes the file. -/
inductive TableUpdate where
  | insert (entry : RoutingEntry)
  | remove (nodeId : String)
  | prune (now : ℕ)

/-- The table, and whether the file is written then: not after a prune of nothing. -/
def TableUpdate.apply (table : RoutingTable) : TableUpdate → RoutingTable × Bool
  | .insert entry => (table.insert entry, true)
  | .remove nodeId => ((table.remove nodeId).1, true)
  | .prune now => ((table.pruneDeadPeers now).1, (table.pruneDeadPeers now).2 > 0)

theorem TableUpdate.apply_unwritten {table : RoutingTable} {u : TableUpdate}
    (h : (u.apply table).2 = false) : (u.apply table).1 = table := by
  cases u with
  | insert entry => cases h
  | remove nodeId => cases h
  | prune now =>
    have hcount : (table.pruneDeadPeers now).2 = 0 := by
      have hle := of_decide_eq_false h
      omega
    unfold RoutingTable.pruneDeadPeers RoutingTable.pruneStale at hcount
    unfold TableUpdate.apply RoutingTable.pruneDeadPeers RoutingTable.pruneStale
    dsimp only at hcount ⊢
    rw [List.length_eq_zero_iff.mp hcount]
    rfl

namespace PeersFile

/-- `updates` counts the updates that the file is written after. -/
structure Peers where
  table : RoutingTable
  file : ConfigFile
  locked : Bool
  updates : ℕ

/-- A task of the node between two updates, with the mutex to take, with the mutex taken, with the table
listed, and with the file written; a request, one that has read the file, and one that is answered. -/
inductive PeersTask (Value : Type) where
  | node (todo : List TableUpdate)
  | changed (todo : List TableUpdate)
  | locked (todo : List TableUpdate)
  | listed (todo : List TableUpdate) (entries : List RoutingEntry)
  | wrote (todo : List TableUpdate)
  | request (body : String)
  | adding (addr : String) (peers : List Value)
  | answered (resp : HttpResponse)

section
variable (codec : PeersCodec) (nodeId : String)

/-- The text of `write_peers_file`. -/
def peersText (entries : List RoutingEntry) : String :=
  (codec.toStringPretty (entries.map codec.peerObject)).toOption.getD ""

def writeFile (w : FileWrite ConfigFile) (text : String) : ConfigFile :=
  match w with
  | .written => .text text
  | .failed _ left => left

/-- `handle_add_peer` from where it has the address. The write is not looked at. -/
def addPeer (addr : String) : Update ConfigFile (List codec.Value) HttpResponse where
  load file := .ok (ConfigFile.loadOr codec.arrayFromStr [] file)
  ends _ := none
  change peers := peers ++ [codec.textObject "addr" addr]
  serialize peers :=
    match codec.toStringPretty peers with
    | .ok text => .ok (.text text)
    | .error _ => .error (okReply nodeId [("added", ofString addr)])
  written := okReply nodeId [("added", ofString addr)]
  notWritten _ := okReply nodeId [("added", ofString addr)]

def handleAddPeer (body : String) (w : FileWrite ConfigFile) (file : ConfigFile) :
    ConfigFile × HttpResponse :=
  match bodyField codec.toJsonCodec "addr" body with
  | .error resp => (file, resp)
  | .ok addr => (addPeer codec nodeId addr).run w file

/-- One step of a task; a write ends as the label says. -/
def peersStep (w : FileWrite ConfigFile) (s : Peers) :
    PeersTask codec.Value → Option (Acted Peers (PeersTask codec.Value))
  | .node [] => none
  | .node (u :: todo) =>
    if (u.apply s.table).2 = true then
      some ⟨{ s with table := (u.apply s.table).1, updates := s.updates + 1 }, .changed todo, []⟩
    else some ⟨{ s with table := (u.apply s.table).1 }, .node todo, []⟩
  | .changed todo =>
    if s.locked = true then none else some ⟨{ s with locked := true }, .locked todo, []⟩
  | .locked todo => some ⟨s, .listed todo s.table.list, []⟩
  | .listed todo entries =>
    some ⟨{ s with file := writeFile w (peersText codec entries) }, .wrote todo, []⟩
  | .wrote todo => some ⟨{ s with locked := false }, .node todo, []⟩
  | .request body =>
    match bodyField codec.toJsonCodec "addr" body with
    | .error resp => some ⟨s, .answered resp, []⟩
    | .ok addr =>
      match (addPeer codec nodeId addr).read s.file with
      | .error resp => some ⟨s, .answered resp, []⟩
      | .ok peers => some ⟨s, .adding addr peers, []⟩
  | .adding addr peers =>
    let wrote := (addPeer codec nodeId addr).write w peers s.file
    some ⟨{ s with file := wrote.1 }, .answered wrote.2, []⟩
  | .answered _ => none

variable {codec nodeId}

theorem arrayFromStr_peersText (hjson : codec.toJsonCodec.Lawful) (entries : List RoutingEntry) :
    codec.arrayFromStr (peersText codec entries) = .ok (entries.map codec.peerObject) := by
  obtain ⟨text, htext, hparse⟩ := hjson.roundTrips (entries.map codec.peerObject)
  rw [peersText, htext]
  exact hparse

/-! ## The node alone -/

/-- The file lists what the table lists. -/
def Agrees (codec : PeersCodec) (s : Peers) : Prop :=
  ∃ text, s.file = .text text ∧
    codec.arrayFromStr text = .ok (s.table.list.map codec.peerObject)

namespace PeersTask
variable {Value : Type}

def ofNode : PeersTask Value → Bool
  | .request _ | .adding _ _ | .answered _ => false
  | _ => true

def idle : PeersTask Value → Bool
  | .node _ => true
  | _ => false

def holdsMutex : PeersTask Value → Bool
  | .locked _ | .listed _ _ | .wrote _ => true
  | _ => false

/-- The task has still to list the table. -/
def willList : PeersTask Value → Bool
  | .changed _ | .locked _ => true
  | _ => false

def hasListed : PeersTask Value → Bool
  | .listed _ _ => true
  | _ => false

/-- The next step of the task writes the file. -/
def writes : PeersTask Value → Bool
  | .listed _ _ | .adding _ _ => true
  | _ => false

theorem holdsMutex_of_hasListed {t : PeersTask Value} (h : t.hasListed = true) :
    t.holdsMutex = true := by
  cases t <;> first | rfl | cases h

end PeersTask

/-- Where the current table is: still to be listed, listed, in the file, or as it was at the start. -/
inductive Published (codec : PeersCodec) (start : Peers) (sys : System Peers (PeersTask codec.Value)) :
    Prop
  | pending (t : PeersTask codec.Value) (ht : t ∈ sys.tasks) (hwill : t.willList = true)
  | listed (todo : List TableUpdate) (ht : .listed todo sys.shared.table.list ∈ sys.tasks)
  | written (hagrees : Agrees codec sys.shared) (hnone : ∀ t ∈ sys.tasks, t.hasListed = false)
  | untouched (hupdates : sys.shared.updates = 0) (hfile : sys.shared.file = start.file)
      (htable : sys.shared.table = start.table) (hidle : ∀ t ∈ sys.tasks, t.idle = true)

structure Converging (codec : PeersCodec) (start : Peers)
    (sys : System Peers (PeersTask codec.Value)) : Prop where
  nodes : ∀ t ∈ sys.tasks, t.ofNode = true
  mutex : sys.tasks.countP PeersTask.holdsMutex = if sys.shared.locked = true then 1 else 0
  published : Published codec start sys

/-- A step that lists nothing and writes nothing leaves the table where it is. -/
theorem Published.step_other {start : Peers} {sys : System Peers (PeersTask codec.Value)}
    {pick : ℕ × FileWrite ConfigFile} {before after : List (PeersTask codec.Value)}
    {t t' : PeersTask codec.Value} {s' : Peers} (h : Published codec start sys)
    (hpicked : Picked sys pick before t after) (hfile : s'.file = sys.shared.file)
    (htable : s'.table = sys.shared.table) (hupdates : s'.updates = sys.shared.updates)
    (hwill : t.willList = true → t'.willList = true) (hlisted : t.hasListed = false)
    (hlisted' : t'.hasListed = false) (hidle : t.idle = true → t'.idle = true) :
    Published codec start ⟨s', before ++ t' :: after ++ []⟩ := by
  cases h with
  | pending u hu huwill =>
    by_cases hut : u = t
    · subst hut
      exact .pending t' (Picked.mem_new _ _ _ _) (hwill huwill)
    · exact .pending u (hpicked.mem_other hu hut _ _) huwill
  | listed todo hu =>
    refine .listed todo ?_
    rw [htable]
    refine hpicked.mem_other hu ?_ _ _
    rintro rfl
    cases hlisted
  | written hagrees hnone =>
    refine .written ?_ (hpicked.forall_mem hnone hlisted' (by simp))
    unfold Agrees at hagrees ⊢
    rw [hfile, htable]
    exact hagrees
  | untouched hcount hstart htstart hall =>
    exact .untouched (hupdates.trans hcount) (hfile.trans hstart) (htable.trans htstart)
      (hpicked.forall_mem hall (hidle (hall t hpicked.mem)) (by simp))

/-- With one holder of the mutex, no task but that one has listed the table. -/
theorem Converging.others_unlisted {start : Peers} {sys : System Peers (PeersTask codec.Value)}
    {pick : ℕ × FileWrite ConfigFile} {before after : List (PeersTask codec.Value)}
    {t t' : PeersTask codec.Value} (h : Converging codec start sys)
    (hpicked : Picked sys pick before t after) (hholds : t.holdsMutex = true)
    (hlisted' : t'.hasListed = false) :
    ∀ u ∈ before ++ t' :: after ++ [], u.hasListed = false := by
  have hcount : sys.tasks.countP PeersTask.holdsMutex ≤ 1 := by
    rw [h.mutex]
    split <;> omega
  rw [hpicked.tasks, List.countP_append, List.countP_cons_of_pos hholds] at hcount
  have hnone : ∀ list : List (PeersTask codec.Value), list.countP PeersTask.holdsMutex = 0 →
      ∀ u ∈ list, u.hasListed = false := by
    intro list hlist u hu
    by_contra hlisted
    exact List.countP_eq_zero.mp hlist u hu
      (PeersTask.holdsMutex_of_hasListed (Bool.eq_true_of_not_eq_false hlisted))
  intro u hu
  rw [List.append_nil] at hu
  rcases List.mem_append.mp hu with hu | hu
  · exact hnone before (by omega) u hu
  · rcases List.mem_cons.mp hu with rfl | hu
    · exact hlisted'
    · exact hnone after (by omega) u hu

/-- The step: what each action of a task of the node does. -/
theorem Converging.step (hjson : codec.toJsonCodec.Lawful) {start : Peers}
    {sys : System Peers (PeersTask codec.Value)} (h : Converging codec start sys)
    {pick : ℕ × FileWrite ConfigFile} (hwritten : pick.2 = .written) :
    Converging codec start (step (peersStep codec nodeId) sys pick) := by
  rcases acts (peersStep codec nodeId) sys pick with hsame |
    ⟨before, t, after, done, hpicked, hact, hstep⟩
  · rw [hsame]
    exact h
  rw [hstep]
  have hnode := h.nodes t hpicked.mem
  have hsame : ∀ {t' : PeersTask codec.Value}, t'.holdsMutex = t.holdsMutex →
      (before ++ t' :: after ++ []).countP PeersTask.holdsMutex =
        if sys.shared.locked = true then 1 else 0 :=
    fun ht' => (hpicked.countP_congr ht').trans h.mutex
  cases t with
  | node todo =>
    cases todo with
    | nil => cases hact
    | cons u todo =>
      unfold peersStep at hact
      dsimp only at hact
      split at hact
      next hwrites =>
        obtain rfl := Option.some.inj hact
        exact ⟨hpicked.forall_mem h.nodes rfl (by simp), hsame rfl,
          .pending (.changed todo) (Picked.mem_new _ _ _ _) rfl⟩
      next hquiet =>
        obtain rfl := Option.some.inj hact
        have htable := TableUpdate.apply_unwritten (Bool.eq_false_iff.mpr hquiet)
        exact ⟨hpicked.forall_mem h.nodes rfl (by simp), hsame rfl,
          h.published.step_other hpicked rfl htable rfl (fun hw => hw) rfl rfl fun _ => rfl⟩
  | changed todo =>
    unfold peersStep at hact
    dsimp only at hact
    split at hact
    next => cases hact
    next hfree =>
      obtain rfl := Option.some.inj hact
      refine ⟨hpicked.forall_mem h.nodes rfl (by simp), ?_,
        .pending (.locked todo) (Picked.mem_new _ _ _ _) rfl⟩
      have hsum : _ + 0 = _ + 1 + 0 := hpicked.countP (p := PeersTask.holdsMutex) (.locked todo) []
      rw [h.mutex, if_neg hfree] at hsum
      dsimp only
      rw [if_pos rfl]
      omega
  | locked todo =>
    obtain rfl := Option.some.inj hact
    exact ⟨hpicked.forall_mem h.nodes rfl (by simp), hsame rfl,
      .listed todo (Picked.mem_new _ _ _ _)⟩
  | listed todo entries =>
    obtain rfl := Option.some.inj hact
    refine ⟨hpicked.forall_mem h.nodes rfl (by simp), hsame rfl, ?_⟩
    cases h.published with
    | pending u hu hwill =>
      refine .pending u (hpicked.mem_other hu ?_ _ _) hwill
      rintro rfl
      cases hwill
    | listed todo' hu =>
      by_cases hut : (.listed todo' sys.shared.table.list : PeersTask codec.Value) = .listed todo entries
      · -- The current table goes into the file, and nobody holds an older listing.
        obtain ⟨-, rfl⟩ := PeersTask.listed.inj hut
        refine .written ⟨_, ?_, arrayFromStr_peersText hjson _⟩ (h.others_unlisted hpicked rfl rfl)
        rw [hwritten]
        rfl
      · exact .listed todo' (hpicked.mem_other hu hut _ _)
    | written hagrees hnone => cases hnone _ hpicked.mem
    | untouched _ _ _ hidle => cases hidle _ hpicked.mem
  | wrote todo =>
    obtain rfl := Option.some.inj hact
    refine ⟨hpicked.forall_mem h.nodes rfl (by simp), ?_,
      h.published.step_other hpicked rfl rfl rfl (fun hw => hw) rfl rfl fun _ => rfl⟩
    have hsum : _ + 1 = _ + 0 + 0 := hpicked.countP (p := PeersTask.holdsMutex) (.node todo) []
    have hheld : sys.tasks.countP PeersTask.holdsMutex ≤ 1 := by
      rw [h.mutex]
      split <;> omega
    dsimp only
    rw [if_neg Bool.false_ne_true]
    omega
  | request body => cases hnode
  | adding addr peers => cases hnode
  | answered resp => cases hnode

end

/-- Tasks of the node that have taken all their steps, in any order, leave a file that lists the final
routing table: if a task has written it, or if it did at the start. -/
theorem peers_file_converges (codec : PeersCodec) (hjson : codec.toJsonCodec.Lawful) (nodeId : String)
    (table : RoutingTable) (file : ConfigFile) (todos : List (List TableUpdate))
    (schedule : List (ℕ × FileWrite ConfigFile)) (hwrites : ∀ pick ∈ schedule, pick.2 = .written)
    (final : System Peers (PeersTask codec.Value))
    (hfinal : final = run (peersStep codec nodeId) ⟨⟨table, file, false, 0⟩, todos.map .node⟩ schedule)
    (hfinished : ∀ t ∈ final.tasks, t = .node [])
    (hupdated : 0 < final.shared.updates ∨ Agrees codec ⟨table, file, false, 0⟩) :
    Agrees codec final.shared := by
  have hstart : Converging codec ⟨table, file, false, 0⟩
      (⟨⟨table, file, false, 0⟩, todos.map .node⟩ : System Peers (PeersTask codec.Value)) := by
    refine ⟨fun t ht => ?_, ?_, .untouched rfl rfl rfl fun t ht => ?_⟩
    · obtain ⟨todo, -, rfl⟩ := List.mem_map.mp ht
      rfl
    · rw [if_neg Bool.false_ne_true, List.countP_eq_zero]
      intro t ht
      obtain ⟨todo, -, rfl⟩ := List.mem_map.mp ht
      exact Bool.false_ne_true
    · obtain ⟨todo, -, rfl⟩ := List.mem_map.mp ht
      rfl
  have hrun : Converging codec ⟨table, file, false, 0⟩ final := by
    rw [hfinal]
    exact invariant_of_meets (fun sys pick hsys hpick => hsys.step hjson hpick) hstart
      (meets_of_forall (C := fun pick => pick.2 = .written) hwrites _)
  cases hrun.published with
  | pending t ht hwill =>
    rw [hfinished t ht] at hwill
    cases hwill
  | listed todo ht => cases hfinished _ ht
  | written hagrees _ => exact hagrees
  | untouched hupdates hfile htable _ =>
    rcases hupdated with hpos | hagrees
    · omega
    · unfold Agrees at hagrees ⊢
      rw [hfile, htable]
      exact hagrees

/-! ## A peer that is added -/

/-- The file lists a peer with this address. -/
def ListsAddr (codec : PeersCodec) (addr : String) (file : ConfigFile) : Prop :=
  ∃ v ∈ ConfigFile.loadOr codec.arrayFromStr [] file, codec.textField "addr" v = some addr

/-- A write leaves a file with the address in it. The node writes its listing of the table; a request
that reads before, as those in `early` do, writes what it read then, and its own address. -/
def WriteLists (codec : PeersCodec) (addr : String) (early : ℕ → Prop)
    (sys : System Peers (PeersTask codec.Value)) (pick : ℕ × FileWrite ConfigFile) : Prop :=
  match sys.tasks[pick.1]?, pick.2 with
  | some (.listed _ entries), .written => ∃ e ∈ entries, e.addr = addr
  | some (.adding addr' peers), .written =>
    early pick.1 → addr' = addr ∨ ∃ v ∈ peers, codec.textField "addr" v = some addr
  | some (.listed _ _), .failed _ left => ListsAddr codec addr left
  | some (.adding _ _), .failed _ left => ListsAddr codec addr left
  | _, _ => True

/-- The requests that have read the file and not yet written it. -/
def reading {Value : Type} (sys : System Peers (PeersTask Value)) (i : ℕ) : Prop :=
  ∃ addr peers, sys.tasks[i]? = some (.adding addr peers)

/-- A request that reads the file late finds the address in it. -/
def LateReads (codec : PeersCodec) (addr : String) (early : ℕ → Prop)
    (sys : System Peers (PeersTask codec.Value)) : Prop :=
  ∀ i addr' peers, sys.tasks[i]? = some (.adding addr' peers) → ¬ early i →
    ∃ v ∈ peers, codec.textField "addr" v = some addr

section
variable {codec : PeersCodec} {nodeId addr : String}

theorem listsAddr_peersText (hjson : codec.Lawful) (entries : List RoutingEntry) :
    ListsAddr codec addr (.text (peersText codec entries)) ↔ ∃ e ∈ entries, e.addr = addr := by
  unfold ListsAddr ConfigFile.loadOr
  dsimp only
  rw [arrayFromStr_peersText hjson.toLawful]
  simp [Except.toOption, hjson.textField_peerObject]

theorem addPeer_read (addr' : String) (file : ConfigFile) :
    (addPeer codec nodeId addr').read file = .ok (ConfigFile.loadOr codec.arrayFromStr [] file) := rfl

theorem addPeer_write (hjson : codec.toJsonCodec.Lawful) (nodeId addr' : String)
    (w : FileWrite ConfigFile) (peers : List codec.Value) (file : ConfigFile) :
    ∃ text, codec.arrayFromStr text = .ok (peers ++ [codec.textObject "addr" addr']) ∧
      (addPeer codec nodeId addr').write w peers file =
        (writeFile w text, okReply nodeId [("added", ofString addr')]) := by
  obtain ⟨text, htext, hparse⟩ := hjson.roundTrips (peers ++ [codec.textObject "addr" addr'])
  refine ⟨text, hparse, ?_⟩
  unfold addPeer Update.write
  dsimp only
  rw [htext]
  cases w <;> rfl

theorem listsAddr_addPeer_write (hjson : codec.toJsonCodec.Lawful) (addr' : String)
    (peers : List codec.Value) (file : ConfigFile) :
    ListsAddr codec addr ((addPeer codec nodeId addr').write .written peers file).1 ↔
      addr' = addr ∨ ∃ v ∈ peers, codec.textField "addr" v = some addr := by
  obtain ⟨text, hparse, hwrite⟩ := addPeer_write hjson nodeId addr' .written peers file
  rw [hwrite]
  unfold ListsAddr ConfigFile.loadOr writeFile
  dsimp only
  rw [hparse]
  simp only [Except.toOption, Option.getD_some, List.mem_append, List.mem_singleton, or_and_right,
    exists_or, exists_eq_left, hjson.textField_textObject, Option.some.injEq]
  exact or_comm

theorem peersStep_spawned {w : FileWrite ConfigFile} {s : Peers} {t : PeersTask codec.Value}
    {done : Acted Peers (PeersTask codec.Value)} (h : peersStep codec nodeId w s t = some done) :
    done.spawned = [] := by
  unfold peersStep at h
  grind

theorem peersStep_file {w : FileWrite ConfigFile} {s : Peers} {t : PeersTask codec.Value}
    {done : Acted Peers (PeersTask codec.Value)} (h : peersStep codec nodeId w s t = some done)
    (hquiet : t.writes = false) : done.shared.file = s.file := by
  unfold peersStep at h
  grind [PeersTask.writes]

theorem read_of_adding {w : FileWrite ConfigFile} {s : Peers} {t : PeersTask codec.Value}
    {done : Acted Peers (PeersTask codec.Value)} (h : peersStep codec nodeId w s t = some done)
    {addr' : String} {peers : List codec.Value} (hdone : done.task = .adding addr' peers) :
    peers = ConfigFile.loadOr codec.arrayFromStr [] s.file := by
  unfold peersStep at h
  grind [addPeer_read]

section
variable {early : ℕ → Prop} {sys : System Peers (PeersTask codec.Value)}
  {pick : ℕ × FileWrite ConfigFile}

/-- A request that writes. -/
theorem listsAddr_step_adding (hjson : codec.Lawful) {addr' : String} {peers : List codec.Value}
    (htask : sys.tasks[pick.1]? = some (.adding addr' peers))
    (hread : early pick.1 ∨ ∃ v ∈ peers, codec.textField "addr" v = some addr) :
    ListsAddr codec addr (step (peersStep codec nodeId) sys pick).shared.file ↔
      WriteLists codec addr early sys pick := by
  obtain ⟨i, w⟩ := pick
  unfold WriteLists step
  dsimp only at htask hread ⊢
  rw [htask]
  unfold peersStep
  dsimp only
  cases w with
  | written =>
    rw [listsAddr_addPeer_write hjson.toLawful]
    dsimp only
    constructor
    · exact fun h _ => h
    · intro h
      cases hread with
      | inl hearly => exact h hearly
      | inr hlisted => exact .inr hlisted
  | failed reason left =>
    obtain ⟨text, -, hwrite⟩ :=
      addPeer_write hjson.toLawful nodeId addr' (.failed reason left) peers sys.shared.file
    rw [hwrite]
    rfl

theorem step_file_of_quiet {t : PeersTask codec.Value} (htask : sys.tasks[pick.1]? = some t)
    (hquiet : t.writes = false) :
    (step (peersStep codec nodeId) sys pick).shared.file = sys.shared.file := by
  unfold step
  rw [htask]
  dsimp only
  split
  next => rfl
  next done hact => exact peersStep_file hact hquiet

/-- One step, of any task: the file goes on listing the address exactly when a write does. -/
theorem listsAddr_step (hjson : codec.Lawful) (hlate : LateReads codec addr early sys)
    (hlists : ListsAddr codec addr sys.shared.file) :
    ListsAddr codec addr (step (peersStep codec nodeId) sys pick).shared.file ↔
      WriteLists codec addr early sys pick := by
  cases htask : sys.tasks[pick.1]? with
  | none => simp [step, WriteLists, htask, hlists]
  | some t =>
    cases hwrites : t.writes with
    | false =>
      have hquiet : WriteLists codec addr early sys pick := by
        unfold WriteLists
        rw [htask]
        cases t <;> trivial
      rw [step_file_of_quiet htask hwrites]
      exact ⟨fun _ => hquiet, fun _ => hlists⟩
    | true =>
      cases t with
      | listed todo entries =>
        obtain ⟨i, w⟩ := pick
        unfold WriteLists step
        dsimp only at htask ⊢
        rw [htask]
        cases w with
        | written => exact listsAddr_peersText hjson entries
        | failed reason left => rfl
      | adding addr' peers =>
        exact listsAddr_step_adding hjson htask
          (or_iff_not_imp_left.mpr (hlate pick.1 addr' peers htask))
      | _ => cases hwrites

/-- A request reads from a file that lists the address. -/
theorem lateReads_step (hlate : LateReads codec addr early sys)
    (hlists : ListsAddr codec addr sys.shared.file) :
    LateReads codec addr early (step (peersStep codec nodeId) sys pick) := by
  intro i addr' peers htask hearly
  rcases step_getElem?_cases htask with hbefore | ⟨t, done, -, hact, ⟨-, hnew⟩ | hspawned⟩
  · exact hlate i addr' peers hbefore hearly
  · rw [read_of_adding hact hnew.symm]
    exact hlists
  · rw [peersStep_spawned hact] at hspawned
    cases hspawned

end

end

/-- A request that is about to add a peer answers ok, however its write ends. The peer stays listed
after each of any later steps exactly when the writes list it: this one, the later ones of the node, and
those of the requests that have read the file by now. -/
theorem added_peer_stays_iff (codec : PeersCodec) (hjson : codec.Lawful) (nodeId : String)
    (sys : System Peers (PeersTask codec.Value)) (i : ℕ) (addr : String) (peers : List codec.Value)
    (htask : sys.tasks[i]? = some (.adding addr peers)) (w : FileWrite ConfigFile)
    (later : List (ℕ × FileWrite ConfigFile)) :
    (step (peersStep codec nodeId) sys (i, w)).tasks[i]? =
        some (.answered (okReply nodeId [("added", ofString addr)])) ∧
      ((∀ k, ListsAddr codec addr (run (peersStep codec nodeId)
          (step (peersStep codec nodeId) sys (i, w)) (later.take k)).shared.file) ↔
        Meets (peersStep codec nodeId) (WriteLists codec addr (reading sys)) sys ((i, w) :: later)) := by
  have hfirst : ListsAddr codec addr (step (peersStep codec nodeId) sys (i, w)).shared.file ↔
      WriteLists codec addr (reading sys) sys (i, w) :=
    listsAddr_step_adding hjson htask (.inl ⟨addr, peers, htask⟩)
  have hlate : LateReads codec addr (reading sys) (step (peersStep codec nodeId) sys (i, w)) := by
    intro j addr' peers' hj hearly
    rcases step_getElem?_cases hj with hbefore | ⟨t, done, ht, hact, hnew⟩
    · exact absurd ⟨addr', peers', hbefore⟩ hearly
    · obtain rfl := Option.some.inj (htask.symm.trans ht)
      obtain rfl := Option.some.inj hact
      rcases hnew with ⟨-, hnew⟩ | hnew
      · cases hnew
      · cases hnew
  have hrun := fun hlists => forall_take_iff_meets (peersStep codec nodeId)
    (P := fun sys => ListsAddr codec addr sys.shared.file)
    (fun _ _ hlate hlists => lateReads_step hlate hlists)
    (fun _ _ hlate hlists => listsAddr_step hjson hlate hlists) hlate hlists later
  refine ⟨?_, fun h => ⟨hfirst.mp (h 0), (hrun (h 0)).mp h⟩, fun h => ?_⟩
  · obtain ⟨text, -, hwrite⟩ :=
      addPeer_write hjson.toLawful nodeId addr w peers sys.shared.file
    obtain ⟨hlt, -⟩ := List.getElem?_eq_some_iff.mp htask
    unfold step
    dsimp only
    rw [htask]
    unfold peersStep
    dsimp only
    rw [hwrite, List.append_nil, List.getElem?_set_self hlt]
  · exact (hrun (hfirst.mpr h.1)).mpr h.2

section
open KeyStore

/-- A peer is an object of its address. -/
def numberPeers : PeersCodec where
  toJsonCodec := numberJson
  peerObject entry := numberJson.textObject "addr" entry.addr

theorem numberPeers_lawful : numberPeers.Lawful where
  toLawful := numberJson_lawful
  textField_peerObject entry := numberJson_lawful.textField_textObject "addr" entry.addr

def somePeer : RoutingEntry := ⟨"ab", "1.2.3.4:9000", ["node"], 5⟩

/-- The steps of task `i` from an update of the table to the end of its write. -/
def updateSteps (i : ℕ) : List (ℕ × FileWrite ConfigFile) := List.replicate 5 (i, .written)

theorem run_insert (codec : PeersCodec) (nodeId : String) (entry : RoutingEntry) (file : ConfigFile)
    (before : List (PeersTask codec.Value)) :
    run (peersStep codec nodeId) ⟨⟨.new, file, false, 0⟩, before ++ [.node [.insert entry]]⟩
        (updateSteps before.length) =
      ⟨⟨.insert .new entry, .text (peersText codec [entry]), false, 1⟩, before ++ [.node []]⟩ := by
  simp [updateSteps, List.replicate, step, peersStep, TableUpdate.apply]
  rfl

theorem exists_body (addr : String) : ∃ body, bodyField numberJson "addr" body = .ok addr := by
  have hid : ∀ value : List (List ℕ × List ℕ), id (id value) = value := fun _ => rfl
  obtain ⟨body, -, hparse⟩ := parseNumber_numberText hid [(textCode "addr", textCode addr)]
  refine ⟨body, ?_⟩
  have hbody : numberJson.fromStr body = .ok (numberJson.textObject "addr" addr) := hparse
  rw [bodyField, hbody]
  dsimp only
  rw [numberJson_lawful.textField_textObject]

theorem run_add (codec : PeersCodec) (hjson : codec.toJsonCodec.Lawful) (nodeId : String)
    {body addr : String} (hbody : bodyField codec.toJsonCodec "addr" body = .ok addr) (s : Peers)
    (tasks : List (PeersTask codec.Value)) :
    ∃ text, run (peersStep codec nodeId) ⟨s, .request body :: tasks⟩ [(0, .written), (0, .written)] =
      ⟨{ s with file := .text text },
        .answered (okReply nodeId [("added", ofString addr)]) :: tasks⟩ := by
  obtain ⟨text, -, hwrite⟩ := addPeer_write hjson nodeId addr .written
    (ConfigFile.loadOr codec.arrayFromStr [] s.file) s.file
  refine ⟨text, ?_⟩
  simp [step, peersStep, hbody, addPeer_read, hwrite, writeFile]

theorem peers_file_converges_handshake :
    Agrees numberPeers (run (peersStep numberPeers "n")
      ⟨⟨.new, .missing, false, 0⟩, [[.insert somePeer]].map .node⟩ (updateSteps 0)).shared := by
  have hrun : run (peersStep numberPeers "n")
      ⟨⟨.new, .missing, false, 0⟩, [[.insert somePeer]].map .node⟩ (updateSteps 0) =
      ⟨⟨.insert .new somePeer, .text (peersText numberPeers [somePeer]), false, 1⟩, [.node []]⟩ :=
    run_insert numberPeers "n" somePeer .missing []
  refine peers_file_converges numberPeers numberJson_lawful "n" .new .missing [[.insert somePeer]]
    (updateSteps 0) (by simp [updateSteps]) _ rfl ?_ (.inl ?_)
  · rw [hrun]
    exact fun t ht => List.mem_singleton.mp ht
  · rw [hrun]
    exact Nat.one_pos

/-- The peer that a request is about to add, with no other task. -/
def onlyAdding : System Peers (PeersTask numberPeers.Value) :=
  ⟨⟨.new, .missing, false, 0⟩, [.adding "1.2.3.4:9000" []]⟩

theorem added_peer_stays_iff_alone :
    (step (peersStep numberPeers "n") onlyAdding (0, .written)).tasks[0]? =
        some (.answered (okReply "n" [("added", ofString "1.2.3.4:9000")])) ∧
      ∀ k, ListsAddr numberPeers "1.2.3.4:9000" (run (peersStep numberPeers "n")
        (step (peersStep numberPeers "n") onlyAdding (0, .written))
        (([] : List (ℕ × FileWrite ConfigFile)).take k)).shared.file := by
  have hstays := added_peer_stays_iff numberPeers numberPeers_lawful "n" onlyAdding 0 "1.2.3.4:9000" []
    rfl .written []
  exact ⟨hstays.1, hstays.2.mpr ⟨fun _ => .inl rfl, trivial⟩⟩

/-- A handshake comes after the answer: the node writes its table, where the added peer is not. -/
theorem added_peer_lost :
    ¬ ∀ (codec : PeersCodec), codec.Lawful → ∀ (nodeId body addr : String),
      bodyField codec.toJsonCodec "addr" body = .ok addr →
      ∀ (table : RoutingTable) (file : ConfigFile) (todos : List (List TableUpdate))
        (schedule later : List (ℕ × FileWrite ConfigFile)),
      (run (peersStep codec nodeId) ⟨⟨table, file, false, 0⟩, .request body :: todos.map .node⟩
        schedule).tasks[0]? = some (.answered (okReply nodeId [("added", ofString addr)])) →
      ListsAddr codec addr (run (peersStep codec nodeId) (run (peersStep codec nodeId)
        ⟨⟨table, file, false, 0⟩, .request body :: todos.map .node⟩ schedule) later).shared.file := by
  intro h
  obtain ⟨body, hbody⟩ := exists_body "5.6.7.8:9000"
  obtain ⟨text, hadd⟩ := run_add numberPeers numberJson_lawful "n" hbody
    ⟨.new, .missing, false, 0⟩ [.node [.insert somePeer]]
  have hlists := h numberPeers numberPeers_lawful "n" body "5.6.7.8:9000" hbody .new .missing
    [[.insert somePeer]] [(0, .written), (0, .written)] (updateSteps 1)
  rw [List.map_singleton, hadd] at hlists
  have hrun := run_insert numberPeers "n" somePeer (.text text)
    [.answered (okReply "n" [("added", ofString "5.6.7.8:9000")])]
  rw [List.singleton_append, List.length_singleton] at hrun
  rw [hrun] at hlists
  obtain ⟨e, he, haddr⟩ := (listsAddr_peersText numberPeers_lawful _).mp (hlists rfl)
  obtain rfl := List.mem_singleton.mp he
  exact absurd haddr (by decide)

end

end PeersFile

end DSearch
