import DSearch.Storage.Records
import DSearch.Trust.Sign

/-! # The routing table: `node/dht.rs`

Known peers by node id. The distance of two ids is the XOR of the first 32 bytes that both have. -/

namespace DSearch
set_option autoImplicit false

structure RoutingEntry where
  nodeId : String
  addr : String
  roles : List String
  lastSeen : ℕ
  deriving DecidableEq, Repr

def PEER_STALE_SECS : ℕ := 900

/-- Every two bytes that read as a number, others left out; a last single byte is left out too. -/
def hexToBytes : Bytes → Bytes
  | a :: b :: rest => (Sign.fromStrRadix16 [a, b]).toList ++ hexToBytes rest
  | _ => []

structure RoutingTable where
  buckets : Table RoutingEntry

namespace RoutingTable

def new : RoutingTable := ⟨∅⟩

def xorDistance (a b : String) : Bytes :=
  let aBytes := hexToBytes (asBytes a)
  let bBytes := hexToBytes (asBytes b)
  (List.range 32).map fun i =>
    match aBytes[i]?, bBytes[i]? with
    | some x, some y => x ^^^ y
    | _, _ => 0

variable (table : RoutingTable)

def insert (entry : RoutingEntry) : RoutingTable := ⟨table.buckets.insert entry.nodeId entry⟩

def remove (nodeId : String) : RoutingTable × Bool :=
  (⟨table.buckets.erase nodeId⟩, table.buckets.contains nodeId)

def list : List RoutingEntry := table.buckets.toList.map Prod.snd

/-- The `k` entries closest to a target: a stable sort by the distance, whose bytes are compared from
the first one on. -/
def findClosest (targetId : String) (k : ℕ) : List RoutingEntry :=
  (table.list.insertionSort fun a b =>
    xorDistance a.nodeId targetId ≤ xorDistance b.nodeId targetId).take k

def pruneStale (cutoffSecs now : ℕ) : RoutingTable × ℕ :=
  let stale := table.buckets.toList.filter fun row => now - row.2.lastSeen > cutoffSecs
  (⟨stale.foldl (fun buckets row => buckets.erase row.1) table.buckets⟩, stale.length)

def pruneDeadPeers (now : ℕ) : RoutingTable × ℕ := table.pruneStale PEER_STALE_SECS now

def knows (nodeId : String) : Bool := table.buckets[nodeId]?.isSome

theorem knows_insert (entry : RoutingEntry) (nodeId : String) :
    (table.insert entry).knows nodeId = (decide (entry.nodeId = nodeId) || table.knows nodeId) := by
  unfold knows insert
  rw [OrderedTable.get_insert]
  by_cases hid : entry.nodeId = nodeId <;> simp [hid]

theorem knows_remove (id nodeId : String) :
    (table.remove id).1.knows nodeId = (decide (id ≠ nodeId) && table.knows nodeId) := by
  unfold knows remove
  rw [OrderedTable.get_erase]
  by_cases hid : id = nodeId <;> simp [hid]

/-- A prune keeps the entries that it does not find stale. -/
theorem get_pruneStale (cutoffSecs now : ℕ) {nodeId : String} {entry : RoutingEntry}
    (hentry : table.buckets[nodeId]? = some entry) (hfresh : now - entry.lastSeen ≤ cutoffSecs) :
    (table.pruneStale cutoffSecs now).1.buckets[nodeId]? = some entry := by
  unfold pruneStale
  rw [OrderedTable.get_foldl_erase Prod.fst, if_neg, hentry]
  intro hmem
  obtain ⟨row, hrow, rfl⟩ := List.mem_map.mp hmem
  obtain ⟨hstored, hstale⟩ := List.mem_filter.mp hrow
  rw [← Prod.mk.eta (p := row), Std.ExtTreeMap.mem_toList_iff_getElem?_eq_some, hentry] at hstored
  obtain rfl := Option.some.inj hstored
  have hlt := of_decide_eq_true hstale
  omega

end RoutingTable

example : ((RoutingTable.new.insert ⟨"ff", "2", [], 0⟩).insert ⟨"01", "1", [], 0⟩).findClosest "00" 1 =
    [⟨"01", "1", [], 0⟩] := by decide +kernel

end DSearch
