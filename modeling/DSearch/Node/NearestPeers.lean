import DSearch.Foundations.Nearest
import DSearch.Node.PeersFile
import DSearch.Storage.Signatures

/-! # The nearest peers: `find_closest` of `node/dht.rs`

Between ids of 64 lower-case hexadecimal digits the XOR distance to a target tells the ids apart, so
`find_closest` answers with the `k` nearest entries, whatever the order in which they came. -/

namespace DSearch
set_option autoImplicit false
open Ranked Sign

/-! ## Node ids as bytes -/

def IsHexDigit (c : Char) : Prop := ('0' ≤ c ∧ c ≤ '9') ∨ ('a' ≤ c ∧ c ≤ 'f')

instance (c : Char) : Decidable (IsHexDigit c) := inferInstanceAs (Decidable (_ ∨ _))

/-- 64 lower-case hexadecimal digits. -/
def IsNodeId (id : String) : Prop := id.toList.length = 64 ∧ ∀ c ∈ id.toList, IsHexDigit c

instance (id : String) : Decidable (IsNodeId id) := inferInstanceAs (Decidable (_ ∧ _))

theorem exists_hexChar {c : Char} (h : IsHexDigit c) : ∃ n < 16, hexChar n = c := by
  have hdigits : ∀ n < 10, (hexChar n).toNat = 48 + n := by decide
  have hletters : ∀ n < 6, (hexChar (10 + n)).toNat = 97 + n := by decide
  rcases h with ⟨hlow, hhigh⟩ | ⟨hlow, hhigh⟩
  · have hmin : 48 ≤ c.toNat := hlow
    have hmax : c.toNat ≤ 57 := hhigh
    refine ⟨c.toNat - 48, by omega, Char.toNat_inj.mp ?_⟩
    rw [hdigits _ (by omega)]
    omega
  · have hmin : 97 ≤ c.toNat := hlow
    have hmax : c.toNat ≤ 102 := hhigh
    refine ⟨10 + (c.toNat - 97), by omega, Char.toNat_inj.mp ?_⟩
    rw [hletters _ (by omega)]
    omega

/-- A text of `2 * n` digits is the text of `n` bytes. -/
theorem exists_toHex {cs : List Char} {n : ℕ} (hlength : cs.length = 2 * n)
    (hdigits : ∀ c ∈ cs, IsHexDigit c) :
    ∃ bytes : Bytes, bytes.length = n ∧ String.ofList cs = toHex bytes := by
  induction n generalizing cs with
  | zero =>
    obtain rfl := List.eq_nil_of_length_eq_zero hlength
    exact ⟨[], rfl, rfl⟩
  | succ n ih =>
    match cs, hlength with
    | high :: low :: cs, hlength =>
      obtain ⟨m, hm, rfl⟩ := exists_hexChar (hdigits high (by simp))
      obtain ⟨k, hk, rfl⟩ := exists_hexChar (hdigits low (by simp))
      have hrest : ∀ c ∈ cs, IsHexDigit c := by
        intro c hc
        exact hdigits c (by simp [hc])
      obtain ⟨bytes, hbytes, htext⟩ := ih (by simp at hlength; omega) hrest
      refine ⟨UInt8.ofNat (16 * m + k) :: bytes, by simp [hbytes], ?_⟩
      have hvalue : (UInt8.ofNat (16 * m + k)).toNat = 16 * m + k := by
        rw [UInt8.toNat_ofNat', Nat.mod_eq_of_lt (by omega)]
      have hfirst : (16 * m + k) / 16 = m := by omega
      have hsecond : (16 * m + k) % 16 = k := by omega
      rw [toHex, String.ofList_inj] at htext
      rw [toHex, String.ofList_inj, List.flatMap_cons, hvalue, hfirst, hsecond, htext]
      rfl

theorem IsNodeId.exists_bytes {id : String} (h : IsNodeId id) :
    ∃ bytes : Bytes, bytes.length = 32 ∧ id = toHex bytes := by
  obtain ⟨bytes, hbytes, htext⟩ := exists_toHex (n := 32) h.1 h.2
  exact ⟨bytes, hbytes, by rw [← htext, String.ofList_toList]⟩

theorem isNodeId_toHex {bytes : Bytes} (h : bytes.length = 32) : IsNodeId (toHex bytes) := by
  have hdigit : ∀ n : Fin 16, IsHexDigit (hexChar n) := by decide
  refine ⟨by rw [length_toHex, h], ?_⟩
  intro c hc
  rw [toHex, String.toList_ofList, List.mem_flatMap] at hc
  obtain ⟨b, -, hc⟩ := hc
  have hb := b.toNat_lt
  rcases List.mem_pair.mp hc with rfl | rfl
  · exact hdigit ⟨b.toNat / 16, by omega⟩
  · exact hdigit ⟨b.toNat % 16, by omega⟩

/-- The decoder of the routing table inverts the encoder. -/
theorem hexToBytes_toHex (bytes : Bytes) : hexToBytes (asBytes (toHex bytes)) = bytes := by
  induction bytes with
  | nil => rfl
  | cons b bytes ih =>
    rw [asBytes_toHex_cons, hexToBytes, fromStrRadix16_hexDigits, ih]
    rfl

namespace RoutingTable

/-! ## The distance between node ids -/

theorem xorDistance_toHex {a b : Bytes} (ha : a.length = 32) (hb : b.length = 32) :
    xorDistance (toHex a) (toHex b) = List.zipWith (· ^^^ ·) a b := by
  unfold xorDistance
  rw [hexToBytes_toHex, hexToBytes_toHex]
  refine List.ext_getElem (by simp [ha, hb]) ?_
  intro i hleft hright
  have hi : i < 32 := by simpa using hleft
  rw [List.getElem_map, List.getElem_range, List.getElem_zipWith,
    List.getElem?_eq_getElem (by omega), List.getElem?_eq_getElem (by omega)]

theorem zipWith_xor_inj {a b target : Bytes} (ha : a.length = target.length)
    (hb : b.length = target.length)
    (h : List.zipWith (· ^^^ ·) a target = List.zipWith (· ^^^ ·) b target) : a = b := by
  induction target generalizing a b with
  | nil =>
    rw [List.eq_nil_of_length_eq_zero ha, List.eq_nil_of_length_eq_zero hb]
  | cons t target ih =>
    match a, b, ha, hb with
    | x :: a, y :: b, ha, hb =>
      rw [List.zipWith_cons_cons, List.zipWith_cons_cons, List.cons.injEq] at h
      rw [(UInt8.xor_left_inj t).mp h.1, ih (by simpa using ha) (by simpa using hb) h.2]

/-- The distance to a target tells node ids apart. -/
theorem xorDistance_inj {a b target : String} (ha : IsNodeId a) (hb : IsNodeId b)
    (htarget : IsNodeId target) (h : xorDistance a target = xorDistance b target) : a = b := by
  obtain ⟨x, hx, rfl⟩ := ha.exists_bytes
  obtain ⟨y, hy, rfl⟩ := hb.exists_bytes
  obtain ⟨t, ht, rfl⟩ := htarget.exists_bytes
  rw [xorDistance_toHex hx ht, xorDistance_toHex hy ht] at h
  rw [zipWith_xor_inj (hx.trans ht.symm) (hy.trans ht.symm) h]

/-! ## Tables as they are built -/

/-- Every entry stands under its own id. -/
def Keyed (table : RoutingTable) : Prop :=
  ∀ (id : String) (entry : RoutingEntry), table.buckets[id]? = some entry → entry.nodeId = id

theorem keyed_new : Keyed new := by
  intro id entry h
  simp [new] at h

theorem Keyed.insert {table : RoutingTable} (h : Keyed table) (entry : RoutingEntry) :
    Keyed (table.insert entry) := by
  intro id other hother
  rcases OrderedTable.get_insert_eq_some.mp hother with ⟨hid, rfl⟩ | ⟨-, hstored⟩
  · exact hid
  · exact h id other hstored

/-- Erasing keeps the entries under their ids. -/
theorem Keyed.erased {table : RoutingTable} (h : Keyed table) {γ : Type} (key : γ → String)
    (rows : List γ) : Keyed ⟨rows.foldl (fun buckets row => buckets.erase (key row)) table.buckets⟩ := by
  intro id entry hentry
  rw [OrderedTable.get_foldl_erase] at hentry
  split at hentry
  · cases hentry
  · exact h id entry hentry

theorem Keyed.apply {table : RoutingTable} (h : Keyed table) (u : TableUpdate) :
    Keyed (u.apply table).1 := by
  cases u with
  | insert entry => exact h.insert entry
  | remove nodeId => exact h.erased id [nodeId]
  | prune now => exact h.erased Prod.fst _

/-- The table after some updates, from the empty one on. -/
def after (updates : List TableUpdate) : RoutingTable :=
  updates.foldl (fun table u => (u.apply table).1) new

theorem keyed_after (updates : List TableUpdate) : Keyed (after updates) := by
  induction updates using List.reverseRecOn with
  | nil => exact keyed_new
  | append_singleton updates u ih =>
    rw [after, List.foldl_append]
    exact ih.apply u

theorem Keyed.mem_list {table : RoutingTable} (h : Keyed table) {entry : RoutingEntry} :
    entry ∈ table.list ↔ table.buckets[entry.nodeId]? = some entry := by
  unfold list
  constructor
  · intro hmem
    obtain ⟨⟨id, other⟩, hrow, rfl⟩ := List.mem_map.mp hmem
    rw [Std.ExtTreeMap.mem_toList_iff_getElem?_eq_some] at hrow
    rw [h id other hrow]
    exact hrow
  · intro hstored
    exact List.mem_map.mpr
      ⟨(entry.nodeId, entry), Std.ExtTreeMap.mem_toList_iff_getElem?_eq_some.mpr hstored, rfl⟩

theorem Keyed.eq_of_nodeId {table : RoutingTable} (h : Keyed table) {a b : RoutingEntry}
    (ha : a ∈ table.list) (hb : b ∈ table.list) (hid : a.nodeId = b.nodeId) : a = b := by
  rw [h.mem_list] at ha hb
  rw [hid, hb] at ha
  exact (Option.some.inj ha).symm

theorem Keyed.nodup_list {table : RoutingTable} (h : Keyed table) : table.list.Nodup := by
  refine List.Nodup.map_on ?_ (OrderedTable.nodup_toList _)
  rintro ⟨id, entry⟩ hrow ⟨id', entry'⟩ hrow' heq
  rw [Std.ExtTreeMap.mem_toList_iff_getElem?_eq_some] at hrow hrow'
  obtain rfl : entry = entry' := heq
  rw [← h id entry hrow, ← h id' entry hrow']

theorem get_insert_all {entries : List RoutingEntry} (hids : (entries.map (·.nodeId)).Nodup)
    (start : RoutingTable) {id : String} {entry : RoutingEntry} :
    (entries.foldl RoutingTable.insert start).buckets[id]? = some entry ↔
      (entry ∈ entries ∧ entry.nodeId = id) ∨
        (id ∉ entries.map (·.nodeId) ∧ start.buckets[id]? = some entry) := by
  induction entries generalizing start with
  | nil => simp
  | cons first entries ih =>
    obtain ⟨hfresh, hrest⟩ := List.nodup_cons.mp hids
    rw [List.foldl_cons, ih hrest, RoutingTable.insert, OrderedTable.get_insert_eq_some]
    by_cases hid : first.nodeId = id
    · subst hid
      have hother : ∀ e ∈ entries, e.nodeId ≠ first.nodeId := by
        intro e he heq
        exact hfresh (List.mem_map.mpr ⟨e, he, heq⟩)
      constructor
      · rintro (⟨hmem, heq⟩ | ⟨-, ⟨-, rfl⟩ | ⟨hne, -⟩⟩)
        · exact absurd heq (hother entry hmem)
        · exact .inl ⟨List.mem_cons_self, rfl⟩
        · exact absurd rfl hne
      · rintro (⟨hmem, heq⟩ | ⟨hnot, -⟩)
        · rcases List.mem_cons.mp hmem with rfl | hmem
          · exact .inr ⟨hfresh, .inl ⟨rfl, rfl⟩⟩
          · exact absurd heq (hother entry hmem)
        · simp at hnot
    · have hne : entry.nodeId = id → entry ≠ first := by
        rintro heq rfl
        exact hid heq
      grind

/-- The entries of a table, inserted in any order, make the table again. -/
theorem Keyed.insert_all {table : RoutingTable} (h : Keyed table) {entries : List RoutingEntry}
    (hentries : entries.Perm table.list) : entries.foldl RoutingTable.insert new = table := by
  have hids : (entries.map (·.nodeId)).Nodup := by
    refine List.Nodup.map_on ?_ (hentries.nodup_iff.mpr h.nodup_list)
    intro a ha b hb hid
    exact h.eq_of_nodeId (hentries.mem_iff.mp ha) (hentries.mem_iff.mp hb) hid
  have hbuckets : (entries.foldl RoutingTable.insert new).buckets = table.buckets := by
    refine Std.ExtTreeMap.ext_getElem? fun id => Option.ext fun entry => ?_
    rw [get_insert_all hids, hentries.mem_iff, h.mem_list]
    constructor
    · rintro (⟨hstored, rfl⟩ | ⟨-, hnew⟩)
      · exact hstored
      · simp [new] at hnew
    · intro hstored
      have hid := h id entry hstored
      exact .inl ⟨by rwa [hid], hid⟩
  exact congrArg RoutingTable.mk hbuckets

/-! ## What `find_closest` answers -/

/-- In a table of node ids `find_closest` answers with the `k` entries nearest to the target, and with
them only: neither the order in which the entries came nor the order of the map matters. -/
theorem findClosest_nearest (updates : List TableUpdate) {targetId : String}
    (hids : ∀ entry ∈ (after updates).list, IsNodeId entry.nodeId) (htarget : IsNodeId targetId)
    (k : ℕ) :
    let rank := fun entry : RoutingEntry => xorDistance entry.nodeId targetId
    let closest := (after updates).findClosest targetId k
    Nearest rank (after updates).list k closest ∧ closest.Nodup ∧
      (∀ entries other : List _, entries.Perm (after updates).list → Nearest rank entries k other →
        other = closest) ∧
      ∀ entries : List RoutingEntry, entries.Perm (after updates).list →
        (entries.foldl RoutingTable.insert new).findClosest targetId k = closest := by
  intro rank closest
  have hkeyed := keyed_after updates
  have hrank : Separates rank (after updates).list := by
    intro a ha b hb heq
    exact hkeyed.eq_of_nodeId ha hb (xorDistance_inj (hids a ha) (hids b hb) htarget heq)
  have hnearest : Nearest rank (after updates).list k closest :=
    nearest_take_insertionSort hrank hkeyed.nodup_list k
  refine ⟨hnearest, hnearest.nodup, ?_, ?_⟩
  · intro entries other hentries hother
    exact hother.unique hnearest hentries
  · intro entries hentries
    rw [hkeyed.insert_all hentries]

/-- A peer whose id is one byte, 32 times. -/
def peerOf (byte : UInt8) : RoutingEntry :=
  ⟨toHex (List.replicate 32 byte), "10.0.0.7:4000", ["full"], 0⟩

theorem isNodeId_peerOf (byte : UInt8) : IsNodeId (peerOf byte).nodeId :=
  isNodeId_toHex List.length_replicate

def threePeers : List TableUpdate :=
  [.insert (peerOf 0x0a), .insert (peerOf 0x01), .insert (peerOf 0xff)]

theorem findClosest_nearest_threePeers :
    Nearest (fun entry => xorDistance entry.nodeId (peerOf 0x0b).nodeId) (after threePeers).list 2
      ((after threePeers).findClosest (peerOf 0x0b).nodeId 2) := by
  refine (findClosest_nearest threePeers ?_ (isNodeId_peerOf 0x0b) 2).1
  intro entry hentry
  rw [(keyed_after threePeers).mem_list] at hentry
  simp only [after, threePeers, TableUpdate.apply, List.foldl_cons, List.foldl_nil, insert, new,
    OrderedTable.get_insert_eq_some] at hentry
  obtain ⟨-, rfl⟩ | ⟨-, ⟨-, rfl⟩ | ⟨-, ⟨-, rfl⟩ | ⟨-, hempty⟩⟩⟩ := hentry
  · exact isNodeId_peerOf 0xff
  · exact isNodeId_peerOf 0x01
  · exact isNodeId_peerOf 0x0a
  · simp at hempty

end RoutingTable

end DSearch
