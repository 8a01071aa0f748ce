import DSearch.Node.Knowledge
import DSearch.Node.SearchScan
import DSearch.Node.Transfer

/-! # Replication over a network

When each node has been told, through others or not, of what each node had, all nodes hold the same
records: the newest of each source. A push carries ten records, so this is about networks of at most ten
sources. -/

namespace DSearch
set_option autoImplicit false
open Transaction Replicas Records

namespace Network
variable {ι : Type} {ed : Ed25519} {nodes : ι → NetNode ed} {read : PayloadReader}
  {fromStr : Bytes → Except String ContentRecord} {records : List ContentRecord}

/-! ## What one connection tells -/

/-- There are no more rows than sources. -/
theorem Holding.length_le {db : Db} (h : Holding records db) :
    (db.records.toList.map Prod.snd).length ≤
      (records.map ContentRecord.sourceHash).dedup.length := by
  obtain ⟨m, hm, hfrom⟩ := h
  have hrow : ∀ row ∈ db.records.toList, row.2.id = row.1 ∧ m.entry row.2.sourceHash = some row.2 := by
    intro row hrow
    exact (hm.stored row.1 row.2).mp (Std.ExtTreeMap.mem_toList_iff_getElem?_eq_some.mp hrow)
  have hnodup : (db.records.toList.map fun row => row.2.sourceHash).Nodup := by
    refine List.Nodup.map_on (fun a ha b hb hsource => ?_) (OrderedTable.nodup_toList db.records)
    obtain ⟨hida, hentrya⟩ := hrow a ha
    obtain ⟨hidb, hentryb⟩ := hrow b hb
    rw [hsource, hentryb] at hentrya
    have hsame : a.2 = b.2 := (Option.some.inj hentrya).symm
    exact Prod.ext (by rw [← hida, ← hidb, hsame]) hsame
  have hsub : ∀ source ∈ db.records.toList.map fun row => row.2.sourceHash,
      source ∈ (records.map ContentRecord.sourceHash).dedup := by
    intro source hsource
    obtain ⟨row, hmem, rfl⟩ := List.mem_map.mp hsource
    rw [List.mem_dedup]
    exact List.mem_map_of_mem (hfrom _ _ (hrow row hmem).2)
  have hle := (List.subperm_of_subset hnodup hsub).length_le
  rwa [List.length_map] at hle ⊢

theorem writeAll_ok {written : ℕ → Except String Unit} (h : ∀ n, written n = .ok ()) (n : ℕ)
    (frames : List Frame) : writeAll written n frames = frames := by
  induction frames generalizing n with
  | nil => rfl
  | cons frame frames ih => rw [writeAll, h, ih]

/-- The call pushes to `peer`, and no write fails. -/
def Pushes (_ : ι) (op : NodeCall ι) (peer : ι) : Prop :=
  ∃ written, op = .pushTo peer written ∧ ∀ n, written n = .ok ()

/-- With at most ten sources a push tells the peer all that the node knows. -/
theorem pushes_tell {i peer : ι} {op : NodeCall ι} (hop : Pushes i op peer) {s : NodeState}
    (h : Holding records s.db) (hsources : (records.map ContentRecord.sourceHash).dedup.length ≤ 10)
    (hfits : ∀ r ∈ records, (pushFrame r).payload.length ≤ MAX_PAYLOAD_SIZE)
    {record : ContentRecord} (hknows : Knows record s.db) :
    ∃ m ∈ (call nodes i op s).2, m.dst = peer ∧ Tells records record m := by
  obtain ⟨written, rfl, hwritten⟩ := hop
  obtain ⟨id, kept, hkept, hsource, hle⟩ := hknows
  have hlisted : kept ∈ Records.listRecords s.db none 10 := by
    have hall : (Records.storedRecords s.db).length ≤ max 1 10 := h.length_le.trans (by omega)
    rw [Records.listRecords_none, List.take_of_length_le hall]
    exact List.mem_map.mpr ⟨(id, kept), Std.ExtTreeMap.mem_toList_iff_getElem?_eq_some.mpr hkept, rfl⟩
  have hrecord := h.listed hlisted
  refine ⟨⟨i, peer, pushFrame kept⟩, ?_, rfl, kept, hrecord, rfl, hfits kept hrecord, hsource, hle⟩
  refine List.mem_map.mpr ⟨pushFrame kept, ?_, rfl⟩
  rw [writeAll_ok hwritten]
  exact List.mem_map_of_mem hlisted

/-- What a call has inserted, its node knows from then on. -/
theorem published_known [DecidableEq ι] {steps : Steps ι}
    (hrep : Replicable nodes read fromStr (published nodes steps))
    (hquota : ∀ i, (nodes i).store.config.quotaMb = 0)
    (hkeeps : Calls (fun _ op => removes op = false) steps) {record : ContentRecord}
    (hrecord : record ∈ published nodes steps) :
    ∃ i, Knows record ((run (protocol nodes read fromStr) start steps).node i).db := by
  obtain ⟨i, inserted, hcall, rfl, hsize⟩ := (mem_published nodes).mp hrecord
  obtain ⟨before, later, hsplit⟩ := List.append_of_mem hcall
  have hcalls : Calls (Keeping steps) (before ++ .call i (.store (.insert inserted)) :: later) := by
    intro j op hop
    rw [← hsplit] at hop
    exact ⟨hop, hkeeps j op hop⟩
  have hI := (holding_inductive hrep).mono fun j op (hop : Keeping steps j op) => hop.1
  obtain ⟨hfirst, hlater⟩ := hcalls.of_append.2.of_cons
  have hbefore := hI.run (start_within nodes) hcalls.of_append.1
  have hthere := (hbefore.node i).insertRecord (nodes i).store hrep.ids fun _ => hrecord
  refine ⟨i, ?_⟩
  rw [hsplit, run_append, run_cons]
  refine (knows_spreading hrep hquota _).run_keeps hI (hI.step hbefore hfirst) hlater ?_
  rw [step, Net.moved_self, call_insert]
  exact hthere.2.2 (hquota i) hsize

/-! ## Agreement -/

/-- No push is in flight at the end of a round. -/
def Quiet [DecidableEq ι] (nodes : ι → NetNode ed) (read : PayloadReader)
    (fromStr : Bytes → Except String ContentRecord) :
    Net ι NodeState (Packet ι) → List (Steps ι) → Prop :=
  QuietRounds (protocol nodes read fromStr) fun m => m.frame.msgType = .replicatePush

instance [DecidableEq ι] (net : Net ι NodeState (Packet ι)) (rounds : List (Steps ι)) :
    Decidable (Quiet nodes read fromStr net rounds) :=
  inferInstanceAs (Decidable (QuietRounds _ _ _ _))

theorem published_append (nodes : ι → NetNode ed) (first second : Steps ι) :
    published nodes (first ++ second) = published nodes first ++ published nodes second := by
  rw [published, List.filterMap_append, List.filter_append]
  rfl

/-- If every node has been told by every other, itself or through others, in rounds in which nothing is
lost, each ends with exactly the newest record of each source. -/
theorem network_converges [DecidableEq ι] (nodes : ι → NetNode ed) (read : PayloadReader)
    (fromStr : Bytes → Except String ContentRecord) (before : Steps ι) (rounds : List (Steps ι))
    (hrep : Replicable nodes read fromStr (published nodes before))
    (hquota : ∀ i, (nodes i).store.config.quotaMb = 0)
    (hsources : ((published nodes before).map ContentRecord.sourceHash).dedup.length ≤ 10)
    (hfits : ∀ r ∈ published nodes before, (pushFrame r).payload.length ≤ MAX_PAYLOAD_SIZE)
    (hties : NoSourceTies (published nodes before))
    (hkeeps : Calls (fun _ op => removes op = false) (before ++ rounds.flatten))
    (hsettled : published nodes rounds.flatten = []) (hlossless : Lossless rounds.flatten)
    (hquiet : Quiet nodes read fromStr (run (protocol nodes read fromStr) start before) rounds)
    (hreached : ∀ i j, Reached Pushes rounds i j) (i : ι) (id : String) (record : ContentRecord) :
    ((run (protocol nodes read fromStr) start (before ++ rounds.flatten)).node i).db.records[id]? =
        some record ↔
      record.id = id ∧ record ∈ published nodes before ∧ ∀ other ∈ published nodes before,
        other.sourceHash = record.sourceHash → other.createdAt ≤ record.createdAt := by
  have hpublished : published nodes (before ++ rounds.flatten) = published nodes before := by
    rw [published_append, hsettled, List.append_nil]
  have hrep' := hrep
  rw [← hpublished] at hrep'
  have hcalls : Calls (Keeping (before ++ rounds.flatten)) (before ++ rounds.flatten) :=
    fun j op hop => ⟨hop, hkeeps j op hop⟩
  have hI := (holding_inductive hrep').mono fun j op
    (hop : Keeping (before ++ rounds.flatten) j op) => hop.1
  have hthere := hI.run (start_within nodes) hcalls.of_append.1
  have hknown : ∀ r ∈ published nodes before, Knows r
      ((run (protocol nodes read fromStr) start (before ++ rounds.flatten)).node i).db := by
    intro r hr
    obtain ⟨origin, horigin⟩ := published_known hrep hquota hkeeps.of_append.1 hr
    rw [run_append]
    refine (knows_spreading hrep' hquota r).rounds hI ?_ ?_ (hreached origin i) hthere
      hcalls.of_append.2 hlossless hquiet horigin
    · rintro m ⟨kept, -, hframe, -⟩
      rw [hframe]
      rfl
    · intro j op peer hpushes s hs hknows
      rw [hpublished] at hs ⊢
      exact pushes_tell hpushes hs hsources hfits hknows
  obtain ⟨m, hm, hfrom⟩ := (hI.run (start_within nodes) hcalls).node i
  rw [hpublished] at hfrom
  rw [hm.stored]
  refine and_congr_right fun _ => ⟨fun hentry => ⟨hfrom _ _ hentry, fun other hother hsource => ?_⟩, ?_⟩
  · obtain ⟨kept, hkept, hle⟩ := (knows_iff hm).mp (hknown other hother)
    rw [hsource, hentry] at hkept
    rwa [← Option.some.inj hkept] at hle
  · rintro ⟨hrecord, hnewest⟩
    obtain ⟨kept, hkept, hle⟩ := (knows_iff hm).mp (hknown record hrecord)
    have hsource := hm.keyed _ _ hkept
    have hge := hnewest kept (hfrom _ _ hkept) hsource
    rw [hkept, hties kept (hfrom _ _ hkept) record hrecord hsource (le_antisymm hge hle)]

/-- The two nodes connect to each other one after the other. -/
def bothWays : List (Steps Bool) :=
  [[.call false (.pushTo true fun _ => .ok ()), .deliver 0],
    [.call true (.pushTo false fun _ => .ok ()), .deliver 1]]

/-- A node with one record pushes it; what is in flight then are the acknowledgements, one more. -/
theorem push_round [DecidableEq ι] {net : Net ι NodeState (Packet ι)} {i j : ι} {record : ContentRecord}
    {n : ℕ} (hn : net.flight.length = n) (hij : i ≠ j) (hstored : Records.listRecords (net.node i).db none 10 = [record])
    (hreads : ReadsBack nodes read fromStr record) (hshort : record.Short)
    (hacks : ∀ m ∈ net.flight, isAck m.frame.msgType = true)
    (hout : (((nodes j).store.insertRecord record).run (net.node j).db).2 ≠ .panic) :
    let after := run (protocol nodes read fromStr) net
      [.call i (.pushTo j fun _ => .ok ()), .deliver n]
    after.node i = net.node i ∧
      (after.node j).db = (((nodes j).store.insertRecord record).run (net.node j).db).1 ∧
      after.flight.length = n + 1 ∧ ∀ m ∈ after.flight, isAck m.frame.msgType = true := by
  subst hn
  let m : Packet ι := ⟨i, j, pushFrame record⟩
  have hframe : m.frame = pushFrame record := rfl
  have hfits : m.frame.payload.length ≤ MAX_PAYLOAD_SIZE := pushFrame_fits hshort
  obtain ⟨hstate, hreplies⟩ := receive_push hframe hreads hfits (net.node j)
  have hone := receive_push_acks hframe hreads hfits hout
  have hcall : (protocol nodes read fromStr).call i (.pushTo j fun _ => .ok ()) (net.node i) =
      (net.node i, [m]) := by
    dsimp only [protocol, call]
    rw [writeAll_ok fun _ => rfl, pushFrames, hstored]
    rfl
  have hflight : (net.flight ++ [m])[net.flight.length]? = some m := List.getElem?_concat_length
  have hrest : (net.flight ++ [m]).eraseIdx net.flight.length = net.flight := by
    rw [List.eraseIdx_append_of_length_le le_rfl, Nat.sub_self]
    exact List.append_nil _
  have hafter : run (protocol nodes read fromStr) net
      [.call i (.pushTo j fun _ => .ok ()), .deliver net.flight.length] =
        (net.moved i net.flight (net.node i, [m])).moved j net.flight
          (receive nodes read fromStr m (net.node j)) := by
    have hsent : (net.moved i net.flight (net.node i, [m])).flight = net.flight ++ [m] := rfl
    rw [run_cons, run_cons, run_nil, step, hcall, step, hsent, hflight]
    dsimp only [protocol]
    rw [hrest, Net.moved_ne _ (Ne.symm hij)]
  rw [hafter]
  refine ⟨?_, ?_, ?_, ?_⟩
  · rw [Net.moved_ne _ hij, Net.moved_self]
  · rw [Net.moved_self, hstate]
  · rw [Net.moved, List.length_append, hone]
  · intro m hm
    rcases List.mem_append.mp hm with hold | hnew
    · exact hacks m hold
    · exact hreplies m hnew

theorem quiet_bothWays :
    Quiet plainNodes (.ofRecords [signedRecord "r1" 1, signedRecord "r2" 2])
      (recordOf [signedRecord "r1" 1, signedRecord "r2" 2])
      (run (protocol plainNodes (.ofRecords [signedRecord "r1" 1, signedRecord "r2" 2])
        (recordOf [signedRecord "r1" 1, signedRecord "r2" 2])) start oneEach) bothWays := by
  have hshort₁ : (signedRecord "r1" 1).Short := signedRecord_short (by decide) (by decide)
  have hshort₂ : (signedRecord "r2" 2).Short := signedRecord_short (by decide) (by decide)
  have hreads : ∀ r ∈ [signedRecord "r1" 1, signedRecord "r2" 2], ReadsBack (plainNodes : Bool → _)
      (.ofRecords [signedRecord "r1" 1, signedRecord "r2" 2])
      (recordOf [signedRecord "r1" 1, signedRecord "r2" 2]) r :=
    fun r hr => readsBack_ofRecords (by decide) hr
  have hvalid₁ : (plainStore.signed (signedRecord "r1" 1)).validateSize = .ok () := hshort₁.validateSize
  have hvalid₂ : (plainStore.signed (signedRecord "r2" 2)).validateSize = .ok () := hshort₂.validateSize
  obtain ⟨hfalse, htrue⟩ := run_oneEach (.ofRecords [signedRecord "r1" 1, signedRecord "r2" 2])
    (recordOf [signedRecord "r1" 1, signedRecord "r2" 2])
  have hflight : (run (protocol plainNodes (.ofRecords [signedRecord "r1" 1, signedRecord "r2" 2])
      (recordOf [signedRecord "r1" 1, signedRecord "r2" 2])) start oneEach).flight = [] := rfl
  generalize run (protocol plainNodes _ _) start oneEach = net at hfalse htrue hflight ⊢
  have hlisted₁ : listRecords (net.node false).db none 10 = [signedRecord "r1" 1] := by
    rw [hfalse, Store.insertRecord_run, Records.insertRecord_run, hvalid₁]
    decide +kernel
  have hout₁ : ((plainStore.insertRecord (signedRecord "r1" 1)).run (net.node true).db).2 ≠ .panic := by
    rw [htrue, Store.insertRecord_run, Records.insertRecord_run, hvalid₁, Store.insertRecord_run,
      Records.insertRecord_run, hvalid₂]
    decide +kernel
  have hnone : ∀ m ∈ net.flight, isAck m.frame.msgType = true := by
    rw [hflight]
    exact fun m hm => absurd hm List.not_mem_nil
  have hnotPush : ∀ {flight : List (Packet Bool)}, (∀ m ∈ flight, isAck m.frame.msgType = true) →
      ∀ m ∈ flight, ¬ m.frame.msgType = .replicatePush := by
    intro flight hall m hm htype
    have hack := hall m hm
    rw [htype] at hack
    cases hack
  obtain ⟨hkept, hpushed, hlength, hacks⟩ := push_round (n := 0) (by rw [hflight]; rfl)
    (show false ≠ true by decide) hlisted₁ (hreads _ List.mem_cons_self) hshort₁ hnone hout₁
  refine ⟨hnotPush hacks, ?_, trivial⟩
  generalize run (protocol plainNodes _ _) net [.call false (.pushTo true fun _ => .ok ()),
    .deliver 0] = after at hkept hpushed hlength hacks ⊢
  have hlisted₂ : listRecords (after.node true).db none 10 = [signedRecord "r2" 2] := by
    rw [hpushed, htrue]
    change listRecords ((plainStore.insertRecord _).run _).1 none 10 = _
    rw [Store.insertRecord_run, Records.insertRecord_run, hvalid₁, Store.insertRecord_run,
      Records.insertRecord_run, hvalid₂]
    decide +kernel
  have hout₂ : ((plainStore.insertRecord (signedRecord "r2" 2)).run (after.node false).db).2 ≠
      .panic := by
    rw [hkept, hfalse, Store.insertRecord_run, Records.insertRecord_run, hvalid₂, Store.insertRecord_run,
      Records.insertRecord_run, hvalid₁]
    decide +kernel
  exact hnotPush (push_round hlength (show true ≠ false by decide) hlisted₂
    (hreads _ (List.mem_cons_of_mem _ List.mem_cons_self)) hshort₂ hacks hout₂).2.2.2

theorem network_converges_oneEach :
    ((run (protocol plainNodes (.ofRecords [signedRecord "r1" 1, signedRecord "r2" 2])
        (recordOf [signedRecord "r1" 1, signedRecord "r2" 2])) start
        (oneEach ++ bothWays.flatten)).node false).db.records["r2"]? = some (signedRecord "r2" 2) ↔
      (signedRecord "r2" 2).id = "r2" ∧ signedRecord "r2" 2 ∈ published plainNodes oneEach ∧
        ∀ other ∈ published plainNodes oneEach,
          other.sourceHash = (signedRecord "r2" 2).sourceHash →
            other.createdAt ≤ (signedRecord "r2" 2).createdAt := by
  have hpushes : ∀ i : Bool, Pushes i (.pushTo (!i) fun _ => .ok ()) (!i) :=
    fun i => ⟨_, rfl, fun _ => rfl⟩
  refine network_converges plainNodes _ _ oneEach bothWays replicable_oneEach (fun _ => rfl)
    (by rw [published_oneEach]; decide +kernel) ?_ (by rw [published_oneEach]; decide +kernel) ?_ rfl ?_
    ?_ ?_ false "r2" _
  · rw [published_oneEach]
    intro r hr
    rcases List.mem_pair.mp hr with rfl | rfl
    · exact pushFrame_fits (signedRecord_short (by decide) (by decide))
    · exact pushFrame_fits (signedRecord_short (by decide) (by decide))
  · intro i op hop
    simp only [oneEach, bothWays, List.flatten_cons, List.flatten_nil, List.cons_append,
      List.nil_append, List.mem_cons, Step.call.injEq, reduceCtorEq, List.not_mem_nil, or_false,
      false_or] at hop
    rcases hop with ⟨-, rfl⟩ | ⟨-, rfl⟩ | ⟨-, rfl⟩ | ⟨-, rfl⟩ <;> rfl
  · intro n hn
    simp [bothWays] at hn
  · exact quiet_bothWays
  · intro i j
    cases i with
    | false =>
      cases j with
      | false => exact .stays (.stays (.here false))
      | true => exact .passes List.mem_cons_self (hpushes false) (.stays (.here true))
    | true =>
      cases j with
      | false => exact .stays (.passes List.mem_cons_self (hpushes true) (.here false))
      | true => exact .stays (.stays (.here true))

end Network

end DSearch
