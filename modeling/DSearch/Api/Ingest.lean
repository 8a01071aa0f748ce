import DSearch.Api.Handlers
import DSearch.Node.Messages
import DSearch.Scraper.Adds
import DSearch.Storage.InsertEnds

/-! # What enters the store

Records come from insert requests, imports, scrape jobs and pushes of peers, each running its
transactions between those of the others. All but the pushes go through `sanitize_record` first. -/

namespace DSearch
set_option autoImplicit false
open Transaction Records Sanitize Scraper

inductive Ingest (ed : Ed25519) where
  | insertRecord (api : LocalApi ed) (req : HttpRequest)
  | storageImport (api : LocalApi ed) (req : HttpRequest)
  | scrapeJob (env : ScrapeEnv) (job : JobState)
  | replicatePush (fromStr : Bytes → Except String ContentRecord) (msg : ReplicatePush)

def Ingest.client {ed : Ed25519} (store : Store ed) : Ingest ed → Client NodeState Unit
  | .insertRecord api req =>
    ({ api with store := store }.handleInsertRecord req).bind fun _ => .done ()
  | .storageImport api req =>
    ({ api with store := store }.handleStorageImport req).bind fun _ => .done ()
  | .scrapeJob env job => (NodeState.onDb (Scraper.runJob store env job)).bind fun _ => .done ()
  | .replicatePush fromStr msg =>
    (NodeState.onDb (Node.handleReplicatePush store fromStr msg)).bind fun _ => .done ()

section
variable {ed : Ed25519} (store : Store ed) {ι : Type} [DecidableEq ι]

/-- The state of a new node after some transactions of its ingests, in the order of the schedule. -/
def ingested (ingests : ι → Ingest ed) (schedule : List ι) : NodeState :=
  (interleave (NodeState.new Db.empty, fun i => (ingests i).client store) schedule).1

end

/-! ## Sanitized records -/

def Sanitized (record : ContentRecord) : Prop := sanitizeRecord record = .ok record

instance (record : ContentRecord) : Decidable (Sanitized record) := by
  unfold Sanitized
  infer_instance

def AllSanitized (db : Db) : Prop :=
  ∀ (id : String) (record : ContentRecord), db.records[id]? = some record → Sanitized record

/-- Sanitizing does not look at the signature. -/
theorem sanitizeRecord_sig (record : ContentRecord) (sig : String) :
    sanitizeRecord { record with sig := sig } =
      (sanitizeRecord record).map fun sanitized => { sanitized with sig := sig } := by
  unfold sanitizeRecord
  dsimp only
  cases validateBodySize (sanitizeString record.body) with
  | error e => rfl
  | ok _ =>
    cases record.tags.mapM sanitizeTag <;> rfl

theorem Sanitized.withSig {record : ContentRecord} (h : Sanitized record) (sig : String) :
    Sanitized { record with sig := sig } := by
  rw [Sanitized, sanitizeRecord_sig, h]
  rfl

theorem sanitized_signed_iff {ed : Ed25519} (store : Store ed) (record : ContentRecord) :
    Sanitized (store.signed record) ↔ Sanitized record := by
  obtain ⟨sig, hsigned⟩ := store.signed_eq record
  rw [hsigned]
  exact ⟨fun h => h.withSig record.sig, fun h => h.withSig sig⟩

namespace AllSanitized

theorem empty : AllSanitized Db.empty := by
  intro id record hstored
  simp [Db.empty] at hstored

theorem removeRows (rows : List (String × String)) {db : Db} (h : AllSanitized db) :
    AllSanitized (removeRows rows db) := by
  intro id record hstored
  exact h id record (removeRows_records_eq_some.mp hstored).2

theorem addsOnly {db db' : Db} (h : AllSanitized db) (hadds : AddsOnly Sanitized db db') :
    AllSanitized db' := by
  intro id record hstored
  rcases hadds.2 id record hstored with hold | hnew
  · exact h id record hold
  · exact hnew

theorem keeps_of_adds {α : Type} {c : Client Db α} (h : c.Guarantees (AddsOnly Sanitized)) :
    c.Keeps AllSanitized :=
  h.keeps fun _ _ => addsOnly

end AllSanitized

/-! ## What each ingest keeps

An invariant that eviction and the inserts of sanitized records keep is kept by every ingest; for a
push, the insert of its record must keep it too. -/

section
variable {ed : Ed25519} {store : Store ed} {I : Db → Prop}

theorem onDb_keeps {α : Type} {c : Client Db α} (h : c.Keeps I) :
    (NodeState.onDb c).Keeps fun s => I s.db :=
  h.onPart NodeState.dbPart

theorem onStore_keeps {α : Type} {c : Client Db (Outcome α)} (h : c.Keeps I)
    (next : α → HttpResponse) : (LocalApi.onStore c next).Keeps fun s => I s.db := by
  unfold LocalApi.onStore
  refine Client.Within.bind (onDb_keeps h) fun out => ?_
  cases out <;> exact .done _

theorem exists_received {api : LocalApi ed} {req : HttpRequest} {record : ContentRecord}
    (h : api.receivedRecord req = .ok record) : ∃ parsed, sanitizeRecord parsed = .ok record := by
  unfold LocalApi.receivedRecord at h
  split at h
  · cases h
  · split at h
    · cases h
    · next parsed _ _ hsanitized =>
      obtain rfl := Except.ok.inj h
      exact ⟨_, hsanitized⟩

theorem handleInsertRecord_keeps (api : LocalApi ed) (req : HttpRequest)
    (hquota : ∀ bytes, (api.store.checkQuota bytes).Keeps I)
    (hinsert : ∀ made record, sanitizeRecord made = .ok record →
      (api.store.insertRecord record).Keeps I) :
    (api.handleInsertRecord req).Keeps fun s => I s.db := by
  unfold LocalApi.handleInsertRecord
  cases hreceived : api.receivedRecord req with
  | error resp => exact .done _
  | ok record =>
    refine Client.Within.bind (onDb_keeps (hquota _)) fun out => ?_
    cases out with
    | ok _ =>
      obtain ⟨made, hsanitized⟩ := exists_received hreceived
      exact onStore_keeps (hinsert made record hsanitized) _
    | err e => exact .done _
    | panic => exact .done _

theorem importAll_keeps (api : LocalApi ed)
    (hinsert : ∀ made record, sanitizeRecord made = .ok record →
      (api.store.insertRecord record).Keeps I)
    (records : List ContentRecord) (counts : LocalApi.ImportCounts) :
    (api.importAll records counts).Keeps I := by
  induction records generalizing counts with
  | nil => exact .done _
  | cons record records ih =>
    unfold LocalApi.importAll
    cases hsanitized : sanitizeRecord record with
    | error e => exact ih _
    | ok clean =>
      refine Client.Within.bind (hinsert record clean hsanitized) fun out => ?_
      cases out with
      | ok result => exact ih _
      | err e => exact ih _
      | panic => exact .done _

theorem handleStorageImport_keeps (api : LocalApi ed) (req : HttpRequest)
    (hinsert : ∀ made record, sanitizeRecord made = .ok record →
      (api.store.insertRecord record).Keeps I) :
    (api.handleStorageImport req).Keeps fun s => I s.db := by
  unfold LocalApi.handleStorageImport LocalApi.withField
  split
  · exact .done _
  · exact .done _
  · dsimp only
    split
    · exact .done _
    · split
      · exact .done _
      · exact onStore_keeps (importAll_keeps api hinsert _ _) _

theorem handleReplicatePush_keeps {fromStr : Bytes → Except String ContentRecord} {msg : ReplicatePush}
    (hinsert : ∀ record, fromStr msg.recordJson = .ok record → (store.insertRecord record).Keeps I) :
    (Node.handleReplicatePush store fromStr msg).Keeps I := by
  unfold Node.handleReplicatePush
  cases hjson : fromStr msg.recordJson with
  | error e => exact .done _
  | ok record =>
    refine Client.Within.bind (hinsert record hjson) fun out => ?_
    cases out <;> exact .done _

theorem Ingest.client_keeps {ingest : Ingest ed} (hquota : ∀ bytes, (store.checkQuota bytes).Keeps I)
    (hinsert : ∀ made record, sanitizeRecord made = .ok record → (store.insertRecord record).Keeps I)
    (hpush : ∀ fromStr msg, ingest = .replicatePush fromStr msg → ∀ record,
      fromStr msg.recordJson = .ok record → (store.insertRecord record).Keeps I) :
    (ingest.client store).Keeps fun s => I s.db := by
  cases ingest with
  | insertRecord api req =>
    have hkeeps := handleInsertRecord_keeps { api with store := store } req hquota hinsert
    exact Client.Within.bind hkeeps fun _ => .done _
  | storageImport api req =>
    have hkeeps := handleStorageImport_keeps { api with store := store } req hinsert
    exact Client.Within.bind hkeeps fun _ => .done _
  | scrapeJob env job =>
    have hkeeps : (runJob store env job).Keeps I :=
      runJob_within (fun _ _ _ _ _ => hinsert _) (fun _ _ _ => hinsert _) fun _ _ _ => hinsert _
    exact Client.Within.bind (onDb_keeps hkeeps) fun _ => .done _
  | replicatePush fromStr msg =>
    exact Client.Within.bind (onDb_keeps (handleReplicatePush_keeps (hpush fromStr msg rfl)))
      fun _ => .done _

theorem ingested_of_keeps {ι : Type} [DecidableEq ι] {ingests : ι → Ingest ed}
    (hkeeps : ∀ i, ((ingests i).client store).Keeps fun s => I s.db) (hempty : I Db.empty)
    (schedule : List ι) : I (ingested store ingests schedule).db :=
  Client.Keeps.interleave (I := fun s : NodeState => I s.db) hkeeps hempty schedule

end

section
variable {ed : Ed25519} (store : Store ed)

/-- A record that an empty store refuses is never written: it is too large for a record or, alone, for
the quota. -/
theorem insertRecord_keepsSanitized {record : ContentRecord}
    (h : Sanitized record ∨ store.Refuses Db.empty record) :
    (store.insertRecord record).Keeps AllSanitized := by
  have hadds : (store.insertRecord record).Guarantees (AddsOnly Sanitized) := by
    refine store.insertRecord_within (fun _ _ _ => AddsOnly.of_onlyIndexChanged) fun hsize db _ => ?_
    rcases h with hclean | hinvalid | ⟨-, hover⟩
    · exact AddsOnly.insertRecordTx ((sanitized_signed_iff store record).mpr hclean) _ db
    · exact absurd hsize hinvalid
    · have hoverAlways : overQuota db (store.signed record) (some store.config) = true := by
        have hempty : recordsSizeBytes Db.empty = 0 := rfl
        simp only [overQuota, hempty, Bool.and_eq_true, decide_eq_true_eq] at hover ⊢
        exact ⟨hover.1, by omega⟩
      obtain ⟨_, -, heq⟩ | ⟨-, -, heq⟩ | ⟨_, -, hfits, -⟩ | ⟨-, hfits, -⟩ :=
        insertRecordTx_cases (store.signed record) (some store.config) db
      · rw [heq]
        exact AddsOnly.refl db
      · rw [heq]
        exact AddsOnly.refl db
      · rw [hoverAlways] at hfits
        cases hfits
      · rw [hoverAlways] at hfits
        cases hfits
  exact AllSanitized.keeps_of_adds hadds

theorem checkQuota_keeps (additionalBytes : ℕ) :
    (store.checkQuota additionalBytes).Keeps AllSanitized :=
  Quota.checkQuota_within (fun _ h => h) (fun rows _ h => h.removeRows rows) _ _

/-- A push whose text is a record carries a sanitized one, or one that the store never takes. -/
def Ingest.CarriesSanitized : Ingest ed → Prop
  | .replicatePush fromStr msg => ∀ record, fromStr msg.recordJson = .ok record →
    Sanitized record ∨ store.Refuses Db.empty record
  | _ => True

theorem Ingest.client_keepsSanitized {ingest : Ingest ed} (h : ingest.CarriesSanitized store) :
    (ingest.client store).Keeps fun s => AllSanitized s.db := by
  refine Ingest.client_keeps (checkQuota_keeps store)
    (fun _ _ hsanitized => insertRecord_keepsSanitized store (.inl (sanitizeRecord_sanitized hsanitized)))
    fun fromStr msg hpush record hjson => ?_
  subst hpush
  exact insertRecord_keepsSanitized store (h record hjson)

/-! ## All ingests together -/

/-- In every state that the ingests reach, in whatever order their transactions run, all records are
sanitized, if and only if the pushes among them carry sanitized records. -/
theorem stored_sanitized_iff {ι : Type} [DecidableEq ι] (ingests : ι → Ingest ed) :
    (∀ schedule, AllSanitized (ingested store ingests schedule).db) ↔
      ∀ i, (ingests i).CarriesSanitized store := by
  constructor
  · intro hall i
    cases hingest : ingests i with
    | replicatePush fromStr msg =>
      intro record hjson
      by_contra hneither
      obtain ⟨hdirty, htaken⟩ := not_or.mp hneither
      -- alone, the push runs to its end
      obtain ⟨n, hrun⟩ := exists_schedule_run
        (NodeState.new Db.empty, fun i => (ingests i).client store) i
      have hclean := hall (List.replicate n i)
      rw [ingested, hrun] at hclean
      dsimp only at hclean
      rw [hingest, Ingest.client, Client.run_bind, NodeState.run_onDb] at hclean
      rw [Node.handleReplicatePush_run store fromStr hjson] at hclean
      have hstored := hclean record.id (store.signed record) (store.insertRecord_stores htaken)
      exact hdirty ((sanitized_signed_iff store record).mp hstored)
    | insertRecord api req => trivial
    | storageImport api req => trivial
    | scrapeJob env job => trivial
  · intro hcarries schedule
    exact ingested_of_keeps (fun i => Ingest.client_keepsSanitized store (hcarries i))
      AllSanitized.empty schedule

end

/-- A record with a control character in its body, and the one push of it. -/
def dirtyRecord : ContentRecord := { makeRecord "r1" "src" 1 0 with body := "a\x00b" }

def readsDirty (text : Bytes) : Except String ContentRecord :=
  if text = dirtyRecord.toJson then .ok dirtyRecord else .error "expected value"

def dirtyPush : Ingest .checksum := .replicatePush readsDirty (pushRecord dirtyRecord)

theorem pushed_record_not_sanitized :
    ¬ AllSanitized (ingested plainStore (fun _ : Unit => dirtyPush) [(), (), ()]).db := by
  intro hall
  have hstored := hall "r1" dirtyRecord (by decide +kernel)
  revert hstored
  decide +kernel

end DSearch
