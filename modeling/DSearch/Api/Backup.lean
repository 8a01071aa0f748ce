import DSearch.Api.SafeGet
import DSearch.Api.SignedPosts
import DSearch.Node.Replication

/-! # Export and import: `handle_storage_export` and `handle_storage_import` of `api/handlers.rs`

An import inserts the records of a file one after the other, and panics with the insert of one whose
tags are indexed already. What it took until then stays, and the next attempt skips it, so the import
goes on where it ended: repeated as often as there are records it is through, and the tables hold what
inserting every record in the order of the file leaves. -/

namespace DSearch
set_option autoImplicit false
open Transaction NewestWins JsonText

/-- What an export finds outside of the request: the database that `open_store` opens once more,
`serde_json` and the writing of a file. -/
structure ExportEnv where
  openStore : Except String Db
  toStringPretty : List ContentRecord → Except String String
  write : String → String → Except String Unit

namespace LocalApi
variable {ed : Ed25519} (api : LocalApi ed)

/-- The file that is written, and the answer. -/
def handleStorageExport (env : ExportEnv) (req : HttpRequest) :
    Option (String × String) × HttpResponse :=
  match api.bodyField req.body "path" with
  | .error e => (none, .badRequest ("invalid JSON: " ++ e))
  | .ok none => (none, .badRequest "missing field: path")
  | .ok (some path) =>
    match env.openStore with
    | .error e => (none, .internalError e)
    | .ok db =>
      let records := Records.listRecords db none 1000000
      match env.toStringPretty records with
      | .error e => (none, .internalError ("serialize: " ++ e))
      | .ok json =>
        match env.write path json with
        | .error e => (none, .internalError ("write: " ++ e))
        | .ok _ => (some (path, json), api.reply [
            ("exported", ofNat records.length),
            ("ok", ofBool true),
            ("path", ofString path)])

/-- The answer of an import. -/
def importReply (path : String) (counts : ImportCounts) : HttpResponse :=
  api.reply [
    ("errors", ofNat counts.errors),
    ("inserted", ofNat counts.inserted),
    ("ok", ofBool true),
    ("path", ofString path),
    ("replaced", ofNat counts.replaced),
    ("skipped", ofNat counts.skipped)]

/-- An import that is asked for again as often as it panics, `n` times at most. -/
def importAgain (req : HttpRequest) : ℕ → NodeState → NodeState × Outcome HttpResponse
  | 0, s => (api.handleStorageImport req).run s
  | n + 1, s =>
    match (api.handleStorageImport req).run s with
    | (s', .panic) => importAgain req n s'
    | answered => answered

/-- The request names a file of `records`. -/
structure Imports (req : HttpRequest) (path : String) (records : List ContentRecord) : Prop where
  named : api.bodyField req.body "path" = .ok (some path)
  file : ∃ text, api.readToString path = .ok text ∧ api.recordsFromStr text = .ok records

variable {api}
attribute [local simp] importAll

theorem importAll_error {record : ContentRecord} {e : String}
    (h : Sanitize.sanitizeRecord record = .error e) (records : List ContentRecord)
    (counts : ImportCounts) : api.importAll (record :: records) counts =
      api.importAll records { counts with errors := counts.errors + 1 } := by
  rw [importAll, h]

section
variable {record clean : ContentRecord} {db : Db}

theorem importAll_ok {result : InsertResult} (hclean : Sanitize.sanitizeRecord record = .ok clean)
    (records : List ContentRecord) (counts : ImportCounts)
    (h : ((api.store.insertRecord clean).run db).2 = .ok result) :
    (api.importAll (record :: records) counts).run db =
      (api.importAll records (counts.count result)).run
        ((api.store.insertRecord clean).run db).1 := by
  rw [importAll, hclean]
  dsimp only
  rw [Client.run_bind, h]

theorem importAll_err {e : String} (hclean : Sanitize.sanitizeRecord record = .ok clean)
    (records : List ContentRecord) (counts : ImportCounts)
    (h : ((api.store.insertRecord clean).run db).2 = .err e) :
    (api.importAll (record :: records) counts).run db =
      (api.importAll records { counts with errors := counts.errors + 1 }).run
        ((api.store.insertRecord clean).run db).1 := by
  rw [importAll, hclean]
  dsimp only
  rw [Client.run_bind, h]

theorem importAll_panic (hclean : Sanitize.sanitizeRecord record = .ok clean)
    (records : List ContentRecord) (counts : ImportCounts)
    (h : ((api.store.insertRecord clean).run db).2 = .panic) :
    (api.importAll (record :: records) counts).run db =
      (((api.store.insertRecord clean).run db).1, .panic) := by
  rw [importAll, hclean]
  dsimp only
  rw [Client.run_bind, h]
  rfl

end

theorem importAll_ne_err (records : List ContentRecord) (counts : ImportCounts) (db : Db)
    (e : String) : ((api.importAll records counts).run db).2 ≠ .err e := by
  induction records generalizing counts db with
  | nil => simp
  | cons record records ih =>
    cases hclean : Sanitize.sanitizeRecord record with
    | error _ =>
      rw [importAll_error hclean]
      exact ih _ db
    | ok clean =>
      cases hout : ((api.store.insertRecord clean).run db).2 with
      | ok result =>
        rw [importAll_ok hclean records counts hout]
        exact ih _ _
      | err _ =>
        rw [importAll_err hclean records counts hout]
        exact ih _ _
      | panic =>
        rw [importAll_panic hclean records counts hout]
        simp

theorem Imports.run {req : HttpRequest} {path : String} {records : List ContentRecord}
    (h : api.Imports req path records) (s : NodeState) :
    (api.handleStorageImport req).run s =
      ({ s with db := ((api.importAll records ⟨0, 0, 0, 0⟩).run s.db).1 },
        ((api.importAll records ⟨0, 0, 0, 0⟩).run s.db).2.map (api.importReply path)) := by
  obtain ⟨text, hread, hparsed⟩ := h.file
  unfold handleStorageImport withField
  rw [h.named]
  dsimp only
  rw [hread]
  dsimp only
  rw [hparsed]
  dsimp only
  rw [onStore, Client.run_bind, NodeState.run_onDb]
  cases hout : ((api.importAll records ⟨0, 0, 0, 0⟩).run s.db).2 with
  | ok counts => rfl
  | err e => exact absurd hout (importAll_ne_err records _ s.db e)
  | panic => rfl

end LocalApi

/-! ## What an import takes -/

namespace Backup
variable {ed : Ed25519} (store : Store ed)

/-- The records of a file that fit, as the store keeps them. -/
def accepted (records : List ContentRecord) : List ContentRecord :=
  ((records.filterMap fun record => (Sanitize.sanitizeRecord record).toOption).map store.signed).filter
    fun record => record.validateSize = .ok ()

theorem accepted_append (first second : List ContentRecord) :
    accepted store (first ++ second) = accepted store first ++ accepted store second := by
  unfold accepted
  rw [List.filterMap_append, List.map_append, List.filter_append]

theorem accepted_cons (record : ContentRecord) (records : List ContentRecord) :
    accepted store (record :: records) = accepted store [record] ++ accepted store records :=
  accepted_append store [record] records

theorem accepted_error {record : ContentRecord} {e : String}
    (h : Sanitize.sanitizeRecord record = .error e) : accepted store [record] = [] := by
  simp [accepted, h, Except.toOption]

theorem accepted_ok {record clean : ContentRecord} (h : Sanitize.sanitizeRecord record = .ok clean) :
    accepted store [record] =
      if (store.signed clean).validateSize = .ok () then [store.signed clean] else [] := by
  by_cases hsize : (store.signed clean).validateSize = .ok () <;>
    simp [accepted, h, Except.toOption, hsize]

/-- One source for each id, among what is there and what comes. -/
def IdsAgree (m : SourceMap) (records : List ContentRecord) : Prop :=
  ∀ a, (a ∈ records ∨ m.entry a.sourceHash = some a) → ∀ b ∈ records, a.id = b.id →
    a.sourceHash = b.sourceHash

/-- The map after `records` were offered. -/
def offered (m : SourceMap) (records : List ContentRecord) : SourceMap :=
  { m with entry := records.foldl (offer ContentRecord.sourceHash ContentRecord.createdAt) m.entry }

def Kept (m : SourceMap) (record : ContentRecord) : Prop :=
  NewestWins.Kept ContentRecord.sourceHash ContentRecord.createdAt m.entry record

@[simp] theorem offered_nil (m : SourceMap) : offered m [] = m := rfl

theorem offered_append (m : SourceMap) (first second : List ContentRecord) :
    offered m (first ++ second) = offered (offered m first) second := by
  unfold offered
  rw [List.foldl_append]

theorem offered_of_kept {m : SourceMap} {records : List ContentRecord}
    (h : ∀ record ∈ records, Kept m record) : offered m records = m := by
  unfold offered
  rw [foldl_offer_of_kept _ _ h]

theorem kept_offered (m : SourceMap) {records : List ContentRecord} {record : ContentRecord}
    (h : record ∈ records) : Kept (offered m records) record :=
  kept_foldl_offer _ _ m.entry h

theorem mem_or_of_offered {m : SourceMap} {records : List ContentRecord} {source : String}
    {r : ContentRecord} (h : (offered m records).entry source = some r) :
    r ∈ records ∨ m.entry source = some r := by
  induction records generalizing m with
  | nil => exact .inr h
  | cons record records ih =>
    rcases ih (m := offered m [record]) h with hlater | hhere
    · exact .inl (List.mem_cons_of_mem record hlater)
    · dsimp only [offered, List.foldl_cons, List.foldl_nil] at hhere
      rw [offer_apply] at hhere
      split at hhere
      · obtain rfl := Option.some.inj hhere
        exact .inl List.mem_cons_self
      · exact .inr hhere

theorem skips_iff {db : Db} {m : SourceMap} (h : Represents db m) (record : ContentRecord) :
    Store.Skips db record ↔ Kept m record := by
  unfold Store.Skips Kept NewestWins.Kept
  rw [h.dedupResult]
  cases m.entry record.sourceHash with
  | none => simp
  | some present => simp

/-- An insert into a store without a quota offers the record, if it fits. -/
theorem step_insert (m : SourceMap) {record clean : ContentRecord}
    (h : Sanitize.sanitizeRecord record = .ok clean) :
    (m.step (.insert (store.signed clean))).1 = offered m (accepted store [record]) := by
  rw [accepted_ok store h]
  by_cases hsize : (store.signed clean).validateSize = .ok ()
  · rw [if_pos hsize, m.step_insert_ok hsize]
    rfl
  · rw [if_neg hsize, m.step_insert_error hsize, offered_nil]

theorem Represents.imported {db : Db} {m : SourceMap} (h : Represents db m)
    (hquota : store.config.quotaMb = 0) {record clean : ContentRecord}
    (hclean : Sanitize.sanitizeRecord record = .ok clean)
    (hids : IdsAgree m (accepted store [record])) :
    Represents ((store.insertRecord clean).run db).1 (offered m (accepted store [record])) := by
  have hapart : (store.signed clean).validateSize = .ok () → ∀ source r, m.entry source = some r →
      r.id = clean.id → r.sourceHash = clean.sourceHash := by
    intro hsize source r hr hid
    obtain rfl := h.keyed source r hr
    have hagree := hids r (.inr hr) (store.signed clean)
    rw [accepted_ok store hclean, if_pos hsize, store.signed_id, store.signed_sourceHash] at hagree
    exact hagree List.mem_cons_self hid
  obtain ⟨m', hm', hstep | ⟨-, hlimited⟩⟩ := h.insertRecord store hapart
  · rwa [hstep, step_insert store m hclean] at hm'
  · exact absurd hquota hlimited

theorem IdsAgree.append {m : SourceMap} {first second : List ContentRecord}
    (h : IdsAgree m (first ++ second)) :
    IdsAgree m first ∧ IdsAgree (offered m first) second := by
  constructor
  · intro a ha b hb
    exact h a (ha.imp_left (List.mem_append_left second)) b (List.mem_append_left second hb)
  · intro a ha b hb
    refine h a ?_ b (List.mem_append_right first hb)
    rcases ha with hsecond | hthere
    · exact .inl (List.mem_append_right first hsecond)
    · exact (mem_or_of_offered hthere).imp_left (List.mem_append_left second)

theorem Kept.offered {m : SourceMap} {record : ContentRecord} (h : Kept m record)
    (records : List ContentRecord) : Kept (Backup.offered m records) record :=
  NewestWins.Kept.foldl_offer _ _ h records

variable {store}

theorem not_kept_of_panic {db : Db} {m : SourceMap} (h : Represents db m) {record clean : ContentRecord}
    (hclean : Sanitize.sanitizeRecord record = .ok clean)
    (hpanic : ((store.insertRecord clean).run db).2 = .panic) :
    ∃ r ∈ accepted store [record], ¬ Kept m r := by
  obtain ⟨hrefuses, hskips, -⟩ := (store.insertRecord_panic_iff clean db).mp hpanic
  have hsize : (store.signed clean).validateSize = .ok () := by
    by_contra hinvalid
    exact hrefuses (.inl hinvalid)
  refine ⟨store.signed clean, ?_, fun hkept => hskips ?_⟩
  · rw [accepted_ok store hclean, if_pos hsize]
    exact List.mem_cons_self
  · have hsigned := (skips_iff h (store.signed clean)).mpr hkept
    rwa [Store.Skips, store.dedupResult_signed] at hsigned

/-- One attempt takes the records up to one, which is new to the store if the attempt panics. -/
theorem attempt (api : LocalApi ed) {db : Db} {m : SourceMap} (h : Represents db m)
    (hquota : api.store.config.quotaMb = 0) {records : List ContentRecord}
    (hids : IdsAgree m (accepted api.store records)) (counts : LocalApi.ImportCounts) :
    ∃ n ≤ records.length,
      Represents ((api.importAll records counts).run db).1
        (offered m (accepted api.store (records.take n))) ∧
      ((n = records.length ∧ ∃ counts', ((api.importAll records counts).run db).2 = .ok counts') ∨
        (((api.importAll records counts).run db).2 = .panic ∧
          ∃ r ∈ accepted api.store (records.take n), ¬ Kept m r)) := by
  induction records generalizing db m counts with
  | nil => exact ⟨0, le_rfl, h, .inl ⟨rfl, counts, rfl⟩⟩
  | cons record records ih =>
    rw [accepted_cons] at hids
    obtain ⟨hhere, hlater⟩ := hids.append
    -- what the rest takes after an insert, or after a record that is refused
    have hrest : ∀ (db' : Db) (counts' : LocalApi.ImportCounts),
        Represents db' (offered m (accepted api.store [record])) →
        (api.importAll (record :: records) counts).run db = (api.importAll records counts').run db' →
        ∃ n ≤ (record :: records).length,
          Represents ((api.importAll (record :: records) counts).run db).1
            (offered m (accepted api.store ((record :: records).take n))) ∧
          ((n = (record :: records).length ∧
              ∃ counts'', ((api.importAll (record :: records) counts).run db).2 = .ok counts'') ∨
            (((api.importAll (record :: records) counts).run db).2 = .panic ∧
              ∃ r ∈ accepted api.store ((record :: records).take n), ¬ Kept m r)) := by
      intro db' counts' hdb' hrun
      obtain ⟨n, hn, hrep, hend⟩ := ih hdb' hlater counts'
      refine ⟨n + 1, Nat.succ_le_succ hn, ?_⟩
      rw [hrun, List.take_succ_cons, accepted_cons, offered_append]
      refine ⟨hrep, ?_⟩
      rcases hend with ⟨hall, hok⟩ | ⟨hpanic, r, hr, hnew⟩
      · exact .inl ⟨congrArg Nat.succ hall, hok⟩
      · exact .inr ⟨hpanic, r, List.mem_append_right _ hr, fun hkept => hnew (hkept.offered _)⟩
    cases hclean : Sanitize.sanitizeRecord record with
    | error e =>
      refine hrest db _ ?_ (by rw [LocalApi.importAll_error hclean])
      rwa [accepted_error _ hclean]
    | ok clean =>
      have hinserted := Represents.imported api.store h hquota hclean hhere
      cases hout : ((api.store.insertRecord clean).run db).2 with
      | ok result => exact hrest _ _ hinserted (LocalApi.importAll_ok hclean records counts hout)
      | err e => exact hrest _ _ hinserted (LocalApi.importAll_err hclean records counts hout)
      | panic =>
        refine ⟨1, Nat.succ_le_succ (Nat.zero_le _), ?_⟩
        rw [LocalApi.importAll_panic hclean records counts hout, List.take_succ_cons, List.take_zero]
        exact ⟨hinserted, .inr ⟨rfl, not_kept_of_panic h hclean hout⟩⟩

/-! ## An import that is asked for again -/

theorem accepted_take {records : List ContentRecord} {n : ℕ} {r : ContentRecord}
    (h : r ∈ accepted store (records.take n)) : r ∈ accepted store records := by
  rw [← List.take_append_drop n records, accepted_append]
  exact List.mem_append_left _ h

/-- What was offered once may be offered again with the rest. -/
theorem offered_again (m : SourceMap) (records : List ContentRecord) (n : ℕ) :
    offered (offered m (accepted store (records.take n))) (accepted store records) =
      offered m (accepted store records) := by
  have hsplit : accepted store records =
      accepted store (records.take n) ++ accepted store (records.drop n) := by
    rw [← accepted_append, List.take_append_drop]
  rw [hsplit, offered_append, offered_append]
  rw [offered_of_kept fun r hr => kept_offered m hr]

theorem IdsAgree.offered {m : SourceMap} {first records : List ContentRecord}
    (h : IdsAgree m records) (hfirst : ∀ r ∈ first, r ∈ records) :
    IdsAgree (Backup.offered m first) records := by
  intro a ha b hb
  refine h a ?_ b hb
  rcases ha with hmem | hthere
  · exact .inl hmem
  · exact (mem_or_of_offered hthere).imp_left (hfirst a)

/-- With the first `j` records in the store, as many attempts as there are others are enough. -/
theorem importAgain_ends (api : LocalApi ed) {req : HttpRequest} {path : String}
    {records : List ContentRecord} (himports : api.Imports req path records)
    (hquota : api.store.config.quotaMb = 0) (retries j : ℕ) (hretries : records.length ≤ j + retries)
    {s : NodeState} {m : SourceMap} (h : Represents s.db m)
    (hids : IdsAgree m (accepted api.store records))
    (hkept : ∀ r ∈ accepted api.store (records.take j), Kept m r) :
    (∃ counts, (api.importAgain req retries s).2 = .ok (api.importReply path counts)) ∧
      Represents (api.importAgain req retries s).1.db (offered m (accepted api.store records)) := by
  induction retries generalizing j s m with
  | zero =>
    obtain ⟨n, hn, hrep, ⟨hall, counts, hok⟩ | ⟨-, r, hr, hnew⟩⟩ :=
      attempt api h hquota hids ⟨0, 0, 0, 0⟩
    · rw [hall, List.take_length] at hrep
      rw [LocalApi.importAgain, himports.run, hok]
      exact ⟨⟨counts, rfl⟩, hrep⟩
    · -- every record is there, so none is new
      rw [List.take_of_length_le (by omega : records.length ≤ j)] at hkept
      exact absurd (hkept r (accepted_take hr)) hnew
  | succ retries ih =>
    obtain ⟨n, hn, hrep, ⟨hall, counts, hok⟩ | ⟨hpanic, r, hr, hnew⟩⟩ :=
      attempt api h hquota hids ⟨0, 0, 0, 0⟩
    · rw [hall, List.take_length] at hrep
      rw [LocalApi.importAgain, himports.run, hok]
      exact ⟨⟨counts, rfl⟩, hrep⟩
    · have hfurther : j < n := by
        by_contra hle
        have hprefix : (records.take j).take n = records.take n := by
          rw [List.take_take, Nat.min_eq_left (by omega)]
        rw [← hprefix] at hr
        exact hnew (hkept r (accepted_take hr))
      have hnext := ih n (by omega) (s := { s with db := _ }) hrep
        (hids.offered fun _ => accepted_take) fun r hr => kept_offered m hr
      rw [offered_again] at hnext
      rw [LocalApi.importAgain, himports.run, hpanic]
      exact hnext

/-- An import is through after as many attempts as there are records and one, wherever the others
panicked, and leaves what offering every record that fits in the order of the file leaves. -/
theorem import_completes (api : LocalApi ed) {req : HttpRequest} {path : String}
    {records : List ContentRecord} (himports : api.Imports req path records)
    (hquota : api.store.config.quotaMb = 0) {s : NodeState} {m : SourceMap}
    (h : Represents s.db m) (hids : IdsAgree m (accepted api.store records)) :
    (∃ counts, (api.importAgain req records.length s).2 = .ok (api.importReply path counts)) ∧
      Represents (api.importAgain req records.length s).1.db
        (offered m (accepted api.store records)) := by
  refine importAgain_ends api himports hquota records.length 0 (by omega) h hids fun r hr => ?_
  rw [List.take_zero] at hr
  cases hr

theorem IdsAgree.of_empty {records : List ContentRecord}
    (h : ∀ a ∈ records, ∀ b ∈ records, a.id = b.id → a.sourceHash = b.sourceHash) :
    IdsAgree SourceMap.empty records := by
  rintro a (ha | hthere) b hb hid
  · exact h a ha b hb hid
  · cases hthere

def fileText (records : List ContentRecord) : String :=
  "[" ++ String.intercalate "," (records.map jsonText) ++ "]"

/-- The local API over an empty store, with a file of these records. -/
def fileApi (records : List ContentRecord) : LocalApi .checksum :=
  { bareApi ⟨0, ""⟩ "" (makeRecord "r1" "sh1" 1 0) with
    bodyField := fun _ _ => .ok (some "backup.json")
    readToString := fun _ => .ok (fileText records)
    recordsFromStr := fun text =>
      if text = fileText records then .ok records else .error "expected value" }

theorem fileApi_imports (records : List ContentRecord) (req : HttpRequest) :
    (fileApi records).Imports req "backup.json" records :=
  ⟨rfl, fileText records, rfl, if_pos rfl⟩

def importRequest : HttpRequest := ⟨"POST", "/storage/import", ∅, ∅, "\x7b\"path\":\"backup.json\"\x7d"⟩

/-- Indexing the first record panics at its second tag. -/
def taggedTwice : List ContentRecord :=
  [{ makeRecord "r1" "sh1" 1 0 with tags := ["test", "test"] }, makeRecord "r2" "sh2" 1 0]

example : (((fileApi taggedTwice).importAll taggedTwice ⟨0, 0, 0, 0⟩).run Db.empty).2 = .panic := by
  decide +kernel

theorem import_completes_taggedTwice :
    (∃ counts, ((fileApi taggedTwice).importAgain importRequest 2 (.new .empty)).2 =
      .ok ((fileApi taggedTwice).importReply "backup.json" counts)) ∧
      Represents ((fileApi taggedTwice).importAgain importRequest 2 (.new .empty)).1.db
        (offered SourceMap.empty (accepted (fileApi taggedTwice).store taggedTwice)) := by
  have hends := import_completes (fileApi taggedTwice) (s := .new .empty)
    (fileApi_imports taggedTwice importRequest) rfl Represents.empty
    (IdsAgree.of_empty (by decide +kernel))
  have hlength : taggedTwice.length = 2 := rfl
  rwa [hlength] at hends

/-! ## What an export carries over -/

/-- The store takes the record as it is: nothing in it is sanitized away or signed. -/
structure Restorable (store : Store ed) (record : ContentRecord) : Prop where
  sanitized : Sanitize.sanitizeRecord record = .ok record
  signed : store.signed record = record
  fits : record.validateSize = .ok ()

theorem accepted_of_restorable {records : List ContentRecord}
    (h : ∀ record ∈ records, Restorable store record) : accepted store records = records := by
  induction records with
  | nil => rfl
  | cons record records ih =>
    have hfirst := h record List.mem_cons_self
    rw [accepted_cons, accepted_ok store hfirst.sanitized, hfirst.signed, if_pos hfirst.fits,
      ih fun r hr => h r (List.mem_cons_of_mem record hr)]
    rfl

theorem mem_storedRecords {db : Db} {m : SourceMap} (h : Represents db m) {record : ContentRecord} :
    record ∈ Records.storedRecords db ↔ m.entry record.sourceHash = some record := by
  constructor
  · intro hmem
    obtain ⟨row, hrow, rfl⟩ := List.mem_map.mp hmem
    exact ((h.stored _ _).mp (Std.ExtTreeMap.mem_toList_iff_getElem?_eq_some.mp hrow)).2
  · intro hentry
    exact List.mem_map.mpr ⟨(record.id, record),
      Std.ExtTreeMap.mem_toList_iff_getElem?_eq_some.mpr (h.entry_stored hentry), rfl⟩

theorem storedRecords_nodup {db : Db} {m : SourceMap} (h : Represents db m) :
    (Records.storedRecords db).Nodup := by
  refine List.Nodup.map_on (fun a ha b hb hsame => ?_) (OrderedTable.nodup_toList db.records)
  have hid : ∀ row ∈ db.records.toList, row.2.id = row.1 := fun row hrow =>
    ((h.stored _ _).mp (Std.ExtTreeMap.mem_toList_iff_getElem?_eq_some.mp hrow)).1
  exact Prod.ext (by rw [← hid a ha, ← hid b hb, hsame]) hsame

/-- The rows of one source: the one that the map keeps. -/
theorem storedRecords_source {db : Db} {m : SourceMap} (h : Represents db m) (source : String) :
    (Records.storedRecords db).filter (fun record => record.sourceHash = source) =
      (m.entry source).toList := by
  have hmem : ∀ r, r ∈ (Records.storedRecords db).filter (fun record => record.sourceHash = source) ↔
      m.entry source = some r := by
    intro r
    rw [List.mem_filter, mem_storedRecords h, decide_eq_true_eq]
    constructor
    · rintro ⟨hentry, rfl⟩
      exact hentry
    · intro hentry
      obtain rfl := h.keyed source r hentry
      exact ⟨hentry, rfl⟩
  cases hentry : m.entry source with
  | none =>
    refine List.eq_nil_iff_forall_not_mem.mpr fun r hr => ?_
    rw [hmem, hentry] at hr
    cases hr
  | some kept =>
    rw [Option.toList_some, ← List.perm_singleton, List.perm_ext_iff_of_nodup
      ((storedRecords_nodup h).filter _) (List.nodup_singleton kept)]
    intro r
    rw [hmem, hentry, List.mem_singleton, Option.some.injEq, eq_comm]

/-- A store that is offered the rows of another keeps the newer record of each source, its own if
they are equally new. -/
theorem offered_storedRecords {db : Db} {m m' : SourceMap} (h : Represents db m) (source : String)
    (record : ContentRecord) :
    (offered m' (Records.storedRecords db)).entry source = some record ↔
      (m'.entry source = some record ∧
        ∀ other, m.entry source = some other → other.createdAt ≤ record.createdAt) ∨
      (m.entry source = some record ∧
        ∀ other, m'.entry source = some other → other.createdAt < record.createdAt) := by
  unfold offered
  dsimp only
  rw [foldl_offer_eq_argmax, storedRecords_source h]
  exact argmax_toList_append ContentRecord.createdAt

/-- An import of the file that an export of `db` has written, wherever that is by then. -/
structure Transfer (exporter importer : LocalApi ed) (env : ExportEnv) (exported imported : HttpRequest)
    (path : String) (db : Db) : Prop where
  opened : env.openStore = .ok db
  count : db.records.size ≤ 1000000
  file : ∃ name text, (exporter.handleStorageExport env exported).1 = some (name, text) ∧
    importer.readToString path = .ok text
  named : importer.bodyField imported.body "path" = .ok (some path)
  json : ∀ records text, env.toStringPretty records = .ok text →
    importer.recordsFromStr text = .ok records

variable {exporter importer : LocalApi ed} {env : ExportEnv} {exported imported : HttpRequest}
  {path : String} {db : Db}

theorem storedRecords_length (db : Db) : (Records.storedRecords db).length = db.records.size := by
  rw [Records.storedRecords, List.length_map, Std.ExtTreeMap.length_toList]

/-- What is imported is every row of the export. -/
theorem Transfer.imports (h : Transfer exporter importer env exported imported path db) :
    importer.Imports imported path (Records.storedRecords db) := by
  obtain ⟨name, text, hfile, hread⟩ := h.file
  refine ⟨h.named, text, hread, h.json _ _ ?_⟩
  have hrows : Records.listRecords db none 1000000 = Records.storedRecords db := by
    rw [Records.listRecords_none, List.take_of_length_le]
    rw [storedRecords_length]
    exact h.count.trans (le_max_right 1 1000000)
  unfold LocalApi.handleStorageExport at hfile
  rw [h.opened] at hfile
  dsimp only at hfile
  rw [hrows] at hfile
  split at hfile
  · cases hfile
  · cases hfile
  · split at hfile
    · cases hfile
    · next json hjson =>
      split at hfile
      · cases hfile
      · obtain ⟨-, rfl⟩ := Prod.mk.inj (Option.some.inj hfile)
        exact hjson

/-- A store in which one record was inserted. -/
def holding (record : ContentRecord) : Db := ((plainStore.insertRecord record).run Db.empty).1

theorem holding_represents {record : ContentRecord} (h : Restorable plainStore record) :
    Represents (holding record) (offered SourceMap.empty [record]) := by
  have haccepted : accepted plainStore [record] = [record] :=
    accepted_of_restorable fun r hr => (List.mem_singleton.mp hr) ▸ h
  have hrep := Represents.imported plainStore Represents.empty rfl h.sanitized
    (IdsAgree.of_empty fun a ha b hb _ => by
      rw [haccepted] at ha hb
      rw [List.mem_singleton.mp ha, List.mem_singleton.mp hb])
  rwa [haccepted] at hrep

theorem holding_stored {record : ContentRecord} (h : Restorable plainStore record) {id : String}
    {r : ContentRecord} (hstored : (holding record).records[id]? = some r) :
    r.id = id ∧ r = record := by
  obtain ⟨hid, hentry⟩ := ((holding_represents h).stored id r).mp hstored
  rcases mem_or_of_offered hentry with hmem | hthere
  · exact ⟨hid, List.mem_singleton.mp hmem⟩
  · cases hthere

theorem new_db (db : Db) : (NodeState.new db).db = db := rfl

/-- An export of one record. -/
def exportEnv (record : ContentRecord) : ExportEnv where
  openStore := .ok (holding record)
  toStringPretty records :=
    if records = [record] then .ok (fileText [record]) else .error "out of memory"
  write _ _ := .ok ()

theorem exportEnv_transfer {record : ContentRecord} (req req' : HttpRequest)
    (hcount : (holding record).records.size ≤ 1000000)
    (hlisted : Records.listRecords (holding record) none 1000000 = [record]) :
    Transfer (fileApi [record]) (fileApi [record]) (exportEnv record) req req' "backup.json"
      (holding record) where
  opened := rfl
  count := hcount
  file := by
    refine ⟨"backup.json", fileText [record], ?_, rfl⟩
    have htext : (exportEnv record).toStringPretty [record] = .ok (fileText [record]) := if_pos rfl
    have hnamed : (fileApi [record]).bodyField req.body "path" = .ok (some "backup.json") := rfl
    have hopened : (exportEnv record).openStore = .ok (holding record) := rfl
    unfold LocalApi.handleStorageExport
    rw [hnamed, hopened]
    dsimp only
    rw [hlisted, htext]
    rfl
  named := rfl
  json records text htext := by
    change (if records = [record] then Except.ok (fileText [record]) else .error "out of memory") =
      .ok text at htext
    split at htext
    · next hsame =>
      rw [hsame, ← Except.ok.inj htext]
      exact if_pos rfl
    · cases htext

/-- Indexing lists nothing new but the id. -/
theorem listed_of_indexRecord {id : String} (hcomma : ',' ∉ id.toList) (schema : String)
    (tags : List String) {db : Db} {key listed : String}
    (h : listed ∈ Index.idsUnder ((Index.indexRecord id schema tags).run db).1 key) :
    listed ∈ Index.idsUnder db key ∨ listed = id := by
  induction tags generalizing db with
  | nil => exact .inl h
  | cons tag tags ih =>
    rw [Index.indexRecord_run_cons] at h
    split at h
    · exact .inl h
    · next hnew =>
      rcases ih h with hthere | hid
      · rw [Index.indexTagTx_unlisted hnew, Index.idsUnder_insert, Index.split_withId hcomma] at hthere
        split at hthere
        · next hkey =>
          subst hkey
          rw [List.mem_append, List.mem_singleton] at hthere
          refine hthere.imp_left fun hold => ?_
          split at hold
          · cases hold
          · exact hold
        · exact .inl hthere
      · exact .inr hid

/-- A record of a new source that fits is written, and then indexed. -/
theorem insertRecord_fresh {db : Db} {record : ContentRecord}
    (hfits : (store.signed record).validateSize = .ok ()) (hquota : store.config.quotaMb = 0)
    (hfresh : Records.dedupResult db record = none) :
    ∃ db₁, db₁.invertedIndex = db.invertedIndex ∧ (store.insertRecord record).run db =
      (((Index.indexRecord record.id record.schema record.tags).run db₁).1,
        ((Index.indexRecord record.id record.schema record.tags).run db₁).2.map fun _ =>
          .inserted) := by
  have hunlimited : Records.overQuota db (store.signed record) (some store.config) = false := by
    refine overQuota_unlimited db _ fun cfg hcfg => ?_
    rw [← Option.some.inj hcfg]
    exact hquota
  have hcases := Records.insertRecordTx_cases (store.signed record) (some store.config) db
  rw [store.dedupResult_signed, hfresh, hunlimited] at hcases
  rw [store.insertRecord_run, Records.insertRecord_run, hfits]
  obtain ⟨_, hskip, -⟩ | ⟨-, hover, -⟩ | ⟨_, hreplace, -⟩ | ⟨-, -, heq⟩ := hcases
  · cases hskip
  · cases hover
  · cases hreplace
  · dsimp only
    rw [heq]
    refine ⟨_, ?_, rfl⟩
    rfl

/-- Records of new sources, with ids that are not indexed, are all inserted if no record has one index
key twice. -/
theorem importAll_fresh (api : LocalApi ed) (hquota : api.store.config.quotaMb = 0)
    {records : List ContentRecord} {db : Db} {m : SourceMap} {ids : List String}
    (h : Represents db m) (hlisted : ∀ key, ∀ id ∈ Index.idsUnder db key, id ∈ ids)
    (hfresh : ∀ record ∈ records, m.entry record.sourceHash = none ∧ ¬ m.Holds record.id ∧
      record.id ∉ ids ∧ ',' ∉ record.id.toList ∧ Restorable api.store record)
    (hapart : records.Pairwise fun a b => a.sourceHash ≠ b.sourceHash ∧ a.id ≠ b.id)
    (counts : LocalApi.ImportCounts) :
    ((api.importAll records counts).run db).2 =
      if ∀ record ∈ records, (record.tags.map (Index.indexKey record.schema)).Nodup then
        .ok { counts with inserted := counts.inserted + records.length }
      else .panic := by
  induction records generalizing db m ids counts with
  | nil => rfl
  | cons record records ih =>
    obtain ⟨hsource, hholds, hnew, hcomma, hrestorable⟩ := hfresh record List.mem_cons_self
    obtain ⟨hfirst, hapart⟩ := List.pairwise_cons.mp hapart
    have hdedup : Records.dedupResult db record = none := by
      rw [h.dedupResult, hsource]
      rfl
    have hfits : (api.store.signed record).validateSize = .ok () :=
      hrestorable.signed.symm ▸ hrestorable.fits
    obtain ⟨db₁, hindex, hrun⟩ := insertRecord_fresh hfits hquota hdedup
    have hunlisted : ∀ tag ∈ record.tags,
        record.id ∉ Index.idsUnder db₁ (Index.indexKey record.schema tag) := by
      intro tag _ hmem
      rw [Index.idsUnder_congr hindex] at hmem
      exact hnew (hlisted _ _ hmem)
    have hok := Index.indexRecord_ok_iff hcomma record.schema record.tags db₁
    by_cases hkeys : (record.tags.map (Index.indexKey record.schema)).Nodup
    · have hout : ((api.store.insertRecord record).run db).2 = .ok .inserted := by
        rw [hrun, hok.mpr ⟨hkeys, hunlisted⟩]
        rfl
      have hoffered : IdsAgree m (accepted api.store [record]) := by
        rw [accepted_of_restorable fun r hr => (List.mem_singleton.mp hr) ▸ hrestorable]
        intro a ha b hb hid
        obtain rfl := List.mem_singleton.mp hb
        rcases ha with hmem | hthere
        · rw [List.mem_singleton.mp hmem]
        · exact absurd ⟨_, a, hthere, hid⟩ hholds
      have hnext := Represents.imported api.store h hquota hrestorable.sanitized hoffered
      rw [accepted_of_restorable fun r hr => (List.mem_singleton.mp hr) ▸ hrestorable] at hnext
      rw [LocalApi.importAll_ok hrestorable.sanitized records counts hout]
      have hlater : ∀ r ∈ records, (offered m [record]).entry r.sourceHash = none ∧
          ¬ (offered m [record]).Holds r.id ∧ r.id ∉ record.id :: ids ∧ ',' ∉ r.id.toList ∧
          Restorable api.store r := by
        intro r hr
        obtain ⟨hsource', hholds', hnew', hcomma', hrestorable'⟩ :=
          hfresh r (List.mem_cons_of_mem record hr)
        obtain ⟨hother, hotherId⟩ := hfirst r hr
        refine ⟨?_, ?_, ?_, hcomma', hrestorable'⟩
        · cases hentry : (offered m [record]).entry r.sourceHash with
          | none => rfl
          | some kept =>
            rcases mem_or_of_offered hentry with hmem | hthere
            · obtain rfl := List.mem_singleton.mp hmem
              exact absurd (hnext.keyed _ _ hentry) hother
            · rw [hsource'] at hthere
              cases hthere
        · rintro ⟨source, kept, hentry, hid⟩
          rcases mem_or_of_offered hentry with hmem | hthere
          · exact hotherId (List.mem_singleton.mp hmem ▸ hid)
          · exact hholds' ⟨source, kept, hthere, hid⟩
        · rw [List.mem_cons, not_or]
          exact ⟨Ne.symm hotherId, hnew'⟩
      rw [ih hnext (fun key id hmem => ?_) hlater hapart]
      · simp only [List.forall_mem_cons, hkeys, true_and, LocalApi.ImportCounts.count,
          List.length_cons]
        rw [Nat.add_right_comm, Nat.add_assoc]
      · rw [hrun] at hmem
        rw [List.mem_cons]
        rcases listed_of_indexRecord hcomma record.schema record.tags hmem with hthere | hid
        · rw [Index.idsUnder_congr hindex] at hthere
          exact .inr (hlisted key id hthere)
        · exact .inl hid
    · have hout : ((api.store.insertRecord record).run db).2 = .panic := by
        rcases Index.indexRecord_panic_iff record.id record.schema record.tags db₁ with
          ⟨-, hpanic⟩ | ⟨hfine, -⟩
        · rw [hrun, hpanic]
          rfl
        · exact absurd ⟨hcomma, fun hboth => hkeys hboth.1⟩ hfine
      rw [LocalApi.importAll_panic hrestorable.sanitized records counts hout, if_neg]
      intro hall
      exact hkeys (hall record List.mem_cons_self)

theorem storedRecords_pairwise {db : Db} {m : SourceMap} (h : Represents db m) :
    (Records.storedRecords db).Pairwise fun a b => a.sourceHash ≠ b.sourceHash ∧ a.id ≠ b.id := by
  refine List.Pairwise.imp_of_mem (fun {a b} ha hb hne => ?_) (storedRecords_nodup h)
  have hrowA := (mem_storedRecords h).mp ha
  have hrowB := (mem_storedRecords h).mp hb
  constructor
  · intro hsource
    rw [hsource, hrowB] at hrowA
    exact hne (Option.some.inj hrowA).symm
  · intro hid
    have hstored := h.entry_stored hrowA
    rw [hid, h.entry_stored hrowB] at hstored
    exact hne (Option.some.inj hstored).symm

end Backup

end DSearch
