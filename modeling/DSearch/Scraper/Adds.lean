import DSearch.Scraper.Job

/-! # What a scrape job writes

Every runner sanitizes the records that it makes and inserts what comes out. So a job moves the store
as the inserts of sanitized records do, and what holds of a sanitized record, however it is signed,
holds of everything that it adds. -/

namespace DSearch
set_option autoImplicit false
open Transaction Records Scraper

/-- An insert moves the store as its transaction does, and then in the index tables only. -/
theorem Store.insertRecord_within {ed : Ed25519} (store : Store ed) {record : ContentRecord}
    {I : Db → Prop} {R : Db → Db → Prop}
    (hindex : ∀ db db', I db → Index.OnlyIndexChanged db db' → R db db')
    (htx : (store.signed record).validateSize = .ok () → ∀ db, I db →
      R db (Records.insertRecordTx (store.signed record) (some store.config) db).1) :
    (store.insertRecord record).Within I R := by
  have htags : ∀ recordId schema tags, (Index.indexRecord recordId schema tags).Within I R :=
    fun recordId schema tags => (Index.indexRecord_guarantees
      (Index.indexTagTx_onlyIndexChanged recordId) schema tags).within hindex
  unfold Store.insertRecord
  rw [store.signIfUnsigned_eq]
  refine Client.Within.andThen ?_ fun result => ?_
  · unfold Records.insertRecord
    cases hsize : (store.signed record).validateSize with
    | error e => exact .done _
    | ok _ => exact Client.Within.atomically (htx hsize) fun _ => .done _
  · cases result with
    | skippedOlder => exact .done _
    | inserted => exact Client.Within.andThen (htags _ _ _) fun _ => .done _
    | replacedNewer => exact Client.Within.andThen (htags _ _ _) fun _ => .done _

/-- Only records with `P` are new, and the pins are as before. -/
def AddsOnly (P : ContentRecord → Prop) (db db' : Db) : Prop :=
  db'.pins = db.pins ∧ ∀ (id : String) (record : ContentRecord), db'.records[id]? = some record →
    db.records[id]? = some record ∨ P record

namespace AddsOnly
variable {P : ContentRecord → Prop}

theorem refl (db : Db) : AddsOnly P db db := ⟨rfl, fun _ _ h => .inl h⟩

theorem trans (s t u : Db) (hst : AddsOnly P s t) (htu : AddsOnly P t u) : AddsOnly P s u := by
  refine ⟨htu.1.trans hst.1, fun id record h => ?_⟩
  rcases htu.2 id record h with h | h
  · exact hst.2 id record h
  · exact .inr h

theorem of_onlyIndexChanged {db db' : Db} (h : Index.OnlyIndexChanged db db') : AddsOnly P db db' := by
  unfold Index.OnlyIndexChanged at h
  rw [← h]
  exact ⟨rfl, fun _ _ h => .inl h⟩

theorem insertRecordTx {record : ContentRecord} (hP : P record) (config : Option StorageConfig)
    (db : Db) : AddsOnly P db (insertRecordTx record config db).1 := by
  obtain ⟨_, -, heq⟩ | ⟨-, -, heq⟩ | ⟨_, -, -, heq⟩ | ⟨-, -, heq⟩ :=
    insertRecordTx_cases record config db
  · rw [heq]; exact refl db
  · rw [heq]; exact refl db
  · rw [heq]
    refine ⟨rfl, fun id r hr => ?_⟩
    rcases OrderedTable.get_insert_eq_some.mp hr with ⟨-, rfl⟩ | ⟨-, hold⟩
    · exact .inr hP
    · exact .inl (OrderedTable.get_erase_eq_some.mp hold).2
  · rw [heq]
    refine ⟨rfl, fun id r hr => ?_⟩
    rcases OrderedTable.get_insert_eq_some.mp hr with ⟨-, rfl⟩ | ⟨-, hold⟩
    · exact .inr hP
    · exact .inl hold

theorem insertRecord {ed : Ed25519} (store : Store ed) {record : ContentRecord}
    (hP : ∀ sig, P { record with sig := sig }) :
    (store.insertRecord record).Guarantees (AddsOnly P) := by
  obtain ⟨sig, hsigned⟩ := store.signed_eq record
  refine store.insertRecord_within (fun _ _ _ => of_onlyIndexChanged) fun _ db _ => insertRecordTx ?_ _ db
  rw [hsigned]
  exact hP sig

end AddsOnly

/-- What becomes of the record in a runner has `P`. -/
def Yields (P : ContentRecord → Prop) (made : ContentRecord) : Prop :=
  ∀ record, Sanitize.sanitizeRecord made = .ok record → ∀ sig, P { record with sig := sig }

section
variable {ed : Ed25519} (store : Store ed)

/-- What becomes of the record in a runner is inserted within `I` and `R`. -/
def Inserts (I : Db → Prop) (R : Db → Db → Prop) (made : ContentRecord) : Prop :=
  ∀ record, Sanitize.sanitizeRecord made = .ok record → (store.insertRecord record).Within I R

theorem Yields.inserts {P : ContentRecord → Prop} {made : ContentRecord} (h : Yields P made) :
    Inserts store (fun _ => True) (AddsOnly P) made :=
  fun record hsanitized => AddsOnly.insertRecord store (h record hsanitized)

end

variable {ed : Ed25519} {store : Store ed} {env : ScrapeEnv} {I : Db → Prop} {R : Db → Db → Prop}

theorem runUrlJob_within {name target lifecycle : String} {ttlSecs now : ℕ}
    (hurl : ∀ body, Inserts store I R (urlRecord env name target lifecycle ttlSecs body now)) :
    (runUrlJob store env name target lifecycle ttlSecs now).Within I R := by
  unfold runUrlJob
  cases env.fetchUrl target with
  | error e => exact .done _
  | ok body =>
    dsimp only
    cases hsanitized : Sanitize.sanitizeRecord
      (urlRecord env name target lifecycle ttlSecs body now) with
    | error e => exact .done _
    | ok record =>
      exact Client.Within.andThen (hurl body record hsanitized) fun _ => .done _

theorem insertAll_within (records : List ContentRecord)
    (hrecords : ∀ made ∈ records, Inserts store I R made) (counts : BatchResult) :
    (insertAll store records counts).Within I R := by
  induction records generalizing counts with
  | nil => exact .done _
  | cons made records ih =>
    unfold insertAll
    cases hsanitized : Sanitize.sanitizeRecord made with
    | error e => exact .done _
    | ok record =>
      refine Client.Within.andThen (hrecords made List.mem_cons_self record hsanitized) fun _ => ?_
      exact ih (fun r hr => hrecords r (List.mem_cons_of_mem made hr)) _

theorem runFeedJob_within {name target : String} {ttlSecs : ℕ}
    (hfeed : ∀ entry now, Inserts store I R (feedRecord env name ttlSecs entry now)) :
    (runFeedJob store env name target ttlSecs).Within I R := by
  unfold runFeedJob
  cases env.feedEntries target with
  | error e => exact .done _
  | ok entries =>
    refine insertAll_within _ (fun made hmade => ?_) _
    obtain ⟨i, hi, rfl⟩ := List.mem_mapIdx.mp hmade
    exact hfeed _ _

theorem runApiJob_within {name target : String} {ttlSecs : ℕ}
    (hapi : ∀ items, env.apiItems target = .ok items →
      ∀ item ∈ items, ∀ now, Inserts store I R (apiRecord env ttlSecs item now)) :
    (runApiJob store env name target ttlSecs).Within I R := by
  unfold runApiJob
  cases hitems : env.apiItems target with
  | error e => exact .done _
  | ok items =>
    refine insertAll_within _ (fun made hmade => ?_) _
    obtain ⟨i, hi, rfl⟩ := List.mem_mapIdx.mp hmade
    exact hapi items hitems _ (List.getElem_mem hi) _

theorem scrapeUrls_within {job : JobState} (hurl : ∀ name target body now,
      Inserts store I R (urlRecord env name target job.lifecycle job.ttlSecs body now))
    (urls : List (String × String)) (i totalInserted : ℕ) :
    (scrapeUrls store env job urls i totalInserted).Within I R := by
  induction urls generalizing i totalInserted with
  | nil => exact .done _
  | cons url urls ih =>
    unfold scrapeUrls
    refine Client.Within.bind (runUrlJob_within fun body => hurl _ _ body _) fun out => ?_
    cases out with
    | ok r => exact ih _ _
    | err e => exact ih _ _
    | panic => exact .done _

theorem runJob_within {job : JobState}
    (hurl : job.source = "url" ∨ job.source = "keyword" → ∀ name target body now,
      Inserts store I R (urlRecord env name target job.lifecycle job.ttlSecs body now))
    (hfeed : job.source = "feed" → ∀ entry now,
      Inserts store I R (feedRecord env job.name job.ttlSecs entry now))
    (hapi : job.source = "api" → ∀ item now, Inserts store I R (apiRecord env job.ttlSecs item now)) :
    (runJob store env job).Within I R := by
  unfold runJob
  split
  · next hsource =>
    refine Client.Within.andThen (runUrlJob_within fun body => ?_) fun _ => .done _
    exact hurl (.inl hsource) _ _ body _
  · next hsource =>
    exact Client.Within.andThen (runFeedJob_within (hfeed hsource)) fun _ => .done _
  · next hsource =>
    refine Client.Within.andThen (runApiJob_within fun _ _ item _ now => ?_) fun _ => .done _
    exact hapi hsource item now
  · next hsource =>
    dsimp only
    split
    · exact .done _
    · refine Client.Within.andThen (scrapeUrls_within ?_ _ _ _) fun _ => .done _
      exact hurl (.inr hsource)
  · exact .done _

/-! ## Jobs that insert one record -/

section
variable {ed : Ed25519} (store : Store ed) {env : ScrapeEnv} {job : JobState}

theorem runJob_url (hsource : job.source = "url") (db : Db) :
    ((runJob store env job).run db).1 = ((runUrlJob store env job.name job.target job.lifecycle
      job.ttlSecs (env.clock 0)).run db).1 := by
  unfold runJob
  simp only [hsource]
  rw [Client.run_andThen_done]

theorem runJob_feed (hsource : job.source = "feed") (db : Db) :
    ((runJob store env job).run db).1 =
      ((runFeedJob store env job.name job.target job.ttlSecs).run db).1 := by
  unfold runJob
  simp only [hsource]
  rw [Client.run_andThen_done]

theorem runUrlJob_db {name target lifecycle body : String} {ttlSecs now : ℕ} {record : ContentRecord}
    (hfetch : env.fetchUrl target = .ok body)
    (hsanitized : Sanitize.sanitizeRecord (urlRecord env name target lifecycle ttlSecs body now) =
      .ok record) (db : Db) :
    ((runUrlJob store env name target lifecycle ttlSecs now).run db).1 =
      ((store.insertRecord record).run db).1 := by
  rw [runUrlJob, hfetch]
  dsimp only
  rw [hsanitized]
  dsimp only
  rw [Client.run_andThen_done]

theorem insertAll_singleton {made record : ContentRecord}
    (hsanitized : Sanitize.sanitizeRecord made = .ok record) (counts : BatchResult) (db : Db) :
    (insertAll store [made] counts).run db = (((store.insertRecord record).run db).1,
      ((store.insertRecord record).run db).2.map (BatchResult.count counts)) := by
  rw [insertAll, hsanitized]
  exact Client.run_andThen_done _ _ _

theorem runFeedJob_db {name target : String} {ttlSecs : ℕ} {entry : FeedEntry} {record : ContentRecord}
    (hfetch : env.feedEntries target = .ok [entry])
    (hsanitized : Sanitize.sanitizeRecord (feedRecord env name ttlSecs entry (env.clock 0)) =
      .ok record) (db : Db) :
    ((runFeedJob store env name target ttlSecs).run db).1 = ((store.insertRecord record).run db).1 := by
  rw [runFeedJob, hfetch]
  exact congrArg Prod.fst (insertAll_singleton store hsanitized _ db)

end

end DSearch
