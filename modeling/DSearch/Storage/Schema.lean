import DSearch.Storage.Records

/-! # `open_store` of `storage/mod.rs` and `storage/migrations.rs`

A redb file is a set of named tables, each of a type of its own. `open_store` creates the nine tables
of this version in one transaction, then reads the schema version and may write it in a second one.
A file of a future version is refused by the second step, after the first one has been committed. -/

namespace DSearch
set_option autoImplicit false
open Transaction

/-- The types of the tables that this version defines: `<&str, &str>` and `<&str, u64>`. -/
inductive TableKind where
  | text | number
  deriving DecidableEq, Repr

/-- A table of a redb file. `other` is any other type (of keys, of values, or a multimap), with the
rows as they are stored. -/
inductive StoredTable where
  | text (rows : Table String)
  | number (rows : Table ℕ)
  | other (type : String) (rows : List (Bytes × Bytes))

abbrev RedbFile := Table StoredTable

def TableKind.fresh : TableKind → StoredTable
  | .text => .text ∅
  | .number => .number ∅

def StoredTable.kind? : StoredTable → Option TableKind
  | .text _ => some .text
  | .number _ => some .number
  | .other _ _ => none

@[simp] theorem TableKind.kind_fresh (kind : TableKind) : kind.fresh.kind? = some kind := by
  cases kind <;> rfl

namespace Schema

def CURRENT_SCHEMA_VERSION : ℕ := 1

/-- The tables of `open_store`, in the order in which it opens them. -/
def tables : List (String × TableKind) :=
  [("records", .text), ("announcements", .text), ("source_index", .text), ("pins", .text),
    ("routing", .text), ("peers", .text), ("banned_peers", .text), ("meta", .number),
    ("inverted_index", .text)]

section
variable (tableError : String → StoredTable → String)

/-- `open_table` of a write transaction: a table that does not exist is created, one of another type
is an error, whose text is redb's. -/
def openTable (table : String × TableKind) (file : RedbFile) : Except String RedbFile :=
  match file[table.1]? with
  | none => .ok (file.insert table.1 table.2.fresh)
  | some stored =>
    if stored.kind? = some table.2 then .ok file else .error (tableError table.1 stored)

def createTables : List (String × TableKind) → RedbFile → Except String RedbFile
  | [], file => .ok file
  | table :: rest, file =>
    match openTable tableError table file with
    | .error e => .error ("create " ++ table.1 ++ " table: " ++ e)
    | .ok file => createTables rest file

/-- The first transaction of `open_store`: it is not committed if a table cannot be opened. -/
def createTx (file : RedbFile) : RedbFile × Outcome Unit :=
  match createTables tableError tables file with
  | .error e => (file, .err e)
  | .ok created => (created, .ok ())

/-- The rows of a `<&str, u64>` table: none if there is no such table. -/
def numberRows (file : RedbFile) (name : String) : Table ℕ :=
  match file[name]? with
  | some (.number rows) => rows
  | _ => ∅

def schemaVersion (file : RedbFile) : ℕ := (numberRows file "meta")["schema_version"]?.getD 0

def futureError (version : ℕ) : String :=
  "store.redb schema_version " ++ toString version ++ " is from a future version (current: " ++
    toString CURRENT_SCHEMA_VERSION ++
    "). Downgrading is not supported — your data may be corrupted."

/-- The transaction of a migration: `Migrator::run` does nothing yet. -/
def migrateTx (file : RedbFile) : RedbFile × Outcome Unit :=
  match openTable tableError ("meta", .number) file with
  | .error e => (file, .err ("open meta table for migration: " ++ e))
  | .ok opened =>
    (opened.insert "meta" (.number ((numberRows opened "meta").insert "schema_version"
      CURRENT_SCHEMA_VERSION)), .ok ())

def checkAndMigrate : Client RedbFile (Outcome Unit) :=
  .read fun file =>
    let version := schemaVersion file
    if version > CURRENT_SCHEMA_VERSION then .done (.err (futureError version))
    else if version = CURRENT_SCHEMA_VERSION then .done (.ok ())
    else .atomically (migrateTx tableError) .done

def openStore : Client RedbFile (Outcome Unit) :=
  (Client.atomically (createTx tableError) .done).andThen fun _ => checkAndMigrate tableError

/-- `check_and_migrate_on_path` for a file that exists: what `dsearch doctor` calls. -/
def checkAndMigrateOnPath : Client RedbFile (Outcome ℕ) :=
  (checkAndMigrate tableError).andThen fun _ => .read fun file => .done (.ok (schemaVersion file))

end

/-! ## What the first transaction does -/

section
variable (tableError : String → StoredTable → String)

/-- The name of the table is taken by a table of another type. -/
def Mismatched (file : RedbFile) (table : String × TableKind) : Prop :=
  ∃ stored, file[table.1]? = some stored ∧ stored.kind? ≠ some table.2

/-- `file'` is `file` with those of the tables created that it does not have. -/
structure Created (new : List (String × TableKind)) (file file' : RedbFile) : Prop where
  kept : ∀ (name : String) (stored : StoredTable), file[name]? = some stored →
    file'[name]? = some stored
  created : ∀ table ∈ new, file[table.1]? = none → file'[table.1]? = some table.2.fresh
  others : ∀ name : String, name ∉ new.map Prod.fst → file'[name]? = file[name]?

theorem openTable_cases (table : String × TableKind) (file : RedbFile) :
    (Mismatched file table ∧ ∃ e, openTable tableError table file = .error e) ∨
    (¬ Mismatched file table ∧ ∃ file', openTable tableError table file = .ok file' ∧
      Created [table] file file') := by
  unfold openTable Mismatched
  cases hstored : file[table.1]? with
  | none =>
    refine .inr ⟨by simp, _, rfl, ?_, ?_, ?_⟩
    · intro name stored hname
      rw [OrderedTable.get_insert, if_neg]
      · exact hname
      · rintro rfl
        simp [hstored] at hname
    · intro new hnew _
      obtain rfl := List.mem_singleton.mp hnew
      rw [OrderedTable.get_insert, if_pos rfl]
    · intro name hname
      rw [OrderedTable.get_insert, if_neg]
      rintro rfl
      simp at hname
  | some stored =>
    by_cases hkind : stored.kind? = some table.2
    · refine .inr ⟨?_, file, if_pos hkind, fun _ _ h => h, ?_, fun _ _ => rfl⟩
      · rintro ⟨found, hfound, hne⟩
        obtain rfl := Option.some.inj hfound
        exact hne hkind
      · intro new hnew hnone
        obtain rfl := List.mem_singleton.mp hnew
        simp [hstored] at hnone
    · exact .inl ⟨⟨stored, rfl, hkind⟩, _, if_neg hkind⟩

theorem Created.mismatched_iff {new : List (String × TableKind)} {file file' : RedbFile}
    (h : Created new file file') {table : String × TableKind} (hname : table.1 ∉ new.map Prod.fst) :
    Mismatched file' table ↔ Mismatched file table := by
  unfold Mismatched
  rw [h.others table.1 hname]

/-- Opening the tables fails if one of them is of another type; else the missing ones are created. -/
theorem createTables_cases {new : List (String × TableKind)} (hnames : (new.map Prod.fst).Nodup)
    (file : RedbFile) :
    ((∃ table ∈ new, Mismatched file table) ∧ ∃ e, createTables tableError new file = .error e) ∨
    ((∀ table ∈ new, ¬ Mismatched file table) ∧ ∃ file', createTables tableError new file = .ok file' ∧
      Created new file file') := by
  induction new generalizing file with
  | nil => exact .inr ⟨by simp, file, rfl, fun _ _ h => h, by simp, fun _ _ => rfl⟩
  | cons table rest ih =>
    obtain ⟨hfresh, hrest⟩ := List.nodup_cons.mp hnames
    rw [createTables]
    obtain ⟨hbad, e, hopen⟩ | ⟨hgood, file₁, hopen, hfirst⟩ :=
      openTable_cases tableError table file
    · rw [hopen]
      exact .inl ⟨⟨table, List.mem_cons_self, hbad⟩, _, rfl⟩
    · rw [hopen]
      have hsame : ∀ other ∈ rest, (Mismatched file₁ other ↔ Mismatched file other) := by
        intro other hother
        apply hfirst.mismatched_iff
        rw [List.map_singleton, List.mem_singleton]
        intro heq
        exact hfresh (heq ▸ List.mem_map_of_mem hother)
      obtain ⟨⟨other, hother, hbad⟩, hfail⟩ | ⟨hall, file₂, hcreate, hmore⟩ := ih hrest file₁
      · exact .inl ⟨⟨other, List.mem_cons_of_mem table hother, (hsame other hother).mp hbad⟩, hfail⟩
      · refine .inr ⟨?_, file₂, hcreate, ?_, ?_, ?_⟩
        · intro other hother
          rcases List.mem_cons.mp hother with rfl | hother
          · exact hgood
          · exact fun hbad => hall other hother ((hsame other hother).mpr hbad)
        · intro name stored hname
          exact hmore.kept name stored (hfirst.kept name stored hname)
        · intro other hother hnone
          rcases List.mem_cons.mp hother with rfl | hother
          · exact hmore.kept _ _ (hfirst.created other List.mem_cons_self hnone)
          · apply hmore.created other hother
            rw [hfirst.others other.1, hnone]
            rw [List.map_singleton, List.mem_singleton]
            intro heq
            exact hfresh (heq ▸ List.mem_map_of_mem hother)
        · intro name hname
          obtain ⟨hne, hname⟩ := not_or.mp (mt List.mem_cons.mpr hname)
          rw [hmore.others name hname, hfirst.others name (by simpa using hne)]

theorem Created.eq_iff {new : List (String × TableKind)} {file file' : RedbFile}
    (h : Created new file file') : file' = file ↔ ∀ table ∈ new, (file[table.1]?).isSome := by
  constructor
  · rintro rfl table htable
    rw [Option.isSome_iff_ne_none]
    intro hnone
    rw [h.created table htable hnone] at hnone
    cases hnone
  · intro hall
    apply Std.ExtTreeMap.ext_getElem?
    intro name
    cases hname : file[name]? with
    | some stored => exact h.kept name stored hname
    | none =>
      rw [← hname]
      apply h.others name
      intro hmem
      obtain ⟨table, htable, rfl⟩ := List.mem_map.mp hmem
      simpa [hname] using hall table htable

theorem tables_names_nodup : (tables.map Prod.fst).Nodup := by decide

/-! ## An open that succeeds -/

theorem openStore_run (file : RedbFile) :
    (openStore tableError).run file = match createTables tableError tables file with
      | .error e => (file, .err e)
      | .ok created => (checkAndMigrate tableError).run created := by
  rw [openStore, Client.run_andThen, Client.run_atomically, createTx]
  cases createTables tableError tables file <;> rfl

/-- The file has the nine tables and the current schema version. -/
structure Opened (file : RedbFile) : Prop where
  tables : ∀ table ∈ tables, ∃ stored, file[table.1]? = some stored ∧ stored.kind? = some table.2
  version : schemaVersion file = CURRENT_SCHEMA_VERSION

theorem openTable_self {file : RedbFile} {table : String × TableKind}
    (h : ∃ stored, file[table.1]? = some stored ∧ stored.kind? = some table.2) :
    openTable tableError table file = .ok file := by
  obtain ⟨stored, hstored, hkind⟩ := h
  rw [openTable, hstored]
  exact if_pos hkind

theorem Created.opened {file file' : RedbFile} (hcreated : Created tables file file')
    (hgood : ∀ table ∈ tables, ¬ Mismatched file table) :
    ∀ table ∈ tables, ∃ stored, file'[table.1]? = some stored ∧ stored.kind? = some table.2 := by
  intro table htable
  cases hstored : file[table.1]? with
  | none => exact ⟨_, hcreated.created table htable hstored, table.2.kind_fresh⟩
  | some stored =>
    refine ⟨stored, hcreated.kept _ _ hstored, ?_⟩
    by_contra hkind
    exact hgood table htable ⟨stored, hstored, hkind⟩

theorem migrateTx_run {file : RedbFile}
    (h : ∃ stored, file["meta"]? = some stored ∧ stored.kind? = some .number) :
    migrateTx tableError file = (file.insert "meta" (.number ((numberRows file "meta").insert
      "schema_version" CURRENT_SCHEMA_VERSION)), .ok ()) := by
  rw [migrateTx, openTable_self tableError h]

theorem migrateTx_opened {file : RedbFile}
    (h : ∀ table ∈ tables, ∃ stored, file[table.1]? = some stored ∧ stored.kind? = some table.2) :
    Opened (migrateTx tableError file).1 := by
  rw [migrateTx_run tableError (h ("meta", .number) (by decide))]
  constructor
  · intro table htable
    rw [OrderedTable.get_insert]
    by_cases hname : "meta" = table.1
    · have hkind : ∀ table ∈ tables, "meta" = table.1 → table.2 = .number := by decide
      rw [if_pos hname, hkind table htable hname]
      exact ⟨_, rfl, rfl⟩
    · rw [if_neg hname]
      exact h table htable
  · rw [schemaVersion, numberRows, OrderedTable.get_insert, if_pos rfl]
    dsimp only
    rw [OrderedTable.get_insert, if_pos rfl]
    rfl

/-- A file of no later version, whose tables can be opened, ends up with all nine of them and with
the current version; the tables it had are kept, apart from the version in `meta`. -/
theorem openStore_opened {file : RedbFile} (hgood : ∀ table ∈ tables, ¬ Mismatched file table)
    (hversion : schemaVersion file ≤ CURRENT_SCHEMA_VERSION) :
    ((openStore tableError).run file).2 = .ok () ∧ Opened ((openStore tableError).run file).1 ∧
      ∀ (name : String) (stored : StoredTable), name ≠ "meta" → file[name]? = some stored →
        ((openStore tableError).run file).1[name]? = some stored := by
  obtain ⟨⟨table, htable, hbad⟩, -⟩ | ⟨-, created, hcreate, hcreated⟩ :=
    createTables_cases tableError tables_names_nodup file
  · exact absurd hbad (hgood table htable)
  have hopened := hcreated.opened hgood
  have hsame : schemaVersion created = schemaVersion file := by
    unfold schemaVersion numberRows
    cases hmeta : file["meta"]? with
    | none =>
      rw [hcreated.created ("meta", .number) (by decide) hmeta]
      rfl
    | some stored => rw [hcreated.kept _ _ hmeta]
  rw [openStore_run, hcreate]
  dsimp only
  rw [checkAndMigrate, Client.run_read]
  dsimp only
  rw [if_neg (by omega)]
  split
  · next hcurrent => exact ⟨rfl, ⟨hopened, hcurrent⟩, fun name stored _ h => hcreated.kept name stored h⟩
  · rw [Client.run_atomically, Client.run_done]
    have hmigrate := migrateTx_run tableError (hopened ("meta", .number) (by decide))
    refine ⟨by rw [hmigrate], migrateTx_opened tableError hopened, ?_⟩
    intro name stored hname hstored
    rw [hmigrate]
    dsimp only
    rw [OrderedTable.get_insert, if_neg (Ne.symm hname)]
    exact hcreated.kept name stored hstored

/-- Opening such a file again changes nothing. -/
theorem openStore_of_opened {file : RedbFile} (h : Opened file) :
    (openStore tableError).run file = (file, .ok ()) := by
  obtain ⟨⟨table, htable, stored, hstored, hkind⟩, -⟩ | ⟨-, created, hcreate, hcreated⟩ :=
    createTables_cases tableError tables_names_nodup file
  · obtain ⟨found, hfound, hfoundKind⟩ := h.tables table htable
    obtain rfl := Option.some.inj (hstored.symm.trans hfound)
    exact absurd hfoundKind hkind
  have hall : ∀ table ∈ tables, (file[table.1]?).isSome := by
    intro table htable
    obtain ⟨stored, hstored, -⟩ := h.tables table htable
    rw [hstored]
    rfl
  obtain rfl := hcreated.eq_iff.mpr hall
  rw [openStore_run, hcreate]
  dsimp only
  rw [checkAndMigrate, Client.run_read]
  dsimp only
  rw [h.version, if_neg (lt_irrefl _), if_pos rfl]
  rfl

/-! ## Files of a future version -/

/-- The stored schema version is one that this program does not know. -/
def Future (file : RedbFile) : Prop :=
  ∃ rows version, file["meta"]? = some (.number rows) ∧ rows["schema_version"]? = some version ∧
    CURRENT_SCHEMA_VERSION < version

theorem schemaVersion_of_meta {file : RedbFile} {rows : Table ℕ}
    (hmeta : file["meta"]? = some (.number rows)) :
    schemaVersion file = rows["schema_version"]?.getD 0 := by
  unfold schemaVersion numberRows
  rw [hmeta]

theorem Future.created {file file' : RedbFile} (h : Future file) {new : List (String × TableKind)}
    (hcreated : Created new file file') : Future file' := by
  obtain ⟨rows, version, hmeta, hversion, hlt⟩ := h
  exact ⟨rows, version, hcreated.kept _ _ hmeta, hversion, hlt⟩

theorem checkAndMigrate_future {file : RedbFile} (h : Future file) :
    (checkAndMigrate tableError).run file = (file, .err (futureError (schemaVersion file))) := by
  obtain ⟨rows, version, hmeta, hversion, hlt⟩ := h
  have hfuture : schemaVersion file > CURRENT_SCHEMA_VERSION := by
    rw [schemaVersion_of_meta hmeta, hversion]
    exact hlt
  rw [checkAndMigrate, Client.run_read]
  dsimp only
  rw [if_pos hfuture]
  rfl

/-- The diagnostic call refuses the file as it is. -/
theorem checkAndMigrateOnPath_future {file : RedbFile} (h : Future file) :
    (checkAndMigrateOnPath tableError).run file = (file, .err (futureError (schemaVersion file))) := by
  rw [checkAndMigrateOnPath, Client.run_andThen, checkAndMigrate_future tableError h]

/-- A file of a future version is refused as it is exactly if there is nothing to create in it: its
tables are all there, or one of them cannot be opened, so that the transaction is not committed. -/
theorem openStore_future_unchanged_iff (file : RedbFile) (h : Future file) :
    ((∃ e, ((openStore tableError).run file).2 = .err e) ∧ ((openStore tableError).run file).1 = file) ↔
      (∃ table ∈ tables, Mismatched file table) ∨ ∀ table ∈ tables, (file[table.1]?).isSome := by
  rw [openStore_run]
  obtain ⟨hbad, e, hfail⟩ | ⟨hgood, created, hcreate, hcreated⟩ :=
    createTables_cases tableError tables_names_nodup file
  · rw [hfail]
    exact ⟨fun _ => .inl hbad, fun _ => ⟨⟨e, rfl⟩, rfl⟩⟩
  · have hrun := checkAndMigrate_future tableError (h.created hcreated)
    rw [hcreate]
    dsimp only
    rw [hrun]
    dsimp only
    rw [hcreated.eq_iff]
    constructor
    · exact fun hsame => .inr hsame.2
    · rintro (⟨table, htable, hbad⟩ | hall)
      · exact absurd hbad (hgood table htable)
      · exact ⟨⟨_, rfl⟩, hall⟩

/-- A future version that keeps its schema version, and nothing else that this version knows. -/
def onlyMeta : RedbFile :=
  (∅ : RedbFile).insert "meta" (.number ((∅ : Table ℕ).insert "schema_version" 999))

theorem onlyMeta_future : Future onlyMeta :=
  ⟨(∅ : Table ℕ).insert "schema_version" 999, 999, by simp [onlyMeta], by simp, by decide⟩

theorem openStore_future_unchanged_iff_onlyMeta :
    ((∃ e, ((openStore fun name _ => name).run onlyMeta).2 = .err e) ∧
        ((openStore fun name _ => name).run onlyMeta).1 = onlyMeta) ↔
      (∃ table ∈ tables, Mismatched onlyMeta table) ∨
        ∀ table ∈ tables, (onlyMeta[table.1]?).isSome :=
  openStore_future_unchanged_iff (fun name _ => name) onlyMeta onlyMeta_future

/-- The file of the source's own test: the refused open has created the eight other tables. -/
theorem refused_open_creates_tables :
    ¬ ∀ (tableError : String → StoredTable → String) (file : RedbFile), Future file →
      (∃ e, ((openStore tableError).run file).2 = .err e) ∧
        ((openStore tableError).run file).1 = file := by
  intro hclaim
  obtain ⟨-, hsame⟩ := hclaim (fun name _ => name) onlyMeta onlyMeta_future
  have hrecords : ((openStore fun name _ => name).run onlyMeta).1["records"]? = none := by
    rw [hsame]
    simp [onlyMeta]
  rw [openStore_run] at hrecords
  obtain ⟨⟨table, htable, stored, hstored, hkind⟩, -⟩ | ⟨-, created, hcreate, hcreated⟩ :=
    createTables_cases (fun name _ => name) tables_names_nodup onlyMeta
  · rw [onlyMeta, OrderedTable.get_insert] at hstored
    split at hstored
    · next hname =>
      obtain rfl := Option.some.inj hstored
      have hmeta : ∀ table ∈ tables, "meta" = table.1 → table.2 = .number := by decide
      rw [hmeta table htable hname] at hkind
      exact hkind rfl
    · simp at hstored
  · rw [hcreate] at hrecords
    dsimp only at hrecords
    rw [checkAndMigrate_future _ (onlyMeta_future.created hcreated)] at hrecords
    dsimp only at hrecords
    rw [hcreated.created ("records", .text) (by decide) (by simp [onlyMeta])] at hrecords
    cases hrecords

end

end Schema

end DSearch
