import DSearch.Foundations.StableSort
import DSearch.Storage.Records

/-! # `storage/quota.rs`

`check_quota` and `evict_oldest`. `Evictable` says which ids an eviction picks without the sort and
the loop: an unpinned record whose older unpinned records (by `created_at`, then by id) do not free
the needed bytes. -/

namespace DSearch.Quota
set_option autoImplicit false
open Transaction Records

/-- A record that may be evicted: `(id, source_hash, created_at, json_len)`. -/
structure Candidate where
  id : String
  sourceHash : String
  createdAt : ℕ
  jsonLen : ℕ
  deriving DecidableEq, Repr

def candidates (db : Db) : List Candidate :=
  db.records.toList.filterMap fun (key, record) =>
    if db.pins[key]?.isSome then none
    else some ⟨key, record.sourceHash, record.createdAt, record.jsonLen⟩

/-- `sort_by_key(|c| c.2)`: a stable sort, oldest first. -/
def oldestFirst (cs : List Candidate) : List Candidate :=
  cs.insertionSort fun a b => a.createdAt ≤ b.createdAt

/-- The loop over the sorted candidates: the rows to delete and the bytes they free. -/
def takeUntil (needed freed : ℕ) : List Candidate → List (String × String) × ℕ
  | [] => ([], freed)
  | c :: cs =>
    if freed ≥ needed then ([], freed)
    else
      let rest := takeUntil needed (freed + c.jsonLen) cs
      ((c.id, c.sourceHash) :: rest.1, rest.2)

def victims (needed : ℕ) (db : Db) : List (String × String) × ℕ :=
  takeUntil needed 0 (oldestFirst (candidates db))

def evictOldest (needed : ℕ) : Client Db (Outcome ℕ) :=
  .read fun db =>
    let picked := victims needed db
    if picked.1.isEmpty then .done (.ok 0)
    else .write (removeRows picked.1) (.done (.ok picked.2))

/-- `u64` subtraction in a release build. -/
def wrappingSub (a b : ℕ) : ℕ := if b ≤ a then a - b else a + 2 ^ 64 - b

def checkQuota (config : StorageConfig) (additionalBytes : ℕ) : Client Db (Outcome Unit) :=
  if config.quotaMb = 0 then .done (.ok ())
  else .read fun db =>
    let quotaBytes := config.quotaMb * 1024 * 1024
    let currentBytes := recordsSizeBytes db
    let exceeded := "Storage quota exceeded (" ++ toString config.quotaMb ++ " MB)."
    if currentBytes + additionalBytes > quotaBytes then
      if config.quotaAction = "evict_oldest" then
        (evictOldest (currentBytes + additionalBytes - quotaBytes)).andThen fun freed =>
          if wrappingSub (currentBytes + additionalBytes) freed > quotaBytes then
            .done (.err (exceeded ++ " Eviction freed " ++ toString freed ++
              " bytes but still over quota."))
          else .done (.ok ())
      else if config.quotaAction = "pause_scraper" then
        .done (.err (exceeded ++ " Scraper should pause."))
      else if config.quotaAction = "warn_only" then .done (.ok ())
      else .done (.err (exceeded ++ " Unknown quota_action: " ++ config.quotaAction))
    else .done (.ok ())

theorem evictOldest_within {I : Db → Prop} {R : Db → Db → Prop} (hrefl : ∀ db, I db → R db db)
    (hremove : ∀ rows db, I db → R db (removeRows rows db)) (needed : ℕ) :
    (evictOldest needed).Within I R := by
  unfold evictOldest
  refine Client.Within.read hrefl fun db _ => ?_
  dsimp only
  split
  · exact Client.Within.done _
  · exact Client.Within.write (hremove (victims needed db).1) (Client.Within.done _)

theorem checkQuota_within {I : Db → Prop} {R : Db → Db → Prop} (hrefl : ∀ db, I db → R db db)
    (hremove : ∀ rows db, I db → R db (removeRows rows db)) (config : StorageConfig)
    (additionalBytes : ℕ) : (checkQuota config additionalBytes).Within I R := by
  unfold checkQuota
  split
  · exact Client.Within.done _
  · refine Client.Within.read hrefl fun db _ => ?_
    dsimp only
    split
    · split
      · refine Client.Within.andThen (evictOldest_within hrefl hremove _) fun freed => ?_
        split <;> exact Client.Within.done _
      · split
        · exact Client.Within.done _
        · split <;> exact Client.Within.done _
    · exact Client.Within.done _

/-! ## What an eviction picks -/

theorem mem_candidates {db : Db} {c : Candidate} :
    c ∈ candidates db ↔ ∃ record, db.records[c.id]? = some record ∧ db.pins[c.id]? = none ∧
      c = ⟨c.id, record.sourceHash, record.createdAt, record.jsonLen⟩ := by
  simp only [candidates, List.mem_filterMap, Prod.exists,
    Std.ExtTreeMap.mem_toList_iff_getElem?_eq_some]
  constructor
  · rintro ⟨key, record, hrecord, hc⟩
    cases hpin : db.pins[key]? with
    | none =>
      simp only [hpin, Option.isSome_none, Bool.false_eq_true, if_false, Option.some.injEq] at hc
      subst hc
      exact ⟨record, hrecord, hpin, rfl⟩
    | some _ => simp [hpin] at hc
  · rintro ⟨record, hrecord, hpin, hc⟩
    refine ⟨c.id, record, hrecord, ?_⟩
    rw [hpin]
    exact congrArg some hc.symm

/-- The order in which candidates are evicted: oldest first, ties in key order. -/
def Older (a b : Candidate) : Prop :=
  a.createdAt < b.createdAt ∨ a.createdAt = b.createdAt ∧ a.id < b.id

instance : DecidableRel Older := fun _ _ => inferInstanceAs (Decidable (_ ∨ _ ∧ _))

theorem Older.irrefl (a : Candidate) : ¬ Older a a := by
  rintro (h | h)
  · exact lt_irrefl _ h
  · exact lt_irrefl _ h.2

theorem Older.asymm (a b : Candidate) (hab : Older a b) : ¬ Older b a := by
  rintro (hba | hba) <;> rcases hab with hab | hab
  · exact lt_asymm hab hba
  · exact absurd hab.1 hba.ne'
  · exact absurd hba.1 hab.ne'
  · exact lt_asymm hab.2 hba.2

theorem candidates_pairwise (db : Db) : (candidates db).Pairwise fun a b => a.id < b.id := by
  have hordered : (candidates db).Pairwise fun a b => compare a.id b.id = .lt := by
    refine OrderedTable.pairwise_filterMap db.records ?_
    rintro ⟨key, record⟩ c hc
    dsimp only at hc
    split at hc
    · cases hc
    · rw [← Option.some.inj hc]
  exact hordered.imp compare_lt_iff_lt.mp

theorem oldestFirst_pairwise (db : Db) : (oldestFirst (candidates db)).Pairwise Older :=
  StableSort.pairwise_insertionSort Candidate.createdAt _ (candidates_pairwise db)

theorem oldestFirst_perm (cs : List Candidate) : (oldestFirst cs).Perm cs :=
  List.perm_insertionSort _ cs

/-- The loop takes a candidate exactly if the ones before it free too little. -/
theorem mem_takeUntil {needed freed : ℕ} {cs : List Candidate} {row : String × String} :
    row ∈ (takeUntil needed freed cs).1 ↔
      ∃ pre c post, cs = pre ++ c :: post ∧ row = (c.id, c.sourceHash) ∧
        freed + (pre.map Candidate.jsonLen).sum < needed := by
  induction cs generalizing freed with
  | nil => simp [takeUntil]
  | cons c cs ih =>
    unfold takeUntil
    by_cases hfull : freed ≥ needed
    · simp only [hfull, if_true, List.not_mem_nil, false_iff]
      rintro ⟨pre, d, post, -, -, hlt⟩
      omega
    · simp only [hfull, if_false, List.mem_cons, ih]
      constructor
      · rintro (rfl | ⟨pre, d, post, rfl, rfl, hlt⟩)
        · exact ⟨[], c, cs, rfl, rfl, by simpa using hfull⟩
        · exact ⟨c :: pre, d, post, rfl, rfl, by simpa [← Nat.add_assoc] using hlt⟩
      · rintro ⟨pre, d, post, hsplit, rfl, hlt⟩
        cases pre with
        | nil =>
          obtain ⟨rfl, rfl⟩ := List.cons.inj hsplit
          exact .inl rfl
        | cons c' pre =>
          obtain ⟨rfl, rfl⟩ := List.cons.inj hsplit
          exact .inr ⟨pre, d, post, rfl, rfl, by simpa [← Nat.add_assoc] using hlt⟩

/-- The bytes that the unpinned records older than `c` free. -/
def freedBefore (db : Db) (c : Candidate) : ℕ :=
  (((candidates db).filter fun a => decide (Older a c)).map Candidate.jsonLen).sum

def Evictable (db : Db) (needed : ℕ) (id : String) : Prop :=
  ∃ c ∈ candidates db, c.id = id ∧ freedBefore db c < needed

theorem mem_victims {needed : ℕ} {db : Db} {row : String × String} :
    row ∈ (victims needed db).1 ↔
      ∃ c ∈ candidates db, row = (c.id, c.sourceHash) ∧ freedBefore db c < needed := by
  have hperm := oldestFirst_perm (candidates db)
  have hfreed : ∀ {pre c post}, oldestFirst (candidates db) = pre ++ c :: post →
      (pre.map Candidate.jsonLen).sum = freedBefore db c := by
    intro pre c post hsplit
    rw [← StableSort.filter_lt_eq_prefix Older.irrefl Older.asymm (oldestFirst_pairwise db) hsplit]
    exact ((hperm.filter _).map _).sum_eq
  simp only [victims, mem_takeUntil, Nat.zero_add]
  constructor
  · rintro ⟨pre, c, post, hsplit, hrow, hlt⟩
    refine ⟨c, hperm.mem_iff.mp (by simp [hsplit]), hrow, ?_⟩
    rwa [← hfreed hsplit]
  · rintro ⟨c, hc, hrow, hlt⟩
    obtain ⟨pre, post, hsplit⟩ := List.append_of_mem (hperm.mem_iff.mpr hc)
    exact ⟨pre, c, post, hsplit, hrow, by rwa [hfreed hsplit]⟩

theorem mem_victims_ids {needed : ℕ} {db : Db} {id : String} :
    id ∈ (victims needed db).1.map Prod.fst ↔ Evictable db needed id := by
  simp only [List.mem_map, mem_victims, Evictable]
  constructor
  · rintro ⟨row, ⟨c, hc, rfl, hlt⟩, rfl⟩
    exact ⟨c, hc, rfl, hlt⟩
  · rintro ⟨c, hc, rfl, hlt⟩
    exact ⟨_, ⟨c, hc, rfl, hlt⟩, rfl⟩

theorem Evictable.not_pinned {db : Db} {needed : ℕ} {id : String} (h : Evictable db needed id) :
    db.pins[id]? = none := by
  obtain ⟨c, hc, rfl, -⟩ := h
  obtain ⟨_, -, hpin, -⟩ := mem_candidates.mp hc
  exact hpin

/-- The bytes that these candidates free. -/
def freedBy (cs : List Candidate) : ℕ := (cs.map Candidate.jsonLen).sum

/-- The first `count` candidates are the fewest that free the needed bytes, or all if none do. -/
structure Fewest (needed : ℕ) (order : List Candidate) (count : ℕ) : Prop where
  within : count ≤ order.length
  enough : count = order.length ∨ needed ≤ freedBy (order.take count)
  least : ∀ fewer < count, freedBy (order.take fewer) < needed

@[simp] theorem freedBy_nil : freedBy [] = 0 := rfl

@[simp] theorem freedBy_cons (c : Candidate) (cs : List Candidate) :
    freedBy (c :: cs) = c.jsonLen + freedBy cs := rfl

/-- The loop, with what it has freed so far. -/
theorem takeUntil_fewest (needed freed : ℕ) (cs : List Candidate) :
    ∃ count, Fewest (needed - freed) cs count ∧
      takeUntil needed freed cs =
        ((cs.take count).map fun c => (c.id, c.sourceHash), freed + freedBy (cs.take count)) := by
  induction cs generalizing freed with
  | nil => exact ⟨0, ⟨Nat.zero_le _, .inl rfl, fun _ h => absurd h (Nat.not_lt_zero _)⟩, rfl⟩
  | cons c cs ih =>
    unfold takeUntil
    by_cases hfull : freed ≥ needed
    · rw [if_pos hfull]
      refine ⟨0, ⟨Nat.zero_le _, .inr ?_, fun _ h => absurd h (Nat.not_lt_zero _)⟩, rfl⟩
      omega
    · rw [if_neg hfull]
      obtain ⟨count, hfewest, hrest⟩ := ih (freed + c.jsonLen)
      refine ⟨count + 1, ⟨?_, ?_, ?_⟩, ?_⟩
      · exact Nat.succ_le_succ hfewest.within
      · rcases hfewest.enough with hall | henough
        · exact .inl (congrArg Nat.succ hall)
        · refine .inr ?_
          rw [List.take_succ_cons, freedBy_cons]
          omega
      · intro fewer hfewer
        cases fewer with
        | zero =>
          show 0 < needed - freed
          omega
        | succ fewer =>
          have hleast := hfewest.least fewer (Nat.lt_of_succ_lt_succ hfewer)
          rw [List.take_succ_cons, freedBy_cons]
          omega
      · rw [hrest, List.take_succ_cons, List.map_cons, freedBy_cons, Nat.add_assoc]

/-- The rows that an eviction takes, and what they free. -/
theorem victims_eq (needed : ℕ) (db : Db) :
    ∃ count, Fewest needed (oldestFirst (candidates db)) count ∧
      victims needed db =
        (((oldestFirst (candidates db)).take count).map fun c => (c.id, c.sourceHash),
          freedBy ((oldestFirst (candidates db)).take count)) := by
  obtain ⟨count, hfewest, hloop⟩ := takeUntil_fewest needed 0 (oldestFirst (candidates db))
  rw [Nat.zero_add] at hloop
  exact ⟨count, hfewest, hloop⟩

theorem evictOldest_run (needed : ℕ) (db : Db) :
    (evictOldest needed).run db =
      (removeRows (victims needed db).1 db, .ok (victims needed db).2) := by
  unfold evictOldest
  rw [Client.run_read]
  by_cases hempty : (victims needed db).1 = []
  · have hfreed : (victims needed db).2 = 0 := by
      obtain ⟨count, -, hvictims⟩ := victims_eq needed db
      rw [hvictims] at hempty ⊢
      dsimp only at hempty ⊢
      rw [List.map_eq_nil_iff.mp hempty]
      rfl
    simp [hempty, hfreed]
  · simp [List.isEmpty_iff, hempty]

/-! ## What an eviction frees -/

theorem recordsSizeBytes_removeRow (db : Db) (row : String × String) :
    recordsSizeBytes db =
      OrderedTable.weightAt ContentRecord.jsonLen db.records row.1 +
        recordsSizeBytes (removeRow db row) :=
  OrderedTable.weight_erase db.records row.1

theorem recordsSizeBytes_removeRows {rows : List (String × String)} (db : Db)
    (hdistinct : (rows.map Prod.fst).Nodup) :
    recordsSizeBytes db =
      (rows.map fun row => OrderedTable.weightAt ContentRecord.jsonLen db.records row.1).sum +
        recordsSizeBytes (removeRows rows db) := by
  have hweight := OrderedTable.weight_foldl_erase (w := ContentRecord.jsonLen) Prod.fst rows db.records
    hdistinct
  rw [← removeRows_table] at hweight
  exact hweight

theorem oldestFirst_candidates_nodup (db : Db) :
    ((oldestFirst (candidates db)).map Candidate.id).Nodup := by
  have hdistinct : ((candidates db).map Candidate.id).Nodup := by
    apply List.pairwise_map.mpr
    exact (candidates_pairwise db).imp fun hlt => ne_of_lt hlt
  exact (((oldestFirst_perm (candidates db)).map Candidate.id).nodup_iff).mpr hdistinct

theorem victims_nodup (needed : ℕ) (db : Db) : ((victims needed db).1.map Prod.fst).Nodup := by
  obtain ⟨count, -, hvictims⟩ := victims_eq needed db
  rw [hvictims, List.map_map]
  show (((oldestFirst (candidates db)).take count).map Candidate.id).Nodup
  exact (oldestFirst_candidates_nodup db).sublist ((List.take_sublist _ _).map _)

/-- What is freed is what the removed rows took: an eviction counts right. -/
theorem recordsSizeBytes_victims (needed : ℕ) (db : Db) :
    recordsSizeBytes db =
      (victims needed db).2 + recordsSizeBytes (removeRows (victims needed db).1 db) := by
  obtain ⟨count, -, hvictims⟩ := victims_eq needed db
  have hsum := recordsSizeBytes_removeRows db (victims_nodup needed db)
  have hweights : ((victims needed db).1.map fun row =>
      OrderedTable.weightAt ContentRecord.jsonLen db.records row.1) =
      ((oldestFirst (candidates db)).take count).map Candidate.jsonLen := by
    rw [hvictims, List.map_map]
    apply List.map_congr_left
    intro c hc
    have hcand : c ∈ candidates db :=
      (oldestFirst_perm (candidates db)).mem_iff.mp (List.mem_of_mem_take hc)
    obtain ⟨record, hrecord, -, hc⟩ := mem_candidates.mp hcand
    have hlen : c.jsonLen = record.jsonLen := congrArg Candidate.jsonLen hc
    simp only [Function.comp_apply, OrderedTable.weightAt, hrecord, Option.map_some,
      Option.getD_some, hlen]
  have hcount : (victims needed db).2 =
      (((oldestFirst (candidates db)).take count).map Candidate.jsonLen).sum := by
    rw [hvictims]
    rfl
  rw [hweights, ← hcount] at hsum
  exact hsum

end DSearch.Quota
