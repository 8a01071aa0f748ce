import DSearch.Storage.Operations

/-! # What a pin protects

A pin is a row under the record's id. It stops a sweep or an eviction only through the read
transaction of that sweep or eviction, so a pin that commits between the two transactions comes too
late. And the dedup of `insert_record` replaces a record by one with another id without touching the
pins: the pin then names no record, and the record that took its place has none. -/

namespace DSearch
set_option autoImplicit false
open Transaction Records RecordsOp

/-! ## A pin against a running sweep or eviction -/

def RowKept (id : String) (db db' : Db) : Prop :=
  ∀ record : ContentRecord, db.records[id]? = some record → db'.records[id]? = some record

theorem removeRows_rowKept {op : RecordsOp} {read write : Db} {id : String} :
    RowKept id write (removeRows (op.picks read) write) ↔
      write.records[id]? = none ∨ ¬ Picked op read id := by
  rw [← mem_picks_ids]
  constructor
  · intro hkept
    cases hstored : write.records[id]? with
    | none => exact .inl rfl
    | some record => exact .inr (removeRows_records_eq_some.mp (hkept record hstored)).1
  · rintro (hgone | hspared) record hstored
    · rw [hgone] at hstored
      cases hstored
    · exact removeRows_records_eq_some.mpr ⟨hspared, hstored⟩

def PinReturned (ops : ℕ → RecordsOp) (schedule : List ℕ) (id : String) : Prop :=
  ∃ j now, ops j = .pin id now ∧
    ((interleave (Db.empty, fun i => (ops i).client) schedule).2 j).result? =
      some (.ok (.flag true))

/-- If `id` was pinned before the write transaction of the sweep or eviction `i`, that transaction
spares the record exactly when it is gone already or was not picked by the read transaction, which
may have run before the pin. -/
theorem cleanup_spares_pinned (ops : ℕ → RecordsOp) (i : ℕ) (id : String) (pre mid : List ℕ)
    (hcleanup : (ops i).isCleanup = true) (hpre : i ∉ pre) (hmid : i ∉ mid) :
    (PinReturned ops (pre ++ i :: mid) id →
      RowKept id (interleaved ops (pre ++ i :: mid)) (interleaved ops (pre ++ i :: (mid ++ [i])))) ↔
    (PinReturned ops (pre ++ i :: mid) id →
      (interleaved ops (pre ++ i :: mid)).records[id]? = none ∨
        ¬ Picked (ops i) (interleaved ops pre) id) := by
  rw [interleaved_cleanup hcleanup hpre hmid, removeRows_rowKept]

def expiredThenPinned : ℕ → RecordsOp
  | 0 => .insert (makeRecord "r1" "sh1" 1000 1500) none
  | 1 => .sweep 2000
  | _ => .pin "r1" 2000

theorem cleanup_spares_pinned_expiredThenPinned :
    (PinReturned expiredThenPinned ([0] ++ 1 :: [2, 2]) "r1" →
      RowKept "r1" (interleaved expiredThenPinned ([0] ++ 1 :: [2, 2]))
        (interleaved expiredThenPinned ([0] ++ 1 :: ([2, 2] ++ [1])))) ↔
    (PinReturned expiredThenPinned ([0] ++ 1 :: [2, 2]) "r1" →
      (interleaved expiredThenPinned ([0] ++ 1 :: [2, 2])).records["r1"]? = none ∨
        ¬ Picked (expiredThenPinned 1) (interleaved expiredThenPinned [0]) "r1") :=
  cleanup_spares_pinned expiredThenPinned 1 "r1" [0] [2, 2] rfl (by decide) (by decide)

/-- The sweep reads, the pin commits, the sweep deletes the pinned record. -/
theorem sweep_removes_pinned :
    ¬ ∀ (ops : ℕ → RecordsOp) (i : ℕ) (id : String) (pre mid : List ℕ),
      (ops i).isCleanup = true → i ∉ pre → i ∉ mid → PinReturned ops (pre ++ i :: mid) id →
        RowKept id (interleaved ops (pre ++ i :: mid))
          (interleaved ops (pre ++ i :: (mid ++ [i]))) := by
  intro hclaim
  have hkept := hclaim expiredThenPinned 1 "r1" [0] [2, 2] rfl (by decide) (by decide)
    ⟨2, 2000, rfl, by decide +kernel⟩ (makeRecord "r1" "sh1" 1000 1500) (by decide +kernel)
  revert hkept
  decide +kernel

/-! ## Pins over a run of calls -/

def PinsStored (db : Db) : Prop :=
  ∀ id : String, db.pins[id]?.isSome → db.records[id]?.isSome

/-- If inserting `record` replaces a pinned record, it does so under the same id. -/
def PinFollows (record : ContentRecord) (config : Option StorageConfig) (db : Db) : Prop :=
  ∀ oldId, dedupResult db record = some (oldId, true) → record.validateSize = .ok () →
    overQuota db record config = false → db.pins[oldId]?.isSome → oldId = record.id

/-- Inserting `record` replaces (`ReplacedNewer`) the pinned record that `source_index` names. -/
def ReplacesPinned (record : ContentRecord) (config : Option StorageConfig) (db : Db) : Prop :=
  ((insert record config).run db).2 = .ok (.inserted .replacedNewer) ∧
    ∃ oldId : String, db.sourceIndex[record.sourceHash]? = some oldId ∧ db.pins[oldId]?.isSome

/-- After a pinned record was replaced, no sweep and no eviction removes the replacing record as long
as it has been stored and nobody has called `unpin_record` for it. -/
def ReplacementProtected (ops : List RecordsOp) : Prop :=
  ∀ pre record config mid op post, ops = pre ++ .insert record config :: (mid ++ op :: post) →
    ReplacesPinned record config (exec pre Db.empty) →
    (∀ m, m <+: mid →
      (exec (pre ++ .insert record config :: m) Db.empty).records[record.id]? = some record) →
    .unpin record.id ∉ mid → op.isCleanup = true →
    (exec (pre ++ .insert record config :: (mid ++ [op])) Db.empty).records[record.id]? =
      some record

theorem run_insert_replaced {record : ContentRecord} {config : Option StorageConfig} {db : Db}
    {oldId : String} (hdedup : dedupResult db record = some (oldId, true))
    (hsize : record.validateSize = .ok ()) (hquota : overQuota db record config = false) :
    (insert record config).run db = ({ db with
      records := (db.records.erase oldId).insert record.id record
      sourceIndex := db.sourceIndex.insert record.sourceHash record.id },
      .ok (.inserted .replacedNewer)) := by
  rw [run_insert, hsize]
  simp [insertRecordTx, hdedup, hquota, Outcome.map]

theorem PinsStored.run_insert {db : Db} (h : PinsStored db) {record : ContentRecord}
    {config : Option StorageConfig} (hfollows : PinFollows record config db) :
    PinsStored ((insert record config).run db).1 := by
  rw [RecordsOp.run_insert]
  cases hsize : record.validateSize with
  | error e => exact h
  | ok _ =>
    obtain ⟨_, -, heq⟩ | ⟨-, -, heq⟩ | ⟨oldId, hdedup, hquota, heq⟩ | ⟨-, -, heq⟩ :=
      insertRecordTx_cases record config db
    · simpa only [heq] using h
    · simpa only [heq] using h
    · -- the only row that goes is the one under `oldId`
      simp only [heq]
      intro id hpin
      have hstored := h id hpin
      simp only [OrderedTable.get_insert, OrderedTable.get_erase]
      by_cases hid : record.id = id
      · simp [hid]
      · have hold : oldId ≠ id := by
          rintro rfl
          exact hid (hfollows oldId hdedup hsize hquota hpin).symm
        simpa [hid, hold] using hstored
    · simp only [heq]
      intro id hpin
      have hstored := h id hpin
      simp only [OrderedTable.get_insert]
      by_cases hid : record.id = id
      · simp [hid]
      · simpa [hid] using hstored

theorem PinsStored.run {db : Db} (h : PinsStored db) {op : RecordsOp}
    (hfollows : ∀ record config, op = .insert record config → PinFollows record config db) :
    PinsStored (op.run db).1 := by
  have hcleanup : op.isCleanup = true → PinsStored (op.run db).1 := by
    intro hop id hpin
    rw [run_cleanup hop] at hpin ⊢
    rw [removeRows_pins] at hpin
    have hspared : id ∉ (op.picks db).map Prod.fst := by
      intro hpicked
      rw [(mem_picks_ids.mp hpicked).not_pinned] at hpin
      cases hpin
    rw [removeRows_records, if_neg hspared]
    exact h id hpin
  cases op with
  | insert record config => exact h.run_insert (hfollows record config rfl)
  | delete target =>
    rw [run_delete]
    cases db.records[target]? with
    | none => exact h
    | some record =>
      intro id hpin
      have hne : target ≠ id := by
        rintro rfl
        simp [deleteRecordTx] at hpin
      simp only [deleteRecordTx, removeRow_pins, OrderedTable.get_erase, hne, if_false] at hpin
      simp only [deleteRecordTx, removeRow_records, hne, if_false]
      exact h id hpin
  | pin target now =>
    rw [run_pin]
    split
    · exact h
    · next hstored =>
      intro id hpin
      by_cases hid : target = id
      · subst hid
        cases hrow : db.records[target]? with
        | none => simp [hrow] at hstored
        | some _ => rfl
      · rw [OrderedTable.get_insert, if_neg hid] at hpin
        exact h id hpin
  | unpin target =>
    intro id hpin
    rw [run_unpin] at hpin ⊢
    rw [OrderedTable.get_erase] at hpin
    split at hpin
    · cases hpin
    · exact h id hpin
  | sweep now => exact hcleanup rfl
  | evict needed => exact hcleanup rfl

theorem run_pins_kept {op : RecordsOp} {db : Db} {id : String} (hpin : db.pins[id]?.isSome)
    (hunpin : op ≠ .unpin id) (hstored : (op.run db).1.records[id]?.isSome) :
    (op.run db).1.pins[id]?.isSome := by
  cases op with
  | insert record config =>
    rw [RecordsOp.run_insert]
    cases record.validateSize with
    | error e => exact hpin
    | ok _ =>
      obtain ⟨_, -, heq⟩ | ⟨-, -, heq⟩ | ⟨_, -, -, heq⟩ | ⟨-, -, heq⟩ :=
        insertRecordTx_cases record config db <;> simpa only [heq] using hpin
  | delete target =>
    rw [run_delete] at hstored ⊢
    cases hrow : db.records[target]? with
    | none => exact hpin
    | some record =>
      rw [hrow] at hstored
      have hne : target ≠ id := by
        rintro rfl
        simp [deleteRecordTx, removeRow_records] at hstored
      simpa only [deleteRecordTx, removeRow_pins, OrderedTable.get_erase, hne, if_false] using hpin
  | pin target now =>
    rw [run_pin]
    split
    · exact hpin
    · rw [OrderedTable.get_insert]
      split
      · rfl
      · exact hpin
  | unpin target =>
    have hne : target ≠ id := fun h => hunpin (congrArg RecordsOp.unpin h)
    rw [run_unpin]
    simpa only [OrderedTable.get_erase, hne, if_false] using hpin
  | sweep now => rw [run_sweep, removeRows_pins]; exact hpin
  | evict needed => rw [run_evict, removeRows_pins]; exact hpin

theorem exec_pins_kept {id : String} {record : ContentRecord} {mid : List RecordsOp} {db : Db}
    (hpin : db.pins[id]?.isSome) (hunpin : .unpin id ∉ mid)
    (hstored : ∀ m, m <+: mid → (exec m db).records[id]? = some record) :
    (exec mid db).pins[id]?.isSome := by
  induction mid generalizing db with
  | nil => exact hpin
  | cons op mid ih =>
    obtain ⟨hop, hrest⟩ := not_or.mp (mt List.mem_cons.mpr hunpin)
    have hstored' : ∀ m, m <+: mid → (exec m (op.run db).1).records[id]? = some record :=
      fun m hm => hstored (op :: m) (List.cons_prefix_cons.mpr ⟨rfl, hm⟩)
    refine ih (run_pins_kept hpin (Ne.symm hop) ?_) hrest hstored'
    rw [show (op.run db).1.records[id]? = some record from hstored' [] List.nil_prefix]
    rfl

theorem ReplacesPinned.pinned {record : ContentRecord} {config : Option StorageConfig} {db : Db}
    (h : ReplacesPinned record config db) (hfollows : PinFollows record config db) :
    ((insert record config).run db).1.pins[record.id]?.isSome := by
  obtain ⟨hresult, oldId, hnamed, hpin⟩ := h
  rw [RecordsOp.run_insert] at hresult ⊢
  cases hsize : record.validateSize with
  | error e => simp [hsize] at hresult
  | ok _ =>
    obtain ⟨_, -, heq⟩ | ⟨-, -, heq⟩ | ⟨replacedId, hdedup, hquota, heq⟩ | ⟨-, -, heq⟩ :=
      insertRecordTx_cases record config db
    · simp [hsize, heq, Outcome.map] at hresult
    · simp [hsize, heq, Outcome.map] at hresult
    · obtain ⟨_, hnamed', -, -⟩ := dedupResult_eq_some.mp hdedup
      obtain rfl := Option.some.inj (hnamed.symm.trans hnamed')
      obtain rfl := hfollows oldId hdedup hsize hquota hpin
      simpa only [heq] using hpin
    · simp [hsize, heq, Outcome.map] at hresult

theorem run_cleanup_keeps_pinned {op : RecordsOp} (hop : op.isCleanup = true) {db : Db} {id : String}
    (hpin : db.pins[id]?.isSome) : RowKept id db (op.run db).1 := by
  rw [run_cleanup hop]
  refine removeRows_rowKept.mpr (.inr fun hpicked => ?_)
  rw [hpicked.not_pinned] at hpin
  cases hpin

/-- Pins are kept in step with the records, and protect what replaces a pinned record, exactly in the
runs in which no insert replaces a pinned record under another id. -/
theorem pins_follow_replacements (ops : List RecordsOp) :
    ((∀ pre, pre <+: ops → PinsStored (exec pre Db.empty)) ∧ ReplacementProtected ops) ↔
      ∀ pre record config post, ops = pre ++ .insert record config :: post →
        PinFollows record config (exec pre Db.empty) := by
  constructor
  · rintro ⟨hpins, -⟩ pre record config post hops oldId hdedup hsize hquota hpin
    by_contra hne
    have hafter := hpins (pre ++ [.insert record config]) ⟨post, by simp [hops]⟩ oldId
    rw [exec_append, exec_cons, exec_nil, run_insert_replaced hdedup hsize hquota] at hafter
    have hlost := hafter hpin
    simp [Ne.symm hne] at hlost
  · intro hfollows
    constructor
    · intro pre
      induction pre using List.reverseRecOn with
      | nil =>
        intro _ id hpin
        simp [Db.empty] at hpin
      | append_singleton pre op ih =>
        rintro ⟨post, hops⟩
        rw [exec_append]
        refine (ih ⟨op :: post, by simp [← hops]⟩).run fun record config hop => ?_
        exact hfollows pre record config post (by simp [← hops, hop])
    · intro pre record config mid op post hops hreplaces hstored hunpin hcleanup
      have hpinned := hreplaces.pinned (hfollows pre record config (mid ++ op :: post) hops)
      simp only [exec_append, exec_cons, exec_nil] at hstored ⊢
      have hkept := exec_pins_kept hpinned hunpin hstored
      exact run_cleanup_keeps_pinned hcleanup hkept record (hstored mid (List.prefix_refl mid))

def pinnedThenReplaced : List RecordsOp :=
  [.insert (makeRecord "r1" "sh1" 1000 1500) none, .pin "r1" 1200,
    .insert (makeRecord "r2" "sh1" 2000 2500) none, .sweep 3000]

/-- The pin names no record any more, and the sweep deletes the record that replaced the pinned
one. -/
theorem pins_lost_on_replacement :
    (¬ ∀ ops pre : List RecordsOp, pre <+: ops → PinsStored (exec pre Db.empty)) ∧
      ¬ ∀ ops : List RecordsOp, ReplacementProtected ops := by
  constructor
  · intro hclaim
    have hpin := hclaim pinnedThenReplaced _ (List.take_prefix 3 _) "r1"
    revert hpin
    decide +kernel
  · intro hclaim
    have hreplaces : ReplacesPinned (makeRecord "r2" "sh1" 2000 2500) none
        (exec (pinnedThenReplaced.take 2) Db.empty) :=
      ⟨by decide +kernel, "r1", by decide +kernel, by decide +kernel⟩
    have hstored : ∀ m : List RecordsOp, m <+: [] →
        (exec (pinnedThenReplaced.take 2 ++ .insert (makeRecord "r2" "sh1" 2000 2500) none :: m)
          Db.empty).records["r2"]? = some (makeRecord "r2" "sh1" 2000 2500) := by
      intro m hm
      rw [List.prefix_nil.mp hm]
      decide +kernel
    have hkept := hclaim pinnedThenReplaced (pinnedThenReplaced.take 2)
      (makeRecord "r2" "sh1" 2000 2500) none [] (.sweep 3000) [] rfl hreplaces hstored (by simp) rfl
    revert hkept
    decide +kernel

end DSearch
