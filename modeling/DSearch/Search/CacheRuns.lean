import DSearch.Foundations.Runs
import DSearch.Search.Cache

/-! # Runs of the search cache

A cache is watched over any calls, each with the time at which it is made. What `get` finds is told by
the calls alone: the last insert of the key, if nothing has ended it since. -/

namespace DSearch
set_option autoImplicit false
open Runs

namespace SearchCache
variable {ν : Type}

/-! ## One call -/

theorem get_results {cache : SearchCache ν} {key : String} {now : ℕ} {results : ν}
    (h : (cache.get key now).2 = some results) :
    ∃ entry, cache.entries[key]? = some entry ∧ entry.results = results := by
  unfold get at h
  split at h
  · next entry hentry =>
    split at h
    · exact ⟨entry, hentry, Option.some.inj h⟩
    · cases h
  · cases h

/-- A lookup drops an entry at most. -/
theorem get_entries {cache : SearchCache ν} {key key' : String} {now : ℕ} {entry : CacheEntry ν}
    (h : (cache.get key now).1.entries[key']? = some entry) :
    cache.entries[key']? = some entry := by
  unfold get at h
  split at h
  · split at h
    · exact h
    · exact (OrderedTable.get_erase_eq_some.mp h).2
  · exact h

theorem evict_entries (order : HashOrder) (maxEntries n : ℕ) {entries : Table (CacheEntry ν)}
    {key : String} {entry : CacheEntry ν}
    (h : (evict order maxEntries n entries)[key]? = some entry) : entries[key]? = some entry := by
  induction n generalizing entries with
  | zero => exact h
  | succ n ih =>
    unfold evict at h
    split at h
    · split at h
      · exact (OrderedTable.get_erase_eq_some.mp (ih h)).2
      · exact h
    · exact h

/-- After an insert there are the new entry and old ones. -/
theorem insert_entries {order : HashOrder} {cache : SearchCache ν} {key key' : String} {results : ν}
    {now : ℕ} {entry : CacheEntry ν}
    (h : (cache.insert order key results now).entries[key']? = some entry) :
    (key = key' ∧ entry = ⟨results, now⟩) ∨ (key ≠ key' ∧ cache.entries[key']? = some entry) := by
  unfold insert at h
  rcases OrderedTable.get_insert_eq_some.mp h with ⟨hkey, hentry⟩ | ⟨hkey, hkept⟩
  · exact .inl ⟨hkey, hentry.symm⟩
  · have hlive := evict_entries order _ _ hkept
    rw [Std.ExtTreeMap.getElem?_filter', Option.filter_eq_some_iff] at hlive
    exact .inr ⟨hkey, hlive.1⟩

/-- What an insert has left of the entries when its eviction begins. -/
def live (cache : SearchCache ν) (now : ℕ) : Table (CacheEntry ν) :=
  cache.entries.filter fun _ entry => now - entry.insertedAt < cache.ttl

/-- What an insert has left of the entries when its eviction is over. -/
def kept (order : HashOrder) (cache : SearchCache ν) (now : ℕ) : Table (CacheEntry ν) :=
  evict order cache.maxEntries (cache.live now).size (cache.live now)

theorem insert_eq (order : HashOrder) (cache : SearchCache ν) (key : String) (results : ν)
    (now : ℕ) : cache.insert order key results now =
      { cache with entries := (cache.kept order now).insert key ⟨results, now⟩ } := rfl

theorem get_live {cache : SearchCache ν} {now : ℕ} {key : String} {entry : CacheEntry ν} :
    (cache.live now)[key]? = some entry ↔
      cache.entries[key]? = some entry ∧ now - entry.insertedAt < cache.ttl := by
  rw [live, Std.ExtTreeMap.getElem?_filter', Option.filter_eq_some_iff, decide_eq_true_eq]

/-- An insert at this time evicts this entry, which has not expired. -/
def Evicts (order : HashOrder) (cache : SearchCache ν) (now : ℕ) (key : String)
    (entry : CacheEntry ν) : Prop :=
  (cache.live now)[key]? = some entry ∧ (cache.kept order now)[key]? = none

/-- The row that a turn of the loop takes is stored, and no stored row is older. -/
theorem oldest_of_argmin {order : HashOrder} {entries : Table (CacheEntry ν)}
    {oldest : String × CacheEntry ν}
    (h : (order.rows entries).argmin (fun row => row.2.insertedAt) = some oldest) :
    entries[oldest.1]? = some oldest.2 ∧ ∀ (key : String) (entry : CacheEntry ν),
      entries[key]? = some entry → oldest.2.insertedAt ≤ entry.insertedAt := by
  have hrow : ∀ row, row ∈ order.rows entries ↔ entries[row.1]? = some row.2 := by
    intro row
    rw [(order.perm entries).mem_iff, Std.ExtTreeMap.mem_toList_iff_getElem?_eq_some]
  refine ⟨(hrow oldest).mp (List.argmin_mem h), fun key entry hentry => ?_⟩
  have hmem : (key, entry) ∈ order.rows entries := (hrow (key, entry)).mpr hentry
  exact List.le_of_mem_argmin (f := fun row => row.2.insertedAt) hmem h

/-- The loop takes the oldest entries: none that it leaves is older than one it has taken. -/
theorem evict_oldest (order : HashOrder) (maxEntries n : ℕ) {entries : Table (CacheEntry ν)}
    {key other : String} {entry left : CacheEntry ν} (hentry : entries[key]? = some entry)
    (hgone : (evict order maxEntries n entries)[key]? = none)
    (hleft : (evict order maxEntries n entries)[other]? = some left) :
    entry.insertedAt ≤ left.insertedAt := by
  induction n generalizing entries with
  | zero =>
    rw [evict, hentry] at hgone
    cases hgone
  | succ n ih =>
    have hstored := evict_entries order maxEntries (n + 1) hleft
    rw [evict] at hgone hleft
    split at hgone
    · next hfull =>
      split at hgone
      · next oldest holdest =>
        rw [if_pos hfull, holdest] at hleft
        obtain ⟨hrow, hmin⟩ := oldest_of_argmin holdest
        by_cases hkey : oldest.1 = key
        · subst hkey
          rw [hentry] at hrow
          cases hrow
          exact hmin other left hstored
        · refine ih ?_ hgone hleft
          rw [OrderedTable.get_erase, if_neg hkey, hentry]
      · rw [hentry] at hgone
        cases hgone
    · rw [hentry] at hgone
      cases hgone

/-- With enough turns the loop makes room for one entry, and takes no more than it must. -/
theorem size_evict (order : HashOrder) (maxEntries n : ℕ) {entries : Table (CacheEntry ν)}
    (hn : entries.size ≤ n) :
    (evict order maxEntries n entries).size = min entries.size (maxEntries - 1) := by
  induction n generalizing entries with
  | zero =>
    rw [evict]
    omega
  | succ n ih =>
    rw [evict]
    split
    · next hfull =>
      cases holdest : (order.rows entries).argmin fun row => row.2.insertedAt with
      | none =>
        have hempty : order.rows entries = [] := List.argmin_eq_none.mp holdest
        have hlen := (order.perm entries).length_eq
        rw [hempty, List.length_nil, Std.ExtTreeMap.length_toList] at hlen
        dsimp only
        omega
      | some oldest =>
        have hmem : entries.contains oldest.1 = true := by
          rw [Std.ExtTreeMap.contains_eq_isSome_getElem?, (oldest_of_argmin holdest).1]
          rfl
        have hsize : (entries.erase oldest.1).size = entries.size - 1 := by
          rw [Std.ExtTreeMap.size_erase, if_pos hmem]
        dsimp only
        rw [ih (by omega), hsize]
        omega
    · omega

end SearchCache

/-! ## Calls -/

inductive CacheOp (ν : Type) where
  | get (key : String)
  | insert (order : HashOrder) (key : String) (results : ν)
  | invalidate (key : String)
  | clear

/-- A call and the time at which it is made. -/
structure CacheCall (ν : Type) where
  now : ℕ
  op : CacheOp ν

namespace CacheCall
variable {ν : Type}

def step (call : CacheCall ν) (cache : SearchCache ν) : SearchCache ν × Option ν :=
  match call.op with
  | .get key => cache.get key call.now
  | .insert order key results => (cache.insert order key results call.now, none)
  | .invalidate key => (cache.invalidate key, none)
  | .clear => (cache.clear, none)

/-- After this call the key has another last insert, or none. -/
def Ends (key : String) (call : CacheCall ν) : Prop :=
  match call.op with
  | .get _ => False
  | .insert _ key' _ => key' = key
  | .invalidate key' => key' = key
  | .clear => True

/-- The call is an insert that evicts this key. -/
def Evicts (key : String) (cache : SearchCache ν) (call : CacheCall ν) : Prop :=
  match call.op with
  | .insert order _ _ => ∃ entry, cache.Evicts order call.now key entry
  | _ => False

theorem step_ttl (call : CacheCall ν) (cache : SearchCache ν) :
    (call.step cache).1.ttl = cache.ttl ∧ (call.step cache).1.maxEntries = cache.maxEntries := by
  unfold step
  split
  · unfold SearchCache.get
    split
    · split <;> exact ⟨rfl, rfl⟩
    · exact ⟨rfl, rfl⟩
  · exact ⟨rfl, rfl⟩
  · exact ⟨rfl, rfl⟩
  · exact ⟨rfl, rfl⟩

theorem step_insert (now : ℕ) (order : HashOrder) (key : String) (results : ν)
    (cache : SearchCache ν) : (step ⟨now, .insert order key results⟩ cache).1.entries =
      (cache.kept order now).insert key ⟨results, now⟩ := rfl

/-- An entry after a call is a new one, or an old one that the call does not end and not evict. -/
theorem step_entries {call : CacheCall ν} {cache : SearchCache ν} {key : String}
    {entry : CacheEntry ν} (h : (call.step cache).1.entries[key]? = some entry) :
    (∃ order, call = ⟨entry.insertedAt, .insert order key entry.results⟩) ∨
      (cache.entries[key]? = some entry ∧ ¬ call.Ends key ∧ ¬ call.Evicts key cache) := by
  obtain ⟨now, op⟩ := call
  cases op with
  | get key' => exact .inr ⟨SearchCache.get_entries h, id, id⟩
  | insert order key' results =>
    rw [step_insert, OrderedTable.get_insert_eq_some] at h
    rcases h with ⟨rfl, rfl⟩ | ⟨hkey, hkept⟩
    · exact .inl ⟨order, rfl⟩
    · have hlive := SearchCache.evict_entries order _ _ hkept
      refine .inr ⟨(SearchCache.get_live.mp hlive).1, hkey, ?_⟩
      rintro ⟨_, -, hgone⟩
      exact Option.some_ne_none _ (hkept.symm.trans hgone)
  | invalidate key' =>
    obtain ⟨hkey, hold⟩ := OrderedTable.get_erase_eq_some.mp h
    exact .inr ⟨hold, hkey, id⟩
  | clear => simp [step, SearchCache.clear] at h

/-- An entry that has not expired stays if the call does not end and not evict it. -/
theorem step_keeps {call : CacheCall ν} {cache : SearchCache ν} {key : String}
    {entry : CacheEntry ν} (h : cache.entries[key]? = some entry)
    (hfresh : call.now - entry.insertedAt < cache.ttl) (hends : ¬ call.Ends key)
    (hevicts : ¬ call.Evicts key cache) : (call.step cache).1.entries[key]? = some entry := by
  obtain ⟨now, op⟩ := call
  cases op with
  | get key' =>
    unfold step SearchCache.get
    dsimp only
    split
    · next found hfound =>
      split
      · exact h
      · next hexpired =>
        refine OrderedTable.get_erase_eq_some.mpr ⟨?_, h⟩
        rintro rfl
        rw [h] at hfound
        cases hfound
        exact hexpired hfresh
    · exact h
  | insert order key' results =>
    have hlive : (cache.live now)[key]? = some entry := SearchCache.get_live.mpr ⟨h, hfresh⟩
    have hother : key' ≠ key := hends
    rw [step_insert, OrderedTable.get_insert, if_neg hother]
    cases hkept : (cache.kept order now)[key]? with
    | none => exact absurd ⟨entry, hlive, hkept⟩ hevicts
    | some left =>
      rw [← hlive]
      exact (SearchCache.evict_entries order _ _ hkept).symm
  | invalidate key' => exact OrderedTable.get_erase_eq_some.mpr ⟨hends, h⟩
  | clear => exact absurd trivial hends

theorem step_len {call : CacheCall ν} {cache : SearchCache ν} (hmax : 1 ≤ cache.maxEntries)
    (h : cache.len ≤ cache.maxEntries) : (call.step cache).1.len ≤ cache.maxEntries := by
  have herase : ∀ key, (cache.entries.erase key).size ≤ cache.maxEntries := by
    intro key
    exact le_trans Std.ExtTreeMap.size_erase_le h
  unfold step
  split
  · unfold SearchCache.get
    split
    · split
      · exact h
      · exact herase _
    · exact h
  · next order key results hop =>
    have hkept : (cache.kept order call.now).size ≤ cache.maxEntries - 1 := by
      rw [SearchCache.kept, SearchCache.size_evict order _ _ le_rfl]
      exact min_le_right _ _
    have hinsert : ((cache.kept order call.now).insert key ⟨results, call.now⟩).size ≤
        (cache.kept order call.now).size + 1 := Std.ExtTreeMap.size_insert_le
    change ((cache.kept order call.now).insert key ⟨results, call.now⟩).size ≤ cache.maxEntries
    omega
  · exact herase _
  · exact Nat.zero_le _

end CacheCall

/-! ## Runs -/

namespace SearchCache
variable {ν : Type}

/-- The cache after some calls. -/
def after (calls : List (CacheCall ν)) (cache : SearchCache ν) : SearchCache ν :=
  (runAll CacheCall.step calls cache).1

theorem after_cons (call : CacheCall ν) (calls : List (CacheCall ν)) (cache : SearchCache ν) :
    after (call :: calls) cache = after calls (call.step cache).1 := rfl

theorem after_append (first second : List (CacheCall ν)) (cache : SearchCache ν) :
    after (first ++ second) cache = after second (after first cache) :=
  runAll_append CacheCall.step first second cache

theorem after_ttl (calls : List (CacheCall ν)) (cache : SearchCache ν) :
    (after calls cache).ttl = cache.ttl ∧ (after calls cache).maxEntries = cache.maxEntries := by
  induction calls generalizing cache with
  | nil => exact ⟨rfl, rfl⟩
  | cons call calls ih =>
    rw [after_cons, (ih _).1, (ih _).2]
    exact call.step_ttl cache

theorem after_len (calls : List (CacheCall ν)) {cache : SearchCache ν} (hmax : 1 ≤ cache.maxEntries)
    (h : cache.len ≤ cache.maxEntries) : (after calls cache).len ≤ cache.maxEntries := by
  induction calls generalizing cache with
  | nil => exact h
  | cons call calls ih =>
    have hcap := (call.step_ttl cache).2
    rw [← hcap] at hmax ⊢
    exact ih hmax (hcap ▸ CacheCall.step_len (hcap ▸ hmax) h)

/-- No call of the run ends the key or evicts it. -/
def Undisturbed (key : String) : List (CacheCall ν) → SearchCache ν → Prop :=
  Along CacheCall.step fun cache call => ¬ call.Ends key ∧ ¬ call.Evicts key cache

/-- The last insert of the key in the calls made this entry, and nothing has ended or evicted it
since. -/
def Stands (key : String) (entry : CacheEntry ν) (calls : List (CacheCall ν))
    (cache : SearchCache ν) : Prop :=
  ∃ before order later,
    calls = before ++ ⟨entry.insertedAt, .insert order key entry.results⟩ :: later ∧
    Undisturbed key later
      (after (before ++ [⟨entry.insertedAt, .insert order key entry.results⟩]) cache)

theorem entries_after {calls : List (CacheCall ν)} {cache : SearchCache ν} {key : String}
    {entry : CacheEntry ν} (h : (after calls cache).entries[key]? = some entry) :
    Stands key entry calls cache ∨
      (cache.entries[key]? = some entry ∧ Undisturbed key calls cache) := by
  induction calls generalizing cache with
  | nil => exact .inr ⟨h, trivial⟩
  | cons call calls ih =>
    rcases ih h with ⟨before, order, later, rfl, hlater⟩ | ⟨hentry, hcalls⟩
    · exact .inl ⟨call :: before, order, later, rfl, hlater⟩
    · rcases CacheCall.step_entries hentry with ⟨order, rfl⟩ | ⟨hold, hkeeps⟩
      · exact .inl ⟨[], order, calls, rfl, hcalls⟩
      · exact .inr ⟨hold, hkeeps, hcalls⟩

theorem after_keeps {calls : List (CacheCall ν)} {cache : SearchCache ν} {key : String}
    {entry : CacheEntry ν} (h : cache.entries[key]? = some entry)
    (hfresh : ∀ call ∈ calls, call.now - entry.insertedAt < cache.ttl)
    (hcalls : Undisturbed key calls cache) : (after calls cache).entries[key]? = some entry := by
  induction calls generalizing cache with
  | nil => exact h
  | cons call calls ih =>
    refine ih ?_ ?_ hcalls.2
    · exact CacheCall.step_keeps h (hfresh call List.mem_cons_self) hcalls.1.1 hcalls.1.2
    · intro later hlater
      rw [(call.step_ttl cache).1]
      exact hfresh later (List.mem_cons_of_mem call hlater)

theorem get_eq_some {cache : SearchCache ν} {key : String} {now : ℕ} {results : ν} :
    (cache.get key now).2 = some results ↔
      ∃ entry, cache.entries[key]? = some entry ∧ entry.results = results ∧
        now - entry.insertedAt < cache.ttl := by
  unfold get
  cases hentry : cache.entries[key]? with
  | none => simp
  | some entry =>
    by_cases hfresh : now - entry.insertedAt < cache.ttl <;> simp [hfresh]

/-- A lookup finds exactly the results of the last insert of the key, if that is less than the time to
live ago and no call since has invalidated, cleared or evicted the entry. -/
theorem get_after_iff (calls : List (CacheCall ν)) (ttl maxEntries : ℕ) (key : String) {now : ℕ}
    (hclock : ∀ call ∈ calls, call.now ≤ now) (results : ν) :
    ((after calls (new ttl maxEntries)).get key now).2 = some results ↔
      ∃ inserted, now - inserted < ttl ∧ Stands key ⟨results, inserted⟩ calls (new ttl maxEntries) := by
  rw [get_eq_some, (after_ttl _ _).1]
  constructor
  · rintro ⟨entry, hentry, rfl, hfresh⟩
    rcases entries_after hentry with hstands | ⟨hold, -⟩
    · exact ⟨entry.insertedAt, hfresh, hstands⟩
    · simp [new] at hold
  · rintro ⟨inserted, hfresh, before, order, later, rfl, hlater⟩
    refine ⟨⟨results, inserted⟩, ?_, rfl, hfresh⟩
    have hsplit : before ++ ⟨inserted, .insert order key results⟩ :: later =
        (before ++ [⟨inserted, .insert order key results⟩]) ++ later := by simp
    rw [hsplit, after_append]
    refine after_keeps ?_ (fun call hcall => ?_) hlater
    · rw [after_append, after_cons, after, runAll_nil, CacheCall.step_insert, OrderedTable.get_insert,
        if_pos rfl]
    · rw [(after_ttl _ _).1]
      have hcall := hclock call (List.mem_append_right before (List.mem_cons_of_mem _ hcall))
      exact lt_of_le_of_lt (Nat.sub_le_sub_right hcall inserted) hfresh

/-- No entry is younger than the last call. -/
theorem insertedAt_le {calls : List (CacheCall ν)} {ttl maxEntries now : ℕ} {key : String}
    {entry : CacheEntry ν} (hclock : ∀ call ∈ calls, call.now ≤ now)
    (h : (after calls (new ttl maxEntries)).entries[key]? = some entry) :
    entry.insertedAt ≤ now := by
  rcases entries_after h with ⟨before, order, later, rfl, -⟩ | ⟨hold, -⟩
  · exact hclock ⟨entry.insertedAt, .insert order key entry.results⟩ (by simp)
  · simp [new] at hold

/-- An insert leaves its own entry, no other is younger, and no other is older than one it has
evicted. -/
theorem insert_evicts_oldest {calls : List (CacheCall ν)} {ttl maxEntries now : ℕ}
    (hclock : ∀ call ∈ calls, call.now ≤ now) (order : HashOrder) (key : String) (results : ν)
    {other : String} {left : CacheEntry ν}
    (hleft : ((after calls (new ttl maxEntries)).insert order key results now).entries[other]? =
      some left) :
    (other = key ∧ left = ⟨results, now⟩) ∨ (left.insertedAt ≤ now ∧ ∀ evicted entry,
      (after calls (new ttl maxEntries)).Evicts order now evicted entry →
        entry.insertedAt ≤ left.insertedAt) := by
  rw [insert_eq, OrderedTable.get_insert_eq_some] at hleft
  rcases hleft with ⟨rfl, rfl⟩ | ⟨-, hkept⟩
  · exact .inl ⟨rfl, rfl⟩
  · have hold := (get_live.mp (evict_entries order _ _ hkept)).1
    refine .inr ⟨insertedAt_le hclock hold, fun evicted entry hevicts => ?_⟩
    exact evict_oldest order _ _ hevicts.1 hevicts.2 hkept

/-- Over any calls whose times do not decrease: the cache holds no more entries than it may, a lookup
finds exactly what was inserted last and not lost since, and an insert evicts the oldest entries. -/
theorem searchCache_runs (ttl maxEntries : ℕ) (hmax : 1 ≤ maxEntries) (calls : List (CacheCall ν))
    (now : ℕ) (hclock : (calls.map CacheCall.now ++ [now]).Pairwise (· ≤ ·)) :
    (after calls (new ttl maxEntries)).len ≤ maxEntries ∧
    (∀ key results, ((after calls (new ttl maxEntries)).get key now).2 = some results ↔
      ∃ inserted, now - inserted < ttl ∧
        Stands key ⟨results, inserted⟩ calls (new ttl maxEntries)) ∧
    ∀ order key results other left,
      ((after calls (new ttl maxEntries)).insert order key results now).entries[other]? = some left →
      (other = key ∧ left = ⟨results, now⟩) ∨ (left.insertedAt ≤ now ∧ ∀ evicted entry,
        (after calls (new ttl maxEntries)).Evicts order now evicted entry →
          entry.insertedAt ≤ left.insertedAt) := by
  have hbefore : ∀ call ∈ calls, call.now ≤ now := by
    intro call hcall
    exact (List.pairwise_append.mp hclock).2.2 call.now (List.mem_map_of_mem hcall) now
      (List.mem_singleton_self now)
  refine ⟨after_len calls hmax (Nat.zero_le _), fun key results => ?_, ?_⟩
  · exact get_after_iff calls ttl maxEntries key hbefore results
  · intro order key results other left hleft
    exact insert_evicts_oldest hbefore order key results hleft

theorem searchCache_runs_two_entries : (after [⟨0, .insert .sorted "a" 1⟩, ⟨5, .insert .sorted "b" 2⟩,
      ⟨9, .insert .sorted "c" 3⟩] (new 60 2)).len ≤ 2 ∧
    ((after [⟨0, .insert .sorted "a" 1⟩, ⟨5, .insert .sorted "b" 2⟩, ⟨9, .insert .sorted "c" 3⟩]
      (new 60 2)).get "b" 20).2 = some 2 := by
  have h := searchCache_runs 60 2 (by decide) [⟨0, .insert .sorted "a" 1⟩,
    ⟨5, .insert .sorted "b" 2⟩, ⟨9, .insert .sorted "c" 3⟩] 20 (by decide)
  exact ⟨h.1, by decide +kernel⟩

end SearchCache

end DSearch
