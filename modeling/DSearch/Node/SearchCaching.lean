import DSearch.Foundations.SeparatedText
import DSearch.Node.SearchAgreement
import DSearch.Search.CacheRuns
import DSearch.Trust.SignedFields

/-! # Cached answers

`search_records` answers from the cache for as long as an entry lives, and no other call looks at the
cache: an insert, a delete or a sweep leaves the answers that it makes wrong. A run is watched here with
the tables and the clocks that each cached answer was made from. -/

namespace DSearch
set_option autoImplicit false
open Transaction SeparatedText

/-! ## Keys -/

def cacheKey (queryStr : String) (limit : ℕ) : String := queryStr ++ ":" ++ toString limit

theorem not_colon_mem_toString (n : ℕ) : ':' ∉ (toString n).toList := by
  intro hcolon
  exact absurd (JsonText.digit_of_mem_toString hcolon) (by decide)

/-- The limit has no colon in it, so a key names one query and one limit. -/
theorem cacheKey_inj {queryStr queryStr' : String} {limit limit' : ℕ}
    (h : cacheKey queryStr limit = cacheKey queryStr' limit') :
    queryStr = queryStr' ∧ limit = limit' := by
  obtain heq | ⟨w, -, hlimit⟩ | ⟨w, -, hlimit⟩ := (append_sep_eq_iff ':' _ _ _ _).mp h
  · obtain ⟨hquery, hlimit⟩ := Prod.mk.inj heq
    exact ⟨hquery, toString_nat_inj.mp hlimit⟩
  · exact absurd (by simp [hlimit]) (not_colon_mem_toString limit)
  · exact absurd (by simp [hlimit]) (not_colon_mem_toString limit')

/-! ## Two searches with one answer -/

/-- The clocks of a call and the order of hash maps while it runs. -/
structure Moment where
  now : ℕ
  instant : ℕ
  order : HashOrder

section
variable (toLowercase : String → String)

def Moment.env (m : Moment) : NodeEnv := ⟨m.now, m.instant, m.order, toLowercase⟩

/-- The records that a search ranks: those of its scan that match. -/
def matched (db : Db) (queryStr : String) (limit : ℕ) : List ContentRecord :=
  let parsed := Query.parseQuery toLowercase queryStr
  (Records.listRecords db parsed.fields["schema"]? (parsed.limit.getD limit * 10 % 2 ^ 64)).filter
    fun record => Query.matchesQuery toLowercase record parsed

def scoreAt (queryStr : String) (now : ℕ) (record : ContentRecord) : Float :=
  Query.scoreRecord toLowercase record (Query.parseQuery toLowercase queryStr) 1 now

/-- The same records match, and their scores are in the same order at the two times. -/
def SameRanking (queryStr : String) (limit : ℕ) (db db' : Db) (now now' : ℕ) : Prop :=
  matched toLowercase db queryStr limit = matched toLowercase db' queryStr limit ∧
    ∀ a ∈ matched toLowercase db queryStr limit, ∀ b ∈ matched toLowercase db queryStr limit,
      (scoreAt toLowercase queryStr now a < scoreAt toLowercase queryStr now b ↔
        scoreAt toLowercase queryStr now' a < scoreAt toLowercase queryStr now' b)

theorem SameRanking.refl (queryStr : String) (limit : ℕ) (db : Db) (now : ℕ) :
    SameRanking toLowercase queryStr limit db db now now :=
  ⟨rfl, fun _ _ _ _ => Iff.rfl⟩

/-- What is returned is the matching records, sorted by their scores and cut off. -/
theorem rankedResults_eq (m : Moment) (db : Db) (queryStr : String) (limit : ℕ) :
    rankedResults (m.env toLowercase) db queryStr limit =
      ((matched toLowercase db queryStr limit).insertionSort fun a b =>
        ¬ scoreAt toLowercase queryStr m.now a < scoreAt toLowercase queryStr m.now b).take
          ((Query.parseQuery toLowercase queryStr).limit.getD limit) := by
  have hsorted := List.map_insertionSort
    (r := fun a b => ¬ scoreAt toLowercase queryStr m.now a < scoreAt toLowercase queryStr m.now b)
    (s := fun a b : ContentRecord × Float => ¬ a.2 < b.2)
    (fun record => (record, scoreAt toLowercase queryStr m.now record))
    (matched toLowercase db queryStr limit) (fun _ _ _ _ => Iff.rfl)
  unfold rankedResults
  dsimp only
  rw [List.map_take]
  refine congrArg (List.take _) ?_
  refine (congrArg (List.map Prod.fst) hsorted.symm).trans ?_
  rw [List.map_map]
  exact List.map_id _

theorem rankedResults_of_sameRanking {queryStr : String} {limit : ℕ} {db db' : Db} {m m' : Moment}
    (h : SameRanking toLowercase queryStr limit db db' m.now m'.now) :
    rankedResults (m.env toLowercase) db queryStr limit =
      rankedResults (m'.env toLowercase) db' queryStr limit := by
  have horder := List.map_insertionSort
    (r := fun a b => ¬ scoreAt toLowercase queryStr m.now a < scoreAt toLowercase queryStr m.now b)
    (s := fun a b => ¬ scoreAt toLowercase queryStr m'.now a < scoreAt toLowercase queryStr m'.now b)
    id (matched toLowercase db queryStr limit) (fun a ha b hb => not_congr (h.2 a ha b hb))
  rw [List.map_id, List.map_id] at horder
  rw [rankedResults_eq, rankedResults_eq, ← h.1, horder]

/-- A search is answered from the cache, or its answer is made and cached. -/
theorem searchRecords_run (m : Moment) (queryStr : String) (limit : ℕ) (s : NodeState) :
    let found := s.searchCache.get (cacheKey queryStr limit) m.instant
    (∃ results, found.2 = some results ∧
      (NodeState.searchRecords (m.env toLowercase) queryStr limit).run s =
        ({ s with searchCache := found.1 }, results)) ∨
    (found.2 = none ∧
      let results := rankedResults (m.env toLowercase) s.db queryStr limit
      (NodeState.searchRecords (m.env toLowercase) queryStr limit).run s =
        ({ s with searchCache :=
            found.1.insert m.order (cacheKey queryStr limit) results m.instant }, results)) := by
  dsimp only
  unfold NodeState.searchRecords
  dsimp only
  rw [Client.run_atomically]
  have hkey : queryStr ++ ":" ++ toString limit = cacheKey queryStr limit := rfl
  have hinstant : (m.env toLowercase).instant = m.instant := rfl
  cases hfound : (s.searchCache.get (cacheKey queryStr limit) m.instant).2 with
  | some results =>
    refine .inl ⟨results, rfl, ?_⟩
    rw [hkey, hinstant]
    dsimp only
    rw [hfound]
    rfl
  | none =>
    refine .inr ⟨rfl, ?_⟩
    rw [hkey, hinstant]
    dsimp only
    rw [hfound]
    rfl

end

/-! ## Runs -/

inductive CachedOp where
  | store (op : StoreOp)
  | search (m : Moment) (queryStr : String) (limit : ℕ)

/-- A node and, for each key of the cache, the tables and the clocks of the search that last made an
answer for it. -/
structure Watched where
  node : NodeState
  born : String → Option (Db × Moment)

def Watched.start (db : Db) : Watched := ⟨.new db, fun _ => none⟩

section
variable {ed : Ed25519} (store : Store ed) (toLowercase : String → String)

namespace Watched

def cached (w : Watched) (m : Moment) (queryStr : String) (limit : ℕ) :
    Option (List ContentRecord) :=
  (w.node.searchCache.get (cacheKey queryStr limit) m.instant).2

def search (w : Watched) (m : Moment) (queryStr : String) (limit : ℕ) :
    NodeState × List ContentRecord :=
  (NodeState.searchRecords (m.env toLowercase) queryStr limit).run w.node

def after (w : Watched) : CachedOp → Watched
  | .store op => { w with node := { w.node with db := (op.run store w.node.db).1 } }
  | .search m queryStr limit =>
    { node := (w.search toLowercase m queryStr limit).1
      born := match w.cached m queryStr limit with
        | some _ => w.born
        | none => Function.update w.born (cacheKey queryStr limit) (some (w.node.db, m)) }

/-- Each call of the run is related by `P` to the state it starts in. -/
def Along (P : Watched → CachedOp → Prop) : List CachedOp → Watched → Prop
  | [], _ => True
  | op :: ops, w => P w op ∧ Along P ops (w.after store toLowercase op)

/-- A search returns what it would with an empty cache. -/
def Transparent (w : Watched) : CachedOp → Prop
  | .store _ => True
  | .search m queryStr limit => (w.search toLowercase m queryStr limit).2 =
      ((NodeState.searchRecords (m.env toLowercase) queryStr limit).run w.node.cold).2

/-- Where a search finds an answer in the cache, the matching records and their order are as they were
when the answer was made. -/
def AnswerHolds (w : Watched) : CachedOp → Prop
  | .store _ => True
  | .search m queryStr limit => w.cached m queryStr limit ≠ none →
      ∀ db m', w.born (cacheKey queryStr limit) = some (db, m') →
        SameRanking toLowercase queryStr limit db w.node.db m'.now m.now

/-- Each entry is the answer to its query on the tables and at the time it was made. -/
def Recorded (w : Watched) : Prop :=
  ∀ key entry, w.node.searchCache.entries[key]? = some entry →
    ∃ db m, w.born key = some (db, m) ∧ ∀ queryStr limit, key = cacheKey queryStr limit →
      entry.results = rankedResults (m.env toLowercase) db queryStr limit

theorem recorded_start (db : Db) : (start db).Recorded toLowercase := by
  intro key entry hentry
  simp [start, NodeState.new, SearchCache.new] at hentry

theorem Recorded.after {w : Watched} (h : w.Recorded toLowercase) (op : CachedOp) :
    (w.after store toLowercase op).Recorded toLowercase := by
  cases op with
  | store op => exact h
  | search m queryStr limit =>
    unfold Watched.after cached search
    dsimp only
    obtain ⟨results, hfound, hrun⟩ | ⟨hfound, hrun⟩ :=
      searchRecords_run toLowercase m queryStr limit w.node
    · rw [hrun, hfound]
      intro key entry hentry
      exact h key entry (SearchCache.get_entries hentry)
    · dsimp only at hrun
      rw [hrun, hfound]
      intro key entry hentry
      rcases SearchCache.insert_entries hentry with ⟨hkey, rfl⟩ | ⟨hkey, hold⟩
      · refine ⟨w.node.db, m, ?_, fun queryStr' limit' hkey' => ?_⟩
        · rw [← hkey]
          exact Function.update_self _ _ _
        · obtain ⟨rfl, rfl⟩ := cacheKey_inj (hkey.trans hkey')
          rfl
      · obtain ⟨db, m', hborn, hresults⟩ := h key entry (SearchCache.get_entries hold)
        refine ⟨db, m', ?_, hresults⟩
        exact (Function.update_of_ne (Ne.symm hkey) _ _).trans hborn

theorem Recorded.transparent {w : Watched} (h : w.Recorded toLowercase) {op : CachedOp}
    (hop : w.AnswerHolds toLowercase op) : w.Transparent toLowercase op := by
  cases op with
  | store op => trivial
  | search m queryStr limit =>
    unfold Transparent search
    dsimp only
    rw [searchRecords_cold]
    obtain ⟨results, hfound, hrun⟩ | ⟨hfound, hrun⟩ :=
      searchRecords_run toLowercase m queryStr limit w.node
    · obtain ⟨entry, hentry, rfl⟩ := SearchCache.get_results hfound
      obtain ⟨db, m', hborn, hresults⟩ := h _ entry hentry
      have hlive : w.cached m queryStr limit ≠ none := by
        rw [cached, hfound]
        exact Option.some_ne_none _
      rw [hrun, hresults queryStr limit rfl]
      exact rankedResults_of_sameRanking toLowercase (hop hlive db m' hborn)
    · rw [hrun]

theorem Recorded.along {w : Watched} (h : w.Recorded toLowercase) {ops : List CachedOp}
    (hops : Along store toLowercase (AnswerHolds toLowercase) ops w) :
    Along store toLowercase (Transparent toLowercase) ops w := by
  induction ops generalizing w with
  | nil => trivial
  | cons op ops ih =>
    exact ⟨h.transparent toLowercase hops.1, ih (h.after store toLowercase op) hops.2⟩

end Watched

/-- In a run of a node with a cold cache, every search returns what it would with an empty cache, if
none finds an answer that no longer holds. -/
theorem searches_transparent (db : Db) (ops : List CachedOp)
    (hops : Watched.Along store toLowercase (Watched.AnswerHolds toLowercase) ops (.start db)) :
    Watched.Along store toLowercase (Watched.Transparent toLowercase) ops (.start db) :=
  (Watched.recorded_start toLowercase db).along store toLowercase hops

end

/-- The clocks after so many seconds. -/
def secondsIn (seconds : ℕ) : Moment := ⟨0, seconds * NANOS_PER_SEC, .sorted⟩

/-- A search, an insert and the same search a second later. -/
def staleRun : List CachedOp :=
  [.search (secondsIn 0) "" 10, .store (.insert (makeRecord "r1" "src" 1 0)),
    .search (secondsIn 1) "" 10]

theorem inserted_record_not_found :
    ¬ Watched.Along plainStore id (Watched.Transparent id) staleRun (.start .empty) := by
  rintro ⟨-, -, hagain, -⟩
  have hids := congrArg (List.map ContentRecord.id) hagain
  revert hids
  decide +kernel

/-- A search, the same search while its answer lives, an insert, and the search when it does not. -/
def patientRun : List CachedOp :=
  [.search (secondsIn 0) "" 10, .search (secondsIn 1) "" 10,
    .store (.insert (makeRecord "r1" "src" 1 0)), .search (secondsIn 30) "" 10]

theorem searches_transparent_patient :
    Watched.Along plainStore id (Watched.Transparent id) patientRun (.start .empty) := by
  refine searches_transparent plainStore id .empty patientRun ⟨?_, ?_, trivial, ?_, trivial⟩
  · intro hlive
    exact absurd rfl hlive
  · intro _ db m' hborn
    have hsame := Option.some.inj hborn
    obtain ⟨rfl, rfl⟩ := Prod.mk.inj hsame
    exact SameRanking.refl id "" 10 .empty 0
  · intro hlive
    refine absurd ?_ hlive
    decide +kernel

end DSearch
